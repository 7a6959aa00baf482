import Docroot.Message.MediaType
import Docroot.Text.Decimal
import Docroot.Time.Calendar

/-!
Texts that stay on one line. An octet below 128 stands for the character with its number alone, so a text
without line ends is encoded by octets without line ends.
-/
namespace Docroot

/-- Octets among which there is no line end. -/
def Bytes.Plain (bs : Bytes) : Prop := ∀ b ∈ bs, b ≠ 13 ∧ b ≠ 10

instance (bs : Bytes) : Decidable bs.Plain := inferInstanceAs (Decidable (∀ b ∈ bs, b ≠ 13 ∧ b ≠ 10))

theorem Bytes.Plain.append {a b : Bytes} (ha : a.Plain) (hb : b.Plain) : (a ++ b).Plain := by
  intro octet member
  rcases List.mem_append.mp member with inA | inB
  · exact ha octet inA
  · exact hb octet inB

/-- A literal is a list of characters, so its octets are found without taking the string apart. -/
theorem utf8_ofList (cs : List Char) : utf8 (String.ofList cs) = cs.flatMap String.utf8EncodeChar := by
  rw [utf8, String.toList_ofList]

theorem utf8_append (a b : String) : utf8 (a ++ b) = utf8 a ++ utf8 b := by
  rw [utf8, String.toList_append, List.flatMap_append, utf8, utf8]

/-- An octet of the encoding of a character is the character itself or one of the upper half. -/
theorem mem_utf8EncodeChar {b : UInt8} {c : Char} (member : b ∈ String.utf8EncodeChar c) :
    b.toNat = c.toNat ∨ 128 ≤ b.toNat := by
  change b.toNat = c.val.toNat ∨ 128 ≤ b.toNat
  unfold String.utf8EncodeChar at member
  dsimp only at member
  split at member
  · rw [List.mem_singleton.mp member, UInt8.toNat_ofNat']
    omega
  · right
    split at member
    · simp only [List.mem_cons, List.not_mem_nil, or_false] at member
      rcases member with rfl | rfl <;> rw [UInt8.toNat_ofNat'] <;> omega
    · split at member
      · simp only [List.mem_cons, List.not_mem_nil, or_false] at member
        rcases member with rfl | rfl | rfl <;> rw [UInt8.toNat_ofNat'] <;> omega
      · simp only [List.mem_cons, List.not_mem_nil, or_false] at member
        rcases member with rfl | rfl | rfl | rfl <;> rw [UInt8.toNat_ofNat'] <;> omega

theorem mem_utf8 {b : UInt8} {text : String} (member : b ∈ utf8 text) (ascii : b.toNat < 128) :
    ∃ c ∈ text.toList, c.toNat = b.toNat := by
  obtain ⟨c, inText, encoded⟩ := List.mem_flatMap.mp member
  exact ⟨c, inText, ((mem_utf8EncodeChar encoded).resolve_right (Nat.not_le.mpr ascii)).symm⟩

theorem plain_utf8 {text : String} (oneLine : ∀ c ∈ text.toList, c ≠ '\r' ∧ c ≠ '\n') :
    (utf8 text).Plain := by
  intro b member
  constructor
  · rintro rfl
    obtain ⟨c, inText, same⟩ := mem_utf8 member (by decide)
    exact (oneLine c inText).1 (Char.toNat_inj.mp same)
  · rintro rfl
    obtain ⟨c, inText, same⟩ := mem_utf8 member (by decide)
    exact (oneLine c inText).2 (Char.toNat_inj.mp same)

theorem Decimal.plain_text (n : Nat) : (Decimal.text n).Plain := by
  refine plain_utf8 ?_
  intro c member
  rw [Nat.toString_eq_repr, Nat.toList_repr] at member
  have isDigit := Nat.isDigit_of_mem_toDigits (by decide) (by decide) member
  constructor <;> rintro rfl <;> exact absurd isDigit (by decide)

theorem plain_padded (width n : Nat) : (utf8 (padded width n)).Plain := by
  rw [padded, utf8_append]
  refine Bytes.Plain.append (plain_utf8 fun c member => ?_) (Decimal.plain_text n)
  rw [String.toList_ofList] at member
  rw [List.eq_of_mem_replicate member]
  exact ⟨by decide, by decide⟩

theorem plain_getD {texts : List String} (all : ∀ text ∈ texts, (utf8 text).Plain) (i : Nat) :
    (utf8 (texts.getD i "")).Plain := by
  rw [List.getD_eq_getElem?_getD]
  cases found : texts[i]? with
  | none => exact nofun
  | some text => exact all text (List.mem_of_getElem? found)

namespace Timestamp

theorem plain_yearText (year : Int) : (utf8 (yearText year)).Plain := by
  have signs : (utf8 "-").Plain ∧ (utf8 "+").Plain := by decide +kernel
  unfold yearText
  split
  · rw [utf8_append]
    exact signs.1.append (plain_padded _ _)
  · split
    · rw [utf8_append]
      exact signs.2.append (plain_padded _ _)
    · exact plain_padded _ _

theorem plain_inHead (t : Timestamp) : t.inHead.Plain := by
  have days : ∀ text ∈ dayNames, (utf8 text).Plain := by decide +kernel
  have months : ∀ text ∈ monthNames, (utf8 text).Plain := by decide +kernel
  have day := plain_getD days (Date.weekday t.days)
  have month := plain_getD months ((Date.ofDays t.days).month - 1)
  have between : (utf8 ", ").Plain ∧ (utf8 " ").Plain ∧ (utf8 ":").Plain ∧ (utf8 " GMT").Plain := by
    decide +kernel
  obtain ⟨comma, space, colon, zone⟩ := between
  have clock : (utf8 t.clock).Plain := by
    simp only [Timestamp.clock, utf8_append]
    exact ((((plain_padded _ _).append colon).append (plain_padded _ _)).append colon).append
      (plain_padded _ _)
  simp only [inHead, utf8_append]
  exact ((((((((day.append comma).append (plain_padded _ _)).append space).append month).append
    space).append (plain_yearText _)).append space).append clock).append zone

end Timestamp

theorem MediaType.plain_ofPath (path : Bytes) : (MediaType.ofPath path).Plain := by
  have octetStream : MediaType.octetStream.Plain := by decide +kernel
  unfold ofPath
  cases extension? path with
  | none => exact octetStream
  | some extension =>
      change ((known.lookup extension.lower).getD MediaType.octetStream).Plain
      cases found : known.lookup extension.lower with
      | none => exact octetStream
      | some type =>
          have all : ∀ entry ∈ known, entry.2.Plain := by decide +kernel
          obtain ⟨before, after, isThere, -⟩ := List.lookup_eq_some_iff.mp found
          exact all (_, type) (isThere ▸ List.mem_append_right before List.mem_cons_self)

end Docroot
