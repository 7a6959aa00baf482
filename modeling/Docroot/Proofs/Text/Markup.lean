import Docroot.Proofs.Text.Plain
import Docroot.Text.Markup
import Mathlib

/-!
What a reader of a page finds in it: octets for their references, and the anchors with the links they lead
to. Escaped text is read as it was before, holds no tag, and as a value does not end before its quote.
-/
namespace Docroot.Markup

/-- The references, and the octets they stand for. -/
def references : List (Bytes × UInt8) :=
  [(utf8 "&amp;", 38), (utf8 "&lt;", 60), (utf8 "&gt;", 62), (utf8 "&quot;", 34)]

/-- Octets with what stands for a reference in its place. -/
def unescape (bs : Bytes) : Bytes :=
  match bs with
  | [] => []
  | b :: rest =>
    match references.find? fun r => r.1.isPrefixOf (b :: rest) with
    | some (spelling, octet) => octet :: unescape (rest.drop (spelling.length - 1))
    | none => b :: unescape rest
termination_by bs.length

theorem references_eq : references =
    [([38, 97, 109, 112, 59], 38), ([38, 108, 116, 59], 60), ([38, 103, 116, 59], 62),
      ([38, 113, 117, 111, 116, 59], 34)] := by
  decide

theorem unescape_reference {spelling : Bytes} {octet : UInt8} (known : (spelling, octet) ∈ references)
    (rest : Bytes) : unescape (spelling ++ rest) = octet :: unescape rest := by
  rw [references_eq] at known
  simp only [List.mem_cons, Prod.mk.injEq, List.not_mem_nil, or_false] at known
  rcases known with ⟨rfl, rfl⟩ | ⟨rfl, rfl⟩ | ⟨rfl, rfl⟩ | ⟨rfl, rfl⟩ <;>
    rw [List.cons_append, unescape, references_eq] <;> rfl

theorem unescape_cons {b : UInt8} (plain : b ≠ 38) (rest : Bytes) :
    unescape (b :: rest) = b :: unescape rest := by
  have unknown : references.find? (fun r => r.1.isPrefixOf (b :: rest)) = none := by
    rw [references_eq]
    simp [List.isPrefixOf, Ne.symm plain]
  rw [unescape, unknown]

/-- An octet is written as itself or by its reference. -/
def Stands (written : Bytes) (b : UInt8) : Prop := (written = [b] ∧ b ≠ 38) ∨ (written, b) ∈ references

theorem textOctet_stands (b : UInt8) : Stands (textOctet b) b := by
  unfold textOctet
  split
  · next is => exact .inr (by simp [references, is])
  · next plain =>
    split
    · next is => exact .inr (by simp [references, is])
    · split
      · next is => exact .inr (by simp [references, is])
      · exact .inl ⟨rfl, plain⟩

theorem attributeOctet_stands (b : UInt8) : Stands (attributeOctet b) b := by
  unfold attributeOctet
  split
  · next is => exact .inr (by simp [references, is])
  · exact textOctet_stands b

theorem unescape_flatMap {write : UInt8 → Bytes} (stands : ∀ b, Stands (write b) b) (bs rest : Bytes) :
    unescape (bs.flatMap write ++ rest) = bs ++ unescape rest := by
  induction bs with
  | nil => rfl
  | cons b bs ih =>
      rw [List.flatMap_cons, List.append_assoc]
      rcases stands b with ⟨same, plain⟩ | known
      · rw [same, List.singleton_append, unescape_cons plain, ih, List.cons_append]
      · rw [unescape_reference known, ih, List.cons_append]

/-- What is written as a reference cannot be found in what is written. -/
theorem Stands.not_mem {written : Bytes} {b x : UInt8} (stands : Stands written b)
    (avoided : x ∈ [60, 62, 34]) (referred : x = b → written ≠ [b]) : x ∉ written := by
  intro member
  rcases stands with ⟨same, -⟩ | known
  · rw [same, List.mem_singleton] at member
    exact referred member same
  · have spelled : ∀ r ∈ references, ∀ x ∈ [60, 62, 34], x ∉ r.1 := by
      rw [references_eq]
      simp
    exact spelled (written, b) known x avoided member

theorem not_mem_flatMap {write : UInt8 → Bytes} (stands : ∀ b, Stands (write b) b) {x : UInt8}
    (avoided : x ∈ [60, 62, 34]) (referred : write x ≠ [x]) (bs : Bytes) : x ∉ bs.flatMap write := by
  intro member
  obtain ⟨b, -, written⟩ := List.mem_flatMap.mp member
  refine (stands b).not_mem avoided ?_ written
  rintro rfl
  exact referred

/-- Octets among which no tag opens or ends. -/
def TagFree (bs : Bytes) : Prop := ∀ b ∈ bs, b ≠ 60 ∧ b ≠ 62

instance (bs : Bytes) : Decidable (TagFree bs) := List.decidableBAll (fun b => b ≠ 60 ∧ b ≠ 62) bs

namespace TagFree

variable {bs bs' : Bytes}

theorem append (first : TagFree bs) (second : TagFree bs') : TagFree (bs ++ bs') := by
  intro b member
  exact (List.mem_append.mp member).elim (first b) (second b)

theorem no_start (free : TagFree bs) : 60 ∉ bs := fun member => (free 60 member).1 rfl

theorem no_end (free : TagFree bs) : 62 ∉ bs := fun member => (free 62 member).2 rfl

theorem of_not_mem (noStart : 60 ∉ bs) (noEnd : 62 ∉ bs) : TagFree bs :=
  fun _ member => ⟨fun is => noStart (is ▸ member), fun is => noEnd (is ▸ member)⟩

end TagFree

/-- Octets that stand for themselves in a page and in a value. -/
def Unmarked (bs : Bytes) : Prop := ∀ b ∈ bs, b ∉ [34, 38, 60, 62]

instance (bs : Bytes) : Decidable (Unmarked bs) := List.decidableBAll (fun b => b ∉ [34, 38, 60, 62]) bs

namespace Unmarked

variable {bs bs' : Bytes}

theorem append (first : Unmarked bs) (second : Unmarked bs') : Unmarked (bs ++ bs') := by
  intro b member
  exact (List.mem_append.mp member).elim (first b) (second b)

theorem tagFree (plain : Unmarked bs) : TagFree bs :=
  .of_not_mem (fun member => plain 60 member (by decide)) fun member => plain 62 member (by decide)

theorem no_quote (plain : Unmarked bs) : 34 ∉ bs := fun member => plain 34 member (by decide)

theorem unescape_append (plain : Unmarked bs) (rest : Bytes) : unescape (bs ++ rest) = bs ++ unescape rest := by
  induction bs with
  | nil => rfl
  | cons b bs ih =>
      obtain ⟨first, others⟩ := List.forall_mem_cons.mp plain
      have noReference : b ≠ 38 := fun is => first (by simp [is])
      rw [List.cons_append, unescape_cons noReference, ih others, List.cons_append]

theorem unescape (plain : Unmarked bs) : unescape bs = bs := by
  have read := plain.unescape_append []
  rwa [Markup.unescape, List.append_nil] at read

end Unmarked

theorem tagFree_escapeText (bs : Bytes) : TagFree (escapeText bs) :=
  .of_not_mem (not_mem_flatMap textOctet_stands (by decide) (by decide) bs)
    (not_mem_flatMap textOctet_stands (by decide) (by decide) bs)

theorem tagFree_escapeAttribute (bs : Bytes) : TagFree (escapeAttribute bs) :=
  .of_not_mem (not_mem_flatMap attributeOctet_stands (by decide) (by decide) bs)
    (not_mem_flatMap attributeOctet_stands (by decide) (by decide) bs)

theorem no_quote_escapeAttribute (bs : Bytes) : 34 ∉ escapeAttribute bs :=
  not_mem_flatMap attributeOctet_stands (by decide) (by decide) bs

theorem unescape_escapeAttribute (bs : Bytes) : unescape (escapeAttribute bs) = bs := by
  have read := unescape_flatMap attributeOctet_stands bs []
  rwa [unescape, List.append_nil, List.append_nil] at read

theorem unescape_escapeText (bs : Bytes) : unescape (escapeText bs) = bs := by
  have read := unescape_flatMap textOctet_stands bs []
  rwa [unescape, List.append_nil, List.append_nil] at read

/-- How a tag opens that holds a link. -/
def linkTag : Bytes := utf8 "<a href=\""

/-- Where the anchor at the front of a text leads, and what it is shown by. -/
def anchor? (bs : Bytes) : Option (Bytes × Bytes) :=
  if linkTag.isPrefixOf bs then
    let behind := bs.drop linkTag.length
    let content := ((behind.dropWhile (· != 34)).dropWhile (· != 62)).drop 1
    some (unescape (behind.takeWhile (· != 34)), unescape (content.takeWhile (· != 60)))
  else none

/-- The anchors of a page from its front to its end. -/
def anchors : Bytes → List (Bytes × Bytes)
  | [] => []
  | b :: rest => (anchor? (b :: rest)).toList ++ anchors rest

/-- No tag with a link opens in these octets, nor starts to at their end. -/
def calm : Bytes → Bool
  | [] => true
  | [b] => b != 60
  | b :: c :: rest => (b != 60 || c != 97) && calm (c :: rest)

theorem linkTag_eq : linkTag = [60, 97, 32, 104, 114, 101, 102, 61, 34] := by decide

theorem anchor?_none {b : UInt8} (rest : Bytes) (quiet : b ≠ 60 ∨ ∃ c more, rest = c :: more ∧ c ≠ 97) :
    anchor? (b :: rest) = none := by
  unfold anchor?
  rw [linkTag_eq]
  refine if_neg ?_
  rcases quiet with other | ⟨c, more, rfl, other⟩ <;> simp [List.isPrefixOf, Ne.symm other]

theorem anchors_calm {a : Bytes} (isCalm : calm a = true) (rest : Bytes) :
    anchors (a ++ rest) = anchors rest := by
  fun_induction calm a with
  | case1 => rfl
  | case2 b =>
      have none := anchor?_none (b := b) rest (.inl (bne_iff_ne.mp isCalm))
      rw [List.singleton_append, anchors, none]
      rfl
  | case3 b c more ih =>
      rw [Bool.and_eq_true, Bool.or_eq_true, bne_iff_ne, bne_iff_ne] at isCalm
      have none := anchor?_none (b := b) (c :: more ++ rest)
        (isCalm.1.imp_right fun other => ⟨c, more ++ rest, rfl, other⟩)
      rw [List.cons_append, anchors, none]
      exact ih isCalm.2

theorem calm_append {a b : Bytes} (first : calm a = true) (second : calm b = true) : calm (a ++ b) = true := by
  fun_induction calm a with
  | case1 => exact second
  | case2 x =>
      cases b with
      | nil => exact first
      | cons y b =>
          rw [List.singleton_append, calm, first, second]
          rfl
  | case3 x y more ih =>
      rw [Bool.and_eq_true] at first
      rw [List.cons_append, List.cons_append, calm, first.1]
      exact ih first.2

theorem calm_of_not_mem {a : Bytes} (absent : 60 ∉ a) : calm a = true := by
  fun_induction calm a with
  | case1 => rfl
  | case2 b => exact bne_iff_ne.mpr fun is => absent (is ▸ List.mem_cons_self)
  | case3 b c more ih =>
      have first : b ≠ 60 := fun is => absent (is ▸ List.mem_cons_self)
      rw [bne_iff_ne.mpr first, ih (mt (List.mem_cons_of_mem b) absent)]
      rfl

theorem anchor?_linkTag {value shown : Bytes} (quoted : 34 ∉ value) (noTag : 60 ∉ shown) (rest : Bytes) :
    anchor? (linkTag ++ (value ++ (34 :: 62 :: (shown ++ 60 :: rest)))) =
      some (unescape value, unescape shown) := by
  have inValue : ∀ b ∈ value, (b != 34) = true := fun b member =>
    bne_iff_ne.mpr fun is => quoted (is ▸ member)
  have inShown : ∀ b ∈ shown, (b != 60) = true := fun b member =>
    bne_iff_ne.mpr fun is => noTag (is ▸ member)
  unfold anchor?
  rw [if_pos (List.isPrefixOf_iff_prefix.mpr (List.prefix_append _ _)), List.drop_left]
  dsimp only
  rw [List.takeWhile_append_of_pos inValue, List.dropWhile_append_of_pos inValue]
  simp [List.takeWhile_append_of_pos inShown]

/-- An anchor with an escaped link and a text without tags is read as it was written. -/
theorem anchors_anchor {shown : Bytes} (noTag : 60 ∉ shown) (link rest : Bytes) :
    anchors (linkTag ++ (escapeAttribute link ++ (34 :: 62 :: (shown ++ 60 :: rest)))) =
      (link, unescape shown) :: anchors (60 :: rest) := by
  have found := anchor?_linkTag (no_quote_escapeAttribute link) noTag rest
  have others : 60 ∉ [97, 32, 104, 114, 101, 102, 61, 34] ++ (escapeAttribute link ++ (34 :: 62 :: shown)) := by
    simp [noTag, (tagFree_escapeAttribute link).no_start]
  have past := anchors_calm (calm_of_not_mem others) (60 :: rest)
  simp only [List.append_assoc, List.cons_append] at past
  rw [linkTag_eq] at found ⊢
  rw [List.cons_append] at found
  rw [List.cons_append, anchors, found, unescape_escapeAttribute]
  exact congrArg (_ :: ·) past

end Docroot.Markup
