import Docroot.Text.Percent
import Mathlib

/-!
Percent-encoding and decoding. An encoded segment is decoded to itself, and a slash is decoded apart from
what stands before and after it; so the segments of a link are decoded one by one.
-/
namespace Docroot.Percent

theorem decodeOnto_append (done before bs : Bytes) :
    decodeOnto (done ++ before) bs = before.reverse ++ decodeOnto done bs := by
  fun_induction decodeOnto done bs with
  | case1 done => rw [decodeOnto, List.reverse_append]
  | case2 done b => rw [decodeOnto, ← List.cons_append, List.reverse_append]
  | case3 done b c => rw [decodeOnto, ← List.cons_append, ← List.cons_append, List.reverse_append]
  | case4 done h l rest v found ih =>
      rw [decodeOnto, if_pos rfl, found]
      exact ih
  | case5 done h l rest found ih =>
      rw [decodeOnto, if_pos rfl, found]
      exact ih
  | case6 done b h l rest other ih =>
      rw [decodeOnto, if_neg other]
      exact ih

theorem decodeOnto_one (b : UInt8) (bs : Bytes) : decodeOnto [b] bs = b :: decode bs :=
  decodeOnto_append [] [b] bs

theorem decode_escape {h l v : UInt8} (found : octet? h l = some v) (rest : Bytes) :
    decode (37 :: h :: l :: rest) = v :: decode rest := by
  rw [decode, decodeOnto, if_pos rfl, found]
  exact decodeOnto_one v rest

/-- An octet that starts no escape is kept. -/
theorem decode_literal {b : UInt8} {rest : Bytes}
    (plain : b = 37 → ∀ h l more, rest = h :: l :: more → octet? h l = none) :
    decode (b :: rest) = b :: decode rest := by
  match rest with
  | [] => rfl
  | [c] => rfl
  | h :: l :: rest =>
      rw [decode, decodeOnto]
      split
      · next is => rw [plain is h l rest rfl, decodeOnto_one]
      · rw [decodeOnto_one]

theorem octet?_slash_left (l : UInt8) : octet? 47 l = none := rfl

theorem octet?_slash_right (h : UInt8) : octet? h 47 = none := by
  unfold octet?
  split
  · next absent => cases absent
  · rfl

theorem decode_append_slash (a b : Bytes) : decode (a ++ 47 :: b) = decode a ++ 47 :: decode b := by
  induction size : a.length using Nat.strongRecOn generalizing a with
  | ind n ih =>
      cases a with
      | nil => exact decode_literal fun is => absurd is (by decide)
      | cons x a =>
          rw [List.length_cons] at size
          by_cases escape : x = 37 ∧ ∃ h l more v, a = h :: l :: more ∧ octet? h l = some v
          · obtain ⟨rfl, h, l, more, v, rfl, found⟩ := escape
            simp only [List.length_cons] at size
            rw [decode_escape found, List.cons_append, List.cons_append, List.cons_append,
              decode_escape found, ih more.length (by omega) more rfl, List.cons_append]
          · have plain : x = 37 → ∀ h l more, a = h :: l :: more → octet? h l = none := by
              intro is h l more same
              cases found : octet? h l with
              | none => rfl
              | some v => exact absurd ⟨is, h, l, more, v, same, found⟩ escape
            have plain' : x = 37 → ∀ h l more, a ++ 47 :: b = h :: l :: more → octet? h l = none := by
              intro is h l more same
              obtain _ | ⟨y, _ | ⟨z, a⟩⟩ := a <;> cases same
              · exact octet?_slash_left l
              · exact octet?_slash_right h
              · exact plain is h l a rfl
            rw [decode_literal plain, List.cons_append, decode_literal plain',
              ih a.length (by omega) a rfl, List.cons_append]

section Segment

theorem octet?_hexDigits (b : UInt8) : octet? (hexDigit (b / 16)) (hexDigit (b % 16)) = some b := by
  revert b
  decide +kernel

theorem reserved_eq : reserved = [32, 34, 35, 37, 38, 39, 47, 60, 62, 63, 96, 123, 125] := by decide +kernel

/-- An octet of ASCII that neither parts nor ends a target. -/
def Safe (x : UInt8) : Prop := x.toNat < 0x80 ∧ x ≠ 47 ∧ x ≠ 63 ∧ x ≠ 35 ∧ Bytes.isBlank x = false

instance (x : UInt8) : Decidable (Safe x) := inferInstanceAs (Decidable (_ ∧ _))

theorem safe_hexDigit : ∀ digit : UInt8, digit < 16 → Safe (hexDigit digit) := by decide +kernel

theorem digits_small : ∀ b : UInt8, b / 16 < 16 ∧ b % 16 < 16 := by decide +kernel

theorem safe_of_not_escaped {b : UInt8} (kept : isEscaped b = false) : Safe b := by
  rw [isEscaped, reserved_eq] at kept
  revert b
  decide +kernel

theorem safe_encodeSegment {name : Bytes} {x : UInt8} (member : x ∈ encodeSegment name) : Safe x := by
  obtain ⟨b, -, encoded⟩ := List.mem_flatMap.mp member
  unfold encodeOctet at encoded
  split at encoded
  · simp only [List.mem_cons, List.not_mem_nil, or_false] at encoded
    rcases encoded with rfl | rfl | rfl
    · decide
    · exact safe_hexDigit _ (digits_small b).1
    · exact safe_hexDigit _ (digits_small b).2
  · next kept =>
    rw [List.mem_singleton.mp encoded]
    exact safe_of_not_escaped (Bool.not_eq_true _ ▸ kept)

theorem decode_encodeOctet (b : UInt8) (rest : Bytes) : decode (encodeOctet b ++ rest) = b :: decode rest := by
  unfold encodeOctet
  split
  · exact decode_escape (octet?_hexDigits b) rest
  · next kept =>
    have notPercent : b ≠ 37 := by
      rintro rfl
      exact kept (by rw [isEscaped, reserved_eq]; rfl)
    exact decode_literal fun is => absurd is notPercent

theorem decode_encodeSegment (name rest : Bytes) :
    decode (encodeSegment name ++ rest) = name ++ decode rest := by
  induction name with
  | nil => rfl
  | cons b name ih =>
      rw [encodeSegment, List.flatMap_cons, List.append_assoc, decode_encodeOctet]
      exact congrArg (b :: ·) ih

end Segment

end Docroot.Percent
