import Docroot.Text.Decimal
import Docroot.Proofs.Text.Plain
import Docroot.Proofs.Text.Utf8

/-!
Digits and the numbers they stand for. A bounded reader accepts digits whose number is within its bound, with or
without a plus sign in front, and nothing else.
-/
namespace Docroot.Decimal

/-- Decimal digits, at least one. -/
def IsDigits (cs : List Char) : Prop := cs ≠ [] ∧ ∀ c ∈ cs, c.isDigit = true

-- Without a name the instance that is found runs through every character there is.
instance (cs : List Char) : Decidable (IsDigits cs) :=
  @instDecidableAnd _ _ _ (List.decidableBAll _ cs)

/-- The number that digits stand for. -/
def natural? (cs : List Char) : Option Nat := if IsDigits cs then some (Nat.ofDigitChars 10 cs 0) else none

theorem natural?_eq_some_iff {cs : List Char} {n : Nat} :
    natural? cs = some n ↔ IsDigits cs ∧ Nat.ofDigitChars 10 cs 0 = n := by
  rw [natural?, Option.ite_none_right_eq_some, Option.some.injEq]

theorem isDigits_toString (n : Nat) : IsDigits (toString n).toList := by
  rw [Nat.toString_eq_repr, Nat.toList_repr]
  exact ⟨Nat.toDigits_ne_nil, fun c member => Nat.isDigit_of_mem_toDigits (by decide) (by decide) member⟩

theorem natural?_toString (n : Nat) : natural? (toString n).toList = some n := by
  refine natural?_eq_some_iff.mpr ⟨isDigits_toString n, ?_⟩
  rw [Nat.toString_eq_repr, Nat.toList_repr, Nat.ofDigitChars_ten_toDigits]

section Reading

variable {c : Char} {cs : List Char} {bound n m : Nat}

theorem isDigit_iff : c.isDigit = true ↔ 48 ≤ c.toNat ∧ c.toNat ≤ 57 := by
  simp only [Char.isDigit, Bool.and_eq_true, decide_eq_true_eq, UInt32.le_iff_toNat_le]
  rfl

theorem digit?_eq_some {b : UInt8} {d : Nat} (h : digit? b = some d) :
    48 ≤ b.toNat ∧ b.toNat ≤ 57 ∧ d = b.toNat - 48 := by
  obtain ⟨⟨low, high⟩, same⟩ := Option.ite_none_right_eq_some.mp h
  exact ⟨UInt8.le_iff_toNat_le.mp low, UInt8.le_iff_toNat_le.mp high, (Option.some.inj same).symm⟩

theorem utf8EncodeChar_ascii (ascii : c.toNat < 128) : String.utf8EncodeChar c = [c.toNat.toUInt8] := by
  have small : c.val.toNat ≤ 127 := Nat.le_of_lt_succ ascii
  unfold String.utf8EncodeChar
  dsimp only
  rw [if_pos small]
  rfl

theorem readDigits_digit (isDigit : c.isDigit = true) (bound n : Nat) (rest : Bytes) :
    readDigits bound n (String.utf8EncodeChar c ++ rest) =
      if bound < 10 * n + (c.toNat - 48) then .error .tooLarge
      else readDigits bound (10 * n + (c.toNat - 48)) rest := by
  obtain ⟨low, high⟩ := isDigit_iff.mp isDigit
  have octet : c.toNat.toUInt8.toNat = c.toNat := by
    rw [Nat.toUInt8_eq, UInt8.toNat_ofNat']
    omega
  have digit : digit? c.toNat.toUInt8 = some (c.toNat - 48) := by
    rw [digit?, if_pos, octet]
    rw [UInt8.le_iff_toNat_le, UInt8.le_iff_toNat_le, octet]
    exact ⟨low, high⟩
  rw [utf8EncodeChar_ascii (by omega), List.singleton_append, readDigits, digit, Nat.mul_comm n]

theorem readDigits_other (noDigit : ¬ c.isDigit = true) (bound n : Nat) (rest : Bytes) :
    readDigits bound n (String.utf8EncodeChar c ++ rest) = .error .badDigit := by
  obtain ⟨b, more, octets⟩ := List.exists_cons_of_ne_nil (@String.utf8EncodeChar_ne_nil c)
  have first : b ∈ String.utf8EncodeChar c := octets ▸ List.mem_cons_self
  have other : digit? b = none := by
    refine Option.eq_none_iff_forall_ne_some.mpr ?_
    intro d found
    obtain ⟨low, high, -⟩ := digit?_eq_some found
    rcases mem_utf8EncodeChar first with same | large
    · exact noDigit (isDigit_iff.mpr ⟨same ▸ low, same ▸ high⟩)
    · omega
  rw [octets, List.cons_append, readDigits, other]

theorem le_ofDigitChars (cs : List Char) (n : Nat) : n ≤ Nat.ofDigitChars 10 cs n := by
  induction cs generalizing n with
  | nil => exact Nat.le_of_eq Nat.ofDigitChars_nil.symm
  | cons c cs ih =>
      rw [Nat.ofDigitChars_cons]
      exact Nat.le_trans (by omega) (ih _)

/-- What has been read never shrinks, so a bound is kept to the end or not at all. -/
theorem readDigits_eq_ok_iff (fits : n ≤ bound) :
    readDigits bound n (Utf8.encode cs) = .ok m ↔
      (∀ c ∈ cs, c.isDigit = true) ∧ Nat.ofDigitChars 10 cs n = m ∧ m ≤ bound := by
  induction cs generalizing n with
  | nil =>
      rw [Nat.ofDigitChars_nil]
      constructor
      · intro read
        cases read
        exact ⟨nofun, rfl, fits⟩
      · rintro ⟨-, rfl, -⟩
        rfl
  | cons c cs ih =>
      rw [Utf8.encode, List.flatMap_cons, List.forall_mem_cons, Nat.ofDigitChars_cons]
      by_cases isDigit : c.isDigit = true
      · rw [readDigits_digit isDigit]
        split
        · next tooLarge =>
          refine iff_of_false nofun ?_
          rintro ⟨-, rfl, small⟩
          exact absurd (Nat.le_trans (le_ofDigitChars cs _) small) (Nat.not_le.mpr tooLarge)
        · next small =>
          refine (ih (Nat.not_lt.mp small)).trans ?_
          rw [and_iff_right isDigit]
          rfl
      · rw [readDigits_other isDigit]
        exact iff_of_false nofun fun h => isDigit h.1.1

theorem read_plus (isSome : cs ≠ []) : read bound (Utf8.encode ('+' :: cs)) = readDigits bound 0 (Utf8.encode cs) := by
  have front : Utf8.encode ('+' :: cs) = 43 :: Utf8.encode cs := rfl
  have more : Utf8.encode cs ≠ [] := fun empty => isSome (Utf8.encode_injective empty)
  rw [front, read, if_pos ⟨rfl, more⟩]

theorem read_of_no_plus (noPlus : c ≠ '+' ∨ cs = []) :
    read bound (Utf8.encode (c :: cs)) = readDigits bound 0 (Utf8.encode (c :: cs)) := by
  obtain ⟨b, more, octets⟩ := List.exists_cons_of_ne_nil (@String.utf8EncodeChar_ne_nil c)
  have front : Utf8.encode (c :: cs) = b :: (more ++ Utf8.encode cs) := by
    rw [Utf8.encode, List.flatMap_cons, octets]
    rfl
  rw [front, read, if_neg]
  rintro ⟨rfl, isSome⟩
  have isPlus : c = '+' := by
    have first : 43 ∈ String.utf8EncodeChar c := octets ▸ List.mem_cons_self
    exact Char.toNat_inj.mp ((mem_utf8EncodeChar first).resolve_right (by decide)).symm
  subst isPlus
  obtain ⟨-, rfl⟩ := List.cons.inj octets
  exact isSome (noPlus.resolve_left (fun other => other rfl) ▸ rfl)

/-- A bounded number is digits, with or without a plus sign in front. -/
theorem read_eq_ok_iff :
    read bound (Utf8.encode cs) = .ok m ↔
      ∃ sign ds, cs = sign ++ ds ∧ (sign = [] ∨ sign = ['+']) ∧ natural? ds = some m ∧ m ≤ bound := by
  cases cs with
  | nil =>
      refine iff_of_false nofun ?_
      rintro ⟨sign, ds, empty, -, found, -⟩
      obtain ⟨-, rfl⟩ := List.append_eq_nil_iff.mp empty.symm
      cases found
  | cons c cs =>
      by_cases signed : c = '+' ∧ cs ≠ []
      · obtain ⟨rfl, isSome⟩ := signed
        rw [read_plus isSome, readDigits_eq_ok_iff (Nat.zero_le bound)]
        constructor
        · rintro ⟨all, same, small⟩
          exact ⟨['+'], cs, rfl, .inr rfl, natural?_eq_some_iff.mpr ⟨⟨isSome, all⟩, same⟩, small⟩
        · rintro ⟨sign, ds, parts, rfl | rfl, found, small⟩
          · -- A plus sign is no digit.
            obtain ⟨⟨-, all⟩, -⟩ := natural?_eq_some_iff.mp found
            subst parts
            exact absurd (all '+' List.mem_cons_self) (by decide)
          · obtain ⟨-, rfl⟩ := List.cons.inj parts
            obtain ⟨⟨-, all⟩, same⟩ := natural?_eq_some_iff.mp found
            exact ⟨all, same, small⟩
      · have noPlus : c ≠ '+' ∨ cs = [] := by
          rwa [not_and_or, not_not] at signed
        rw [read_of_no_plus noPlus, readDigits_eq_ok_iff (Nat.zero_le bound)]
        constructor
        · rintro ⟨all, same, small⟩
          exact ⟨[], c :: cs, rfl, .inl rfl, natural?_eq_some_iff.mpr ⟨⟨List.cons_ne_nil _ _, all⟩, same⟩, small⟩
        · rintro ⟨sign, ds, parts, rfl | rfl, found, small⟩
          · obtain ⟨⟨-, all⟩, same⟩ := natural?_eq_some_iff.mp found
            subst parts
            exact ⟨all, same, small⟩
          · obtain ⟨rfl, rfl⟩ := List.cons.inj parts
            obtain ⟨⟨isSome, -⟩, -⟩ := natural?_eq_some_iff.mp found
            exact absurd ⟨rfl, isSome⟩ signed

end Reading

end Docroot.Decimal
