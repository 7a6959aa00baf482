import Docroot.Text.Utf8
import Mathlib

/-!
Well-formed UTF-8. An octet below 128 stands between two pieces, whatever comes before and after it, so a
text is well-formed when what stands on both sides of such an octet is. Well-formed octets are the encoding
of what is read from them and need no repair.
-/
namespace Docroot.Utf8

section Encoding

theorem val_ofNat {n : Nat} (valid : n.isValidChar) : (Char.ofNat n).val.toNat = n := by
  unfold Char.ofNat
  rw [dif_pos valid]
  rfl

theorem eq_ofNat {b : UInt8} {n : Nat} (same : n = b.toNat) : UInt8.ofNat n = b := by
  rw [same, UInt8.ofNat_toNat]

theorem continuation_bounds {c : UInt8} (h : isContinuation c = true) : 128 ≤ c.toNat ∧ c.toNat ≤ 191 := by
  simpa [isContinuation, UInt8.le_iff_toNat_le] using h

theorem continuation_of_bounds {c : UInt8} (lower : 128 ≤ c.toNat) (upper : c.toNat ≤ 191) : isContinuation c = true := by
  simpa [isContinuation, UInt8.le_iff_toNat_le] using ⟨lower, upper⟩

theorem second_bounds {b c : UInt8} (h : maySecond b c = true) :
    128 ≤ c.toNat ∧ c.toNat ≤ 191 ∧ (b.toNat = 0xE0 → 0xA0 ≤ c.toNat) ∧ (b.toNat = 0xED → c.toNat ≤ 0x9F) ∧
      (b.toNat = 0xF0 → 0x90 ≤ c.toNat) ∧ (b.toNat = 0xF4 → c.toNat ≤ 0x8F) := by
  simp only [maySecond, secondRange, Bool.and_eq_true, decide_eq_true_eq, UInt8.le_iff_toNat_le,
    ← UInt8.toNat_inj] at h
  simp only [apply_ite Prod.fst, apply_ite Prod.snd, apply_ite UInt8.toNat, UInt8.reduceToNat] at h
  split_ifs at h <;> omega

theorem second_of_bounds {b c : UInt8} (lower : 128 ≤ c.toNat) (upper : c.toNat ≤ 191)
    (long : b.toNat = 0xE0 → 0xA0 ≤ c.toNat) (surrogate : b.toNat = 0xED → c.toNat ≤ 0x9F)
    (long' : b.toNat = 0xF0 → 0x90 ≤ c.toNat) (last : b.toNat = 0xF4 → c.toNat ≤ 0x8F) : maySecond b c = true := by
  simp only [maySecond, secondRange, Bool.and_eq_true, decide_eq_true_eq, UInt8.le_iff_toNat_le,
    ← UInt8.toNat_inj]
  simp only [apply_ite Prod.fst, apply_ite Prod.snd, apply_ite UInt8.toNat, UInt8.reduceToNat]
  split_ifs <;> omega

variable {b c d e : UInt8}

theorem encode_one (first : b.toNat < 0x80) : String.utf8EncodeChar (Char.ofNat b.toNat) = [b] := by
  have valid : b.toNat.isValidChar := .inl (by omega)
  unfold String.utf8EncodeChar
  rw [val_ofNat valid]
  dsimp only
  rw [if_pos (by omega), eq_ofNat rfl]

theorem encode_two (first : 0xC2 ≤ b.toNat ∧ b.toNat ≤ 0xDF) (second : isContinuation c = true) :
    String.utf8EncodeChar (Char.ofNat (b.toNat % 32 * 64 + low c)) = [b, c] := by
  have bounds := continuation_bounds second
  have valid : (b.toNat % 32 * 64 + c.toNat % 64).isValidChar := .inl (by omega)
  unfold String.utf8EncodeChar low
  rw [val_ofNat valid]
  dsimp only
  rw [if_neg (by omega), if_pos (by omega), eq_ofNat (b := b) (by omega), eq_ofNat (b := c) (by omega)]

theorem encode_three (first : 0xE0 ≤ b.toNat ∧ b.toNat ≤ 0xEF) (second : maySecond b c = true)
    (third : isContinuation d = true) :
    String.utf8EncodeChar (Char.ofNat ((b.toNat % 16 * 64 + low c) * 64 + low d)) = [b, c, d] := by
  have between := second_bounds second
  have bounds := continuation_bounds third
  have valid : ((b.toNat % 16 * 64 + c.toNat % 64) * 64 + d.toNat % 64).isValidChar := by
    unfold Nat.isValidChar
    omega
  unfold String.utf8EncodeChar low
  rw [val_ofNat valid]
  dsimp only
  rw [if_neg (by omega), if_neg (by omega), if_pos (by omega), eq_ofNat (b := b) (by omega),
    eq_ofNat (b := c) (by omega), eq_ofNat (b := d) (by omega)]

theorem encode_four (first : 0xF0 ≤ b.toNat ∧ b.toNat ≤ 0xF4) (second : maySecond b c = true)
    (third : isContinuation d = true) (fourth : isContinuation e = true) :
    String.utf8EncodeChar (Char.ofNat (((b.toNat % 8 * 64 + low c) * 64 + low d) * 64 + low e)) =
      [b, c, d, e] := by
  have between := second_bounds second
  have bounds := continuation_bounds third
  have bounds' := continuation_bounds fourth
  have valid : (((b.toNat % 8 * 64 + c.toNat % 64) * 64 + d.toNat % 64) * 64 + e.toNat % 64).isValidChar := by
    unfold Nat.isValidChar
    omega
  unfold String.utf8EncodeChar low
  rw [val_ofNat valid]
  dsimp only
  rw [if_neg (by omega), if_neg (by omega), if_neg (by omega), eq_ofNat (b := b) (by omega),
    eq_ofNat (b := c) (by omega), eq_ofNat (b := d) (by omega), eq_ofNat (b := e) (by omega)]

end Encoding

section Reading

/-- The octets `b :: rest` start with the sequence of a character, and `tail` follows it. -/
inductive Reads (b : UInt8) : (rest : Bytes) → Char → (tail : Bytes) → Prop where
  | one {tail : Bytes} (first : b.toNat < 0x80) : Reads b tail (Char.ofNat b.toNat) tail
  | two {c : UInt8} {tail : Bytes} (first : 0xC2 ≤ b.toNat ∧ b.toNat ≤ 0xDF)
      (second : isContinuation c = true) :
      Reads b (c :: tail) (Char.ofNat (b.toNat % 32 * 64 + low c)) tail
  | three {c d : UInt8} {tail : Bytes} (first : 0xE0 ≤ b.toNat ∧ b.toNat ≤ 0xEF)
      (second : maySecond b c = true) (third : isContinuation d = true) :
      Reads b (c :: d :: tail) (Char.ofNat ((b.toNat % 16 * 64 + low c) * 64 + low d)) tail
  | four {c d e : UInt8} {tail : Bytes} (first : 0xF0 ≤ b.toNat ∧ b.toNat ≤ 0xF4)
      (second : maySecond b c = true) (third : isContinuation d = true) (fourth : isContinuation e = true) :
      Reads b (c :: d :: e :: tail)
        (Char.ofNat (((b.toNat % 8 * 64 + low c) * 64 + low d) * 64 + low e)) tail

variable {b x : UInt8} {rest tail : Bytes} {c : Char}

theorem next_eq_some_iff : next b rest = (some c, tail) ↔ Reads b rest c tail := by
  constructor
  · fun_cases next b rest <;> intro h <;> cases h <;>
      simp only [Bool.and_eq_true, decide_eq_true_eq, UInt8.lt_iff_toNat_lt, UInt8.le_iff_toNat_le,
        UInt8.reduceToNat] at *
    · constructor; assumption
    · constructor <;> assumption
    · constructor <;> assumption
    · constructor <;> assumption
  · intro reads
    unfold next
    simp only [Bool.and_eq_true, decide_eq_true_eq, UInt8.lt_iff_toNat_lt, UInt8.le_iff_toNat_le,
      UInt8.reduceToNat]
    cases reads with
    | one first => rw [if_pos first]
    | two first second =>
        rw [if_neg (by omega), if_pos first]
        exact if_pos second
    | three first second third =>
        rw [if_neg (by omega), if_neg (by omega), if_pos first]
        simp only [if_pos second, if_pos third]
    | four first second third fourth =>
        rw [if_neg (by omega), if_neg (by omega), if_neg (by omega), if_pos first]
        simp only [if_pos second, if_pos third, if_pos fourth]

/-- What is read at the front is the encoding of the character that is read. -/
theorem encode_of_reads (reads : Reads b rest c tail) : String.utf8EncodeChar c ++ tail = b :: rest := by
  cases reads with
  | one first => rw [encode_one first]; rfl
  | two first second => rw [encode_two first second]; rfl
  | three first second third => rw [encode_three first second third]; rfl
  | four first second third fourth => rw [encode_four first second third fourth]; rfl

/-- The encoding of a character is read as that character, whatever follows it. -/
theorem reads_encode (c : Char) (tail : Bytes) :
    ∃ b rest, String.utf8EncodeChar c ++ tail = b :: rest ∧ Reads b rest c tail := by
  have valid : c.val.toNat.isValidChar := c.valid
  have same : ∀ {n : Nat}, n = c.val.toNat → c = Char.ofNat n := by
    rintro n rfl
    exact (Char.ofNat_toNat c).symm
  unfold Nat.isValidChar at valid
  unfold String.utf8EncodeChar
  dsimp only
  generalize c.val.toNat = v at valid same
  split
  · refine ⟨_, _, rfl, ?_⟩
    rw [same (n := (UInt8.ofNat v).toNat) (by rw [UInt8.toNat_ofNat']; omega)]
    refine .one ?_
    rw [UInt8.toNat_ofNat']
    omega
  · split
    · refine ⟨_, _, rfl, ?_⟩
      rw [same (n := (UInt8.ofNat (v / 64 % 32 + 192)).toNat % 32 * 64 + low (UInt8.ofNat (v % 64 + 128)))]
      · refine .two ⟨?_, ?_⟩ (continuation_of_bounds ?_ ?_) <;> rw [UInt8.toNat_ofNat'] <;> omega
      · rw [low, UInt8.toNat_ofNat', UInt8.toNat_ofNat']
        omega
    · split
      · refine ⟨_, _, rfl, ?_⟩
        rw [same (n := ((UInt8.ofNat (v / 4096 % 16 + 224)).toNat % 16 * 64 + low (UInt8.ofNat (v / 64 % 64 + 128))) * 64 +
          low (UInt8.ofNat (v % 64 + 128)))]
        · refine .three ⟨?_, ?_⟩ (second_of_bounds ?_ ?_ ?_ ?_ ?_ ?_) (continuation_of_bounds ?_ ?_) <;>
            simp only [UInt8.toNat_ofNat'] <;> omega
        · simp only [low, UInt8.toNat_ofNat']
          omega
      · refine ⟨_, _, rfl, ?_⟩
        rw [same (n := (((UInt8.ofNat (v / 262144 % 8 + 240)).toNat % 8 * 64 +
          low (UInt8.ofNat (v / 4096 % 64 + 128))) * 64 + low (UInt8.ofNat (v / 64 % 64 + 128))) * 64 +
          low (UInt8.ofNat (v % 64 + 128)))]
        · refine .four ⟨?_, ?_⟩ (second_of_bounds ?_ ?_ ?_ ?_ ?_ ?_) (continuation_of_bounds ?_ ?_)
            (continuation_of_bounds ?_ ?_) <;> simp only [UInt8.toNat_ofNat'] <;> omega
        · simp only [low, UInt8.toNat_ofNat']
          omega

/-- What follows a character makes no difference to it. -/
theorem Reads.append (reads : Reads b rest c tail) (more : Bytes) : Reads b (rest ++ more) c (tail ++ more) := by
  cases reads with
  | one first => exact .one first
  | two first second => exact .two first second
  | three first second third => exact .three first second third
  | four first second third fourth => exact .four first second third fourth

end Reading

/-- Octets that are one sequence of a character after the other. -/
inductive WellFormed : Bytes → Prop where
  | nil : WellFormed []
  | cons {b : UInt8} {rest tail : Bytes} {c : Char} (reads : Reads b rest c tail) (more : WellFormed tail) :
      WellFormed (b :: rest)

theorem scalarsOnto_append (done before : List (Option Char)) (bs : Bytes) :
    scalarsOnto (done ++ before) bs = before.reverse ++ scalarsOnto done bs := by
  fun_induction scalarsOnto done bs with
  | case1 done => rw [scalarsOnto, List.reverse_append]
  | case2 done b rest ih => rw [scalarsOnto, ← List.cons_append, ih]

theorem scalars_nil : scalars [] = [] := by
  rw [scalars, scalarsOnto, List.reverse_nil]

theorem scalars_cons (b : UInt8) (rest : Bytes) :
    scalars (b :: rest) = (next b rest).1 :: scalars (next b rest).2 := by
  rw [scalars, scalarsOnto, ← List.nil_append [(next b rest).1], scalarsOnto_append]
  rfl

theorem not_continuation {x : UInt8} (ascii : x.toNat < 0x80) : isContinuation x = false := by
  rw [Bool.eq_false_iff]
  intro goesOn
  have := continuation_bounds goesOn
  omega

theorem not_second {x : UInt8} (ascii : x.toNat < 0x80) (b : UInt8) : maySecond b x = false := by
  rw [Bool.eq_false_iff]
  intro second
  have := second_bounds second
  omega

/-- Whatever is read at the front is read without the octets from one below 128 on. -/
theorem next_before_ascii {x : UInt8} (ascii : x.toNat < 0x80) (b : UInt8) (rest more : Bytes) :
    next b (rest ++ x :: more) = ((next b rest).1, (next b rest).2 ++ x :: more) := by
  have stop := not_continuation ascii
  have stop' := not_second ascii
  -- A sequence is over after four octets, so it is enough to know three of those that follow the first.
  obtain _ | ⟨c, _ | ⟨d, _ | ⟨e, rest⟩⟩⟩ := rest <;>
    simp only [next, List.nil_append, List.cons_append, stop, stop', Bool.false_eq_true, if_false] <;>
    split_ifs <;> rfl

theorem scalars_ascii_cons {x : UInt8} (ascii : x.toNat < 0x80) (after : Bytes) :
    scalars (x :: after) = some (Char.ofNat x.toNat) :: scalars after := by
  rw [scalars_cons, next_eq_some_iff.mpr (.one ascii)]

/-- What stands before an octet below 128 is read as if it stood alone, and so is what stands behind it. -/
theorem scalars_around_ascii {x : UInt8} (ascii : x.toNat < 0x80) (before after : Bytes) :
    scalars (before ++ x :: after) = scalars before ++ some (Char.ofNat x.toNat) :: scalars after := by
  induction size : before.length using Nat.strongRecOn generalizing before with
  | ind n ih =>
      cases before with
      | nil =>
          rw [List.nil_append, scalars_ascii_cons ascii, scalars_nil]
          rfl
      | cons b before =>
          have shorter := next_length b before
          rw [List.cons_append, scalars_cons, next_before_ascii ascii,
            ih _ (size ▸ Nat.lt_succ_of_le shorter) _ rfl, scalars_cons b before]
          rfl

theorem decodeLossy_nil : decodeLossy [] = [] := by
  rw [decodeLossy, scalars_nil, List.map_nil]

theorem decodeLossy_ascii_cons {x : UInt8} (ascii : x.toNat < 0x80) (after : Bytes) :
    decodeLossy (x :: after) = Char.ofNat x.toNat :: decodeLossy after := by
  rw [decodeLossy, scalars_ascii_cons ascii]
  rfl

theorem decodeLossy_around_ascii {x : UInt8} (ascii : x.toNat < 0x80) (before after : Bytes) :
    decodeLossy (before ++ x :: after) = decodeLossy before ++ decodeLossy (x :: after) := by
  rw [decodeLossy_ascii_cons ascii, decodeLossy, scalars_around_ascii ascii, List.map_append]
  rfl

theorem decodeLossy_encode (cs : List Char) : decodeLossy (encode cs) = cs := by
  induction cs with
  | nil => exact decodeLossy_nil
  | cons c cs ih =>
      obtain ⟨b, rest, spelled, reads⟩ := reads_encode c (encode cs)
      have front : encode (c :: cs) = b :: rest := spelled
      unfold decodeLossy at ih ⊢
      rw [front, scalars_cons, next_eq_some_iff.mpr reads, List.map_cons, ih]
      rfl

theorem encode_injective : Function.Injective encode := Function.LeftInverse.injective decodeLossy_encode

theorem isValid_eq_all (bs : Bytes) : isValid bs = (scalars bs).all Option.isSome := by
  unfold isValid decode?
  dsimp only
  split <;> simp_all

theorem isValid_iff {bs : Bytes} : isValid bs = true ↔ WellFormed bs := by
  rw [isValid_eq_all]
  constructor
  · intro valid
    -- A character takes one to four octets, so the induction is on how many are left.
    induction size : bs.length using Nat.strongRecOn generalizing bs with
    | ind n ih =>
        cases bs with
        | nil => exact .nil
        | cons b rest =>
            rw [scalars_cons, List.all_cons, Bool.and_eq_true, Option.isSome_iff_exists] at valid
            obtain ⟨⟨c, read⟩, others⟩ := valid
            have shorter := next_length b rest
            have reads := next_eq_some_iff.mp (Prod.ext read rfl)
            exact .cons reads (ih _ (size ▸ Nat.lt_succ_of_le shorter) others rfl)
  · intro wellFormed
    induction wellFormed with
    | nil => rw [scalars_nil, List.all_nil]
    | cons reads more ih =>
        rw [scalars_cons, next_eq_some_iff.mpr reads, List.all_cons, ih]
        rfl

theorem repair_of_valid {bs : Bytes} (valid : isValid bs = true) : repair bs = bs := by
  rw [isValid_iff] at valid
  induction valid with
  | nil =>
      rw [repair, decodeLossy, scalars_nil]
      rfl
  | cons reads more ih =>
      have spelled := encode_of_reads reads
      unfold repair decodeLossy encode at ih ⊢
      rw [scalars_cons, next_eq_some_iff.mpr reads, List.map_cons, List.flatMap_cons, ih]
      exact spelled

theorem next_suffix (b : UInt8) (rest : Bytes) : (next b rest).2 <:+ rest := by
  fun_cases next b rest <;> simp [List.suffix_cons_iff]

theorem repair_cons (b : UInt8) (rest : Bytes) :
    repair (b :: rest) = String.utf8EncodeChar ((next b rest).1.getD replacement) ++ repair (next b rest).2 := by
  rw [repair, decodeLossy, scalars_cons]
  rfl

/-- Octets below 128 are kept, and no others come to them. -/
theorem mem_of_mem_repair {x : UInt8} {bs : Bytes} (ascii : x.toNat < 0x80) (member : x ∈ repair bs) : x ∈ bs := by
  induction size : bs.length using Nat.strongRecOn generalizing bs with
  | ind n ih =>
      cases bs with
      | nil =>
          rw [repair, decodeLossy_nil] at member
          exact member
      | cons b rest =>
          have shorter := next_length b rest
          have later : x ∈ repair (next b rest).2 → x ∈ b :: rest := fun inLater =>
            List.mem_cons_of_mem b ((next_suffix b rest).subset (ih _ (size ▸ Nat.lt_succ_of_le shorter) inLater rfl))
          rw [repair_cons] at member
          cases read : (next b rest).1 with
          | some c =>
              have spelled := encode_of_reads (next_eq_some_iff.mp (Prod.ext read rfl))
              rw [read, Option.getD_some] at member
              rcases List.mem_append.mp member with inChar | inLater
              · exact spelled ▸ List.mem_append_left _ inChar
              · exact later inLater
          | none =>
              have sign : ∀ y ∈ String.utf8EncodeChar replacement, 0x80 ≤ y.toNat := by decide +kernel
              rw [read, Option.getD_none] at member
              rcases List.mem_append.mp member with inSign | inLater
              · exact absurd (sign x inSign) (Nat.not_le.mpr ascii)
              · exact later inLater

namespace WellFormed

variable {x : UInt8} {before after : Bytes}

theorem append (first : WellFormed before) (second : WellFormed after) : WellFormed (before ++ after) := by
  induction first with
  | nil => exact second
  | cons reads _ ih => exact .cons (reads.append after) ih

theorem ascii_cons (ascii : x.toNat < 0x80) (more : WellFormed after) : WellFormed (x :: after) :=
  .cons (.one ascii) more

theorem of_ascii {bs : Bytes} (ascii : ∀ b ∈ bs, b.toNat < 0x80) : WellFormed bs := by
  induction bs with
  | nil => exact .nil
  | cons b rest ih =>
      obtain ⟨first, others⟩ := List.forall_mem_cons.mp ascii
      exact (ih others).ascii_cons first

theorem encode (cs : List Char) : WellFormed (encode cs) := by
  induction cs with
  | nil => exact .nil
  | cons c cs ih =>
      obtain ⟨b, rest, spelled, reads⟩ := reads_encode c (Utf8.encode cs)
      have front : Utf8.encode (c :: cs) = b :: rest := spelled
      rw [front]
      exact .cons reads ih

/-- An octet below 128 stands between two pieces of text. -/
theorem around_ascii (ascii : x.toNat < 0x80) (whole : WellFormed (before ++ x :: after)) :
    WellFormed before ∧ WellFormed after := by
  rw [← isValid_iff, isValid_eq_all, scalars_around_ascii ascii, List.all_append, List.all_cons] at whole
  simpa [← isValid_iff, isValid_eq_all] using whole

end WellFormed

/-- Well-formed octets are those that encode some text. -/
theorem wellFormed_iff {bs : Bytes} : WellFormed bs ↔ ∃ cs, bs = encode cs := by
  constructor
  · intro wellFormed
    induction wellFormed with
    | nil => exact ⟨[], rfl⟩
    | @cons _ _ _ c reads _ ih =>
        obtain ⟨cs, rfl⟩ := ih
        exact ⟨c :: cs, (encode_of_reads reads).symm⟩
  · rintro ⟨cs, rfl⟩
    exact .encode cs

end Docroot.Utf8
