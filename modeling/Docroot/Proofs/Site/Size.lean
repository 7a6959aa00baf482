import Docroot.Site.Size
import Docroot.Proofs.Bytes
import Docroot.Proofs.Text.Decimal
import Mathlib

/-!
What the sizes of a listing tell. A size that is read back is the length itself where it is counted in bytes, and else
the nearest tenth of its unit, so it is off by at most a twentieth of that; and longer files never show a smaller size.
-/
namespace Docroot.Size

section Reading

def unit? : List Char → Option Nat
  | ['B'] => some 1
  | ['K', 'B'] => some kilo
  | ['M', 'B'] => some mega
  | _ => none

/-- A number with or without a decimal point. -/
def number? (cs : List Char) : Option ℚ :=
  match breakAt? ['.'] cs with
  | none => (Decimal.natural? cs).map Nat.cast
  | some (whole, part) => do
    let whole ← Decimal.natural? whole
    let tail ← Decimal.natural? part
    return whole + tail / 10 ^ part.length

/-- The number in a size, and what it is counted in. -/
def shown? (size : Bytes) : Option (ℚ × Nat) := do
  let (number, unit) ← breakAt? [' '] (Utf8.decodeLossy size)
  return (← number? number, ← unit? unit)

/-- The length that a size stands for. -/
def value? (size : Bytes) : Option ℚ := (shown? size).map fun (number, unit) => number * unit

/-- What a length is counted in. -/
def unitOf (len : Nat) : Nat := if len < kilo then 1 else if len < mega then kilo else mega

theorem not_mem_digits {cs : List Char} (isDigits : Decimal.IsDigits cs) {c : Char} (noDigit : c.isDigit = false) :
    c ∉ cs := by
  intro member
  rw [isDigits.2 c member] at noDigit
  cases noDigit

theorem number?_toString (n : Nat) : number? (toString n).toList = some (n : ℚ) := by
  have noPoint : '.' ∉ (toString n).toList := not_mem_digits (Decimal.isDigits_toString n) (by decide)
  have whole : breakAt? ['.'] (toString n).toList = none :=
    breakAt?_eq_none_iff.mpr (indexOf?_eq_none_of_not_mem noPoint _)
  rw [number?, whole]
  dsimp only
  rw [Decimal.natural?_toString, Option.map_some]

theorem number?_tenthsText (n : Nat) : number? (tenthsText n).toList = some ((n : ℚ) / 10) := by
  have noPoint : '.' ∉ (toString (n / 10)).toList := not_mem_digits (Decimal.isDigits_toString _) (by decide)
  have text : (tenthsText n).toList = (toString (n / 10)).toList ++ (['.'] ++ (toString (n % 10)).toList) := by
    rw [tenthsText, String.toList_append, String.toList_append, List.append_assoc]
    rfl
  have broken : breakAt? ['.'] (tenthsText n).toList =
      some ((toString (n / 10)).toList, (toString (n % 10)).toList) := by
    rw [text]
    refine breakAt?_append ?_
    rw [indexOf?_append_of_not_mem noPoint, indexOf?_append_right]
    rfl
  have one : (toString (n % 10)).toList.length = 1 := by
    rw [Nat.toString_eq_repr, Nat.toList_repr, Nat.toDigits_of_lt_base (Nat.mod_lt n (by decide))]
    rfl
  rw [number?, broken]
  dsimp only
  rw [Decimal.natural?_toString, Decimal.natural?_toString, one]
  have parts : (n : ℚ) = 10 * (n / 10 : ℕ) + (n % 10 : ℕ) := by
    exact_mod_cast (Nat.div_add_mod n 10).symm
  simp only [Option.bind_eq_bind, Option.bind_some, Option.pure_def, Option.some.injEq]
  rw [parts]
  ring

theorem shown?_utf8 {number : String} {x : ℚ} (isNumber : number? number.toList = some x)
    (noBlank : ' ' ∉ number.toList) (unit : List Char) {behind : String} {u : Nat}
    (isBehind : behind.toList = ' ' :: unit) (isUnit : unit? unit = some u) :
    shown? (utf8 (number ++ behind)) = some (x, u) := by
  have text : Utf8.decodeLossy (utf8 (number ++ behind)) = number.toList ++ ([' '] ++ unit) := by
    rw [utf8, ← Utf8.encode, Utf8.decodeLossy_encode, String.toList_append, isBehind]
    rfl
  have broken : breakAt? [' '] (number.toList ++ ([' '] ++ unit)) = some (number.toList, unit) := by
    refine breakAt?_append ?_
    rw [indexOf?_append_of_not_mem noBlank, indexOf?_append_right]
    rfl
  simp only [shown?, text, broken, Option.bind_eq_bind, Option.bind_some, isNumber, isUnit, Option.pure_def]

theorem no_blank_toString (n : Nat) : ' ' ∉ (toString n).toList :=
  not_mem_digits (Decimal.isDigits_toString n) (by decide)

theorem no_blank_tenthsText (n : Nat) : ' ' ∉ (tenthsText n).toList := by
  have point : ' ' ∉ ".".toList := by decide
  rw [tenthsText, String.toList_append, String.toList_append, List.mem_append, List.mem_append, not_or, not_or]
  exact ⟨⟨no_blank_toString _, point⟩, no_blank_toString _⟩

theorem shown?_text (len : Nat) :
    shown? (text len) =
      some (if len < kilo then (len : ℚ) else (tenths len (unitOf len) : ℚ) / 10, unitOf len) := by
  unfold text unitOf
  split
  · exact shown?_utf8 (number?_toString _) (no_blank_toString _) ['B'] (by decide) rfl
  · split
    · exact shown?_utf8 (number?_tenthsText _) (no_blank_tenthsText _) ['K', 'B'] (by decide) rfl
    · exact shown?_utf8 (number?_tenthsText _) (no_blank_tenthsText _) ['M', 'B'] (by decide) rfl

end Reading

section Rounding

/-- Of all multiples of `step`, the one with the number `n` is nearest to `x`; where two are equally near, its number is
the even one. -/
structure IsNearestMultiple (step x : ℚ) (n : Nat) : Prop where
  nearest : ∀ m : ℤ, |x - n * step| ≤ |x - m * step|
  even : ∀ m : ℤ, m ≠ n → |x - n * step| = |x - m * step| → Even n

/-- It is enough to be within half a step. -/
theorem isNearestMultiple_of_near {step x : ℚ} {n : Nat} (positive : 0 < step) (near : |x - n * step| ≤ step / 2)
    (tie : |x - n * step| = step / 2 → Even n) : IsNearestMultiple step x n := by
  have away : ∀ m : ℤ, m ≠ n → step / 2 ≤ |x - m * step| := by
    intro m differ
    have apart : (1 : ℚ) ≤ |(n : ℚ) - m| := by
      have whole : (1 : ℤ) ≤ |(n : ℤ) - m| := Int.one_le_abs (sub_ne_zero.mpr differ.symm)
      exact_mod_cast whole
    have between : |((n : ℚ) - m) * step| ≤ |x - m * step| + |x - n * step| := by
      have parts : ((n : ℚ) - m) * step = (x - m * step) - (x - n * step) := by ring
      rw [parts]
      exact abs_sub _ _
    rw [abs_mul, abs_of_pos positive] at between
    have oneStep : step ≤ |(n : ℚ) - m| * step := le_mul_of_one_le_left positive.le apart
    linarith
  refine ⟨?_, ?_⟩
  · intro m
    by_cases same : m = n
    · rw [same, Int.cast_natCast]
    · exact near.trans (away m same)
  · intro m differ equal
    exact tie (le_antisymm near (equal ▸ away m differ))

variable {num num' den k : Nat}

/-- The rounded quotient is within a half, and on a half it is even. -/
theorem nearest_bounds (positive : 0 < den) (num : Nat) :
    2 * num ≤ 2 * (nearest num den * den) + den ∧ 2 * (nearest num den * den) ≤ 2 * num + den ∧
      (2 * num = 2 * (nearest num den * den) + den ∨ 2 * (nearest num den * den) = 2 * num + den →
        Even (nearest num den)) := by
  have parts := Nat.div_add_mod num den
  have small := Nat.mod_lt num positive
  have next : (num / den + 1) * den = num / den * den + den := Nat.succ_mul _ _
  rw [Nat.mul_comm] at parts
  unfold nearest
  dsimp only
  split_ifs with down up even
  · exact ⟨by omega, by omega, fun tie => absurd tie (by omega)⟩
  · rw [next]
    exact ⟨by omega, by omega, fun tie => absurd tie (by omega)⟩
  · exact ⟨by omega, by omega, fun _ => Nat.even_iff.mpr even⟩
  · rw [next]
    exact ⟨by omega, by omega, fun _ => Nat.even_iff.mpr (by omega)⟩

theorem nearest_mul (positive : 0 < den) : nearest (k * den) den = k := by
  rw [nearest, Nat.mul_div_cancel _ positive, Nat.mul_mod_left, if_pos positive]

theorem nearest_mono (positive : 0 < den) (le : num ≤ num') : nearest num den ≤ nearest num' den := by
  by_contra above
  obtain ⟨-, low, tie⟩ := nearest_bounds positive num
  obtain ⟨high, -, tie'⟩ := nearest_bounds positive num'
  -- Both stand half way between two neighbours, which cannot both be even.
  have step : nearest num' den * den + den ≤ nearest num den * den := by
    rw [← Nat.succ_mul]
    exact Nat.mul_le_mul_right den (Nat.not_le.mp above)
  have even := tie (.inr (by omega))
  have even' := tie' (.inl (by omega))
  have next : nearest num den = nearest num' den + 1 := by
    refine Nat.eq_of_mul_eq_mul_right positive ?_
    rw [Nat.succ_mul]
    omega
  rw [next] at even
  exact (Nat.not_even_iff_odd.mpr even'.add_one) even

end Rounding

section Significant

variable {n n' k : Nat}

theorem significant_eq (n : Nat) : significant n = nearest n (2 ^ (n.log2 + 1 - 53)) * 2 ^ (n.log2 + 1 - 53) := by
  rw [significant, Nat.one_shiftLeft]

/-- A power of two that is not too fine for the unit of a number is on the same side of it before and after rounding. -/
theorem significant_le (above : n ≤ 2 ^ k) (coarse : n.log2 + 1 - 53 ≤ k) : significant n ≤ 2 ^ k := by
  have parts : 2 ^ (k - (n.log2 + 1 - 53)) * 2 ^ (n.log2 + 1 - 53) = 2 ^ k := Nat.pow_sub_mul_pow 2 coarse
  rw [significant_eq, ← parts]
  refine Nat.mul_le_mul_right _ ?_
  rw [← parts] at above
  exact (nearest_mono (Nat.two_pow_pos _) above).trans (nearest_mul (Nat.two_pow_pos _)).le

theorem le_significant (below : 2 ^ k ≤ n) (coarse : n.log2 + 1 - 53 ≤ k) : 2 ^ k ≤ significant n := by
  have parts : 2 ^ (k - (n.log2 + 1 - 53)) * 2 ^ (n.log2 + 1 - 53) = 2 ^ k := Nat.pow_sub_mul_pow 2 coarse
  rw [significant_eq, ← parts]
  refine Nat.mul_le_mul_right _ ?_
  rw [← parts] at below
  exact (nearest_mul (Nat.two_pow_pos _)).ge.trans (nearest_mono (Nat.two_pow_pos _) below)

theorem significant_mono (le : n ≤ n') : significant n ≤ significant n' := by
  have logs : n.log2 ≤ n'.log2 := by
    rw [Nat.log2_eq_log_two, Nat.log2_eq_log_two]
    exact Nat.log_mono_right le
  rcases logs.eq_or_lt with same | less
  · rw [significant_eq, significant_eq, same]
    exact Nat.mul_le_mul_right _ (nearest_mono (Nat.two_pow_pos _) le)
  · -- A power of two stands between them, and rounding passes it on neither side.
    have isSome : n' ≠ 0 := by
      rintro rfl
      exact absurd less (Nat.not_lt_zero _)
    have between : n ≤ 2 ^ n'.log2 :=
      (Nat.lt_log2_self).le.trans (Nat.pow_le_pow_right (by decide) less)
    exact (significant_le between (by omega)).trans (le_significant (Nat.log2_self_le isSome) (by omega))

theorem significant_of_exact (exact : n ≤ 2 ^ 53) : significant n = n := by
  rcases exact.eq_or_lt with rfl | less
  · decide
  · have small : n.log2 + 1 - 53 = 0 := by
      have bound : n.log2 < 53 := by
        obtain rfl | isSome := Nat.eq_zero_or_pos n
        · decide
        · exact (Nat.log2_lt isSome.ne').mpr less
      omega
    have whole : nearest (n * 1) 1 = n := nearest_mul Nat.one_pos
    rw [significant_eq, small, Nat.pow_zero, Nat.mul_one]
    rwa [Nat.mul_one] at whole

end Significant

section Tenths

variable {len len' unit : Nat}

theorem tenths_mono (positive : 0 < unit) (le : len ≤ len') : tenths len unit ≤ tenths len' unit :=
  nearest_mono positive (Nat.mul_le_mul_right 10 (significant_mono le))

/-- The tenths that are shown are within half a tenth, and on a half they are even. -/
theorem tenths_near (positive : 0 < unit) (exact : len ≤ 2 ^ 53) :
    |(len : ℚ) / unit - tenths len unit * (1 / 10)| ≤ 1 / 10 / 2 ∧
      (|(len : ℚ) / unit - tenths len unit * (1 / 10)| = 1 / 10 / 2 → Even (tenths len unit)) := by
  have isTenths : tenths len unit = nearest (len * 10) unit := by rw [tenths, significant_of_exact exact]
  obtain ⟨high, low, tie⟩ := nearest_bounds positive (len * 10)
  rw [← isTenths] at high low tie
  have positive : (0 : ℚ) < unit := Nat.cast_pos.mpr positive
  have scaled : (len : ℚ) / unit - tenths len unit * (1 / 10) = (len * 10 - tenths len unit * unit) / (unit * 10) := by
    field_simp
  have high : (2 : ℚ) * (len * 10) ≤ 2 * (tenths len unit * unit) + unit := by exact_mod_cast high
  have low : (2 : ℚ) * (tenths len unit * unit) ≤ 2 * (len * 10) + unit := by exact_mod_cast low
  refine ⟨?_, ?_⟩
  · rw [scaled, abs_div, abs_of_pos (by linarith : (0 : ℚ) < unit * 10), div_le_iff₀ (by linarith), abs_le]
    constructor <;> linarith
  · intro half
    rw [scaled, abs_div, abs_of_pos (by linarith : (0 : ℚ) < unit * 10), div_eq_iff (by linarith)] at half
    refine tie ?_
    rcases abs_cases ((len : ℚ) * 10 - tenths len unit * unit) with ⟨same, -⟩ | ⟨same, -⟩
    · left
      have exactly : (2 : ℚ) * (len * 10) = 2 * (tenths len unit * unit) + unit := by linarith
      exact_mod_cast exactly
    · right
      have exactly : (2 : ℚ) * (tenths len unit * unit) = 2 * (len * 10) + unit := by linarith
      exact_mod_cast exactly

theorem tenths_nearest (positive : 0 < unit) (exact : len ≤ 2 ^ 53) :
    IsNearestMultiple (1 / 10) ((len : ℚ) / unit) (tenths len unit) := by
  obtain ⟨near, tie⟩ := tenths_near positive exact
  exact isNearestMultiple_of_near (by norm_num) near tie

end Tenths

section Told

/-- The length that the size of a length tells. -/
def told (len : Nat) : ℚ := (if len < kilo then (len : ℚ) else (tenths len (unitOf len) : ℚ) / 10) * unitOf len

theorem value?_text (len : Nat) : value? (text len) = some (told len) := by
  rw [value?, shown?_text]
  rfl

variable {len : Nat}

theorem told_of_small (small : len < kilo) : told len = len := by
  rw [told, unitOf, if_pos small, if_pos small, Nat.cast_one, mul_one]

theorem told_of_large (large : kilo ≤ len) : told len = tenths len (unitOf len) / 10 * unitOf len := by
  rw [told, if_neg (Nat.not_lt.mpr large)]

theorem unitOf_pos (len : Nat) : 0 < unitOf len := by
  unfold unitOf
  split_ifs <;> decide

theorem unitOf_kilo (large : kilo ≤ len) (small : len < mega) : unitOf len = kilo := by
  rw [unitOf, if_neg (Nat.not_lt.mpr large), if_pos small]

theorem unitOf_mega (large : mega ≤ len) : unitOf len = mega := by
  have larger : ¬ len < kilo := Nat.not_lt.mpr (le_trans (by decide) large)
  rw [unitOf, if_neg larger, if_neg (Nat.not_lt.mpr large)]

/-- Sizes in tenths are at least one unit. -/
theorem unitOf_le_told (large : kilo ≤ len) : (unitOf len : ℚ) ≤ told len := by
  have ten : 10 ≤ tenths len (unitOf len) := by
    rcases Nat.lt_or_ge len mega with small | larger
    · rw [unitOf_kilo large small]
      exact (by decide : 10 ≤ tenths kilo kilo).trans (tenths_mono (by decide) large)
    · rw [unitOf_mega larger]
      exact (by decide : 10 ≤ tenths mega mega).trans (tenths_mono (by decide) larger)
  have ten : (10 : ℚ) ≤ tenths len (unitOf len) := by exact_mod_cast ten
  have positive : (0 : ℚ) ≤ unitOf len := Nat.cast_nonneg _
  rw [told_of_large large]
  nlinarith

/-- What rounds up in kilobytes reaches the first megabyte and does not pass it. -/
theorem told_le_mega (large : kilo ≤ len) (small : len < mega) : told len ≤ mega := by
  have last : tenths len kilo ≤ 10240 :=
    (tenths_mono (by decide) small.le).trans (by decide : tenths mega kilo ≤ 10240)
  have last : (tenths len kilo : ℚ) ≤ 10240 := by exact_mod_cast last
  have units : (kilo : ℚ) = 1024 ∧ (mega : ℚ) = 1048576 := by norm_num [kilo, mega]
  rw [told_of_large large, unitOf_kilo large small, units.1, units.2]
  linarith

theorem told_mono {len' : Nat} (le : len ≤ len') : told len ≤ told len' := by
  rcases Nat.lt_or_ge len' kilo with small' | large'
  · rw [told_of_small (le.trans_lt small'), told_of_small small']
    exact_mod_cast le
  rcases Nat.lt_or_ge len kilo with small | large
  · have kiloLe : kilo ≤ unitOf len' := by
      rcases Nat.lt_or_ge len' mega with inKilo | inMega
      · exact (unitOf_kilo large' inKilo).ge
      · rw [unitOf_mega inMega]
        decide
    calc told len = len := told_of_small small
      _ ≤ unitOf len' := by exact_mod_cast small.le.trans kiloLe
      _ ≤ told len' := unitOf_le_told large'
  by_cases same : unitOf len = unitOf len'
  · have more : (tenths len (unitOf len') : ℚ) ≤ tenths len' (unitOf len') := by
      exact_mod_cast tenths_mono (unitOf_pos len') le
    rw [told_of_large large, told_of_large large', same]
    gcongr
  · -- Then the longer one is in megabytes and the shorter one is not.
    have inMega : mega ≤ len' := by
      by_contra below
      exact same ((unitOf_kilo large (by omega)).trans (unitOf_kilo large' (by omega)).symm)
    have inKilo : len < mega := by
      by_contra above
      exact same ((unitOf_mega (by omega)).trans (unitOf_mega inMega).symm)
    calc told len ≤ mega := told_le_mega large inKilo
      _ = unitOf len' := by rw [unitOf_mega inMega]
      _ ≤ told len' := unitOf_le_told large'

theorem told_near (exact : len ≤ 2 ^ 53) : |told len - len| ≤ unitOf len / 20 := by
  have positive : (0 : ℚ) < unitOf len := Nat.cast_pos.mpr (unitOf_pos len)
  rcases Nat.lt_or_ge len kilo with small | large
  · rw [told_of_small small, sub_self, abs_zero]
    positivity
  · have scaled : told len - len = -(((len : ℚ) / unitOf len - tenths len (unitOf len) * (1 / 10)) * unitOf len) := by
      rw [told_of_large large]
      field_simp
      ring
    rw [scaled, abs_neg, abs_mul, abs_of_pos positive]
    have near := mul_le_mul_of_nonneg_right (tenths_near (unitOf_pos len) exact).1 positive.le
    linarith

end Told

/-- A longer file never shows a smaller size, not even where one unit ends and the next one begins. A length that a
53-bit number holds exactly is shown as it is in bytes, and else as the nearest tenth of its unit, so what the size
tells is within a twentieth of that. -/
theorem sizes_rounded_in_order :
    (∀ shorter longer, shorter ≤ longer →
      ∃ x y, value? (text shorter) = some x ∧ value? (text longer) = some y ∧ x ≤ y) ∧
    ∀ len ≤ 2 ^ 53, ∃ number, shown? (text len) = some (number, unitOf len) ∧
      (len < kilo → number = len) ∧
      (kilo ≤ len → ∃ n : Nat, number = n * (1 / 10) ∧ IsNearestMultiple (1 / 10) ((len : ℚ) / unitOf len) n) ∧
      ∃ x, value? (text len) = some x ∧ |x - len| ≤ unitOf len / 20 := by
  refine ⟨?_, ?_⟩
  · intro shorter longer le
    exact ⟨told shorter, told longer, value?_text _, value?_text _, told_mono le⟩
  · intro len exact
    refine ⟨_, shown?_text len, fun small => if_pos small, ?_, told len, value?_text len, ?_⟩
    · intro large
      rw [if_neg (Nat.not_lt.mpr large), div_eq_mul_one_div]
      exact ⟨_, rfl, tenths_nearest (unitOf_pos len) exact⟩
    · exact told_near exact

/-- The last length in kilobytes is rounded up to the first one in megabytes, and half a tenth goes down to the even
one. -/
theorem sizes_rounded_at_edges :
    (text 1048575 = utf8 "1024.0 KB" ∧ text 1048576 = utf8 "1.0 MB" ∧
      ∃ x y, value? (text 1048575) = some x ∧ value? (text 1048576) = some y ∧ x ≤ y) ∧
    text 1280 = utf8 "1.2 KB" ∧ ∃ number, shown? (text 1280) = some (number, unitOf 1280) ∧
      ∃ n : Nat, number = n * (1 / 10) ∧ IsNearestMultiple (1 / 10) ((1280 : ℕ) / unitOf 1280) n := by
  have texts : text 1048575 = utf8 "1024.0 KB" ∧ text 1048576 = utf8 "1.0 MB" ∧ text 1280 = utf8 "1.2 KB" := by
    decide +kernel
  obtain ⟨last, first, half⟩ := texts
  obtain ⟨number, isShown, -, rounded, -⟩ := sizes_rounded_in_order.2 1280 (by decide)
  refine ⟨⟨last, first, ?_⟩, half, number, isShown, rounded (by decide)⟩
  exact sizes_rounded_in_order.1 1048575 1048576 (by decide)

end Docroot.Size
