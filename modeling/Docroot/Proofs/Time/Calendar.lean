import Mathlib.Data.Nat.Digits.Defs
import Docroot.Proofs.Text.Plain

/-!
How long dates are. From the year 0 to 9999 every part of a date has one width, and so have all dates of heads.
-/
namespace Docroot

theorem length_utf8 {text : String} (ascii : ∀ c ∈ text.toList, c.toNat < 128) :
    (utf8 text).length = text.length := by
  have one : ∀ c ∈ text.toList, (String.utf8EncodeChar c).length = 1 := by
    intro c member
    rw [String.length_utf8EncodeChar, Char.utf8Size, if_pos]
    exact Nat.le_of_lt_succ (ascii c member)
  rw [utf8, List.length_flatMap, List.map_congr_left one, List.map_const', List.sum_replicate_nat, Nat.mul_one,
    String.length_toList]

theorem length_padded {width n : Nat} (positive : 0 < width) (small : n < 10 ^ width) :
    (utf8 (padded width n)).length = width := by
  have ascii : ∀ c ∈ (padded width n).toList, c.toNat < 128 := by
    intro c member
    rw [padded, String.toList_append, String.toList_ofList, List.mem_append, Nat.toString_eq_repr,
      Nat.toList_repr] at member
    rcases member with zero | digit
    · rw [List.eq_of_mem_replicate zero]
      decide
    · have isDigit := Nat.isDigit_of_mem_toDigits (by decide) (by decide) digit
      rw [Char.isDigit, Bool.and_eq_true, decide_eq_true_iff, decide_eq_true_iff] at isDigit
      exact Nat.lt_of_le_of_lt (UInt32.le_iff_toNat_le.mp isDigit.2) (by decide)
  have short : (toString n).length ≤ width := Nat.repr_length n width positive small
  rw [length_utf8 ascii, padded, String.length_append, String.length_ofList, List.length_replicate]
  exact Nat.sub_add_cancel short

namespace Date

theorem ofDays_bounds (days : Int) :
    (ofDays days).day < 100 ∧ 0 < (ofDays days).month ∧ (ofDays days).month ≤ 12 := by
  unfold ofDays
  have inCycle : ((days + epochOffset) % 146097).toNat < 146097 := by omega
  generalize ((days + epochOffset) % 146097).toNat = n at inCycle
  dsimp only
  generalize isYear : (n - n / 1460 + n / 36524 - n / 146096) / 365 = year
  have inYear : n - (365 * year + year / 4 - year / 100) ≤ 366 := by omega
  generalize n - (365 * year + year / 4 - year / 100) = m at inYear
  split
  · dsimp only
    omega
  · dsimp only
    omega

theorem weekday_lt (days : Int) : weekday days < 7 := by
  unfold weekday
  omega

end Date

theorem length_getD {texts : List String} {width i : Nat} (all : ∀ text ∈ texts, (utf8 text).length = width)
    (bound : i < texts.length) : (utf8 (texts.getD i "")).length = width := by
  rw [List.getD_eq_getElem?_getD, List.getElem?_eq_getElem bound]
  exact all _ (List.getElem_mem bound)

namespace Timestamp

theorem length_clock (t : Timestamp) : (utf8 t.clock).length = 8 := by
  have inDay : t.inDay < 86400 := by
    unfold Timestamp.inDay
    omega
  have hours : (utf8 (padded 2 (t.inDay / 3600))).length = 2 := length_padded (by decide) (by omega)
  have minutes : (utf8 (padded 2 (t.inDay / 60 % 60))).length = 2 := length_padded (by decide) (by omega)
  have seconds : (utf8 (padded 2 (t.inDay % 60))).length = 2 := length_padded (by decide) (by omega)
  have colon : (utf8 ":").length = 1 := by decide +kernel
  simp only [Timestamp.clock, utf8_append, List.length_append, hours, minutes, seconds, colon]

/-- In a year of four digits the date of a head has 29 octets. -/
theorem length_inHead {t : Timestamp} (early : 0 ≤ (Date.ofDays t.days).year)
    (late : (Date.ofDays t.days).year ≤ 9999) : t.inHead.length = 29 := by
  obtain ⟨inMonth, low, high⟩ := Date.ofDays_bounds t.days
  have weekday : (utf8 (dayNames.getD (Date.weekday t.days) "")).length = 3 :=
    length_getD (by decide +kernel) (Date.weekday_lt t.days)
  have month : (utf8 (monthNames.getD ((Date.ofDays t.days).month - 1) "")).length = 3 :=
    length_getD (by decide +kernel) (by change _ < 12; omega)
  have day : (utf8 (padded 2 (Date.ofDays t.days).day)).length = 2 := length_padded (by decide) inMonth
  have year : (utf8 (yearText (Date.ofDays t.days).year)).length = 4 := by
    rw [yearText, if_neg (Int.not_lt.mpr early), if_neg (Int.not_lt.mpr late)]
    exact length_padded (by decide) (by omega)
  have between : (utf8 ", ").length = 2 ∧ (utf8 " ").length = 1 ∧ (utf8 " GMT").length = 4 := by decide +kernel
  obtain ⟨comma, space, zone⟩ := between
  simp only [inHead, utf8_append, List.length_append, weekday, comma, day, space, month, year, length_clock, zone]

end Timestamp

end Docroot
