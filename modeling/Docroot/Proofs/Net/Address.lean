import Docroot.Net.Address
import Docroot.Proofs.Bytes
import Mathlib

/-!
Address literals. What is read as an address holds hexadecimal digits, points and colons only. The text of every
address is read as that address again, whether it is written with four numbers, with eight groups, with a run of zero
groups left out, or with four numbers at its end.
-/
namespace Docroot.IpAddress

section Numbers

variable {base width n : Nat} {digits rest : List Char}

/-- The text does not begin with a digit. -/
def Stops (base : Nat) (rest : List Char) : Prop := ∀ c ∈ rest.head?, isDigitIn base c = false

theorem digits_apart (all : ∀ c ∈ digits, isDigitIn base c = true) (stops : Stops base rest) :
    (digits ++ rest).takeWhile (isDigitIn base) = digits ∧ (digits ++ rest).dropWhile (isDigitIn base) = rest := by
  rw [List.takeWhile_append_of_pos all, List.dropWhile_append_of_pos all, dropWhile_of_head stops]
  refine ⟨?_, rfl⟩
  cases rest with
  | nil => exact List.append_nil _
  | cons c rest => rw [List.takeWhile_cons_of_neg (by simp [stops c rfl]), List.append_nil]

theorem digitValue?_digitChar : ∀ d < 16, digitValue? d.digitChar = some d := by decide

theorem isDigitIn_digitChar {d : Nat} (small : d < base) (hexadecimal : base ≤ 16) :
    isDigitIn base d.digitChar = true := by
  rw [isDigitIn, digitValue?_digitChar d (small.trans_le hexadecimal)]
  exact decide_eq_true small

theorem isDigitIn_toDigits (several : 1 < base) (hexadecimal : base ≤ 16) (n : Nat) :
    ∀ c ∈ Nat.toDigits base n, isDigitIn base c = true := by
  induction n using Nat.strongRecOn with
  | ind n ih =>
      rw [Nat.toDigits_eq_if several]
      split
      · next small =>
        intro c member
        rw [List.mem_singleton.mp member]
        exact isDigitIn_digitChar small hexadecimal
      · next large =>
        intro c member
        rcases List.mem_append.mp member with front | last
        · exact ih (n / base) (Nat.div_lt_self (by omega) several) c front
        · rw [List.mem_singleton.mp last]
          exact isDigitIn_digitChar (Nat.mod_lt n (by omega)) hexadecimal

theorem valueIn_toDigits (several : 1 < base) (hexadecimal : base ≤ 16) (n : Nat) :
    valueIn base (Nat.toDigits base n) = n := by
  induction n using Nat.strongRecOn with
  | ind n ih =>
      rw [Nat.toDigits_eq_if several]
      split
      · next small =>
        rw [valueIn, List.foldl_cons, List.foldl_nil, digitValue?_digitChar n (by omega), Option.getD_some,
          Nat.zero_mul, Nat.zero_add]
      · next large =>
        have front := ih (n / base) (Nat.div_lt_self (by omega) several)
        rw [valueIn] at front
        rw [valueIn, List.foldl_append, front, List.foldl_cons, List.foldl_nil,
          digitValue?_digitChar _ ((Nat.mod_lt n (by omega)).trans_le hexadecimal), Option.getD_some, Nat.div_add_mod']

/-- Digits that are written are read as the number they were written for. -/
theorem number?_toDigits (several : 1 < base) (hexadecimal : base ≤ 16) (positive : 0 < width)
    (short : n < base ^ width) (stops : Stops base rest) :
    number? base width (Nat.toDigits base n ++ rest) = some (n, rest) := by
  obtain ⟨taken, left⟩ := digits_apart (isDigitIn_toDigits several hexadecimal n) stops
  have fits : (Nat.toDigits base n).length ≤ width := (Nat.length_toDigits_le_iff several positive).mpr short
  rw [number?, taken, left, if_neg, valueIn_toDigits several hexadecimal]
  rw [List.isEmpty_iff, not_or, Nat.not_lt]
  exact ⟨Nat.toDigits_ne_nil, fits⟩

/-- Only the number zero is written with a zero in front. -/
theorem eq_zero_of_head?_toDigits (several : 1 < base) (hexadecimal : base ≤ 16)
    (front : (Nat.toDigits base n).head? = some '0') : n = 0 := by
  have zero : ∀ d < 16, d.digitChar = '0' → d = 0 := by decide
  induction n using Nat.strongRecOn with
  | ind n ih =>
      rw [Nat.toDigits_eq_if several] at front
      split at front
      · next small => exact zero n (by omega) (Option.some.inj front)
      · next large =>
        rw [List.head?_append_of_ne_nil _ Nat.toDigits_ne_nil] at front
        have quotient := ih (n / base) (Nat.div_lt_self (by omega) several) front
        exact absurd ((Nat.div_eq_zero_iff_lt (by omega)).mp quotient) large

end Numbers

section Dotted

variable {a b c d : UInt8} {digits rest : List Char}

def octetText (a : UInt8) : List Char := Nat.toDigits 10 a.toNat

theorem octet?_octetText (stops : Stops 10 rest) : octet? (octetText a ++ rest) = some (a, rest) := by
  have small : a.toNat < 256 := a.toNat_lt
  have isNumber : number? 10 3 (octetText a ++ rest) = some (a.toNat, rest) :=
    number?_toDigits (by decide) (by decide) (by decide) (small.trans (by decide)) stops
  obtain ⟨taken, -⟩ := digits_apart (isDigitIn_toDigits (by decide) (by decide) a.toNat) stops
  rw [octet?, isNumber]
  dsimp only
  rw [octetText, taken, if_neg, Nat.toUInt8_eq, UInt8.ofNat_toNat]
  rintro (large | ⟨front, long⟩)
  · omega
  · rw [List.head?_append_of_ne_nil _ Nat.toDigits_ne_nil] at front
    rw [eq_zero_of_head?_toDigits (by decide) (by decide) front] at long
    exact absurd long (by decide)

theorem stops_cons {base : Nat} {c : Char} (other : isDigitIn base c = false) (rest : List Char) :
    Stops base (c :: rest) := by
  rintro _ ⟨⟩
  exact other

theorem after?_cons (c : Char) (rest : List Char) : after? c (c :: rest) = some rest := if_pos rfl

theorem dottedText_toList :
    (dottedText a b c d).toList =
      octetText a ++ '.' :: (octetText b ++ '.' :: (octetText c ++ '.' :: octetText d)) := by
  simp only [dottedText, octetText, String.toList_append, Nat.toString_eq_repr, Nat.toList_repr, List.append_assoc]
  rfl

theorem dotted?_dottedText : dotted? (dottedText a b c d).toList = some ((a, b, c, d), []) := by
  have point : ∀ rest, Stops 10 ('.' :: rest) := stops_cons (by decide)
  have last : octet? (octetText d) = some (d, []) := by
    have atEnd : octet? (octetText d ++ []) = some (d, []) := octet?_octetText nofun
    rwa [List.append_nil] at atEnd
  rw [dottedText_toList]
  simp only [dotted?, octet?_octetText (point _), after?_cons, last, Option.bind_eq_bind, Option.bind_some,
    Option.pure_def]

theorem v4?_of_not_dotted {text : List Char} (notDotted : dotted? text = none) : v4? text = none := by
  rw [v4?, notDotted]

theorem v4?_dottedText : v4? (dottedText a b c d).toList = some (.v4 a b c d) := by
  rw [v4?, dotted?_dottedText]

/-- Behind the digits at its front, a text in which a colon comes before any point does not go on with a point. -/
theorem head?_behind_digits (noPoint : '.' ∉ digits) (behind : ∀ c ∈ rest.head?, c = ':') :
    ((digits ++ rest).dropWhile (isDigitIn 10)).head? ≠ some '.' := by
  induction digits with
  | nil =>
      have stops : Stops 10 rest := fun c member => (behind c member).symm ▸ by decide
      rw [List.nil_append, dropWhile_of_head stops]
      exact fun isPoint => absurd (behind _ isPoint) (by decide)
  | cons c digits ih =>
      obtain ⟨first, others⟩ := not_or.mp (mt List.mem_cons.mpr noPoint)
      rw [List.cons_append]
      by_cases isDigit : isDigitIn 10 c = true
      · rw [List.dropWhile_cons_of_pos isDigit]
        exact ih others
      · rw [List.dropWhile_cons_of_neg isDigit]
        exact fun isPoint => first (Option.some.inj isPoint).symm

theorem number?_some {base width n : Nat} {text left : List Char} (h : number? base width text = some (n, left)) :
    left = text.dropWhile (isDigitIn base) := by
  obtain ⟨-, found⟩ := Option.ite_none_left_eq_some.mp h
  exact (Prod.mk.inj (Option.some.inj found)).2.symm

theorem octet?_some {text left : List Char} (h : octet? text = some (a, left)) :
    left = text.dropWhile (isDigitIn 10) := by
  unfold octet? at h
  split at h
  · next n behind isNumber =>
    obtain ⟨-, found⟩ := Option.ite_none_left_eq_some.mp h
    rw [← (Prod.mk.inj (Option.some.inj found)).2]
    exact number?_some isNumber
  · cases h

theorem dotted?_eq_none (noPoint : '.' ∉ digits) (behind : ∀ c ∈ rest.head?, c = ':') :
    dotted? (digits ++ rest) = none := by
  rw [dotted?]
  cases first : octet? (digits ++ rest) with
  | none => rfl
  | some found =>
      obtain ⟨a, left⟩ := found
      have isNext := head?_behind_digits noPoint behind
      rw [← octet?_some first] at isNext
      have noMore : after? '.' left = none := by
        cases left with
        | nil => rfl
        | cons c left => exact if_neg fun same : c = '.' => isNext (same ▸ rfl)
      simp only [Option.bind_eq_bind, Option.bind_some, noMore, Option.bind_none]

theorem dotted?_of_colon (behind : ∀ c ∈ rest.head?, c = ':') : dotted? rest = none := by
  rw [← List.nil_append rest]
  exact dotted?_eq_none List.not_mem_nil behind

end Dotted

section Groups

variable {digits rest : List Char} {first : Bool} {limit : Nat} {gs : List UInt16}

def groupText (g : UInt16) : List Char := Nat.toDigits 16 g.toNat

/-- Groups with a colon in front of each. -/
def colonText (gs : List UInt16) : List Char := gs.flatMap fun g => ':' :: groupText g

theorem groupsText_cons (g : UInt16) (gs : List UInt16) :
    (groupsText (g :: gs)).toList = groupText g ++ colonText gs := by
  rw [groupsText, String.toList_intercalate, List.map_map]
  induction gs generalizing g with
  | nil =>
      rw [List.map_cons, List.map_nil, List.intercalate_singleton, Function.comp_apply, String.toList_ofList]
      exact (List.append_nil _).symm
  | cons next gs ih =>
      have later := ih next
      rw [List.map_cons] at later
      rw [List.map_cons, List.map_cons, List.intercalate_cons_cons, later, Function.comp_apply, String.toList_ofList]
      exact List.append_assoc _ _ _

/-- What may stand behind groups that are all read: nothing, or the sign for groups that are left out. -/
def EndsGroups (rest : List Char) : Prop := rest = [] ∨ ∃ more, rest = ':' :: ':' :: more

theorem hexadecimal_groupText (g : UInt16) : ∀ c ∈ groupText g, isDigitIn 16 c = true :=
  isDigitIn_toDigits (by decide) (by decide) g.toNat

theorem no_point_in_digits (all : ∀ c ∈ digits, isDigitIn 16 c = true) : '.' ∉ digits :=
  fun member => absurd (all '.' member) (by decide)

theorem number?_groupText (g : UInt16) (behind : ∀ c ∈ rest.head?, c = ':') :
    number? 16 4 (groupText g ++ rest) = some (g.toNat, rest) := by
  have small : g.toNat < 16 ^ 4 := g.toNat_lt
  exact number?_toDigits (by decide) (by decide) (by decide) small fun c member => (behind c member).symm ▸ by decide

/-- Without digits in front there is neither a group nor four numbers. -/
theorem number?_eq_none (behind : ∀ c ∈ rest.head?, c = ':') : number? 16 4 rest = none := by
  cases rest with
  | nil => rfl
  | cons c rest =>
      obtain rfl := behind c rfl
      rfl

section Step

variable {text front : List Char}

/-- Where a group can begin: at the front of the first one, and behind a colon for the others. -/
def opening (first : Bool) (text : List Char) : Option (List Char) := if first then some text else after? ':' text

theorem opened_first (text : List Char) : opening true text = some text := rfl

theorem groups_of_not_opened (closed : opening first text = none) :
    groups first (limit + 1) text = ([], false, text) := by
  rw [opening] at closed
  rw [groups, closed]

theorem groups_of_no_group (opened : opening first text = some front) (notDotted : dotted? front = none)
    (noNumber : number? 16 4 front = none) : groups first (limit + 1) text = ([], false, text) := by
  rw [opening] at opened
  simp only [groups, opened, notDotted, noNumber, ite_self]

theorem groups_of_group {n : Nat} (opened : opening first text = some front) (notDotted : dotted? front = none)
    (isNumber : number? 16 4 front = some (n, rest)) :
    groups first (limit + 1) text =
      (n.toUInt16 :: (groups false limit rest).1, (groups false limit rest).2.1, (groups false limit rest).2.2) := by
  rw [opening] at opened
  simp only [groups, opened, notDotted, isNumber, ite_self]

theorem groups_of_dotted {a b c d : UInt8} (opened : opening first text = some front)
    (isDotted : dotted? front = some ((a, b, c, d), rest)) :
    groups first (limit + 2) text = ([pair a b, pair c d], true, rest) := by
  rw [opening] at opened
  simp only [groups, opened, isDotted, Nat.succ_ne_zero, if_false]

end Step

theorem groups_of_ends (ends : EndsGroups rest) : groups first limit rest = ([], false, rest) := by
  cases limit with
  | zero => rfl
  | succ limit =>
      have nothing : ∀ front : List Char, (∀ c ∈ front.head?, c = ':') →
          dotted? front = none ∧ number? 16 4 front = none :=
        fun front behind => ⟨dotted?_of_colon behind, number?_eq_none behind⟩
      rcases ends with rfl | ⟨more, rfl⟩
      · cases first with
        | true => exact groups_of_no_group rfl (nothing [] nofun).1 (nothing [] nofun).2
        | false => exact groups_of_not_opened rfl
      · have colon : ∀ more : List Char, ∀ c ∈ (':' :: more).head?, c = ':' := by
          rintro more _ ⟨⟩
          rfl
        cases first with
        | true => exact groups_of_no_group rfl (nothing _ (colon _)).1 (nothing _ (colon _)).2
        | false => exact groups_of_no_group (after?_cons ':' _) (nothing _ (colon _)).1 (nothing _ (colon _)).2

theorem behind_colonText (gs : List UInt16) (ends : EndsGroups rest) : ∀ c ∈ (colonText gs ++ rest).head?, c = ':' := by
  cases gs with
  | nil =>
      rcases ends with rfl | ⟨more, rfl⟩
      · nofun
      · rintro _ ⟨⟩
        rfl
  | cons g gs =>
      rintro _ ⟨⟩
      rfl

/-- Groups that are written are read, up to what ends them. -/
theorem groups_text (fits : gs.length ≤ limit) (ends : EndsGroups rest) :
    groups first limit ((if first then (groupsText gs).toList else colonText gs) ++ rest) = (gs, false, rest) := by
  induction gs generalizing first limit with
  | nil =>
      have nothing : (if first then (groupsText []).toList else colonText []) = [] := by cases first <;> rfl
      rw [nothing, List.nil_append, groups_of_ends ends]
  | cons g gs ih =>
      obtain ⟨limit, rfl⟩ : ∃ k, limit = k + 1 := Nat.exists_eq_add_one.mpr (Nat.zero_lt_of_lt fits)
      have later : groups false limit (colonText gs ++ rest) = (gs, false, rest) := ih (Nat.le_of_succ_le_succ fits)
      have opened : opening first ((if first then (groupsText (g :: gs)).toList else colonText (g :: gs)) ++ rest) =
          some (groupText g ++ (colonText gs ++ rest)) := by
        cases first with
        | true => exact congrArg some (by rw [if_pos rfl, groupsText_cons, List.append_assoc])
        | false => exact (after?_cons ':' _).trans (congrArg some (List.append_assoc _ _ _))
      have behind := behind_colonText gs ends
      have notDotted := dotted?_eq_none (no_point_in_digits (hexadecimal_groupText g)) behind
      rw [groups_of_group opened notDotted (number?_groupText g behind), Nat.toUInt16_eq, UInt16.ofNat_toNat]
      exact congrArg (fun found => (g :: found.1, found.2.1, found.2.2)) later

end Groups

section Shortened

variable {l front back : List UInt16}

theorem ofGroups?_toList (v : Vector UInt16 8) : ofGroups? v.toList = some (.v6 v) := by
  have size : v.toList.toArray.size = 8 := by simp
  rw [ofGroups?, dif_pos size]
  rfl

theorem v6?_groupsText (whole : l.length = 8) : v6? (groupsText l).toList = ofGroups? l := by
  have read : groups true 8 ((groupsText l).toList ++ []) = (l, false, []) := groups_text whole.le (.inl rfl)
  rw [List.append_nil] at read
  rw [v6?, read]
  dsimp only
  rw [if_pos whole, if_pos List.isEmpty_nil]

/-- Groups on both sides of two colons are read with zeros between them. -/
theorem v6?_shortened (front : List UInt16) (fits : front.length + back.length < 8) {text : List Char} {decimal : Bool}
    (read : groups true (7 - front.length) text = (back, decimal, [])) :
    v6? ((groupsText front).toList ++ ':' :: ':' :: text) =
      ofGroups? (front ++ List.replicate (8 - front.length - back.length) 0 ++ back) := by
  have isFront : groups true 8 ((groupsText front).toList ++ ':' :: ':' :: text) = (front, false, ':' :: ':' :: text) :=
    groups_text (by omega) (.inr ⟨text, rfl⟩)
  rw [v6?, isFront]
  dsimp only
  rw [if_neg (by omega), if_neg Bool.false_ne_true]
  simp only [after?_cons, Option.bind_eq_bind, Option.bind_some, read, List.isEmpty_nil, if_true]

theorem zeros_apart (l : List UInt16) : l = List.replicate (zeros l) 0 ++ l.drop (zeros l) := by
  induction l with
  | nil => rfl
  | cons g l ih =>
      by_cases isZero : g = 0
      · have more : zeros (g :: l) = zeros l + 1 := by
          rw [zeros, List.takeWhile_cons_of_pos (by simpa using isZero)]
          rfl
        rw [more, List.replicate_succ, List.drop_succ_cons, List.cons_append, ← ih, isZero]
      · have none : zeros (g :: l) = 0 := by
          rw [zeros, List.takeWhile_cons_of_neg (by simpa using isZero)]
          rfl
        rw [none]
        rfl

/-- What is left out is a run of zeros and stands where it is said to stand. -/
theorem longestZeros_left_out (l : List UInt16) (several : 0 < (longestZeros l).2) :
    l = l.take (longestZeros l).1 ++ List.replicate (longestZeros l).2 0 ++
      l.drop ((longestZeros l).1 + (longestZeros l).2) := by
  have isRun : (longestZeros l).2 = 0 ∨ (longestZeros l).2 = zeros (l.drop (longestZeros l).1) := by
    unfold longestZeros
    refine List.foldlRecOn (motive := fun best : Nat × Nat => best.2 = 0 ∨ best.2 = zeros (l.drop best.1)) _ _
      (.inl rfl) ?_
    intro best known i _
    split
    · exact .inr rfl
    · exact known
  have run := zeros_apart (l.drop (longestZeros l).1)
  rw [← isRun.resolve_left several.ne', List.drop_drop] at run
  conv_lhs => rw [← List.take_append_drop (longestZeros l).1 l, run, ← List.append_assoc]

end Shortened

section Mapped

variable {a b c d : UInt8}

theorem pair_halves (g : UInt16) : pair (g / 256).toUInt8 (g % 256).toUInt8 = g := by
  apply UInt16.toNat_inj.mp
  have bound := g.toNat_lt
  simp only [pair, UInt16.toNat_add, UInt16.toNat_mul, UInt8.toNat_toUInt16, UInt16.toNat_toUInt8, UInt16.toNat_div,
    UInt16.toNat_mod, UInt16.reduceToNat]
  omega

theorem mapped_toList :
    ("::ffff:" ++ dottedText a b c d).toList =
      ':' :: ':' :: (groupText 0xFFFF ++ ':' :: (dottedText a b c d).toList) := by
  rw [String.toList_append]
  rfl

theorem mapped_not_dotted : dotted? ("::ffff:" ++ dottedText a b c d).toList = none := by
  rw [mapped_toList]
  rfl

theorem v6?_mapped :
    v6? ("::ffff:" ++ dottedText a b c d).toList = ofGroups? [0, 0, 0, 0, 0, 0xFFFF, pair a b, pair c d] := by
  have behind : ∀ c' ∈ (':' :: (dottedText a b c d).toList).head?, c' = ':' := by
    rintro _ ⟨⟩
    rfl
  have numbers : groups false 6 (':' :: (dottedText a b c d).toList) = ([pair a b, pair c d], true, []) :=
    groups_of_dotted (after?_cons ':' _) dotted?_dottedText
  have back : groups true 7 (groupText 0xFFFF ++ ':' :: (dottedText a b c d).toList) =
      ([0xFFFF, pair a b, pair c d], true, []) := by
    have notDotted := dotted?_eq_none (no_point_in_digits (hexadecimal_groupText 0xFFFF)) behind
    rw [groups_of_group (opened_first _) notDotted (number?_groupText 0xFFFF behind), numbers]
    rfl
  rw [mapped_toList]
  exact v6?_shortened [] (by simp) back

end Mapped

section Text

theorem ofText?_of_not_dotted {text : List Char} (notDotted : dotted? text = none) : ofText? text = v6? text := by
  rw [ofText?, v4?_of_not_dotted notDotted]
  rfl

theorem groupsText_not_dotted (gs : List UInt16) {rest : List Char} (ends : EndsGroups rest) :
    dotted? ((groupsText gs).toList ++ rest) = none := by
  cases gs with
  | nil => exact dotted?_of_colon (behind_colonText [] ends)
  | cons g gs =>
      rw [groupsText_cons, List.append_assoc]
      exact dotted?_eq_none (no_point_in_digits (hexadecimal_groupText g)) (behind_colonText gs ends)

theorem last_groups {l : List UInt16} (whole : l.length = 8) : l = l.take 6 ++ [l.getD 6 0, l.getD 7 0] := by
  have seventh : l.drop 6 = l.getD 6 0 :: l.drop 7 := by
    rw [List.getD_eq_getElem _ _ (by omega), ← List.drop_eq_getElem_cons]
  have eighth : l.drop 7 = l.getD 7 0 :: l.drop 8 := by
    rw [List.getD_eq_getElem _ _ (by omega), ← List.drop_eq_getElem_cons]
  have nothing : l.drop 8 = [] := List.drop_eq_nil_of_le whole.le
  conv_lhs => rw [← List.take_append_drop 6 l, seventh, eighth, nothing]

theorem ofText?_mapped {v : Vector UInt16 8} (mapped : v.toList.take 6 = [0, 0, 0, 0, 0, 0xFFFF]) :
    let high := v.toList.getD 6 0
    let low := v.toList.getD 7 0
    ofText? ("::ffff:" ++ dottedText (high / 256).toUInt8 (high % 256).toUInt8 (low / 256).toUInt8
      (low % 256).toUInt8).toList = some (.v6 v) := by
  have parts := last_groups (l := v.toList) (by simp)
  rw [mapped] at parts
  intro high low
  rw [ofText?_of_not_dotted mapped_not_dotted, v6?_mapped, pair_halves, pair_halves]
  exact (congrArg ofGroups? parts.symm).trans (ofGroups?_toList v)

/-- Groups with a run of zeros among them are read without that run. -/
theorem ofText?_shortened {v : Vector UInt16 8} {front back : List UInt16} {count : Nat} (several : 0 < count)
    (parts : v.toList = front ++ List.replicate count 0 ++ back) :
    ofText? (groupsText front ++ "::" ++ groupsText back).toList = some (.v6 v) := by
  have lengths := congrArg List.length parts
  simp only [Vector.length_toList, List.length_append, List.length_replicate] at lengths
  have read : groups true (7 - front.length) ((groupsText back).toList ++ []) = (back, false, []) :=
    groups_text (by omega) (.inl rfl)
  rw [List.append_nil] at read
  have between : 8 - front.length - back.length = count := by omega
  have notDotted := groupsText_not_dotted front (.inr ⟨(groupsText back).toList, rfl⟩)
  have isText : (groupsText front ++ "::" ++ groupsText back).toList =
      (groupsText front).toList ++ ':' :: ':' :: (groupsText back).toList := by
    rw [String.toList_append, String.toList_append, List.append_assoc]
    rfl
  rw [isText, ofText?_of_not_dotted notDotted, v6?_shortened front (by omega) read, between, ← parts,
    ofGroups?_toList]

/-- The text of an address is read as that address. -/
theorem ofText?_text (ip : IpAddress) : ofText? ip.text.toList = some ip := by
  cases ip with
  | v4 a b c d =>
      rw [text, ofText?, v4?_dottedText]
      rfl
  | v6 v =>
      rw [text]
      dsimp only
      split
      · next mapped => exact ofText?_mapped mapped
      · split
        · next several =>
          have several : 0 < (longestZeros v.toList).2 := Nat.zero_lt_of_lt several
          exact ofText?_shortened several (longestZeros_left_out v.toList several)
        · have notDotted := groupsText_not_dotted v.toList (.inl rfl)
          rw [List.append_nil] at notDotted
          rw [ofText?_of_not_dotted notDotted, v6?_groupsText (by simp), ofGroups?_toList]

end Text

section Literals

variable {text rest : List Char}

/-- A character that may stand in an address. -/
def IsLiteral (c : Char) : Prop := isDigitIn 16 c = true ∨ c = '.' ∨ c = ':'

/-- Nothing but such characters has been taken from the front of a text. -/
def Remains (text rest : List Char) : Prop := ∃ taken, text = taken ++ rest ∧ ∀ c ∈ taken, IsLiteral c

theorem Remains.refl (text : List Char) : Remains text text := ⟨[], rfl, nofun⟩

theorem Remains.trans {last : List Char} (first : Remains text rest) (second : Remains rest last) :
    Remains text last := by
  obtain ⟨taken, rfl, all⟩ := first
  obtain ⟨taken', rfl, all'⟩ := second
  refine ⟨taken ++ taken', (List.append_assoc _ _ _).symm, ?_⟩
  intro c member
  exact (List.mem_append.mp member).elim (all c) (all' c)

theorem Remains.cons {c : Char} (first : IsLiteral c) (rest : List Char) : Remains (c :: rest) rest :=
  ⟨[c], rfl, fun _ member => List.mem_singleton.mp member ▸ first⟩

theorem isDigitIn_mono {base larger : Nat} (le : base ≤ larger) {c : Char} (isDigit : isDigitIn base c = true) :
    isDigitIn larger c = true := by
  unfold isDigitIn at isDigit ⊢
  split at isDigit
  · rw [decide_eq_true_eq] at isDigit ⊢
    omega
  · cases isDigit

theorem remains_digits {base : Nat} (hexadecimal : base ≤ 16) (text : List Char) :
    Remains text (text.dropWhile (isDigitIn base)) :=
  ⟨_, List.takeWhile_append_dropWhile.symm, fun _ member =>
    .inl (isDigitIn_mono hexadecimal (List.mem_takeWhile_imp member))⟩

theorem remains_after {c : Char} (isLiteral : IsLiteral c) (h : after? c text = some rest) : Remains text rest := by
  cases text with
  | nil => cases h
  | cons d text =>
      obtain ⟨same, found⟩ := Option.ite_none_right_eq_some.mp h
      cases found
      exact .cons (same ▸ isLiteral) rest

theorem remains_octet {a : UInt8} (h : octet? text = some (a, rest)) : Remains text rest :=
  octet?_some h ▸ remains_digits (by decide) text

theorem remains_dotted {numbers : UInt8 × UInt8 × UInt8 × UInt8} (h : dotted? text = some (numbers, rest)) :
    Remains text rest := by
  simp only [dotted?, Option.bind_eq_bind, Option.bind_eq_some_iff, Option.pure_def, Option.some.injEq, Prod.mk.injEq,
    Prod.exists] at h
  obtain ⟨a, rest₁, isA, rest₂, point, b, rest₃, isB, rest₄, point', c, rest₅, isC, rest₆, point'', d, rest₇, isD, -,
    rfl⟩ := h
  have point_ : IsLiteral '.' := .inr (.inl rfl)
  have first := (remains_octet isA).trans (remains_after point_ point)
  have second := (remains_octet isB).trans (remains_after point_ point')
  have third := (remains_octet isC).trans (remains_after point_ point'')
  exact ((first.trans second).trans third).trans (remains_octet isD)

theorem remains_groups (first : Bool) (limit : Nat) (text : List Char) :
    Remains text (groups first limit text).2.2 := by
  induction limit generalizing first text with
  | zero => exact .refl text
  | succ limit ih =>
      unfold groups
      split
      · exact .refl text
      · next front opened =>
        have begun : Remains text front := by
          cases first with
          | true => exact Option.some.inj opened ▸ .refl text
          | false => exact remains_after (.inr (.inr rfl)) opened
        split
        · next a b c d rest found =>
          exact begun.trans (remains_dotted (Option.ite_none_left_eq_some.mp found).2)
        · split
          · exact .refl text
          · next n rest found =>
            have isNumber : Remains front rest := number?_some found ▸ remains_digits (by decide) front
            exact (begun.trans isNumber).trans (ih false rest)

theorem Remains.all (all : Remains text []) : ∀ c ∈ text, IsLiteral c := by
  obtain ⟨taken, rfl, isLiteral⟩ := all
  rwa [List.append_nil]

theorem remains_v4 {ip : IpAddress} (h : v4? text = some ip) : Remains text [] := by
  unfold v4? at h
  split at h
  · next found => exact remains_dotted found
  · cases h

theorem remains_v6 {ip : IpAddress} (h : v6? text = some ip) : Remains text [] := by
  have front := remains_groups true 8 text
  unfold v6? at h
  generalize groups true 8 text = found at front h
  obtain ⟨gs, decimal, behind⟩ := found
  dsimp only at front h
  split at h
  · obtain ⟨isEnd, -⟩ := Option.ite_none_right_eq_some.mp h
    rwa [List.isEmpty_iff.mp isEnd] at front
  · split at h
    · cases h
    · obtain ⟨next, colon, h⟩ := Option.bind_eq_some_iff.mp h
      obtain ⟨last, colon', h⟩ := Option.bind_eq_some_iff.mp h
      have colon_ : IsLiteral ':' := .inr (.inr rfl)
      have back := remains_groups true (7 - gs.length) last
      obtain ⟨isEnd, -⟩ := Option.ite_none_right_eq_some.mp h
      rw [List.isEmpty_iff.mp isEnd] at back
      exact ((front.trans (remains_after colon_ colon)).trans (remains_after colon_ colon')).trans back

/-- An address is spelled with such characters only, and with at least one. -/
theorem ofText?_literal {ip : IpAddress} (h : ofText? text = some ip) : text ≠ [] ∧ ∀ c ∈ text, IsLiteral c := by
  refine ⟨?_, ?_⟩
  · rintro rfl
    cases h
  · rw [ofText?] at h
    cases four : v4? text with
    | some found => exact (remains_v4 four).all
    | none =>
        rw [four] at h
        exact (remains_v6 h).all

end Literals

end Docroot.IpAddress
