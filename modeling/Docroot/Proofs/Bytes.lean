import Docroot.Bytes

/-!
Splitting and searching. The pieces of a list hold no separator and come back from the list that is made
of them. A search finds the first place where the pattern stands, so it can be taken up again in the middle
once the beginning is known to hold no occurrence.
-/
namespace Docroot

/-- The piece in front of a separator stands alone. -/
theorem splitWhere_append_cons {α : Type} {p : α → Bool} {piece : List α} {x : α} (rest : List α)
    (clean : ∀ a ∈ piece, p a = false) (hx : p x = true) :
    splitWhere p (piece ++ x :: rest) = piece :: splitWhere p rest := by
  induction piece with
  | nil => simp [splitWhere, hx]
  | cons a piece ih =>
      obtain ⟨first, others⟩ := List.forall_mem_cons.mp clean
      have rest_eq := ih others
      simp only [splitWhere] at rest_eq
      simp [splitWhere, first, rest_eq]

theorem splitWhere_of_clean {α : Type} {p : α → Bool} {piece : List α}
    (clean : ∀ a ∈ piece, p a = false) : splitWhere p piece = [piece] := by
  induction piece with
  | nil => rfl
  | cons a piece ih =>
      obtain ⟨first, others⟩ := List.forall_mem_cons.mp clean
      have rest_eq := ih others
      simp only [splitWhere] at rest_eq
      simp [splitWhere, first, rest_eq]

/-- Pieces that were put together with separators between them are found again. -/
theorem splitWhere_joined {α : Type} {p : α → Bool} {x : α} (hx : p x = true) {piece : List α}
    {rest : List (List α)} (clean : ∀ l ∈ piece :: rest, ∀ a ∈ l, p a = false) :
    splitWhere p (piece ++ rest.flatMap (x :: ·)) = piece :: rest := by
  induction rest generalizing piece with
  | nil => simpa using splitWhere_of_clean (clean piece List.mem_cons_self)
  | cons next rest ih =>
      obtain ⟨first, others⟩ := List.forall_mem_cons.mp clean
      rw [List.flatMap_cons, List.cons_append, splitWhere_append_cons _ first hx, ih others]

theorem splitWhere_ne_nil {α : Type} (p : α → Bool) (l : List α) : splitWhere p l ≠ [] := by
  cases l with
  | nil => simp [splitWhere]
  | cons a l =>
      simp only [splitWhere, List.foldr_cons]
      split
      · simp
      · split <;> simp

/-- An element that is no separator belongs to the first piece of what follows. -/
theorem splitWhere_cons {α : Type} {p : α → Bool} {a : α} {l first : List α} {rest : List (List α)}
    (h : splitWhere p l = first :: rest) :
    splitWhere p (a :: l) = if p a then [] :: first :: rest else (a :: first) :: rest := by
  simp only [splitWhere] at h
  simp only [splitWhere, List.foldr_cons, h]

theorem not_mem_splitWhere {α : Type} {p : α → Bool} {l piece : List α}
    (member : piece ∈ splitWhere p l) : ∀ a ∈ piece, p a = false := by
  induction l generalizing piece with
  | nil =>
      simp only [splitWhere, List.foldr_nil, List.mem_singleton] at member
      simp [member]
  | cons a l ih =>
      obtain ⟨first, rest, same⟩ := List.exists_cons_of_ne_nil (splitWhere_ne_nil p l)
      rw [splitWhere_cons same] at member
      rw [same] at ih
      by_cases ha : p a = true
      · rw [if_pos ha] at member
        rcases List.mem_cons.mp member with rfl | later
        · simp
        · exact ih later
      · rw [if_neg ha] at member
        rcases List.mem_cons.mp member with rfl | later
        · intro b hb
          rcases List.mem_cons.mp hb with rfl | hb
          · simpa using ha
          · exact ih List.mem_cons_self b hb
        · exact ih (List.mem_cons_of_mem first later)

/-- A list is split on both sides of a separator by itself. -/
theorem splitWhere_append {α : Type} {p : α → Bool} {x : α} (hx : p x = true) (a b : List α) :
    splitWhere p (a ++ x :: b) = splitWhere p a ++ splitWhere p b := by
  induction a with
  | nil => simp [splitWhere, hx]
  | cons y a ih =>
      obtain ⟨first, rest, same⟩ := List.exists_cons_of_ne_nil (splitWhere_ne_nil p a)
      rw [same, List.cons_append] at ih
      rw [List.cons_append, splitWhere_cons ih, splitWhere_cons same]
      split <;> rfl

/-- What holds on both sides of a separator holds of all pieces. -/
theorem forall_mem_splitWhere {α : Type} {p : α → Bool} {Q : List α → Prop} {l : List α}
    (around : ∀ a x b, p x = true → Q (a ++ x :: b) → Q a ∧ Q b) (whole : Q l) :
    ∀ piece ∈ splitWhere p l, Q piece := by
  induction size : l.length using Nat.strongRecOn generalizing l with
  | ind n ih =>
      intro piece member
      by_cases clean : ∀ a ∈ l, p a = false
      · rw [splitWhere_of_clean clean, List.mem_singleton] at member
        exact member ▸ whole
      · simp only [Classical.not_forall, Bool.not_eq_false] at clean
        obtain ⟨x, inside, hx⟩ := clean
        obtain ⟨a, b, rfl⟩ := List.append_of_mem inside
        obtain ⟨left, right⟩ := around a x b hx whole
        rw [splitWhere_append hx] at member
        simp only [List.length_append, List.length_cons] at size
        rcases List.mem_append.mp member with inLeft | inRight
        · exact ih a.length (by omega) left rfl piece inLeft
        · exact ih b.length (by omega) right rfl piece inRight

theorem dropWhile_of_head {α : Type} {p : α → Bool} {l : List α} (front : ∀ a ∈ l.head?, p a = false) :
    l.dropWhile p = l := by
  cases l with
  | nil => rfl
  | cons a l => rw [List.dropWhile_cons_of_neg (by simp [front a rfl])]

section Search

variable {α : Type} [BEq α] [LawfulBEq α] {pat l : List α}

theorem indexFrom_eq_some_iff {k n : Nat} :
    indexFrom pat k l = some n ↔
      ∃ i, n = k + i ∧ i ≤ l.length ∧ pat <+: l.drop i ∧ ∀ j < i, ¬ pat <+: l.drop j := by
  induction l generalizing k with
  | nil =>
      unfold indexFrom
      constructor
      · intro h
        split at h
        · next found =>
          cases h
          exact ⟨0, rfl, Nat.le_refl 0, List.isPrefixOf_iff_prefix.mp found, by simp⟩
        · cases h
      · rintro ⟨i, rfl, bound, found, -⟩
        obtain rfl : i = 0 := Nat.le_zero.mp bound
        exact if_pos (List.isPrefixOf_iff_prefix.mpr found)
  | cons a l ih =>
      unfold indexFrom
      by_cases front : pat <+: a :: l
      · rw [if_pos (List.isPrefixOf_iff_prefix.mpr front)]
        constructor
        · intro h
          cases h
          exact ⟨0, rfl, Nat.zero_le _, front, by simp⟩
        · rintro ⟨i, rfl, -, -, first⟩
          cases i with
          | zero => rfl
          | succ i => exact absurd front (first 0 (Nat.succ_pos i))
      · rw [if_neg (mt List.isPrefixOf_iff_prefix.mp front)]
        change indexFrom pat (k + 1) l = some n ↔ _
        rw [ih]
        constructor
        · rintro ⟨i, rfl, bound, found, first⟩
          refine ⟨i + 1, by omega, Nat.succ_le_succ bound, found, ?_⟩
          intro j below
          cases j with
          | zero => exact front
          | succ j => exact first j (Nat.lt_of_succ_lt_succ below)
        · rintro ⟨i, rfl, bound, found, first⟩
          cases i with
          | zero => exact absurd found front
          | succ i =>
              exact ⟨i, by omega, Nat.le_of_succ_le_succ bound, found,
                fun j below => first (j + 1) (Nat.succ_lt_succ below)⟩

/-- A search gives the first place where the pattern stands. -/
theorem indexOf?_eq_some_iff {i : Nat} :
    indexOf? pat l = some i ↔ i ≤ l.length ∧ pat <+: l.drop i ∧ ∀ j < i, ¬ pat <+: l.drop j := by
  unfold indexOf?
  rw [indexFrom_eq_some_iff]
  constructor
  · rintro ⟨j, rfl, found⟩
    rwa [Nat.zero_add]
  · intro found
    exact ⟨i, (Nat.zero_add i).symm, found⟩

theorem indexOf?_eq_none_iff : indexOf? pat l = none ↔ ∀ j ≤ l.length, ¬ pat <+: l.drop j := by
  constructor
  · intro h j
    induction j using Nat.strongRecOn with
    | ind j ih =>
        intro bound found
        have first : indexOf? pat l = some j :=
          indexOf?_eq_some_iff.mpr ⟨bound, found, fun i below => ih i below (by omega)⟩
        rw [h] at first
        cases first
  · intro h
    cases found : indexOf? pat l with
    | none => rfl
    | some i =>
        obtain ⟨bound, isThere, -⟩ := indexOf?_eq_some_iff.mp found
        exact absurd isThere (h i bound)

theorem indexOf?_fits {i : Nat} (h : indexOf? pat l = some i) : i + pat.length ≤ l.length := by
  obtain ⟨bound, found, -⟩ := indexOf?_eq_some_iff.mp h
  have fits := found.length_le
  rw [List.length_drop] at fits
  omega

/-- What follows does not change the first occurrence. -/
theorem indexOf?_append {i : Nat} (h : indexOf? pat l = some i) (more : List α) :
    indexOf? pat (l ++ more) = some i := by
  obtain ⟨bound, found, first⟩ := indexOf?_eq_some_iff.mp h
  refine indexOf?_eq_some_iff.mpr ⟨?_, ?_, ?_⟩
  · rw [List.length_append]; omega
  · rw [List.drop_append_of_le_length bound]
    exact found.trans (List.prefix_append _ more)
  · intro j below early
    rw [List.drop_append_of_le_length (by omega)] at early
    have fits : pat.length ≤ (l.drop j).length := by
      have inside := indexOf?_fits h
      rw [List.length_drop]
      omega
    exact first j below (List.prefix_of_prefix_length_le early (List.prefix_append _ more) fits)

/-- An occurrence is found in every beginning that holds all of it. -/
theorem indexOf?_take {i n : Nat} (h : indexOf? pat l = some i) (fits : i + pat.length ≤ n) :
    indexOf? pat (l.take n) = some i := by
  obtain ⟨bound, found, first⟩ := indexOf?_eq_some_iff.mp h
  refine indexOf?_eq_some_iff.mpr ⟨?_, ?_, ?_⟩
  · rw [List.length_take]
    omega
  · rw [List.drop_take, List.prefix_take_iff]
    exact ⟨found, by omega⟩
  · intro j below early
    rw [List.drop_take] at early
    exact first j below (early.trans (List.take_prefix _ _))

/-- Once a beginning holds no occurrence, a new one ends behind it. -/
theorem indexOf?_ends_behind {i : Nat} (h : indexOf? pat l = none) {more : List α}
    (found : indexOf? pat (l ++ more) = some i) : l.length < i + pat.length := by
  refine Nat.lt_of_not_le ?_
  intro inside
  have early := indexOf?_take found inside
  rw [List.take_left, h] at early
  cases early

/-- A beginning without an occurrence can be passed over. -/
theorem indexOf?_eq_map_drop {s : Nat} (bound : s ≤ l.length) (clean : ∀ j < s, ¬ pat <+: l.drop j) :
    indexOf? pat l = (indexOf? pat (l.drop s)).map (s + ·) := by
  cases later : indexOf? pat (l.drop s) with
  | none =>
      rw [Option.map_none, indexOf?_eq_none_iff]
      intro j inside found
      rw [indexOf?_eq_none_iff] at later
      by_cases early : j < s
      · exact clean j early found
      · refine later (j - s) (by simp only [List.length_drop]; omega) ?_
        rwa [List.drop_drop, Nat.add_sub_cancel' (by omega)]
  | some i =>
      obtain ⟨inside, found, first⟩ := indexOf?_eq_some_iff.mp later
      rw [Option.map_some, indexOf?_eq_some_iff]
      rw [List.drop_drop] at found
      refine ⟨by simp only [List.length_drop] at inside; omega, found, ?_⟩
      intro j below early
      by_cases before : j < s
      · exact clean j before early
      · refine first (j - s) (by omega) ?_
        rwa [List.drop_drop, Nat.add_sub_cancel' (by omega)]

/-- Once a beginning holds no occurrence, a new one starts at most `pat.length - 1` elements before the
end of it. -/
theorem indexOf?_append_of_none (h : indexOf? pat l = none) (more : List α) {s : Nat}
    (overlap : s ≤ l.length - (pat.length - 1)) :
    indexOf? pat (l ++ more) = (indexOf? pat ((l ++ more).drop s)).map (s + ·) := by
  refine indexOf?_eq_map_drop (by rw [List.length_append]; omega) ?_
  intro j below found
  refine indexOf?_eq_none_iff.mp h j (by omega) ?_
  rw [List.drop_append_of_le_length (by omega)] at found
  refine List.prefix_of_prefix_length_le found (List.prefix_append _ more) ?_
  rw [List.length_drop]
  omega

theorem indexOf?_eq_none_iff_not_inside : indexOf? pat l = none ↔ ¬ pat <:+: l := by
  rw [indexOf?_eq_none_iff]
  constructor
  · rintro h ⟨front, rest, rfl⟩
    refine h front.length (by simp only [List.length_append]; omega) ?_
    rw [List.append_assoc, List.drop_left]
    exact List.prefix_append pat rest
  · intro h j _ found
    exact h (found.isInfix.trans (List.drop_suffix j l).isInfix)

theorem indexOf?_eq_none_of_not_mem {a : α} (absent : a ∉ l) (pat : List α) : indexOf? (a :: pat) l = none := by
  rw [indexOf?_eq_none_iff_not_inside]
  intro inside
  exact absent (inside.subset List.mem_cons_self)

/-- What holds not even the first element of the pattern can be passed over. -/
theorem indexOf?_append_of_not_mem {a : α} {front : List α} (absent : a ∉ front) (pat rest : List α) :
    indexOf? (a :: pat) (front ++ rest) = (indexOf? (a :: pat) rest).map (front.length + ·) := by
  have passed : ∀ j < front.length, ¬ a :: pat <+: (front ++ rest).drop j := by
    intro j below found
    rw [List.drop_append_of_le_length (Nat.le_of_lt below), List.drop_eq_getElem_cons below] at found
    exact absent ((List.cons_prefix_cons.mp found).1 ▸ List.getElem_mem below)
  rw [indexOf?_eq_map_drop (by simp) passed, List.drop_left]

theorem indexOf?_append_right (pat rest : List α) : indexOf? pat (pat ++ rest) = some 0 :=
  indexOf?_eq_some_iff.mpr ⟨Nat.zero_le _, List.prefix_append pat rest, nofun⟩

/-- A separator of two different elements is found where it stands, even if what comes before ends like it begins. -/
theorem indexOf?_pair {x y : α} (differ : x ≠ y) {front : List α}
    (absent : indexOf? [x, y] front = none) (rest : List α) :
    indexOf? [x, y] (front ++ ([x, y] ++ rest)) = some front.length := by
  obtain rfl | ⟨before, z, rfl⟩ := front.eq_nil_or_concat
  · exact indexOf?_append_right _ _
  · -- Before its place the pair could only begin with the last element there, and then its second would be its first.
    have crosses : ∀ j < 1, ¬ [x, y] <+: (z :: ([x, y] ++ rest)).drop j := by
      intro j below found
      obtain rfl : j = 0 := Nat.lt_one_iff.mp below
      exact differ (List.cons_prefix_cons.mp (List.cons_prefix_cons.mp found).2).1.symm
    have last : indexOf? [x, y] (z :: ([x, y] ++ rest)) = some 1 := by
      rw [indexOf?_eq_map_drop (by simp) crosses, List.drop_one, List.tail_cons, indexOf?_append_right]
      rfl
    rw [List.concat_eq_append] at absent ⊢
    rw [indexOf?_append_of_none (s := before.length) absent _ (by simp), List.append_assoc, List.drop_left,
      List.singleton_append, last, List.length_append]
    rfl

/-- A pair does not reach over an element that is in none of its places. -/
theorem indexOf?_pair_append_cons {x y between : α} (notFirst : between ≠ x) (notSecond : between ≠ y)
    {front rest : List α} (absent : indexOf? [x, y] front = none) (absent' : indexOf? [x, y] rest = none) :
    indexOf? [x, y] (front ++ between :: rest) = none := by
  rw [indexOf?_eq_none_iff_not_inside] at absent absent' ⊢
  rintro ⟨before, after, parts⟩
  rw [List.append_assoc, List.append_eq_append_iff] at parts
  rcases parts with ⟨inner, rfl, later⟩ | ⟨inner, rfl, later⟩
  · match inner with
    | [] => exact notFirst (List.cons.inj later).1.symm
    | [u] => exact notSecond (List.cons.inj (List.cons.inj later).2).1.symm
    | u :: v :: inner =>
        obtain ⟨rfl, next⟩ := List.cons.inj later
        obtain ⟨rfl, -⟩ := List.cons.inj next
        exact absent ⟨before, inner, by simp⟩
  · match inner with
    | [] => exact notFirst (List.cons.inj later).1
    | u :: inner => exact absent' ⟨inner, after, by simpa using (List.cons.inj later).2.symm⟩

end Search

section Break

variable {α : Type} [BEq α] {pat l front rest : List α}

/-- What is put together around a first occurrence comes apart there. -/
theorem breakAt?_append (h : indexOf? pat (front ++ (pat ++ rest)) = some front.length) :
    breakAt? pat (front ++ (pat ++ rest)) = some (front, rest) := by
  rw [breakAt?, h, Option.map_some, List.take_left, ← List.drop_drop, List.drop_left, List.drop_left]

theorem breakAt?_eq_none_iff : breakAt? pat l = none ↔ indexOf? pat l = none := Option.map_eq_none_iff

variable [LawfulBEq α]

theorem breakAt?_pair {x y : α} (differ : x ≠ y) (absent : indexOf? [x, y] front = none) (rest : List α) :
    breakAt? [x, y] (front ++ ([x, y] ++ rest)) = some (front, rest) :=
  breakAt?_append (indexOf?_pair differ absent rest)

/-- The parts are those around the pattern, and it does not stand in the first of them. -/
theorem breakAt?_some {parts : List α × List α} (h : breakAt? pat l = some parts) (isSome : pat ≠ []) :
    l = parts.1 ++ (pat ++ parts.2) ∧ indexOf? pat parts.1 = none := by
  obtain ⟨i, found, rfl⟩ := Option.map_eq_some_iff.mp h
  obtain ⟨bound, ⟨rest, behind⟩, first⟩ := indexOf?_eq_some_iff.mp found
  refine ⟨?_, ?_⟩
  · rw [← List.drop_drop, ← behind, List.drop_left, behind, List.take_append_drop]
  · rw [indexOf?_eq_none_iff]
    intro j _ early
    have some := List.length_pos_iff.mpr isSome
    have fits := early.length_le
    rw [List.length_drop, List.length_take] at fits
    rw [List.drop_take] at early
    exact first j (by omega) (early.trans (List.take_prefix _ _))

/-- What follows is added to what stands behind the first occurrence. -/
theorem breakAt?_append_of_some (h : breakAt? pat l = some (front, rest)) (more : List α) :
    breakAt? pat (l ++ more) = some (front, rest ++ more) := by
  obtain ⟨i, found, parts⟩ := Option.map_eq_some_iff.mp h
  obtain ⟨rfl, rfl⟩ := Prod.mk.inj parts
  obtain ⟨bound, isThere, -⟩ := indexOf?_eq_some_iff.mp found
  have fits := isThere.length_le
  rw [List.length_drop] at fits
  rw [breakAt?, indexOf?_append found, Option.map_some, List.take_append_of_le_length bound]
  by_cases empty : pat.length = 0
  · rw [List.drop_append_of_le_length (by omega)]
  · rw [List.drop_append_of_le_length (by omega)]

end Break

end Docroot
