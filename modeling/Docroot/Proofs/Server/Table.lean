import Docroot.Server.Table
import Mathlib

/-!
Tables of clients. What is done under one token leaves the values under all others alone, so changes under two
tokens can be made in either order.
-/
namespace Docroot.Server.Table

variable {α β : Type} {table : Table α} {token other : Nat} {value value' : α}

theorem get?_cons (entry : Nat × α) (rest : Table α) (token : Nat) :
    get? (entry :: rest) token = if token = entry.1 then some entry.2 else rest.get? token := by
  obtain ⟨key, value⟩ := entry
  rw [get?, List.lookup_cons]
  by_cases same : token = key
  · simp [same]
  · rw [beq_false_of_ne same, if_neg same]
    rfl

theorem length_tokens (table : Table α) : table.tokens.length = table.length := List.length_map _

theorem mem_of_get? (found : table.get? token = some value) : (token, value) ∈ table := by
  obtain ⟨before, after, rfl, -⟩ := List.lookup_eq_some_iff.mp found
  simp

theorem mem_tokens_of_get? (found : table.get? token = some value) : token ∈ table.tokens :=
  List.mem_map_of_mem (mem_of_get? found)

theorem get?_eq_none_iff : table.get? token = none ↔ token ∉ table.tokens := by
  rw [get?, List.lookup_eq_none_iff, tokens, List.mem_map]
  constructor
  · rintro absent ⟨entry, member, rfl⟩
    simpa using absent entry member
  · intro absent entry member
    rw [bne_iff_ne]
    intro same
    exact absent ⟨entry, member, same.symm⟩

theorem get?_of_mem (distinct : table.tokens.Nodup) (member : (token, value) ∈ table) :
    table.get? token = some value := by
  obtain ⟨before, after, rfl⟩ := List.append_of_mem member
  refine List.lookup_eq_some_iff.mpr ⟨before, after, rfl, ?_⟩
  intro entry isBefore
  rw [tokens, List.map_append, List.map_cons, List.nodup_middle, List.nodup_cons] at distinct
  rw [bne_iff_ne]
  rintro rfl
  have again : entry.1 ∈ before.map Prod.fst := List.mem_map_of_mem isBefore
  exact distinct.1 (List.mem_append_left _ again)

section Insert

theorem get?_insert_of_some (found : table.get? other = some value') :
    (table.insert token value).get? other = some value' := by
  unfold get? at found ⊢
  rw [insert, List.lookup_append, found, Option.some_or]

end Insert

/-- Puts a value under a token in use, or takes the token out of use. -/
def put (table : Table α) (token : Nat) : Option α → Table α
  | some value => table.update token value
  | none => table.remove token

/-- A change of the entries under one token, as a walk over the table. -/
theorem put_eq (table : Table α) (token : Nat) (value : Option α) :
    table.put token value =
      List.filterMap (fun entry => if entry.1 = token then value.map (Prod.mk token) else some entry) table := by
  cases value with
  | some value =>
      rw [put, update, ← List.filterMap_eq_map]
      apply List.filterMap_congr
      intro entry _
      simp only [Function.comp_apply, Option.map_some]
      split <;> rfl
  | none =>
      rw [put, remove, ← List.filterMap_eq_filter]
      apply List.filterMap_congr
      intro entry _
      by_cases same : entry.1 = token <;> simp [same, Option.guard]

theorem get?_put_of_ne (differ : other ≠ token) (value : Option α) :
    (table.put token value).get? other = table.get? other := by
  induction table with
  | nil => cases value <;> rfl
  | cons entry rest ih =>
      rw [put_eq] at ih ⊢
      rw [List.filterMap_cons, get?_cons]
      by_cases same : entry.1 = token
      · rw [if_pos same, if_neg (same ▸ differ)]
        cases value with
        | none => exact ih
        | some value =>
            refine Eq.trans ?_ ih
            exact (get?_cons _ _ _).trans (if_neg differ)
      · rw [if_neg same, ← ih]
        exact get?_cons _ _ _

/-- Changes the value under a token, if there is one, or takes the token out of use. -/
def alter (table : Table α) (token : Nat) (change : α → Option α) : Table α :=
  match table.get? token with
  | some value => table.put token (change value)
  | none => table

theorem get?_update_self (present : token ∈ table.tokens) : (table.update token value).get? token = some value := by
  induction table with
  | nil => cases present
  | cons entry rest ih =>
      rw [update, List.map_cons, get?_cons]
      by_cases same : entry.1 = token
      · simp [same]
      · have isLater : token ∈ tokens rest := (List.mem_cons.mp present).resolve_left (Ne.symm same)
        rw [if_neg same, if_neg (Ne.symm same)]
        exact ih isLater

theorem update_update : (table.update token value).update token value' = table.update token value' := by
  simp only [update, List.map_map]
  apply List.map_congr_left
  intro entry _
  by_cases same : entry.1 = token <;> simp [same]

theorem remove_update : (table.update token value).remove token = table.remove token := by
  induction table with
  | nil => rfl
  | cons entry rest ih =>
      unfold remove update at ih ⊢
      by_cases same : entry.1 = token
      · simpa [same] using ih
      · simpa [same] using ih

theorem update_of_get? (distinct : table.tokens.Nodup) (found : table.get? token = some value) :
    table.update token value = table := by
  conv_rhs => rw [← List.map_id table]
  apply List.map_congr_left
  intro entry member
  split
  · next same =>
    have inside : (token, entry.2) ∈ table := same ▸ member
    rw [get?_of_mem distinct inside] at found
    cases found
    exact Prod.ext same.symm rfl
  · rfl

/-- A table is the entry under a token and what remains without it. -/
theorem perm_remove (distinct : table.tokens.Nodup) (found : table.get? token = some value) :
    table.Perm ((token, value) :: table.remove token) := by
  induction table with
  | nil => cases found
  | cons entry rest ih =>
      obtain ⟨absent, distinct⟩ := List.nodup_cons.mp distinct
      rw [get?_cons] at found
      split at found
      · next same =>
        cases found
        -- The token stands in this entry and in no later one.
        have isRest : remove rest entry.1 = rest := by
          refine List.filter_eq_self.mpr ?_
          intro later member
          rw [bne_iff_ne]
          exact fun again => absent (again ▸ List.mem_map_of_mem member)
        subst same
        rw [remove, List.filter_cons_of_neg (by simp)]
        exact List.Perm.cons _ (List.Perm.of_eq isRest.symm)
      · next differ =>
        rw [remove, List.filter_cons_of_pos (by simpa using Ne.symm differ)]
        exact (List.Perm.cons _ (ih distinct found)).trans (List.Perm.swap _ _ _)

/-- The table with `f` applied to its values. -/
def mapValues (f : α → β) (table : Table α) : Table β := List.map (fun entry => (entry.1, f entry.2)) table

section MapValues

variable (f : α → β)

@[simp] theorem tokens_mapValues : (table.mapValues f).tokens = table.tokens := by
  simp [tokens, mapValues, Function.comp_def]

theorem get?_mapValues (token : Nat) : (table.mapValues f).get? token = (table.get? token).map f := by
  induction table with
  | nil => rfl
  | cons entry rest ih =>
      rw [mapValues, List.map_cons, get?_cons, get?_cons]
      split
      · rfl
      · exact ih

theorem mapValues_insert : (table.insert token value).mapValues f = (table.mapValues f).insert token (f value) := by
  simp [mapValues, insert]

theorem mapValues_update : (table.update token value).mapValues f = (table.mapValues f).update token (f value) := by
  simp only [mapValues, update, List.map_map]
  apply List.map_congr_left
  intro entry _
  simp only [Function.comp_apply]
  split <;> rfl

theorem mapValues_remove : (table.remove token).mapValues f = (table.mapValues f).remove token := by
  simp [mapValues, remove, List.filter_map, Function.comp_def]

end MapValues

end Docroot.Server.Table
