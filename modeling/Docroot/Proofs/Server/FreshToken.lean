import Docroot.Server.Table
import Mathlib

/-!
The search for a free token. It goes round through all tokens that clients can have, so it comes to a free one
as long as not all of them are in use.
-/
namespace Docroot.Server

/-- A token that a client can have: neither the listener's nor the waker's. -/
structure IsClientToken (token : Nat) : Prop where
  first_le : firstToken ≤ token
  le_max : token ≤ maxToken

def clientTokenCount : Nat := maxToken - 1

theorem isClientToken_first : IsClientToken firstToken := ⟨by decide, by decide⟩

variable {token next : Nat} {taken : List Nat}

theorem IsClientToken.nextAfter (isToken : IsClientToken token) : IsClientToken (nextAfter token) := by
  unfold Server.nextAfter
  split
  · exact isClientToken_first
  · next notLast =>
    obtain ⟨low, high⟩ := isToken
    exact ⟨by omega, by omega⟩

/-- Counting up goes round: a step changes the distance from the first token by one, up to whole rounds. -/
theorem iterate_nextAfter (isToken : IsClientToken token) (k : Nat) :
    Server.nextAfter^[k] token = firstToken + (token - firstToken + k) % clientTokenCount := by
  induction k with
  | zero =>
      obtain ⟨low, high⟩ := isToken
      simp only [Function.iterate_zero, id_eq, firstToken, maxToken, clientTokenCount] at *
      omega
  | succ k ih =>
      rw [Function.iterate_succ_apply', ih, Server.nextAfter]
      by_cases last : firstToken + (token - firstToken + k) % clientTokenCount = maxToken
      · rw [if_pos last]
        simp only [firstToken, maxToken, clientTokenCount] at last ⊢
        omega
      · rw [if_neg last]
        simp only [firstToken, maxToken, clientTokenCount] at last ⊢
        omega

theorem iterate_nextAfter_injOn (isToken : IsClientToken token) {j k : Nat} (hj : j < clientTokenCount)
    (hk : k < clientTokenCount) (same : Server.nextAfter^[j] token = Server.nextAfter^[k] token) : j = k := by
  rw [iterate_nextAfter isToken, iterate_nextAfter isToken] at same
  have sameRest : token - firstToken + j ≡ token - firstToken + k [MOD clientTokenCount] := Nat.add_left_cancel same
  exact (Nat.ModEq.add_left_cancel' _ sameRest).eq_of_lt_of_lt hj hk

/-- The token `k` places further on is free, and all before it are in use. -/
structure FirstFree (taken : List Nat) (next k : Nat) : Prop where
  passed : ∀ j < k, nextAfter^[j] next ∈ taken
  isFree : nextAfter^[k] next ∉ taken

theorem firstFree_zero (isFree : next ∉ taken) : FirstFree taken next 0 := ⟨nofun, isFree⟩

theorem firstFree_succ_iff {k : Nat} :
    FirstFree taken next (k + 1) ↔ next ∈ taken ∧ FirstFree taken (Server.nextAfter next) k := by
  constructor
  · rintro ⟨passed, isFree⟩
    refine ⟨passed 0 (Nat.succ_pos k), ?_, isFree⟩
    intro j below
    exact passed (j + 1) (Nat.succ_lt_succ below)
  · rintro ⟨inUse, passed, isFree⟩
    refine ⟨?_, isFree⟩
    intro j below
    cases j with
    | zero => exact inUse
    | succ j => exact passed j (Nat.lt_of_succ_lt_succ below)

/-- Tokens in use cannot fill more places of the round than there are of them. -/
theorem exists_free (isToken : IsClientToken next) (room : taken.length < clientTokenCount) :
    ∃ k ≤ taken.length, Server.nextAfter^[k] next ∉ taken := by
  by_contra noneFree
  push Not at noneFree
  have distinct : ((List.range (taken.length + 1)).map fun k => Server.nextAfter^[k] next).Nodup := by
    refine List.Nodup.map_on ?_ List.nodup_range
    intro j hj k hk same
    rw [List.mem_range] at hj hk
    exact iterate_nextAfter_injOn isToken (by omega) (by omega) same
  have inside : ((List.range (taken.length + 1)).map fun k => Server.nextAfter^[k] next) ⊆ taken := by
    intro reached member
    obtain ⟨k, hk, rfl⟩ := List.mem_map.mp member
    exact noneFree k (Nat.le_of_lt_succ (List.mem_range.mp hk))
  have fits := (List.subperm_of_subset distinct inside).length_le
  simp at fits

theorem exists_firstFree (isToken : IsClientToken next) (room : taken.length < clientTokenCount) :
    ∃ k ≤ taken.length, FirstFree taken next k := by
  classical
  obtain ⟨k, within, isFree⟩ := exists_free isToken room
  have free : ∃ k, Server.nextAfter^[k] next ∉ taken := ⟨k, isFree⟩
  refine ⟨Nat.find free, (Nat.find_min' free isFree).trans within, ?_, Nat.find_spec free⟩
  intro j below
  exact not_not.mp (Nat.find_min free below)

/-- A search with enough steps ends at the first free token. -/
theorem freshToken_eq {k steps : Nat} (first : FirstFree taken next k) (within : k ≤ steps) :
    freshToken taken steps next = (Server.nextAfter^[k] next, Server.nextAfter^[k + 1] next) := by
  induction steps generalizing next k with
  | zero =>
      obtain rfl : k = 0 := Nat.le_zero.mp within
      rfl
  | succ steps ih =>
      rw [freshToken]
      cases k with
      | zero => exact if_neg (by simpa using first.isFree)
      | succ k =>
          obtain ⟨inUse, onward⟩ := firstFree_succ_iff.mp first
          rw [if_pos (by simpa using inUse)]
          exact ih onward (Nat.le_of_succ_le_succ within)

/-- The search without a bound on its steps: `found` is what it ends with, the free token and the one to start from
the next time. A search that meets nothing but tokens in use does not end. -/
inductive SearchEnds (taken : List Nat) : Nat → Nat × Nat → Prop where
  | free {next : Nat} (isFree : next ∉ taken) : SearchEnds taken next (next, nextAfter next)
  | inUse {next : Nat} {found : Nat × Nat} (inUse : next ∈ taken) (onward : SearchEnds taken (nextAfter next) found) :
      SearchEnds taken next found

theorem SearchEnds.unique {found other : Nat × Nat} (ends : SearchEnds taken next found)
    (endsToo : SearchEnds taken next other) : found = other := by
  induction ends with
  | free isFree =>
      cases endsToo with
      | free => rfl
      | inUse inUse => exact absurd inUse isFree
  | inUse inUse _ ih =>
      cases endsToo with
      | free isFree => exact absurd inUse isFree
      | inUse _ onward => exact ih onward

theorem FirstFree.searchEnds {k : Nat} (first : FirstFree taken next k) :
    SearchEnds taken next (Server.nextAfter^[k] next, Server.nextAfter^[k + 1] next) := by
  induction k generalizing next with
  | zero => exact .free first.isFree
  | succ k ih =>
      obtain ⟨inUse, onward⟩ := firstFree_succ_iff.mp first
      exact .inUse inUse (ih onward)

/-- Where there is room the search ends, and as many steps as there are tokens in use are enough for it. -/
theorem searchEnds_iff (isToken : IsClientToken next) (room : taken.length < clientTokenCount) {found : Nat × Nat} :
    SearchEnds taken next found ↔ found = freshToken taken taken.length next := by
  obtain ⟨k, within, first⟩ := exists_firstFree isToken room
  rw [freshToken_eq first within]
  constructor
  · exact fun ends => ends.unique first.searchEnds
  · rintro rfl
    exact first.searchEnds

theorem freshToken_not_mem (isToken : IsClientToken next) (room : taken.length < clientTokenCount) :
    (freshToken taken taken.length next).1 ∉ taken := by
  obtain ⟨k, within, first⟩ := exists_firstFree isToken room
  rw [freshToken_eq first within]
  exact first.isFree

theorem freshToken_isClientToken (isToken : IsClientToken next) (taken : List Nat) (steps : Nat) :
    IsClientToken (freshToken taken steps next).1 ∧ IsClientToken (freshToken taken steps next).2 := by
  induction steps generalizing next with
  | zero => exact ⟨isToken, isToken.nextAfter⟩
  | succ steps ih =>
      rw [freshToken]
      split
      · exact ih isToken.nextAfter
      · exact ⟨isToken, isToken.nextAfter⟩

end Docroot.Server
