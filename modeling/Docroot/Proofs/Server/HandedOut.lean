import Docroot.Proofs.Server.Registry

/-!
The tokens that are handed out over time. Until the count has gone round once they come in order, so none comes
twice and an event that is late finds its own client or nobody.
-/
namespace Docroot.Server

/-- Tokens handed out one after the other, the last in front, and the one from which the next is sought. At each
time only tokens handed out before are in use. -/
inductive HandedOut : List Nat → Nat → Prop where
  | start : HandedOut [] firstToken
  | call {handed : List Nat} {next : Nat} (clients : Table Client) (earlier : clients.tokens ⊆ handed)
      (before : HandedOut handed next) :
      HandedOut ((freshToken clients.tokens clients.length next).1 :: handed)
        (freshToken clients.tokens clients.length next).2

section HandedOut

variable {handed : List Nat} {next : Nat}

/-- As long as there are others left, the tokens are the first ones in order. -/
theorem HandedOut.in_order (out : HandedOut handed next) (few : handed.length < clientTokenCount) :
    handed.reverse = List.range' firstToken handed.length ∧ next = firstToken + handed.length := by
  induction out with
  | start => exact ⟨rfl, rfl⟩
  | @call handed next clients earlier _ ih =>
      rw [List.length_cons] at few
      obtain ⟨inOrder, rfl⟩ := ih (by omega)
      -- What is in use has been handed out, so it lies below the place where the search begins.
      have isFree : firstToken + handed.length ∉ clients.tokens := by
        intro inUse
        have passed := List.mem_reverse.mpr (earlier inUse)
        rw [inOrder, List.mem_range'_1] at passed
        omega
      have notLast : firstToken + handed.length ≠ maxToken := by
        unfold clientTokenCount firstToken at *
        omega
      rw [freshToken_eq (firstFree_zero isFree) (Nat.zero_le _)]
      refine ⟨?_, ?_⟩
      · rw [List.reverse_cons, inOrder, List.length_cons, List.range'_1_concat]
        rfl
      · rw [zero_add, Function.iterate_one, nextAfter, if_neg notLast, List.length_cons, Nat.add_assoc]

theorem HandedOut.nodup (out : HandedOut handed next) (few : handed.length < clientTokenCount) : handed.Nodup := by
  rw [← List.nodup_reverse, (out.in_order few).1]
  exact List.nodup_range'

end HandedOut

section Runs

variable {s s' : Server} {handed : List Nat} {token : Nat} {client : Client}

def Fate.token? : Fate → Option Nat
  | .closed token => some token
  | _ => none

/-- The tokens of the clients that have been closed, and those of the clients that are there. -/
def tokensHad (s : Server) : List Nat := s.departed.filterMap (fun d => d.fate.token?) ++ s.clients.tokens

/-- What clients have had has been handed out, once for each of them, at most one token for each stream accepted. -/
structure Issued (s : Server) (handed : List Nat) : Prop where
  out : HandedOut handed s.nextToken
  had : s.tokensHad.Subperm handed
  few : handed.length ≤ s.accepted

theorem start_issued (site : Site) (limits : Limits) : (start site limits).Issued [] :=
  ⟨.start, (List.Perm.refl _).subperm, Nat.zero_le _⟩

theorem Issued.call (issued : s.Issued handed) : HandedOut (s.fresh.1 :: handed) s.fresh.2 := by
  refine .call s.clients ?_ issued.out
  intro token inUse
  exact issued.had.subset (List.mem_append_right _ inUse)

theorem Issued.takesUp {now : Nat} {stream : Stream} {peer : SocketAddress} (issued : s.Issued handed)
    (takes : TakesUp s now stream peer s') : ∃ handed, s'.Issued handed := by
  have few := issued.few
  cases takes with
  | refused => exact ⟨handed, issued.out, issued.had, Nat.le_succ_of_le few⟩
  | unregistered =>
      exact ⟨_, issued.call, issued.had.cons_right s.fresh.1, Nat.succ_le_succ few⟩
  | admitted =>
      have added : (s.letIn now stream peer).tokensHad.Perm (s.fresh.1 :: s.tokensHad) := by
        rw [tokensHad, letIn, Table.tokens_insert, ← List.append_assoc]
        exact List.perm_append_singleton _ _
      exact ⟨_, issued.call, added.subperm.trans ((List.subperm_cons _).mpr issued.had), Nat.succ_le_succ few⟩

theorem Issued.release (issued : s.Issued handed) (found : s.clients.get? token = some client) (serial : Nat)
    (stream : Stream) : (s.release token serial stream).Issued handed := by
  refine ⟨issued.out, ?_, issued.few⟩
  -- The token moves from the table to the streams that have left.
  have moved : (token :: (s.clients.remove token).tokens).Subperm s.clients.tokens := by
    rw [Table.tokens_remove]
    refine List.cons_subperm_of_not_mem_of_mem ?_ (Table.mem_tokens_of_get? found) List.filter_sublist.subperm
    simp
  have apart : (s.release token serial stream).tokensHad.Perm
      (s.departed.filterMap (fun d => d.fate.token?) ++ token :: (s.clients.remove token).tokens) :=
    List.perm_middle.symm
  exact (apart.subperm.trans ((List.subperm_append_left _).mpr moved)).trans issued.had

theorem Issued.drives {o : Occasion} {refusal : Option ErrorKind} (issued : s.Issued handed)
    (drives : Drives s token o refusal s') : s'.Issued handed := by
  cases drives with
  | stale => exact issued
  | ended found => exact issued.release found _ _
  | goesOn =>
      refine ⟨issued.out, ?_, issued.few⟩
      rw [tokensHad, Table.tokens_update]
      exact issued.had

theorem Leads.issued {heard : List (Nat × Occasion)} (leads : Leads s heard s') (issued : s.Issued handed) :
    ∃ handed, s'.Issued handed := by
  refine leads.invariant (P := fun s => ∃ handed, s.Issued handed) ?_ ?_ ?_ ⟨handed, issued⟩
  · rintro s₁ s₂ now stream peer takes ⟨handed, issued⟩
    exact issued.takesUp takes
  · rintro s₁ s₂ token o refusal drives ⟨handed, issued⟩
    exact ⟨handed, issued.drives drives⟩
  · rintro s₁ token client found ⟨handed, issued⟩
    exact ⟨handed, issued.release found _ _⟩

/-- Until as many streams have come as there are tokens, no client of a run has the token of another, be that one
still there or closed long before. -/
theorem tokens_never_shared (site : Site) (limits : Limits) (stretch : Stretch)
    (few : ((start site limits).after stretch).accepted < clientTokenCount) :
    ((start site limits).after stretch).tokensHad.Nodup := by
  obtain ⟨handed, out, ⟨had, same, kept⟩, fewer⟩ := (after_leads _ stretch).issued (start_issued site limits)
  have distinct := out.nodup (Nat.lt_of_le_of_lt fewer few)
  exact same.nodup_iff.mp (distinct.sublist kept)

end Runs

/-- The search for a token ends for every table with fewer clients than there are tokens, wherever it begins: at a
client's token that is not in use, and the next search begins at one. Over fewer calls than there are tokens,
from the first one on, no token is handed out twice. -/
theorem fresh_tokens_handed_out :
    (∀ (clients : Table Client) (next : Nat), clients.length < maxToken - 1 → IsClientToken next →
      ∃ token after, (∀ found, SearchEnds clients.tokens next found ↔ found = (token, after)) ∧
        freshToken clients.tokens clients.length next = (token, after) ∧
        IsClientToken token ∧ token ∉ clients.tokens ∧ IsClientToken after) ∧
      ∀ (handed : List Nat) (next : Nat), HandedOut handed next → handed.length < maxToken - 1 → handed.Nodup := by
  refine ⟨?_, fun handed next out few => out.nodup few⟩
  intro clients next room isToken
  have size := Table.length_tokens clients
  have room' : clients.tokens.length < clientTokenCount := size ▸ room
  obtain ⟨isClient, isNext⟩ := freshToken_isClientToken isToken clients.tokens clients.length
  refine ⟨_, _, ?_, rfl, isClient, ?_, isNext⟩
  · intro found
    rw [searchEnds_iff isToken room', size]
  · rw [← size]
    exact freshToken_not_mem isToken room'

def silentClient : Client := ⟨0, .start {} ⟨.v4 127 0 0 1, 80⟩ ⟨2, 64, 1000⟩ 0, .readable⟩

/-- Clients under the last two tokens and the first two. -/
def aroundTheEnd : Table Client :=
  [(maxToken - 1, silentClient), (maxToken, silentClient), (2, silentClient), (3, silentClient)]

/-- A search that begins at the last token but one goes on at the first; and three tokens in order, one of them
free again when the last is handed out. -/
theorem fresh_tokens_handed_out_around_the_end :
    aroundTheEnd.length < maxToken - 1 ∧ IsClientToken (maxToken - 1) ∧
      (∃ token after, (∀ found, SearchEnds aroundTheEnd.tokens (maxToken - 1) found ↔ found = (token, after)) ∧
        freshToken aroundTheEnd.tokens aroundTheEnd.length (maxToken - 1) = (token, after) ∧
        IsClientToken token ∧ token ∉ aroundTheEnd.tokens ∧ IsClientToken after) ∧
      freshToken aroundTheEnd.tokens aroundTheEnd.length (maxToken - 1) = (4, 5) ∧
      HandedOut [4, 3, 2] 5 ∧ [4, 3, 2].Nodup := by
  have room : aroundTheEnd.length < maxToken - 1 := by decide
  have isToken : IsClientToken (maxToken - 1) := ⟨by decide, by decide⟩
  have out : HandedOut [4, 3, 2] 5 := by
    have first : HandedOut [2] 3 := .call [] (List.nil_subset _) .start
    have second : HandedOut [3, 2] 4 := .call [(2, silentClient)] (by decide) first
    exact .call [(3, silentClient)] (by decide) second
  exact ⟨room, isToken, fresh_tokens_handed_out.1 aroundTheEnd (maxToken - 1) room isToken, by decide, out,
    fresh_tokens_handed_out.2 [4, 3, 2] 5 out (by decide)⟩

end Docroot.Server
