import Docroot.Proofs.Server.Accounting

/-!
A round of accepting. The clients in front are taken up in the order in which they wait, over calls that were
interrupted or met a client that has gone. Any other failure ends the round at once, so the clients behind it go on
waiting: a round takes up all of them only where there is no such failure.
-/
namespace Docroot.Server

/-- The listener is asked again after this result. -/
def Incoming.goesOn : Incoming → Bool
  | .client .. => true
  | .failure kind => kind = .interrupted || kind = .connectionAborted

/-- A stream that waits to be accepted, and who is at its other end. -/
def Incoming.caller? : Incoming → Option (Stream × SocketAddress)
  | .client stream peer _ => some (stream, peer)
  | .failure _ => none

def callers (results : List Incoming) : List (Stream × SocketAddress) := results.filterMap Incoming.caller?

/-- Streams are taken up one after the other. -/
inductive TakesUpEach (now : Nat) : Server → List (Stream × SocketAddress) → Server → Prop where
  | none (s : Server) : TakesUpEach now s [] s
  | next {s between s' : Server} {stream : Stream} {peer : SocketAddress} {rest : List (Stream × SocketAddress)}
      (takes : TakesUp s now stream peer between) (onward : TakesUpEach now between rest s') :
      TakesUpEach now s ((stream, peer) :: rest) s'

section Places

variable {s s' : Server} {now : Nat} {stream : Stream} {peer : SocketAddress} {taken : List (Stream × SocketAddress)}

theorem TakesUp.accepted (takes : TakesUp s now stream peer s') : s'.accepted = s.accepted + 1 := by
  cases takes with
  | refused | unregistered | admitted => rfl

/-- A stream that is taken up is let in, refused or let go for want of a registration; the others stay where they
are. -/
theorem TakesUp.places (takes : TakesUp s now stream peer s') :
    (∃ place, (∀ token, place ≠ .gone (.closed token)) ∧ (s.accepted, place) ∈ s'.places) ∧ s.places ⊆ s'.places := by
  cases takes with
  | refused => exact ⟨⟨.gone .refused, by simp, List.mem_cons_self⟩, List.subset_cons_self _ _⟩
  | unregistered => exact ⟨⟨.gone .unregistered, by simp, List.mem_cons_self⟩, List.subset_cons_self _ _⟩
  | admitted =>
      rw [Server.places, Server.places, letIn, livePlaces_insert, ← List.append_assoc]
      refine ⟨⟨.live s.fresh.1, by simp, ?_⟩, List.subset_append_left _ _⟩
      exact List.mem_append_right _ List.mem_cons_self

theorem TakesUpEach.accepted (takes : TakesUpEach now s taken s') : s'.accepted = s.accepted + taken.length := by
  induction takes with
  | none => rfl
  | next first _ ih =>
      rw [ih, first.accepted, List.length_cons]
      omega

theorem TakesUpEach.places (takes : TakesUpEach now s taken s') :
    (∀ i < taken.length, ∃ place, (∀ token, place ≠ .gone (.closed token)) ∧ (s.accepted + i, place) ∈ s'.places) ∧
      s.places ⊆ s'.places := by
  induction takes with
  | none => exact ⟨nofun, List.Subset.refl _⟩
  | next first _ ih =>
      obtain ⟨⟨place, isOpen, here⟩, stay⟩ := first.places
      obtain ⟨later, stay'⟩ := ih
      refine ⟨?_, List.Subset.trans stay stay'⟩
      intro i isTaken
      cases i with
      | zero => exact ⟨place, isOpen, stay' here⟩
      | succ i =>
          obtain ⟨place, isOpen, here⟩ := later i (Nat.lt_of_succ_lt_succ isTaken)
          rw [first.accepted, Nat.add_right_comm] at here
          exact ⟨place, isOpen, here⟩

end Places

section Round

variable {world : World} {s : Server} {kind : ErrorKind} {asked left queue : List Incoming}

theorem takeUp_quiet (world : World) (s : Server) (stream : Stream) (peer : SocketAddress)
    (refusal : Option ErrorKind) (kind : ErrorKind) : .acceptFailed kind ∉ (s.takeUp world stream peer refusal).2 := by
  unfold takeUp
  dsimp only
  split
  · simp
  · cases refusal with
    | none => simp
    | some cause => simp

/-- What goes on is passed over: its clients are taken up, and nothing is reported of its failures. -/
theorem acceptAll_append (goesOn : ∀ result ∈ asked, result.goesOn = true) (left : List Incoming) :
    ∃ between events, TakesUpEach world.clock s (callers asked) between ∧ (∀ kind, .acceptFailed kind ∉ events) ∧
      s.acceptAll world (asked ++ left) =
        ((between.acceptAll world left).1, events ++ (between.acceptAll world left).2.1,
          (between.acceptAll world left).2.2) := by
  induction asked generalizing s with
  | nil => exact ⟨s, [], .none s, nofun, rfl⟩
  | cons result asked ih =>
      obtain ⟨goes, others⟩ := List.forall_mem_cons.mp goesOn
      cases result with
      | client stream peer refusal =>
          have takes := takeUp_takesUp world s stream peer refusal
          have quiet := takeUp_quiet world s stream peer refusal
          obtain ⟨between, events, onward, quiet', same⟩ := @ih (s.takeUp world stream peer refusal).1 others
          refine ⟨between, (s.takeUp world stream peer refusal).2 ++ events, .next takes onward, ?_, ?_⟩
          · intro kind reported
            exact (List.mem_append.mp reported).elim (quiet kind) (quiet' kind)
          · rw [List.cons_append, acceptAll]
            dsimp only
            rw [same, List.append_assoc]
      | failure kind =>
          have passes : kind = .interrupted ∨ kind = .connectionAborted := by
            simpa [Incoming.goesOn] using goes
          have asks : kind ≠ .wouldBlock := by
            rintro rfl
            cases goes
          rw [List.cons_append, acceptAll, if_neg asks, if_pos passes]
          exact ih others

theorem acceptAll_ends (ends : (Incoming.failure kind).goesOn = false) (left : List Incoming) :
    s.acceptAll world (.failure kind :: left) =
      (s, if kind = .wouldBlock then [] else [.acceptFailed kind], left) := by
  have stops : ¬ (kind = .interrupted ∨ kind = .connectionAborted) := by
    simpa [Incoming.goesOn] using ends
  rw [acceptAll, if_neg stops]
  split <;> rfl

/-- A round ends with the first failure that is not passed over, or because it would block. -/
theorem first_end (queue : List Incoming) :
    ∃ kind left, queue.dropWhile Incoming.goesOn ++ [.failure .wouldBlock] = .failure kind :: left ∧
      (Incoming.failure kind).goesOn = false := by
  cases rest : queue.dropWhile Incoming.goesOn with
  | nil => exact ⟨.wouldBlock, [], rfl, rfl⟩
  | cons result behind =>
      have ends : result.goesOn = false := by
        have isNext := List.head?_dropWhile_not Incoming.goesOn queue
        rw [rest] at isNext
        simpa using isNext
      cases result with
      | client => cases ends
      | failure kind => exact ⟨kind, behind ++ [.failure .wouldBlock], rfl, ends⟩

/-- Only a failure that ends a round is reported. -/
theorem mem_report_iff {kind' : ErrorKind}
    (behind : queue.dropWhile Incoming.goesOn ++ [.failure .wouldBlock] = .failure kind :: left) :
    Event.acceptFailed kind' ∈ (if kind = .wouldBlock then [] else [.acceptFailed kind]) ↔
      kind' ≠ .wouldBlock ∧ (queue.dropWhile Incoming.goesOn).head? = some (.failure kind') := by
  cases rest : queue.dropWhile Incoming.goesOn with
  | nil =>
      rw [rest] at behind
      cases behind
      exact iff_of_false List.not_mem_nil nofun
  | cons result others =>
      rw [rest] at behind
      obtain ⟨rfl, -⟩ := List.cons.inj behind
      rw [List.head?_cons, Option.some.injEq, Incoming.failure.injEq]
      split
      · next blocks =>
        refine iff_of_false List.not_mem_nil ?_
        rintro ⟨fails, rfl⟩
        exact fails blocks
      · next fails =>
        rw [List.mem_singleton, Event.acceptFailed.injEq]
        constructor
        · rintro rfl
          exact ⟨fails, rfl⟩
        · exact fun reported => reported.2.symm

theorem callers_append (front back : List Incoming) : callers (front ++ back) = callers front ++ callers back :=
  List.filterMap_append

end Round

/-- Of the clients that wait, a round takes up those in front of the first failure that ends it, and leaves the others
waiting. So it takes up all of them where there is no such failure, and where there is one reports it. -/
theorem round_ends_at_failure (world : World) (s : Server) (queue : List Incoming) :
    let asked := queue.takeWhile Incoming.goesOn
    let round := s.acceptAll world (queue ++ [.failure .wouldBlock])
    TakesUpEach world.clock s (callers asked) round.1 ∧
      round.1.accepted = s.accepted + (callers asked).length ∧
      (∀ i < (callers asked).length, ∃ place,
        (∀ token, place ≠ .gone (.closed token)) ∧ (s.accepted + i, place) ∈ round.1.places) ∧
      callers queue = callers asked ++ callers round.2.2 ∧
      (round.2.2 = [] ↔ ∀ result ∈ queue, result.goesOn = true) ∧
      ∀ kind, .acceptFailed kind ∈ round.2.1 ↔
        kind ≠ .wouldBlock ∧ (queue.dropWhile Incoming.goesOn).head? = some (.failure kind) := by
  intro asked round
  have goesOn : ∀ result ∈ asked, result.goesOn = true := fun _ member => List.mem_takeWhile_imp member
  have parts : asked ++ queue.dropWhile Incoming.goesOn = queue := List.takeWhile_append_dropWhile
  obtain ⟨kind, left, behind, ends⟩ := first_end queue
  obtain ⟨after, events, takes, quiet, same⟩ := @acceptAll_append world s asked goesOn (.failure kind :: left)
  have isRound : round = (after, events ++ if kind = .wouldBlock then [] else [.acceptFailed kind], left) := by
    rw [← behind, ← List.append_assoc, parts, behind, acceptAll_ends ends] at same
    exact same
  rw [isRound]
  refine ⟨takes, takes.accepted, takes.places.1, ?_, ?_, ?_⟩
  · have others : callers (queue.dropWhile Incoming.goesOn) = callers left := by
      have both := congrArg callers behind
      rw [callers_append] at both
      exact (List.append_nil _).symm.trans both
    rw [← others, ← callers_append, parts]
  · constructor
    · rintro rfl
      have none : queue.dropWhile Incoming.goesOn = [] := List.append_inj_left' behind rfl
      rw [← parts, none, List.append_nil]
      exact goesOn
    · intro all
      rw [List.dropWhile_eq_nil_iff.mpr all] at behind
      exact (List.cons.inj behind).2.symm
  · intro kind'
    rw [List.mem_append, or_iff_right (quiet kind'), mem_report_iff behind]

theorem round_leaves_client_waiting :
    ¬ ∀ (world : World) (s : Server) (queue : List Incoming), .failure .wouldBlock ∉ queue →
      (s.acceptAll world (queue ++ [.failure .wouldBlock])).1.accepted = s.accepted + (callers queue).length := by
  intro drains
  have drained := drains emptyWorld (start anySite ⟨2, 64, 1000⟩)
    [.failure .uncategorized, .client {} ⟨.v4 127 0 0 1, 80⟩ none] (by decide)
  exact absurd drained (by decide)

end Docroot.Server
