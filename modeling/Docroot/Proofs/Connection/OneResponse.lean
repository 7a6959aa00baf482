import Docroot.Proofs.Connection.Run

/-!
A connection answers once. Along every run the octets that the client has been given are the beginning of
one response, the run knows when all of it has gone out, and a connection that is closed does nothing more.
What carries this is an account: what has been given and what is ready make up what was ready at first and
what has been read since.
-/
namespace Docroot

namespace History

structure Silent (h : History) : Prop where
  responses : h.responses = []
  loaded : h.loaded = []
  output : h.connection.stream.output = []
  unsent : h.connection.responseSent = false

/-- What has been written fits the one response that was begun, by the phase of the connection. -/
inductive Consistent (h : History) : Prop
  | reading : h.connection.phase = .reading → h.Silent → Consistent h
  | writing {o : Occasion} {d rest : Delivery} : h.connection.phase = .writing rest →
      h.responses = [(o, d)] →
      h.connection.stream.output ++ rest.pending = d.pending ++ h.loaded → rest.pending ≠ [] →
      h.loaded.length + rest.unreadFile = d.unreadFile →
      h.connection.responseSent = false → Consistent h
  | silent : h.connection.phase = .closed → h.Silent → Consistent h
  | ended {o : Occasion} {d : Delivery} : h.connection.phase = .closed → h.responses = [(o, d)] →
      h.connection.stream.output <+: d.pending ++ h.loaded → h.loaded.length ≤ d.unreadFile →
      (h.connection.responseSent = true ↔
        h.connection.stream.output = d.pending ++ h.loaded ∧ h.loaded.length = d.unreadFile) →
      Consistent h

/-- A write keeps the account of the response that is being written. -/
theorem consistent_of_flush {h : History} {t : Connection} {o : Occasion} {world : World}
    {d rest : Delivery} {loaded : Bytes} (writing : t.phase = .writing rest)
    (account : t.stream.output ++ rest.pending = d.pending ++ loaded)
    (length : loaded.length + rest.unreadFile = d.unreadFile) (unsent : t.responseSent = false)
    (connection : h.connection = (t.flush world).1) (begun : h.responses = [(o, d)])
    (read : h.loaded = loaded ++ rest.loads world.files t.stream) : h.Consistent := by
  obtain ⟨progress, left, next, sends, stream, outcome⟩ := Connection.flush_writing world writing
  obtain ⟨took, output, -, added⟩ := sends.accounts
  have accounts := Delivery.Accounts.trans account length added
  rw [← read, ← output, ← stream, ← connection] at accounts
  rw [← connection] at outcome
  cases progress with
  | done =>
      obtain ⟨phase, sent⟩ := outcome
      obtain ⟨all, full⟩ := accounts
      exact .ended phase begun (all ▸ List.prefix_rfl) (Nat.le_of_eq full) ⟨fun _ => ⟨all, full⟩, fun _ => sent⟩
  | blocked =>
      obtain ⟨phase, sent⟩ := outcome
      obtain ⟨taken, isLeft, complete⟩ := accounts
      exact .writing phase begun taken isLeft complete (sent.trans unsent)
  | failed e =>
      obtain ⟨phase, sent⟩ := outcome
      obtain ⟨taken, bound, short⟩ := accounts
      refine .ended phase begun taken bound ?_
      rw [sent, unsent]
      constructor
      · intro impossible
        cases impossible
      · rintro ⟨all, full⟩
        exact absurd full (Nat.ne_of_lt (short all))

theorem consistent_of_opens {site : Site} {h : History} {o : Occasion} {d : Delivery}
    (silent : h.Silent) (opens : h.connection.opens site o = some d) : (h.next site o).Consistent := by
  obtain ⟨-, writing, -⟩ := Connection.opens_eq_some opens
  obtain ⟨output, unsent⟩ := Connection.takeIn_output site h.connection o
  obtain ⟨connection, responses, loaded⟩ := next_opens opens
  have account : (h.connection.takeIn site o).stream.output ++ d.pending = d.pending ++ [] := by
    rw [output, silent.output, List.nil_append, List.append_nil]
  rw [silent.responses] at responses
  rw [silent.loaded] at loaded
  exact consistent_of_flush writing account (Nat.zero_add _) (unsent.trans silent.unsent) connection
    responses loaded

/-- An event that begins no response while none has been begun writes nothing. -/
theorem silent_next {site : Site} {h : History} {o : Occasion} (silent : h.Silent)
    (idle : ∀ d, (h.connection.takeIn site o).phase ≠ .writing d) : (h.next site o).Silent := by
  obtain ⟨output, unsent⟩ := Connection.takeIn_output site h.connection o
  have handled := Connection.handle_of_idle idle
  refine ⟨?_, ?_, ?_, ?_⟩
  · rw [next_responses, silent.responses, Connection.opens_of_idle idle]
    rfl
  · rw [next_loaded, silent.loaded, List.nil_append]
    unfold Connection.loads
    split
    · next d _ writing => exact absurd writing (idle d)
    · rfl
  · rw [next_connection, handled, output, silent.output]
  · rw [next_connection, handled, unsent, silent.unsent]

/-- An event keeps the account of the response that it meets, whether it goes on with it or gives it up. -/
theorem consistent_of_writing {site : Site} {h : History} {first : Occasion} {d rest : Delivery} (o : Occasion)
    (writing : h.connection.phase = .writing rest) (begun : h.responses = [(first, d)])
    (account : h.connection.stream.output ++ rest.pending = d.pending ++ h.loaded) (left : rest.pending ≠ [])
    (length : h.loaded.length + rest.unreadFile = d.unreadFile) (unsent : h.connection.responseSent = false) :
    (h.next site o).Consistent := by
  obtain ⟨responses, goesOn | waits | givenUp⟩ := next_writing site o writing
  · obtain ⟨connection, loaded⟩ := goesOn
    exact consistent_of_flush writing account length unsent connection (responses.trans begun) loaded
  · obtain ⟨connection, loaded⟩ := waits
    refine .writing (connection ▸ writing) (responses.trans begun) ?_ left ?_ ?_
    · rw [connection, loaded, account]
    · rw [loaded, length]
    · rw [connection, unsent]
  · -- What is left is never sent, so that the response does not count as sent.
    obtain ⟨connection, loaded⟩ := givenUp
    refine .ended ?_ (responses.trans begun) ?_ ?_ ?_
    · rw [connection]
    · rw [connection, loaded, ← account]
      exact List.prefix_append _ _
    · rw [loaded]
      omega
    · rw [connection, loaded]
      constructor
      · intro sent
        exact absurd sent (by simp [unsent])
      · rintro ⟨all, -⟩
        change h.connection.stream.output = _ at all
        rw [← account] at all
        exact absurd (List.self_eq_append_right.mp all) left

theorem consistent_next {site : Site} {h : History} (o : Occasion) (consistent : h.Consistent) :
    (h.next site o).Consistent := by
  cases consistent with
  | reading reading silent =>
      cases phase : (h.connection.takeIn site o).phase with
      | writing d =>
          exact consistent_of_opens silent (by rw [Connection.opens, reading, phase])
      | reading =>
          have idle : ∀ d, (h.connection.takeIn site o).phase ≠ .writing d := by simp [phase]
          refine .reading ?_ (silent_next silent idle)
          rw [next_connection, Connection.handle_of_idle idle, phase]
      | closed =>
          have idle : ∀ d, (h.connection.takeIn site o).phase ≠ .writing d := by simp [phase]
          refine .silent ?_ (silent_next silent idle)
          rw [next_connection, Connection.handle_of_idle idle, phase]
  | writing writing begun account left length unsent =>
      exact consistent_of_writing o writing begun account left length unsent
  | silent closed silent =>
      have stays := next_closed site o closed
      refine .silent ?_ ⟨?_, ?_, ?_, ?_⟩
      · rw [stays.1, closed]
      · rw [stays.2.1, silent.responses]
      · rw [stays.2.2, silent.loaded]
      · rw [stays.1, silent.output]
      · rw [stays.1, silent.unsent]
  | ended closed begun account bound full =>
      obtain ⟨connection, responses, loaded⟩ := next_closed site o closed
      refine .ended ?_ (responses.trans begun) ?_ ?_ ?_
      · rw [connection, closed]
      · rw [connection, loaded]; exact account
      · rw [loaded]; exact bound
      · rw [connection, loaded]; exact full

section Consistent

variable {h : History}

theorem Consistent.responses_length_le (consistent : h.Consistent) : h.responses.length ≤ 1 := by
  cases consistent with
  | reading _ silent | silent _ silent => simp [silent.responses]
  | writing _ begun | ended _ begun => simp [begun]

theorem Consistent.output_nil (consistent : h.Consistent) (none_ : h.responses = []) :
    h.connection.stream.output = [] := by
  cases consistent with
  | reading _ silent | silent _ silent => exact silent.output
  | writing _ begun | ended _ begun => cases none_.symm.trans begun

theorem Consistent.silent_of_reading (consistent : h.Consistent) (reading : h.connection.phase = .reading) :
    h.Silent := by
  cases consistent with
  | reading _ silent => exact silent
  | writing phase | silent phase | ended phase => cases reading.symm.trans phase

theorem Consistent.left_of_begun (consistent : h.Consistent) {o : Occasion} {d : Delivery}
    (begun : (o, d) ∈ h.responses) : h.connection.phase ≠ .reading := by
  intro reading
  rw [(consistent.silent_of_reading reading).responses] at begun
  cases begun

theorem Consistent.pending_ne_nil (consistent : h.Consistent) {rest : Delivery}
    (writing : h.connection.phase = .writing rest) : rest.pending ≠ [] := by
  cases consistent with
  | writing phase _ _ left => exact Phase.writing.inj (phase.symm.trans writing) ▸ left
  | reading phase | silent phase | ended phase => cases writing.symm.trans phase

theorem Consistent.closed_of_sent (consistent : h.Consistent) (sent : h.connection.responseSent = true) :
    h.connection.phase = .closed := by
  cases consistent with
  | reading _ silent => cases sent.symm.trans silent.unsent
  | writing _ _ _ _ _ unsent => cases sent.symm.trans unsent
  | silent closed | ended closed => exact closed

theorem Consistent.output_isPrefix (consistent : h.Consistent) {o : Occasion} {d : Delivery}
    (begun : (o, d) ∈ h.responses) : h.connection.stream.output <+: d.sequence h.loaded := by
  cases consistent with
  | reading _ silent | silent _ silent => simp [silent.responses] at begun
  | writing _ same account _ length =>
      rw [same, List.mem_singleton] at begun
      cases begun
      rw [Delivery.sequence_of_le (by omega), ← account]
      exact List.prefix_append _ _
  | ended _ same account bound =>
      rw [same, List.mem_singleton] at begun
      cases begun
      rw [Delivery.sequence_of_le bound]
      exact account

/-- A response counts as sent exactly when all of its octets have been taken. -/
theorem Consistent.sent_iff (consistent : h.Consistent) : h.connection.responseSent = true ↔
    ∃ o d, (o, d) ∈ h.responses ∧ h.loaded.length = d.unreadFile ∧
      h.connection.stream.output = d.sequence h.loaded := by
  constructor
  · intro sent
    cases consistent with
    | reading _ silent | silent _ silent => cases sent.symm.trans silent.unsent
    | writing _ _ _ _ _ unsent => cases sent.symm.trans unsent
    | @ended o d _ same _ bound full =>
        obtain ⟨complete, length⟩ := full.mp sent
        refine ⟨o, d, same ▸ List.mem_singleton_self _, length, ?_⟩
        rw [Delivery.sequence_of_le bound]
        exact complete
  · rintro ⟨o, d, begun, length, complete⟩
    rw [Delivery.sequence_of_le (Nat.le_of_eq length)] at complete
    cases consistent with
    | reading _ silent | silent _ silent => simp [silent.responses] at begun
    | writing _ same account left =>
        rw [same, List.mem_singleton] at begun
        cases begun
        rw [← account] at complete
        exact absurd (List.self_eq_append_right.mp complete) left
    | ended _ same _ _ full =>
        rw [same, List.mem_singleton] at begun
        cases begun
        exact full.mpr ⟨complete, length⟩

end Consistent

/-- The phases passed through stand in order, and none comes after the present one. -/
structure Ordered (h : History) : Prop where
  pairwise : (h.phases.map Phase.stage).Pairwise (· ≤ ·)
  present : ∀ stage ∈ h.phases.map Phase.stage, stage ≤ h.connection.phase.stage

end History

namespace Connection

theorem stage_checked (c : Connection) (o : Occasion) : c.phase.stage ≤ (c.checked o).phase.stage := by
  rcases checked_eq c o with same | same
  · exact Nat.le_of_eq (by rw [same])
  · rw [same]
    exact Phase.stage_le_closed _

theorem stage_takeIn (site : Site) (c : Connection) (o : Occasion) :
    (c.checked o).phase.stage ≤ (c.takeIn site o).phase.stage := by
  by_cases reading : (c.checked o).phase = .reading
  · rw [reading]
    exact Nat.zero_le _
  · exact Nat.le_of_eq (by rw [takeIn_of_not_reading reading])

theorem stage_flush (c : Connection) (world : World) : c.phase.stage ≤ (c.flush world).1.phase.stage := by
  cases phase : c.phase with
  | reading => exact Nat.zero_le _
  | closed => exact Nat.le_of_eq (by rw [flush_of_not_writing world (by simp [phase]), phase])
  | writing d =>
      obtain ⟨progress, rest, next, -, -, outcome⟩ := flush_writing world phase
      cases progress <;> rw [outcome.1] <;> simp [Phase.stage]

theorem stage_handle (site : Site) (c : Connection) (o : Occasion) :
    (c.takeIn site o).phase.stage ≤ (c.handle site o).phase.stage := by
  rw [handle_eq]
  split
  · exact stage_flush _ _
  · exact Nat.le_refl _

end Connection

namespace History

theorem ordered_next {site : Site} {h : History} (o : Occasion) (ordered : h.Ordered) :
    (h.next site o).Ordered := by
  have first := Connection.stage_checked h.connection o
  have second := Connection.stage_takeIn site h.connection o
  have third := Connection.stage_handle site h.connection o
  have earlier := ordered.present
  constructor
  · simp only [next, List.map_append, List.map_cons, List.map_nil, List.pairwise_append]
    refine ⟨ordered.pairwise, by simp; omega, ?_⟩
    intro a before b after
    have := earlier a before
    simp only [List.mem_cons, List.not_mem_nil, or_false] at after
    omega
  · intro stage passed
    simp only [next, List.map_append, List.map_cons, List.map_nil, List.mem_append, List.mem_cons,
      List.not_mem_nil, or_false] at passed
    change stage ≤ (h.connection.handle site o).phase.stage
    rcases passed with before | now
    · have := earlier stage before
      omega
    · omega

end History

namespace Connection

theorem history_consistent (site : Site) (arrivals : List Arrival) (acceptances : List Acceptance)
    (peer : SocketAddress) (limits : Limits) (now : Nat) (occasions : List Occasion) :
    ((start (.fresh arrivals acceptances) peer limits now).history site occasions).Consistent := by
  apply history_invariant
  · exact .reading rfl ⟨rfl, rfl, rfl, rfl⟩
  · intro h o _ consistent
    exact History.consistent_next o consistent

theorem history_ordered (site : Site) (c : Connection) (occasions : List Occasion) :
    (c.history site occasions).Ordered := by
  apply history_invariant
  · refine ⟨List.pairwise_singleton _ _, ?_⟩
    intro stage passed
    exact Nat.le_of_eq (List.mem_singleton.mp passed)
  · intro h o _ ordered
    exact History.ordered_next o ordered

theorem history_reply (site : Site) (c : Connection) (occasions : List Occasion) :
    ∀ o d, (o, d) ∈ (c.history site occasions).responses → ∃ sent, site.Reply o.world sent d := by
  apply history_invariant (P := fun h => ∀ o d, (o, d) ∈ h.responses → ∃ sent, site.Reply o.world sent d)
  · intro o d begun
    cases begun
  · intro h first _ replies o d begun
    rcases List.mem_append.mp begun with earlier | now
    · exact replies o d earlier
    · simp only [Option.mem_toList, Option.map_eq_some_iff, Prod.mk.injEq] at now
      obtain ⟨_, opened, rfl, rfl⟩ := now
      exact opens_reply opened

/-- Along every run the phases never go back, at most one response is begun, nothing is written before, and
what the client has been given is the beginning of its octets; the response counts as sent exactly when all
of them have been taken, and a closed connection does nothing more. -/
theorem one_response (site : Site) (arrivals : List Arrival) (acceptances : List Acceptance)
    (peer : SocketAddress) (limits : Limits) (now : Nat) (occasions : List Occasion) :
    let h := (start (.fresh arrivals acceptances) peer limits now).history site occasions
    (h.phases.map Phase.stage).Pairwise (· ≤ ·) ∧
      h.responses.length ≤ 1 ∧
      (h.responses = [] → h.connection.stream.output = []) ∧
      (∀ o d, h.connection.opens site o = some d →
        h.responses = [] ∧ (h.connection.takeIn site o).stream.output = []) ∧
      (∀ o d, (o, d) ∈ h.responses →
        (∃ sent, site.Reply o.world sent d) ∧ h.connection.stream.output <+: d.sequence h.loaded) ∧
      (h.connection.responseSent = true ↔
        ∃ o d, (o, d) ∈ h.responses ∧ h.loaded.length = d.unreadFile ∧
          h.connection.stream.output = d.sequence h.loaded) ∧
      (h.connection.responseSent = true → h.connection.phase = .closed) ∧
      (h.connection.phase = .closed → ∀ o : Occasion,
        ready site o.world h.connection o.readiness = (h.connection, []) ∧
          h.connection.step = .close) := by
  intro h
  have consistent : h.Consistent :=
    history_consistent site arrivals acceptances peer limits now occasions
  have ordered : h.Ordered := history_ordered site _ occasions
  refine ⟨ordered.pairwise, consistent.responses_length_le, consistent.output_nil, ?_, ?_,
    consistent.sent_iff, consistent.closed_of_sent, ?_⟩
  · intro o d opens
    have silent : h.Silent := consistent.silent_of_reading (opens_eq_some opens).1
    exact ⟨silent.responses, (takeIn_output site h.connection o).1.trans silent.output⟩
  · intro o d begun
    exact ⟨history_reply site _ occasions o d begun, consistent.output_isPrefix begun⟩
  · intro closed o
    exact ⟨handle_closed site o closed, step_closed closed⟩

end Connection

end Docroot
