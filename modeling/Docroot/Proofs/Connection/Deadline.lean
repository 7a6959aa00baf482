import Docroot.Proofs.Connection.HeadReading
import Docroot.Proofs.Connection.Waiting
import Docroot.Proofs.Message.Resumption

/-!
The deadline of a connection. It is set when the client comes and put off only by a write that has got rid of
some of the response and then had to stop, so that a client who sends without end is not waited for longer
than one who sends nothing.
-/
namespace Docroot

/-- Since `before` the stream has taken some of a response, and now it has no room. -/
def Stream.FilledSince (s before : Stream) : Prop := before.output.length < s.output.length ∧ s.IsFull

namespace Delivery

/-- An attempt that had something to write was blocked exactly where the last write found no room. -/
theorem Sends.blocked_iff {fs : FileSystem} {d rest : Delivery} {out next : Stream} {bytes : Bytes}
    {progress : Progress} (h : Sends fs d out bytes progress rest next) (isLeft : d.pending ≠ []) :
    progress = .blocked ↔ next.IsFull := by
  constructor
  · exact h.blocked
  · rintro ⟨offered, full⟩
    obtain ⟨call, latest, ended⟩ := h.endedBy isLeft
    rw [full] at latest
    cases latest
    cases ended with
    | stopped stopped =>
        cases stopped with
        | noRoom => rfl
        | broken notBlocked => exact absurd rfl notBlocked

end Delivery

namespace Connection

/-- A write puts the deadline off where the stream has taken something and then had no room, and leaves it
alone otherwise. -/
theorem flush_deadline {c : Connection} {d : Delivery} (world : World) (writing : c.phase = .writing d)
    (isLeft : d.pending ≠ []) :
    ((c.flush world).1.stream.FilledSince c.stream →
        (c.flush world).1.deadline = c.limits.deadline world.clock) ∧
      (¬ (c.flush world).1.stream.FilledSince c.stream → (c.flush world).1.deadline = c.deadline) := by
  have sends := Delivery.send_sends world.files d c.stream
  have blocked := sends.blocked_iff isLeft
  obtain ⟨took, output, sent, -⟩ := sends.accounts
  have grown : c.stream.output.length < (d.send world.files c.stream).2.2.output.length ↔
      d.sent < (d.send world.files c.stream).2.1.sent := by
    rw [output, sent, List.length_append]
    omega
  generalize result : d.send world.files c.stream = attempt at blocked grown
  obtain ⟨progress, rest, next⟩ := attempt
  unfold flush
  rw [writing]
  dsimp only at blocked grown ⊢
  rw [result]
  cases progress with
  | done | failed => exact ⟨fun filled => (nomatch blocked.mpr filled.2), fun _ => rfl⟩
  | blocked =>
      constructor
      · intro filled
        exact if_pos (grown.mp filled.1)
      · intro notFilled
        exact if_neg fun more => notFilled ⟨grown.mpr more, blocked.mp rfl⟩

theorem flush_limits (c : Connection) (world : World) :
    (c.flush world).1.limits = c.limits ∧ (c.flush world).1.buffer = c.buffer := by
  unfold flush
  split
  · split <;> exact ⟨rfl, rfl⟩
  · exact ⟨rfl, rfl⟩

theorem receive_limits (site : Site) (world : World) (c : Connection) (bytes : Bytes) :
    (receive site world c bytes).1.limits = c.limits ∧
      (receive site world c bytes).1.deadline = c.deadline := by
  unfold receive
  dsimp only
  split
  · exact ⟨rfl, rfl⟩
  · split <;> exact ⟨rfl, rfl⟩

theorem readOnce_limits (site : Site) (world : World) (c : Connection) :
    (c.readOnce site world).limits = c.limits ∧ (c.readOnce site world).deadline = c.deadline := by
  unfold readOnce
  split
  · exact ⟨rfl, rfl⟩
  · exact receive_limits _ _ _ _
  all_goals exact ⟨rfl, rfl⟩

/-- What arrives puts nothing off. -/
theorem takeIn_limits (site : Site) (c : Connection) (o : Occasion) :
    (c.takeIn site o).limits = c.limits ∧ (c.takeIn site o).deadline = c.deadline := by
  apply takeIn_invariant (P := fun t => t.limits = c.limits ∧ t.deadline = c.deadline)
  · rcases checked_eq c o with same | same <;> rw [same] <;> exact ⟨rfl, rfl⟩
  · intro t _ kept
    obtain ⟨limits, deadline⟩ := readOnce_limits site o.world t
    exact ⟨limits.trans kept.1, deadline.trans kept.2⟩

theorem handle_limits (site : Site) (c : Connection) (o : Occasion) :
    (c.handle site o).limits = c.limits := by
  rw [handle_eq]
  split
  · exact (flush_limits _ _).1.trans (takeIn_limits site c o).1
  · exact (takeIn_limits site c o).1

/-- A response that an event goes on with, or begins, is not yet sent. -/
theorem takeIn_pending {site : Site} {c : Connection} (o : Occasion) {d : Delivery}
    (isLeft : ∀ rest, c.phase = .writing rest → rest.pending ≠ [])
    (writing : (c.takeIn site o).phase = .writing d) : d.pending ≠ [] := by
  by_cases reading : c.phase = .reading
  · have opens : c.opens site o = some d := by rw [Connection.opens, reading, writing]
    obtain ⟨_, reply⟩ := opens_reply opens
    exact reply.pending_ne_nil
  · have left : (c.checked o).phase ≠ .reading := by
      rcases checked_eq c o with same | same <;> simp [same, reading]
    rw [takeIn_of_not_reading left] at writing
    rcases checked_eq c o with same | same
    · exact isLeft d (same ▸ writing)
    · rw [same] at writing
      cases writing

/-- An event puts the deadline off where its writes have got rid of something and then had to stop, and leaves
it alone otherwise. -/
theorem handle_deadline (site : Site) {c : Connection} (o : Occasion)
    (isLeft : ∀ rest, c.phase = .writing rest → rest.pending ≠ []) :
    ((c.handle site o).stream.FilledSince c.stream →
        (c.handle site o).deadline = c.limits.deadline o.world.clock) ∧
      (¬ (c.handle site o).stream.FilledSince c.stream → (c.handle site o).deadline = c.deadline) := by
  obtain ⟨output, -⟩ := takeIn_output site c o
  obtain ⟨limits, deadline⟩ := takeIn_limits site c o
  have silent : ¬ (c.takeIn site o).stream.FilledSince c.stream := by
    rintro ⟨grown, -⟩
    exact absurd grown (by simp [output])
  rw [handle_eq]
  split
  · cases phase : (c.takeIn site o).phase with
    | writing d =>
        have flushed := flush_deadline o.world phase (takeIn_pending o isLeft phase)
        rw [limits, deadline] at flushed
        rwa [Stream.FilledSince, output] at flushed
    | reading | closed =>
        rw [flush_of_not_writing o.world (by simp [phase])]
        exact ⟨fun filled => absurd filled silent, fun _ => deadline⟩
  · exact ⟨fun filled => absurd filled silent, fun _ => deadline⟩

/-- The octets make up a whole head, or there is no room for more of it. -/
def HeadEnded (limit : Nat) (text : Bytes) : Prop := Head.terminatorOffset? text ≠ none ∨ limit ≤ text.length

/-- The connection reads only as long as the head is to go on, and writes only once it has ended. -/
structure Gathers (limit : Nat) (c : Connection) : Prop where
  sameLimit : c.limits.maxHeaderBytes = limit
  reading : c.phase = .reading → ¬ HeadEnded limit c.buffer
  writing : ∀ d, c.phase = .writing d → HeadEnded limit c.buffer

section Gathers

variable {site : Site} {world : World} {limit : Nat} {c : Connection}

theorem Gathers.of_closed (sameLimit : c.limits.maxHeaderBytes = limit) (closed : c.phase = .closed) :
    c.Gathers limit where
  sameLimit := sameLimit
  reading reading := nomatch closed.symm.trans reading
  writing _ writing := nomatch closed.symm.trans writing

theorem Gathers.receive {bytes : Bytes} {next : Stream} (h : c.Gathers limit) (reading : c.phase = .reading) :
    (Connection.receive site world { c with stream := next } bytes).1.Gathers limit := by
  obtain ⟨noEnd, -⟩ := not_or.mp (h.reading reading)
  rw [receive_eq site world bytes (c := { c with stream := next }) (not_not.mp noEnd)]
  unfold received
  dsimp only
  split
  · next i found => exact ⟨h.sameLimit, nofun, fun _ _ => .inl (by simp [found])⟩
  · next notFound =>
    rw [h.sameLimit]
    split
    · next full => exact ⟨h.sameLimit, nofun, fun _ _ => .inr full⟩
    · next room =>
      refine ⟨h.sameLimit, fun _ => ?_, fun d writing => nomatch reading.symm.trans writing⟩
      rintro (found | full)
      · exact found notFound
      · exact room full

theorem Gathers.readOnce (h : c.Gathers limit) (reading : c.phase = .reading) :
    (c.readOnce site world).Gathers limit := by
  unfold Connection.readOnce
  split
  · exact .of_closed h.sameLimit rfl
  · exact h.receive reading
  · exact ⟨h.sameLimit, h.reading, h.writing⟩
  · exact ⟨h.sameLimit, h.reading, h.writing⟩
  · exact .of_closed h.sameLimit rfl

theorem Gathers.takeIn {o : Occasion} (h : c.Gathers limit) : (c.takeIn site o).Gathers limit := by
  apply takeIn_invariant (P := Gathers limit)
  · rcases checked_eq c o with same | same <;> rw [same]
    · exact h
    · exact .of_closed h.sameLimit rfl
  · intro t reading gathers
    exact gathers.readOnce reading

theorem Gathers.handle {o : Occasion} (h : c.Gathers limit) : (c.handle site o).Gathers limit := by
  have taken : (c.takeIn site o).Gathers limit := h.takeIn
  cases phase : (c.takeIn site o).phase with
  | reading | closed => rwa [handle_of_idle (by simp [phase])]
  | writing d =>
      rw [handle_eq]
      split
      · obtain ⟨limits, buffer⟩ := flush_limits (c.takeIn site o) o.world
        refine ⟨limits ▸ taken.sameLimit, ?_, ?_⟩
        · intro reading
          have := stage_flush (c.takeIn site o) o.world
          simp [reading, phase, Phase.stage] at this
        · intro rest _
          exact buffer ▸ taken.writing d phase
      · exact taken

theorem history_gathers (site : Site) (stream : Stream) (peer : SocketAddress) (limits : Limits) (now : Nat)
    (occasions : List Occasion) :
    ((start stream peer limits now).history site occasions).connection.Gathers
      (max limits.maxHeaderBytes Limits.minHeaderBytes) := by
  apply history_invariant (P := fun h => h.connection.Gathers _)
  · refine ⟨rfl, ?_, nofun⟩
    rintro - (found | full)
    · exact found rfl
    · have positive : 0 < Limits.minHeaderBytes := by decide
      have := Nat.le_max_right limits.maxHeaderBytes Limits.minHeaderBytes
      have empty : max limits.maxHeaderBytes Limits.minHeaderBytes ≤ 0 := full
      omega
  · intro h o _ gathers
    exact gathers.handle

end Gathers

/-- The deadline was set when the client came or at one of the moments, and it is still the one from the
beginning while the head is read. -/
structure Timed (limits : Limits) (now : Nat) (moments : List Nat) (c : Connection) : Prop where
  sameTimeout : c.limits.idleTimeout = limits.idleTimeout
  since : ∃ moment ∈ now :: moments, c.deadline = limits.deadline moment
  reading : c.phase = .reading → c.deadline = limits.deadline now

/-- A connection that goes on reading has done nothing but take in what has arrived. -/
theorem handle_of_reading {site : Site} {c : Connection} {o : Occasion}
    (stays : (c.handle site o).phase = .reading) :
    c.phase = .reading ∧ c.handle site o = c.takeIn site o := by
  have first := stage_checked c o
  have second := stage_takeIn site c o
  have third := stage_handle site c o
  have taken : (c.takeIn site o).phase = .reading := by
    cases phase : (c.takeIn site o).phase with
    | reading => rfl
    | writing | closed => simp [stays, phase, Phase.stage] at third
  have reading : c.phase = .reading := by
    cases phase : c.phase with
    | reading => rfl
    | writing | closed =>
        rw [phase] at first
        rw [taken] at second
        simp only [Phase.stage] at first second
        omega
  exact ⟨reading, handle_of_idle (by simp [taken])⟩

theorem Timed.handle {site : Site} {limits : Limits} {now : Nat} {moments : List Nat} {c : Connection}
    {o : Occasion} (h : c.Timed limits now moments) (member : o.world.clock ∈ moments)
    (isLeft : ∀ rest, c.phase = .writing rest → rest.pending ≠ []) :
    (c.handle site o).Timed limits now moments := by
  obtain ⟨putOff, kept⟩ := handle_deadline site o isLeft
  refine ⟨by rw [handle_limits, h.sameTimeout], ?_, ?_⟩
  · by_cases filled : (c.handle site o).stream.FilledSince c.stream
    · refine ⟨o.world.clock, List.mem_cons_of_mem _ member, ?_⟩
      rw [putOff filled, Limits.deadline, h.sameTimeout, Limits.deadline]
    · obtain ⟨moment, isMoment, same⟩ := h.since
      exact ⟨moment, isMoment, (kept filled).trans same⟩
  · intro stays
    obtain ⟨reading, same⟩ := handle_of_reading stays
    rw [same, (takeIn_limits site c o).2, h.reading reading]

theorem history_timed (site : Site) (arrivals : List Arrival) (acceptances : List Acceptance)
    (peer : SocketAddress) (limits : Limits) (now : Nat) (occasions : List Occasion) :
    ((start (.fresh arrivals acceptances) peer limits now).history site occasions).connection.Timed
      limits now (occasions.map (·.world.clock)) := by
  let c := start (.fresh arrivals acceptances) peer limits now
  have timed : (c.history site occasions).Consistent ∧
      (c.history site occasions).connection.Timed limits now (occasions.map (·.world.clock)) := by
    apply history_invariant (P := fun h => h.Consistent ∧ h.connection.Timed limits now _)
    · exact ⟨.reading rfl ⟨rfl, rfl, rfl, rfl⟩, rfl, ⟨now, List.mem_cons_self, rfl⟩, fun _ => rfl⟩
    · rintro h o member ⟨consistent, timed⟩
      refine ⟨History.consistent_next o consistent, ?_⟩
      exact timed.handle (List.mem_map_of_mem member) fun rest => consistent.pending_ne_nil
  exact timed.2

/-- Along every run whose clock does not go back: while a connection reads, its deadline is the one from its
beginning, whatever has arrived. An event puts the deadline off, to the idle time from then, where the stream
has taken some of the response and then had no room; no other event moves it, and none brings it forward. So a
client who has neither sent a whole head nor filled the room for one is given up once the idle time from the
beginning is over, unless the connection has been closed before. -/
theorem reading_buys_no_time (site : Site) (arrivals : List Arrival) (acceptances : List Acceptance)
    (peer : SocketAddress) (limits : Limits) (now : Nat) (occasions : List Occasion) (o : Occasion)
    (onward : (now :: (occasions ++ [o]).map (·.world.clock)).Pairwise (· ≤ ·)) :
    let idle := min limits.idleTimeout Limits.maxIdleTimeout
    let c := ((start (.fresh arrivals acceptances) peer limits now).history site occasions).connection
    let next := c.handle site o
    (c.phase = .reading → c.deadline = now + idle) ∧
      (next.stream.FilledSince c.stream → next.deadline = o.world.clock + idle) ∧
      (¬ next.stream.FilledSince c.stream → next.deadline = c.deadline) ∧
      c.deadline ≤ next.deadline ∧
      (Head.terminatorOffset? c.buffer = none →
        c.buffer.length < max limits.maxHeaderBytes Limits.minHeaderBytes →
        ∀ time, now + idle ≤ time → c.isExpired time = true ∨ c.phase = .closed) := by
  intro idle c next
  have consistent : History.Consistent _ :=
    history_consistent site arrivals acceptances peer limits now occasions
  have timed : c.Timed limits now _ := history_timed site arrivals acceptances peer limits now occasions
  have gathers : c.Gathers _ := history_gathers site (.fresh arrivals acceptances) peer limits now occasions
  obtain ⟨putOff, kept⟩ : (next.stream.FilledSince c.stream → next.deadline = _) ∧ _ :=
    handle_deadline site o fun rest => consistent.pending_ne_nil
  rw [Limits.deadline, timed.sameTimeout] at putOff
  refine ⟨timed.reading, putOff, kept, ?_, ?_⟩
  · by_cases filled : next.stream.FilledSince c.stream
    · obtain ⟨moment, isMoment, same⟩ := timed.since
      have earlier : moment ≤ o.world.clock := by
        rw [List.map_append, ← List.cons_append, List.pairwise_append] at onward
        exact onward.2.2 moment isMoment _ (List.mem_singleton_self _)
      rw [putOff filled, same]
      exact Nat.add_le_add_right earlier _
    · exact Nat.le_of_eq (kept filled).symm
  · intro noEnd room time late
    cases phase : c.phase with
    | reading =>
        have past : limits.deadline now ≤ time := late
        refine .inl ?_
        rw [isExpired, isClosed, phase, timed.reading phase]
        simpa using past
    | writing d =>
        rcases gathers.writing d phase with found | full
        · exact absurd noEnd found
        · exact absurd full (Nat.not_le_of_lt room)
    | closed => exact .inr rfl

/-- Now and then an octet, and no more than a method. -/
def slowly : List Arrival :=
  [.octets (utf8 "G"), .failure .wouldBlock, .octets (utf8 "E"), .failure .wouldBlock, .octets (utf8 "T")]

def slowClient : Connection := start (.fresh slowly []) ⟨.v4 127 0 0 1, 80⟩ ⟨1, 0, 1000⟩ 0

def arrivalAt (clock : Nat) : Occasion := { arrival with world := { arrival.world with clock } }

/-- The third octet comes just before the idle time is over and does not put its end off. -/
theorem reading_buys_no_time_for_slow_client :
    let late := (slowClient.history emptySite [arrivalAt 0, arrivalAt 500, arrivalAt 999]).connection
    late.buffer = utf8 "GET" ∧ late.deadline = 1000 ∧ late.isExpired 1000 = true := by
  have arrived : (slowClient.history emptySite
      [arrivalAt 0, arrivalAt 500, arrivalAt 999]).connection.buffer = utf8 "GET" := by cbv
  have reads : (slowClient.history emptySite
      [arrivalAt 0, arrivalAt 500, arrivalAt 999]).connection.phase.stage = 0 := by cbv
  have onward : (0 :: ([arrivalAt 0, arrivalAt 500, arrivalAt 999] ++ [arrivalAt 1000]).map
      (·.world.clock)).Pairwise (· ≤ ·) := by decide
  obtain ⟨reading, -, -, -, givenUp⟩ := reading_buys_no_time emptySite slowly [] ⟨.v4 127 0 0 1, 80⟩
    ⟨1, 0, 1000⟩ 0 [arrivalAt 0, arrivalAt 500, arrivalAt 999] (arrivalAt 1000) onward
  intro late
  have stays : late.phase = .reading := by
    cases phase : late.phase with
    | reading => rfl
    | writing | closed => rw [phase] at reads; cases reads
  have noEnd : Head.terminatorOffset? late.buffer = none := by rw [arrived]; decide
  have room : late.buffer.length < max 0 Limits.minHeaderBytes := by rw [arrived]; decide
  refine ⟨arrived, reading stays, (givenUp noEnd room 1000 (Nat.le_refl _)).resolve_right ?_⟩
  intro closed
  cases stays.symm.trans closed

/-- A client who sends as much as a head may have without an end of one, and takes one octet of the refusal. -/
def talkativeClient : Connection :=
  start (.fresh [.octets (List.replicate 64 97)] [.upTo 1, .failure .wouldBlock]) ⟨.v4 127 0 0 1, 80⟩ ⟨1, 0, 1000⟩ 0

def refusal : Delivery := emptySite.deliver arrival.world (.error .badRequest)

def heardOut : Connection :=
  { talkativeClient with
    stream := (talkativeClient.stream.read 64).2, buffer := List.replicate 64 97, phase := .writing refusal }

theorem talkative_heard : readHead emptySite (arrivalAt 500).world talkativeClient =
    (heardOut, [.headTooLarge talkativeClient.peer 64]) := by
  cbv

theorem refusal_stopped : refusal.flushPending heardOut.stream =
    (some .blocked, { refusal with pending := refusal.pending.tail, sent := 1 },
      { calls := .notAccepted (refusal.pending.length - 1) .wouldBlock ::
          .accepted refusal.pending.length [72] :: heardOut.stream.calls }) := by
  cbv

/-- The client has sent no end of a head, and is waited for beyond the idle time from the beginning, to take the
rest of the refusal. -/
theorem refusal_buys_time :
    let late := (talkativeClient.history emptySite [arrivalAt 500]).connection
    Head.terminatorOffset? late.buffer = none ∧ late.isClosed = false ∧ late.deadline = 1500 ∧
      late.isExpired 1000 = false := by
  have heard : talkativeClient.takeIn emptySite (arrivalAt 500) = heardOut := by
    have reads : talkativeClient.takeIn emptySite (arrivalAt 500) =
        (readHead emptySite (arrivalAt 500).world talkativeClient).1 := rfl
    rw [reads, talkative_heard]
  have late : (talkativeClient.history emptySite [arrivalAt 500]).connection =
      (heardOut.flush (arrivalAt 500).world).1 := by
    change talkativeClient.handle emptySite (arrivalAt 500) = _
    rw [handle_eq, heard]
    rfl
  have sent : refusal.send (arrivalAt 500).world.files heardOut.stream = _ := Delivery.send_stopped refusal_stopped
  rw [late, flush]
  dsimp only [heardOut] at sent ⊢
  rw [sent]
  exact ⟨by cbv, rfl, rfl, rfl⟩

end Connection
end Docroot
