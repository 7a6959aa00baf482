import Docroot.Connection
import Docroot.Proofs.Message.Delivery
import Docroot.Proofs.Site.Answer

/-!
Runs of a connection. An event is handled in three steps: a failed stream closes the connection, what has
arrived is taken in, and then something may be written. A history keeps what a run has passed through
beside the connection it has led to, so that statements about whole runs are statements about one value.
-/
namespace Docroot

/-- An event for a connection, and the world in which it is handled. -/
structure Occasion where
  world : World
  readiness : Readiness

/-- How far along a phase is. -/
def Phase.stage : Phase → Nat
  | .reading => 0
  | .writing _ => 1
  | .closed => 2

theorem Phase.stage_le_closed (p : Phase) : p.stage ≤ Phase.closed.stage := by
  cases p <;> simp [stage]

namespace Connection

/-- The connection after the look whether its stream has failed. -/
def checked (c : Connection) (o : Occasion) : Connection := (c.checkFailure o.readiness).1

/-- The connection after the reads of an event, before anything is written. -/
def takeIn (site : Site) (c : Connection) (o : Occasion) : Connection :=
  if o.readiness.readable ∧ (c.checked o).phase = .reading then
    (readHead site o.world (c.checked o)).1
  else c.checked o

def handle (site : Site) (c : Connection) (o : Occasion) : Connection :=
  (ready site o.world c o.readiness).1

/-- Whether an event lets a response go on, or one that it has just begun. -/
def mayWrite (c : Connection) (o : Occasion) : Bool :=
  o.readiness.writable || (c.checked o).phase = .reading

/-- The response that an event makes the connection begin. -/
def opens (site : Site) (c : Connection) (o : Occasion) : Option Delivery :=
  match c.phase, (c.takeIn site o).phase with
  | .reading, .writing delivery => some delivery
  | _, _ => none

/-- What an event makes the connection read from the file of its response. -/
def loads (site : Site) (c : Connection) (o : Occasion) : Bytes :=
  match c.mayWrite o, (c.takeIn site o).phase with
  | true, .writing delivery => delivery.loads o.world.files (c.takeIn site o).stream
  | _, _ => []

theorem checked_eq (c : Connection) (o : Occasion) : c.checked o = c ∨ c.checked o = { c with phase := .closed } := by
  unfold checked checkFailure
  split
  · exact .inr rfl
  · exact .inl rfl

theorem checked_closed {c : Connection} {o : Occasion} (closed : c.phase = .closed) :
    c.checked o = c := by
  simp [checked, checkFailure, closed]

theorem checked_of_sound {c : Connection} {o : Occasion} (sound : o.readiness.failed = false) :
    c.checked o = c := by
  simp [checked, checkFailure, sound]

theorem flush_of_not_writing {c : Connection} (world : World) (h : ∀ d, c.phase ≠ .writing d) :
    c.flush world = (c, []) := by
  unfold flush
  split
  · next delivery writing => exact absurd writing (h delivery)
  · rfl

/-- What the reads of an event report. -/
def reads (site : Site) (c : Connection) (o : Occasion) : List Event :=
  if o.readiness.readable ∧ (c.checked o).phase = .reading then
    (readHead site o.world (c.checked o)).2
  else []

/-- An event is handled by taking in what has arrived and then writing, where it lets the connection do so. -/
theorem ready_eq (site : Site) (c : Connection) (o : Occasion) :
    ready site o.world c o.readiness =
      let written :=
        if c.mayWrite o then (c.takeIn site o).flush o.world else (c.takeIn site o, [])
      (written.1, (c.checkFailure o.readiness).2 ++ c.reads site o ++ written.2) := by
  unfold ready takeIn mayWrite reads checked
  generalize c.checkFailure o.readiness = found
  obtain ⟨c, failures⟩ := found
  simp only
  by_cases reads : o.readiness.readable = true ∧ c.phase = .reading
  · have writable : (o.readiness.writable || decide (c.phase = .reading)) = true := by
      simp [reads.2]
    rw [if_pos reads, if_pos writable, if_pos reads, if_pos reads]
    split
    · rfl
    · next idle =>
      have notWriting : ∀ d, (readHead site o.world c).1.phase ≠ .writing d := by
        intro d writing
        exact idle (.inl (by rw [interest, writing]))
      rw [flush_of_not_writing o.world notWriting, List.append_nil]
  · rw [if_neg reads, if_neg reads, if_neg reads, List.append_nil]
    by_cases writable : o.readiness.writable = true
    · simp [writable]
    · by_cases reading : c.phase = .reading
      · have notWriting : ∀ d, c.phase ≠ .writing d := by simp [reading]
        simp [writable, reading, flush_of_not_writing o.world notWriting]
      · simp [writable, reading]

theorem handle_eq (site : Site) (c : Connection) (o : Occasion) :
    c.handle site o =
      if c.mayWrite o then ((c.takeIn site o).flush o.world).1 else c.takeIn site o := by
  rw [handle, ready_eq]
  split <;> rfl

/-- What a write does to a connection: it ends the response, has to wait with the rest of it, or gives up. -/
theorem flush_writing {c : Connection} {d : Delivery} (world : World) (writing : c.phase = .writing d) :
    ∃ progress rest next,
      Delivery.Sends world.files d c.stream (d.loads world.files c.stream) progress rest next ∧
      (c.flush world).1.stream = next ∧
      match progress with
      | .done => (c.flush world).1.phase = .closed ∧ (c.flush world).1.responseSent = true
      | .blocked => (c.flush world).1.phase = .writing rest ∧
          (c.flush world).1.responseSent = c.responseSent
      | .failed _ => (c.flush world).1.phase = .closed ∧
          (c.flush world).1.responseSent = c.responseSent := by
  have sends := Delivery.send_sends world.files d c.stream
  unfold flush
  rw [writing]
  dsimp only
  split
  all_goals
    next sent =>
    rw [sent] at sends
    exact ⟨_, _, _, sends, rfl, rfl, rfl⟩

theorem flush_blocked {c : Connection} {d : Delivery} {next : Stream} (world : World)
    (writing : c.phase = .writing d) (flushed : d.flushPending c.stream = (some .blocked, d, next)) :
    (c.flush world).1.phase = .writing d ∧ (c.flush world).1.stream = next := by
  unfold flush
  rw [writing]
  dsimp only
  rw [Delivery.send_stopped flushed]
  exact ⟨rfl, rfl⟩

section Reading

variable (site : Site) (world : World)

def readOnce (c : Connection) : Connection :=
  match c.stream.read c.readSize with
  | (.ok [], stream) => { c with stream, phase := .closed }
  | (.ok (b :: bs), stream) => (receive site world { c with stream } (b :: bs)).1
  | (.error .wouldBlock, stream) => { c with stream }
  | (.error .interrupted, stream) => { c with stream }
  | (.error _, stream) => { c with stream, phase := .closed }

/-- One read of an event, and what it leaves to be read. -/
theorem readHead_eq (c : Connection) :
    readHead site world c =
      match c.stream.read c.readSize with
      | (.ok [], stream) =>
        ({ c with stream, phase := .closed }, [.closedEarly c.peer c.buffer.length])
      | (.ok (b :: bs), stream) =>
        let next := receive site world { c with stream } (b :: bs)
        if next.1.phase = .reading then readHead site world next.1 else next
      | (.error .wouldBlock, stream) => ({ c with stream }, [])
      | (.error .interrupted, stream) => readHead site world { c with stream }
      | (.error kind, stream) => ({ c with stream, phase := .closed }, [.readFailed c.peer kind]) := by
  rw [readHead]
  split
  · next read => rw [read]
  · next read =>
    rw [read]
  · next read => rw [read]
  · next read => rw [read]
  · next kind stream notBlocked notInterrupted read =>
    rw [read]
    cases kind with
    | wouldBlock => exact absurd rfl notBlocked
    | interrupted => exact absurd rfl notInterrupted
    | _ => rfl

theorem receive_responseSent (c : Connection) (bytes : Bytes) :
    (receive site world c bytes).1.responseSent = c.responseSent := by
  unfold receive
  dsimp only
  split
  · rfl
  · split <;> rfl

theorem readOnce_output (c : Connection) :
    (c.readOnce site world).stream.output = c.stream.output ∧
      (c.readOnce site world).responseSent = c.responseSent := by
  have output := Stream.output_read c.stream c.readSize
  unfold readOnce
  split
  · next read => rw [read] at output; exact ⟨output, rfl⟩
  · next read =>
    rw [read] at output
    exact ⟨by rw [receive_stream]; exact output, receive_responseSent _ _ _ _⟩
  all_goals
    next read =>
    rw [read] at output
    exact ⟨output, rfl⟩

theorem readOnce_acceptances (c : Connection) :
    (c.readOnce site world).stream.acceptances = c.stream.acceptances := by
  have kept := Stream.acceptances_read c.stream c.readSize
  unfold readOnce
  split
  all_goals
    next read =>
    rw [read] at kept
    try rw [receive_stream]
    exact kept

variable {site world}

/-- What every read of a reading connection keeps is kept by all reads of an event. -/
theorem readHead_invariant {P : Connection → Prop}
    (step : ∀ c, c.phase = .reading → P c → P (c.readOnce site world)) {c : Connection}
    (reading : c.phase = .reading) (holds : P c) : P (readHead site world c).1 := by
  fun_induction readHead site world c with
  | case1 c stream read | case4 c stream read =>
      have kept := step c reading holds
      rw [readOnce, read] at kept
      exact kept
  | case2 c b bs stream read next events received stays ih =>
      have kept := step c reading holds
      rw [readOnce, read] at kept
      simp only [received] at kept
      exact ih stays kept
  | case3 c b bs stream read next events received leaves =>
      have kept := step c reading holds
      rw [readOnce, read] at kept
      simpa only [received] using kept
  | case5 c stream read ih =>
      have kept := step c reading holds
      rw [readOnce, read] at kept
      exact ih reading kept
  | case6 c kind stream notBlocked notInterrupted read =>
      have kept := step c reading holds
      rw [readOnce, read] at kept
      cases kind with
      | wouldBlock => exact absurd rfl notBlocked
      | interrupted => exact absurd rfl notInterrupted
      | _ => exact kept

end Reading

theorem dispatch_reply (site : Site) (world : World) (peer : SocketAddress) (head : Bytes) :
    site.Reply world (Head.parse head) (dispatch site world peer head).1 := by
  unfold dispatch
  cases Head.parse head with
  | error e => exact .refusal (.unread e)
  | ok request => exact Site.answer_reply _ _ _ _

theorem dispatch_of_error (site : Site) (world : World) (peer : SocketAddress) {head : Bytes} {e : HeadError}
    (parsed : Head.parse head = .error e) :
    dispatch site world peer head =
      (site.deliver world (.error .badRequest), none, [.headRejected peer e]) := by
  unfold dispatch
  rw [parsed]

theorem dispatch_of_request (site : Site) (world : World) (peer : SocketAddress) {head : Bytes}
    {request : Request} (parsed : Head.parse head = .ok request) :
    dispatch site world peer head =
      ((site.answer world request peer).1, some (request.method.token, request.target),
        .requestReceived peer request.method.token request.target (request.userAgent world.headerOrder) ::
          (site.answer world request peer).2) := by
  unfold dispatch
  rw [parsed]

theorem dispatch_of_file {site : Site} {world : World} {head : Bytes} {request : Request}
    {location : Location} {handle : Handle} {length : Nat} (peer : SocketAddress)
    (parsed : Head.parse head = .ok request) (isGet : request.method = .get)
    (resolved : site.resolve world.files request.path = .ok (.file location handle length)) :
    (dispatch site world peer head).1 = .ofFile world.date.inHead site.server
      (Response.fileHead (MediaType.ofPath location.path) length) handle length := by
  rw [dispatch_of_request site world peer parsed, Site.answer, isGet]
  dsimp only
  rw [resolved]

theorem dispatch_of_directory (site : Site) (world : World) (peer : SocketAddress) {head page : Bytes}
    {request : Request} {directory : Location} (parsed : Head.parse head = .ok request)
    (isGet : request.method = .get)
    (resolved : site.resolve world.files request.path = .ok (.directory directory))
    (listed : site.list world.files directory request.path = .ok page) :
    (dispatch site world peer head).1 = site.deliver world (.html page) := by
  rw [dispatch_of_request site world peer parsed, Site.answer, isGet]
  dsimp only
  rw [resolved]
  dsimp only
  rw [Site.answerDirectory, listed]

/-- A response that a read makes the connection begin is one that the site gives. -/
theorem readOnce_reply {site : Site} {world : World} {c : Connection} {d : Delivery}
    (reading : c.phase = .reading) (writing : (c.readOnce site world).phase = .writing d) :
    ∃ sent, site.Reply world sent d := by
  unfold readOnce at writing
  split at writing
  · cases writing
  · unfold receive at writing
    dsimp only at writing
    split at writing
    · next offset _ =>
      have same := Phase.writing.inj writing
      rw [← same]
      exact ⟨_, dispatch_reply _ _ _ _⟩
    · split at writing
      · have same := Phase.writing.inj writing
        rw [← same]
        exact ⟨_, .refusal (.unread .incomplete)⟩
      · rw [reading] at writing
        cases writing
  · rw [reading] at writing
    cases writing
  · rw [reading] at writing
    cases writing
  · cases writing

/-- What has arrived is taken in by reads alone, after a failed stream has been noticed. -/
theorem takeIn_invariant {site : Site} {c : Connection} {o : Occasion} {P : Connection → Prop}
    (start : P (c.checked o))
    (step : ∀ c, c.phase = .reading → P c → P (c.readOnce site o.world)) : P (c.takeIn site o) := by
  unfold takeIn
  split
  · next reads => exact readHead_invariant step reads.2 start
  · exact start

theorem takeIn_output (site : Site) (c : Connection) (o : Occasion) :
    (c.takeIn site o).stream.output = c.stream.output ∧
      (c.takeIn site o).responseSent = c.responseSent := by
  apply takeIn_invariant (P := fun t => t.stream.output = c.stream.output ∧ t.responseSent = c.responseSent)
  · rcases checked_eq c o with same | same <;> rw [same] <;> exact ⟨rfl, rfl⟩
  · intro t _ kept
    obtain ⟨output, sent⟩ := readOnce_output site o.world t
    exact ⟨output.trans kept.1, sent.trans kept.2⟩

theorem takeIn_acceptances (site : Site) (c : Connection) (o : Occasion) :
    (c.takeIn site o).stream.acceptances = c.stream.acceptances := by
  apply takeIn_invariant (P := fun t => t.stream.acceptances = c.stream.acceptances)
  · rcases checked_eq c o with same | same <;> rw [same]
  · intro t _ kept
    exact (readOnce_acceptances site o.world t).trans kept

theorem takeIn_of_not_reading {site : Site} {c : Connection} {o : Occasion}
    (h : (c.checked o).phase ≠ .reading) : c.takeIn site o = c.checked o :=
  if_neg fun reads => h reads.2

theorem handle_closed {c : Connection} (site : Site) (o : Occasion) (closed : c.phase = .closed) :
    ready site o.world c o.readiness = (c, []) := by
  have noFailure : c.checkFailure o.readiness = (c, []) := by simp [checkFailure, closed]
  have idle : c.flush o.world = (c, []) := flush_of_not_writing o.world (by simp [closed])
  unfold ready
  rw [noFailure]
  simp [closed, idle]

theorem step_closed {c : Connection} (closed : c.phase = .closed) : c.step = .close := by
  simp [step, interest, closed]

theorem opens_of_not_reading {site : Site} {c : Connection} {o : Occasion} (h : c.phase ≠ .reading) :
    c.opens site o = none := by
  unfold opens
  split
  · next reading _ => exact absurd reading h
  · rfl

theorem opens_of_idle {site : Site} {c : Connection} {o : Occasion}
    (idle : ∀ d, (c.takeIn site o).phase ≠ .writing d) : c.opens site o = none := by
  unfold opens
  split
  · next d _ writing => exact absurd writing (idle d)
  · rfl

/-- Where nothing is being written an event does no more than take in what has arrived. -/
theorem handle_of_idle {site : Site} {c : Connection} {o : Occasion}
    (idle : ∀ d, (c.takeIn site o).phase ≠ .writing d) : c.handle site o = c.takeIn site o := by
  rw [handle_eq]
  split
  · rw [flush_of_not_writing o.world idle]
  · rfl

theorem opens_eq_some {site : Site} {c : Connection} {o : Occasion} {d : Delivery}
    (h : c.opens site o = some d) :
    c.phase = .reading ∧ (c.takeIn site o).phase = .writing d ∧ c.mayWrite o = true := by
  unfold opens at h
  split at h
  · next delivery reading writing =>
    cases h
    refine ⟨reading, writing, ?_⟩
    have stillReading : (c.checked o).phase = .reading := by
      refine Decidable.byContradiction ?_
      intro left
      rw [takeIn_of_not_reading left] at writing
      rcases checked_eq c o with same | same
      · exact left (by rw [same, reading])
      · rw [same] at writing; cases writing
    simp [mayWrite, stillReading]
  · cases h

theorem opens_reply {site : Site} {c : Connection} {o : Occasion} {d : Delivery}
    (h : c.opens site o = some d) : ∃ sent, site.Reply o.world sent d := by
  obtain ⟨reading, writing, -⟩ := opens_eq_some h
  have all : ∀ d, (c.takeIn site o).phase = .writing d → ∃ sent, site.Reply o.world sent d := by
    apply takeIn_invariant (P := fun t => ∀ d, t.phase = .writing d → ∃ sent, site.Reply o.world sent d)
    · intro d writing
      rcases checked_eq c o with same | same <;> simp [same, reading] at writing
    · intro t reading _ d writing
      exact readOnce_reply reading writing
  exact all d writing

end Connection

/-- A run so far: the connection, the phases it has been in, the responses it has begun and what it has read
from their files. -/
structure History where
  connection : Connection
  phases : List Phase
  responses : List (Occasion × Delivery) := []
  loaded : Bytes := []

namespace History

def next (site : Site) (h : History) (o : Occasion) : History where
  connection := h.connection.handle site o
  phases := h.phases ++ [(h.connection.checked o).phase, (h.connection.takeIn site o).phase,
    (h.connection.handle site o).phase]
  responses := h.responses ++ ((h.connection.opens site o).map (Prod.mk o)).toList
  loaded := h.loaded ++ h.connection.loads site o

theorem next_connection (site : Site) (h : History) (o : Occasion) :
    (h.next site o).connection = h.connection.handle site o := rfl

theorem next_responses (site : Site) (h : History) (o : Occasion) :
    (h.next site o).responses =
      h.responses ++ ((h.connection.opens site o).map (Prod.mk o)).toList := rfl

theorem next_loaded (site : Site) (h : History) (o : Occasion) :
    (h.next site o).loaded = h.loaded ++ h.connection.loads site o := rfl

end History

namespace Connection

def history (site : Site) (c : Connection) (occasions : List Occasion) : History :=
  occasions.foldl (History.next site) { connection := c, phases := [c.phase] }

/-- An induction over the beginnings of a run. -/
theorem history_prefixes {site : Site} {c : Connection} {occasions : List Occasion}
    {P : History → Prop} (start : P { connection := c, phases := [c.phase] })
    (step : ∀ before o after, occasions = before ++ o :: after → P (c.history site before) →
      P ((c.history site before).next site o)) : P (c.history site occasions) := by
  have rest : ∀ after before, occasions = before ++ after → P (c.history site before) →
      P (c.history site occasions) := by
    intro after
    induction after with
    | nil =>
        rintro before rfl reached
        rwa [List.append_nil]
    | cons o after ih =>
        intro before split reached
        refine ih (before ++ [o]) (by rw [split, List.append_assoc]; rfl) ?_
        rw [history, List.foldl_append]
        exact step before o after split reached
  exact rest occasions [] rfl start

/-- What the beginning has and every event keeps is there after the run. -/
theorem history_invariant {site : Site} {c : Connection} {occasions : List Occasion}
    {P : History → Prop} (start : P { connection := c, phases := [c.phase] })
    (step : ∀ h, ∀ o ∈ occasions, P h → P (h.next site o)) : P (c.history site occasions) :=
  history_prefixes start fun before o _ split kept =>
    step _ o (split ▸ List.mem_append_right before List.mem_cons_self) kept

end Connection

namespace History

theorem next_closed {h : History} (site : Site) (o : Occasion) (closed : h.connection.phase = .closed) :
    (h.next site o).connection = h.connection ∧ (h.next site o).responses = h.responses ∧
      (h.next site o).loaded = h.loaded := by
  have same : h.connection.checked o = h.connection := Connection.checked_closed closed
  have taken : h.connection.takeIn site o = h.connection := by
    rw [Connection.takeIn_of_not_reading (by simp [same, closed]), same]
  refine ⟨congrArg Prod.fst (Connection.handle_closed site o closed), ?_, ?_⟩
  · rw [next_responses, Connection.opens_of_not_reading (by simp [closed])]
    exact List.append_nil _
  · rw [next_loaded, Connection.loads, taken, closed]
    simp

/-- An event that begins a response goes on to write it. -/
theorem next_opens {site : Site} {h : History} {o : Occasion} {d : Delivery}
    (opens : h.connection.opens site o = some d) :
    (h.next site o).connection = ((h.connection.takeIn site o).flush o.world).1 ∧
      (h.next site o).responses = h.responses ++ [(o, d)] ∧
      (h.next site o).loaded =
        h.loaded ++ d.loads o.world.files (h.connection.takeIn site o).stream := by
  obtain ⟨-, writing, mayWrite⟩ := Connection.opens_eq_some opens
  refine ⟨?_, ?_, ?_⟩
  · rw [next_connection, Connection.handle_eq, if_pos mayWrite]
  · rw [next_responses, opens]
    rfl
  · rw [next_loaded, Connection.loads, mayWrite, writing]

/-- An event that meets a response goes on with it, leaves it waiting or gives it up. -/
theorem next_writing {h : History} {rest : Delivery} (site : Site) (o : Occasion)
    (writing : h.connection.phase = .writing rest) :
    (h.next site o).responses = h.responses ∧
      ((h.next site o).connection = (h.connection.flush o.world).1 ∧
          (h.next site o).loaded = h.loaded ++ rest.loads o.world.files h.connection.stream ∨
        (h.next site o).connection = h.connection ∧ (h.next site o).loaded = h.loaded ∨
        (h.next site o).connection = { h.connection with phase := .closed } ∧
          (h.next site o).loaded = h.loaded) := by
  have notReading : h.connection.phase ≠ .reading := by simp [writing]
  refine ⟨?_, ?_⟩
  · rw [next_responses, Connection.opens_of_not_reading notReading]
    exact List.append_nil _
  rw [next_connection, next_loaded, Connection.handle_eq, Connection.loads]
  rcases Connection.checked_eq h.connection o with sound | failed
  · have taken : h.connection.takeIn site o = h.connection := by
      rw [Connection.takeIn_of_not_reading (by rwa [sound]), sound]
    rw [taken, writing]
    cases h.connection.mayWrite o with
    | true => exact .inl ⟨rfl, rfl⟩
    | false => exact .inr (.inl ⟨rfl, List.append_nil _⟩)
  · have taken : h.connection.takeIn site o = { h.connection with phase := .closed } := by
      rw [Connection.takeIn_of_not_reading (by simp [failed]), failed]
    rw [taken, Connection.flush_of_not_writing o.world (by simp)]
    refine .inr (.inr ⟨ite_self _, ?_⟩)
    cases h.connection.mayWrite o <;> exact List.append_nil _

end History

end Docroot
