import Docroot.Proofs.Connection.WholeResponse
import Docroot.Proofs.Site.Twins

/-!
Two runs in step. Where two sites have the same to say about what a client sends, and each meets the same events in
its own tree, at its own times, they give the client one response, told apart by the date and by what their pages may
differ in, and report the same but for the name of the client, which is chosen among those it gives.
-/
namespace Docroot

/-- The names that a request has for the client. -/
def Request.agents (request : Request) : List Bytes :=
  let named := (request.headers.named (utf8 "User-Agent")).map Prod.snd
  if named = [] then [utf8 "-"] else named

/-- In whatever order fields are searched, one of the names is found. -/
theorem Request.userAgent_mem (request : Request) (order : Headers.Order) :
    request.userAgent order ∈ request.agents := by
  have perm := ((order.perm request.headers).filter
    fun field => Bytes.sameIgnoringCase field.1 (utf8 "User-Agent")).map Prod.snd
  change (((order.arrange request.headers).named _).map Prod.snd).Perm ((request.headers.named _).map Prod.snd) at perm
  rw [userAgent, Headers.find?, ← List.head?_map]
  unfold agents
  generalize ((order.arrange request.headers).named _).map Prod.snd = found,
    (request.headers.named _).map Prod.snd = named at perm
  cases found with
  | nil =>
      obtain rfl := List.nil_perm.mp perm
      exact List.mem_singleton_self _
  | cons agent others =>
      dsimp only
      rw [if_neg (List.ne_nil_of_mem (perm.mem_iff.mp List.mem_cons_self))]
      exact perm.mem_iff.mp List.mem_cons_self

/-- One event in two runs. A request may be reported under another of the names that it has for the client. -/
inductive Event.SameBut (agents : Bytes → Bytes → Prop) : Event → Event → Prop
  | refl (event : Event) : SameBut agents event event
  | request (peer : SocketAddress) (method path : Bytes) {agent agent' : Bytes} : agents agent agent' →
      SameBut agents (.requestReceived peer method path agent) (.requestReceived peer method path agent')

theorem Event.SameBut.forall₂_refl (agents : Bytes → Bytes → Prop) (events : List Event) :
    List.Forall₂ (SameBut agents) events events :=
  List.forall₂_same.mpr fun event _ => .refl event

theorem Event.SameBut.mono {agents agents' : Bytes → Bytes → Prop} {event event' : Event}
    (same : SameBut agents event event') (weaker : ∀ a a', agents a a' → agents' a a') :
    SameBut agents' event event' := by
  cases same with
  | refl => exact .refl _
  | request peer method path same => exact .request peer method path (weaker _ _ same)

/-- Where no two names are alike, the same was reported. -/
theorem Event.SameBut.eq_of_forall₂ {agents : Bytes → Bytes → Prop} {events events' : List Event}
    (same : List.Forall₂ (SameBut agents) events events') (one : ∀ a a', agents a a' → a = a') : events = events' := by
  rw [← List.forall₂_eq_eq_eq]
  refine same.imp fun event event' same => ?_
  cases same with
  | refl => rfl
  | request peer method path same => rw [one _ _ same]

/-- One event in two worlds, with dates of one length, which those of years of four digits have. -/
structure Occasion.Parallel (fs fs' : FileSystem) (o o' : Occasion) : Prop where
  files : o.world.files = fs
  files' : o'.world.files = fs'
  readiness : o'.readiness = o.readiness
  dates : o.world.date.inHead.length = o'.world.date.inHead.length

/-- The names of the client that are found in two worlds, where the text is read as a request. -/
inductive Occasion.Agents (text : Bytes) (o o' : Occasion) : Bytes → Bytes → Prop
  | intro {request : Request} {n : Nat} : Head.read text = .ok (request, n) → Agents text o o'
      (request.userAgent o.world.headerOrder) (request.userAgent o'.world.headerOrder)

/-- Akin sites that find the same for the request that the text is read as, if it is read as one. -/
structure Site.Counterparts (bodies : Bytes → Bytes → Prop) (site site' : Site) (fs fs' : FileSystem) (text : Bytes) :
    Prop extends site.Akin site' where
  found : ∀ request n, Head.read text = .ok (request, n) →
    Target.Alike bodies fs fs' (site.resolve fs request.path) (site'.resolve fs' request.path)

/-- The head of the text is answered by one response in both worlds. -/
theorem Site.Counterparts.dispatch {bodies : Bytes → Bytes → Prop} [Std.Refl bodies] {site site' : Site}
    {fs fs' : FileSystem} {text : Bytes} {o o' : Occasion} (counterparts : site.Counterparts bodies site' fs fs' text)
    (parallel : o.Parallel fs fs' o') (peer : SocketAddress) {i : Nat}
    (found : Head.terminatorOffset? text = some i) :
    let answer := Connection.dispatch site o.world peer (text.take i)
    let answer' := Connection.dispatch site' o'.world peer (text.take i)
    Delivery.Twins bodies site.server o.world o'.world answer.1 answer'.1 ∧ answer'.2.1 = answer.2.1 ∧
      List.Forall₂ (Event.SameBut (o.Agents text o')) answer.2.2 answer'.2.2 := by
  cases parsed : Head.parse (text.take i) with
  | error e =>
      rw [Connection.dispatch_of_error _ _ _ parsed, Connection.dispatch_of_error _ _ _ parsed]
      exact ⟨counterparts.deliver _, rfl, Event.SameBut.forall₂_refl _ _⟩
  | ok request =>
      have read : Head.read text = .ok (request, i + Head.terminator.length) := by
        rw [Head.read_of_terminator found, parsed]
        rfl
      have target := counterparts.found request _ read
      rw [← parallel.files, ← parallel.files'] at target
      obtain ⟨twins, events⟩ := counterparts.answer target peer
      rw [Connection.dispatch_of_request _ _ _ parsed, Connection.dispatch_of_request _ _ _ parsed, events]
      exact ⟨twins, rfl, .cons (.request _ _ _ (.intro read)) (Event.SameBut.forall₂_refl _ _)⟩

inductive Phase.Alike (same : Delivery → Delivery → Prop) : Phase → Phase → Prop
  | reading : Alike same .reading .reading
  | writing {d d' : Delivery} : same d d' → Alike same (.writing d) (.writing d')
  | closed : Alike same .closed .closed

section Phase

variable {same same' : Delivery → Delivery → Prop} {p p' : Phase}

theorem Phase.Alike.reading_iff (alike : Phase.Alike same p p') : p' = .reading ↔ p = .reading := by
  cases alike <;> simp

theorem Phase.Alike.closed_iff (alike : Phase.Alike same p p') : p' = .closed ↔ p = .closed := by
  cases alike <;> simp

theorem Phase.Alike.mono (alike : Phase.Alike same p p') (weaker : ∀ d d', same d d' → same' d d') :
    Phase.Alike same' p p' := by
  cases alike with
  | reading => exact .reading
  | writing sames => exact .writing (weaker _ _ sames)
  | closed => exact .closed

theorem Phase.Alike.of_reading (alike : Phase.Alike same p p') (reading : p = .reading) : Phase.Alike same' p p' := by
  cases alike with
  | reading => exact .reading
  | writing | closed => cases reading

end Phase

namespace Connection

/-- Connections that have come equally far. Their deadlines may differ, and so may the octets they were to give. -/
inductive Alike (same : Delivery → Delivery → Prop) (c : Connection) : Connection → Prop
  | intro {stream : Stream} {deadline : Nat} {phase : Phase} : c.stream.Alike stream →
      Phase.Alike same c.phase phase → Alike same c { c with stream, deadline, phase }

/-- The connection has found no end of a head in what it has read of the text. -/
structure Awaits (text : Bytes) (c : Connection) : Prop where
  noEnd : Head.terminatorOffset? c.buffer = none
  toCome : c.buffer ++ Arrival.readable c.stream.arrivals = text

section Step

variable {bodies : Bytes → Bytes → Prop} [Std.Refl bodies] {same same' : Delivery → Delivery → Prop}
  {site site' : Site} {fs fs' : FileSystem} {text : Bytes} {o o' : Occasion} {c c' : Connection} {next : Stream}

theorem Alike.phase (alike : Alike same c c') : Phase.Alike same c.phase c'.phase := by
  cases alike with
  | intro _ phase => exact phase

theorem Alike.stream (alike : Alike same c c') : c.stream.Alike c'.stream := by
  cases alike with
  | intro stream _ => exact stream

theorem Alike.mono (alike : Alike same c c') (weaker : ∀ d d', same d d' → same' d d') : Alike same' c c' := by
  cases alike with
  | intro stream phase => exact .intro stream (phase.mono weaker)

theorem Alike.of_reading (alike : Alike same c c') (reading : c.phase = .reading) : Alike same' c c' := by
  cases alike with
  | intro stream phase => exact .intro stream (phase.of_reading reading)

theorem Alike.read (alike : Alike same c c') {result : Except ErrorKind Bytes}
    (read : c.stream.read c.readSize = (result, next)) :
    ∃ next', c'.stream.read c'.readSize = (result, next') ∧ next.Alike next' := by
  cases alike with
  | intro stream _ => exact stream.read read

theorem Alike.with_stream (alike : Alike same c c') {next' : Stream} (nexts : next.Alike next') :
    Alike same { c with stream := next } { c' with stream := next' } := by
  cases alike with
  | intro _ phase => exact .intro nexts phase

theorem Alike.receive (alike : Alike same c c') (counterparts : site.Counterparts bodies site' fs fs' text)
    (parallel : o.Parallel fs fs' o') (reading : c.phase = .reading)
    (noEnd : Head.terminatorOffset? c.buffer = none) {bytes rest : Bytes}
    (toCome : c.buffer ++ bytes ++ rest = text) :
    Alike (Delivery.Twins bodies site.server o.world o'.world) (Connection.receive site o.world c bytes).1
        (Connection.receive site' o'.world c' bytes).1 ∧
      List.Forall₂ (Event.SameBut (o.Agents text o')) (Connection.receive site o.world c bytes).2
        (Connection.receive site' o'.world c' bytes).2 := by
  cases alike with
  | @intro stream' deadline phase' stream phase =>
      rw [receive_eq site o.world bytes noEnd,
        receive_eq site' o'.world (c := { c with stream := stream', deadline, phase := phase' }) bytes noEnd]
      unfold received
      dsimp only
      cases found : Head.terminatorOffset? (c.buffer ++ bytes) with
      | some i =>
          have bound : i ≤ (c.buffer ++ bytes).length := (indexOf?_eq_some_iff.mp found).1
          have foundFirst : Head.terminatorOffset? text = some i := toCome ▸ indexOf?_append found rest
          have front : (c.buffer ++ bytes).take i = text.take i := by
            rw [← toCome, List.take_append_of_le_length bound]
          obtain ⟨twins, requestLines, events⟩ := counterparts.dispatch parallel c.peer foundFirst
          dsimp only
          rw [front]
          generalize Connection.dispatch site o.world c.peer (text.take i) = answer,
            Connection.dispatch site' o'.world c.peer (text.take i) = answer' at twins requestLines events ⊢
          obtain ⟨delivery, requestLine, reports⟩ := answer
          obtain ⟨delivery', _, reports'⟩ := answer'
          cases requestLines
          exact ⟨.intro stream (.writing twins), events⟩
      | none =>
          dsimp only
          split
          · exact ⟨.intro stream (.writing (counterparts.deliver _)), Event.SameBut.forall₂_refl _ _⟩
          · exact ⟨.intro stream (phase.of_reading reading), .nil⟩

/-- What a read gives is in front of what is still to come. -/
theorem Awaits.read (awaits : c.Awaits text) {bytes : Bytes} (read : c.stream.read c.readSize = (.ok bytes, next))
    (isSome : bytes ≠ []) : c.buffer ++ bytes ++ Arrival.readable next.arrivals = text := by
  rw [List.append_assoc, ← Stream.readable_of_read read isSome, awaits.toCome]

theorem Awaits.receive (awaits : c.Awaits text) (site : Site) (world : World) {bytes : Bytes}
    (whole : c.buffer ++ bytes ++ Arrival.readable next.arrivals = text)
    (stays : (Connection.receive site world { c with stream := next } bytes).1.phase = .reading) :
    (Connection.receive site world { c with stream := next } bytes).1.Awaits text := by
  rw [receive_eq site world (c := { c with stream := next }) bytes awaits.noEnd] at stays ⊢
  unfold received at stays ⊢
  dsimp only at stays ⊢
  cases found : Head.terminatorOffset? (c.buffer ++ bytes) with
  | some i =>
      rw [found] at stays
      cases stays
  | none =>
      rw [found] at stays
      dsimp only at stays ⊢
      split at stays
      · cases stays
      · next room =>
        rw [if_neg room]
        exact ⟨found, whole⟩

theorem Awaits.of_read_error (awaits : c.Awaits text) {kind : ErrorKind}
    (read : c.stream.read c.readSize = (.error kind, next)) (goesOn : kind = .wouldBlock ∨ kind = .interrupted) :
    Awaits text { c with stream := next } :=
  ⟨awaits.noEnd, Stream.readable_of_read_error read goesOn ▸ awaits.toCome⟩

/-- The reads of an event lead both connections equally far. -/
theorem Alike.readHead (alike : Alike same c c') (counterparts : site.Counterparts bodies site' fs fs' text)
    (parallel : o.Parallel fs fs' o') (reading : c.phase = .reading) (awaits : c.Awaits text) :
    Alike (Delivery.Twins bodies site.server o.world o'.world) (Connection.readHead site o.world c).1
        (Connection.readHead site' o'.world c').1 ∧
      List.Forall₂ (Event.SameBut (o.Agents text o')) (Connection.readHead site o.world c).2
        (Connection.readHead site' o'.world c').2 ∧
      ((Connection.readHead site o.world c).1.phase = .reading →
        (Connection.readHead site o.world c).1.Awaits text) := by
  fun_induction Connection.readHead site o.world c generalizing c' same with
  | case1 c next read =>
      obtain ⟨next', read', nexts⟩ := alike.read read
      rw [readHead_eq site' o'.world c', read']
      cases alike
      refine ⟨.intro nexts .closed, Event.SameBut.forall₂_refl _ _, ?_⟩
      intro stays
      cases stays
  | case2 c b bs next read later events receives stays ih =>
      obtain ⟨next', read', nexts⟩ := alike.read read
      have whole := awaits.read read (List.cons_ne_nil b bs)
      obtain ⟨laters, -⟩ := (alike.with_stream nexts).receive counterparts parallel reading awaits.noEnd whole
      have awaitsLater := awaits.receive site o.world whole
      rw [receives] at laters awaitsLater
      rw [readHead_eq site' o'.world c', read']
      dsimp only
      rw [if_pos (laters.phase.reading_iff.mpr stays)]
      exact ih laters stays (awaitsLater stays)
  | case3 c b bs next read later events receives leaves =>
      obtain ⟨next', read', nexts⟩ := alike.read read
      have whole := awaits.read read (List.cons_ne_nil b bs)
      obtain ⟨laters, reports⟩ := (alike.with_stream nexts).receive counterparts parallel reading awaits.noEnd whole
      rw [receives] at laters reports
      rw [readHead_eq site' o'.world c', read']
      dsimp only
      rw [if_neg (mt laters.phase.reading_iff.mp leaves)]
      exact ⟨laters, reports, fun stays => absurd stays leaves⟩
  | case4 c next read =>
      obtain ⟨next', read', nexts⟩ := alike.read read
      rw [readHead_eq site' o'.world c', read']
      refine ⟨?_, .nil, fun _ => awaits.of_read_error read (.inl rfl)⟩
      exact (alike.with_stream nexts).of_reading reading
  | case5 c next read ih =>
      obtain ⟨next', read', nexts⟩ := alike.read read
      rw [readHead_eq site' o'.world c', read']
      exact ih (alike.with_stream nexts) reading (awaits.of_read_error read (.inr rfl))
  | case6 c kind next notBlocked notInterrupted read =>
      obtain ⟨next', read', nexts⟩ := alike.read read
      rw [readHead_eq site' o'.world c', read']
      cases alike
      cases kind with
      | wouldBlock => exact absurd rfl notBlocked
      | interrupted => exact absurd rfl notInterrupted
      | _ =>
          refine ⟨.intro nexts .closed, Event.SameBut.forall₂_refl _ _, ?_⟩
          intro stays
          cases stays

theorem Alike.flush (alike : Alike (Delivery.Alike fs fs') c c') (parallel : o.Parallel fs fs' o') :
    Alike (Delivery.Alike fs fs') (c.flush o.world).1 (c'.flush o'.world).1 ∧
      (c'.flush o'.world).2 = (c.flush o.world).2 := by
  obtain ⟨rfl, rfl, -, -⟩ := parallel
  have whole := alike
  cases alike with
  | @intro stream' deadline phase' stream phase =>
      generalize isPhase : c.phase = p at phase
      cases phase with
      | reading | closed =>
          rw [flush_of_not_writing _ (by simp [isPhase]), flush_of_not_writing _ (by simp)]
          exact ⟨whole, rfl⟩
      | @writing d d' same =>
          cases sent : d.send o.world.files c.stream with
          | mk progress rest =>
              obtain ⟨rest, next⟩ := rest
              obtain ⟨rest', next', sent', rests, nexts⟩ := same.send stream sent
              unfold Connection.flush
              rw [isPhase]
              dsimp only
              rw [sent, sent']
              cases progress with
              | done =>
                  refine ⟨.intro nexts .closed, ?_⟩
                  dsimp only
                  rw [rests.status, rests.bodyLength]
              | blocked => exact ⟨.intro nexts (.writing rests), rfl⟩
              | failed => exact ⟨.intro nexts .closed, rfl⟩

theorem Alike.checkFailure (alike : Alike same c c') (readiness : Readiness) :
    Alike same (c.checkFailure readiness).1 (c'.checkFailure readiness).1 ∧
      (c'.checkFailure readiness).2 = (c.checkFailure readiness).2 := by
  have closed := alike.phase.closed_iff
  unfold Connection.checkFailure
  by_cases fails : readiness.failed = true ∧ c.phase ≠ .closed
  · rw [if_pos fails, if_pos (fails.imp_right (mt closed.mp))]
    cases alike with
    | intro stream _ => exact ⟨.intro stream .closed, rfl⟩
  · rw [if_neg fails, if_neg (mt (And.imp_right (mt closed.mpr)) fails)]
    exact ⟨alike, rfl⟩

theorem Alike.checked (alike : Alike same c c') (parallel : o.Parallel fs fs' o') :
    Alike same (c.checked o) (c'.checked o') := by
  rw [Connection.checked, Connection.checked, parallel.readiness]
  exact (alike.checkFailure o.readiness).1

theorem checked_of_reading (reading : (c.checked o).phase = .reading) : c.checked o = c := by
  refine (checked_eq c o).resolve_right ?_
  intro closes
  cases (congrArg Connection.phase closes).symm.trans reading

/-- A response is only begun by reads. -/
theorem opens_of_no_reads (noReads : ¬ (o.readiness.readable = true ∧ (c.checked o).phase = .reading)) :
    c.opens site o = none := by
  by_cases reading : c.phase = .reading
  · refine opens_of_idle ?_
    intro d writing
    rw [takeIn, if_neg noReads] at writing
    rcases checked_eq c o with same | same <;> rw [same] at writing
    · cases reading.symm.trans writing
    · cases writing
  · exact opens_of_not_reading reading

/-- Connections that have come equally far, and no further with the text than its head. -/
structure InStep (fs fs' : FileSystem) (text : Bytes) (c c' : Connection) : Prop where
  alike : Alike (Delivery.Alike fs fs') c c'
  awaits : c.phase = .reading → c.Awaits text

theorem InStep.takeIn (inStep : InStep fs fs' text c c') (counterparts : site.Counterparts bodies site' fs fs' text)
    (parallel : o.Parallel fs fs' o') :
    InStep fs fs' text (c.takeIn site o) (c'.takeIn site' o') ∧
      List.Forall₂ (Event.SameBut (o.Agents text o')) (c.reads site o) (c'.reads site' o') ∧
      Option.Rel (Delivery.Twins bodies site.server o.world o'.world) (c.opens site o) (c'.opens site' o') := by
  have checked := inStep.alike.checked parallel
  have same : (o'.readiness.readable = true ∧ (c'.checked o').phase = .reading) ↔
      (o.readiness.readable = true ∧ (c.checked o).phase = .reading) := by
    rw [parallel.readiness, checked.phase.reading_iff]
  by_cases reads : o.readiness.readable = true ∧ (c.checked o).phase = .reading
  · have kept := checked_of_reading reads.2
    have reading : c.phase = .reading := kept ▸ reads.2
    obtain ⟨twins, reports, stays⟩ :=
      checked.readHead counterparts parallel reads.2 (kept.symm ▸ inStep.awaits reading)
    have taken : c.takeIn site o = (Connection.readHead site o.world (c.checked o)).1 := if_pos reads
    have taken' : c'.takeIn site' o' = (Connection.readHead site' o'.world (c'.checked o')).1 :=
      if_pos (same.mpr reads)
    rw [← taken, ← taken'] at twins
    rw [← taken] at stays
    refine ⟨⟨twins.mono ?_, stays⟩, ?_, ?_⟩
    · intro d d' twin
      have alike := twin.alike parallel.dates
      rwa [parallel.files, parallel.files'] at alike
    · rwa [Connection.reads, Connection.reads, if_pos reads, if_pos (same.mpr reads)]
    · have phases := twins.phase
      rw [opens, opens, reading, inStep.alike.phase.reading_iff.mpr reading]
      generalize (c.takeIn site o).phase = p, (c'.takeIn site' o').phase = p' at phases
      cases phases with
      | reading | closed => exact .none
      | writing twin => exact .some twin
  · have taken : c.takeIn site o = c.checked o := if_neg reads
    have taken' : c'.takeIn site' o' = c'.checked o' := if_neg (mt same.mp reads)
    rw [taken, taken', opens_of_no_reads reads, opens_of_no_reads (mt same.mp reads)]
    refine ⟨⟨checked, ?_⟩, ?_, .none⟩
    · intro stays
      have kept := checked_of_reading stays
      rw [kept] at stays ⊢
      exact inStep.awaits stays
    · rw [Connection.reads, Connection.reads, if_neg reads, if_neg (mt same.mp reads)]
      exact .nil

/-- An event leads both connections equally far, and the same is reported of it. -/
theorem InStep.ready (inStep : InStep fs fs' text c c') (counterparts : site.Counterparts bodies site' fs fs' text)
    (parallel : o.Parallel fs fs' o') :
    InStep fs fs' text (c.handle site o) (c'.handle site' o') ∧
      List.Forall₂ (Event.SameBut (o.Agents text o')) (Connection.ready site o.world c o.readiness).2
        (Connection.ready site' o'.world c' o'.readiness).2 := by
  obtain ⟨taken, reads, -⟩ := inStep.takeIn counterparts parallel
  obtain ⟨flushed, writes⟩ := taken.alike.flush parallel
  have failures : (c'.checkFailure o'.readiness).2 = (c.checkFailure o.readiness).2 := by
    rw [parallel.readiness]
    exact (inStep.alike.checkFailure o.readiness).2
  have mayWrite : c'.mayWrite o' = c.mayWrite o := by
    rw [Connection.mayWrite, Connection.mayWrite, parallel.readiness,
      decide_eq_decide.mpr (inStep.alike.checked parallel).phase.reading_iff]
  constructor
  · rw [handle_eq, handle_eq, mayWrite]
    split
    · refine ⟨flushed, ?_⟩
      intro stays
      have notWriting : ∀ d, (c.takeIn site o).phase ≠ .writing d := by
        intro d writing
        obtain ⟨progress, rest, next, -, -, outcome⟩ := flush_writing o.world writing
        cases progress <;> cases stays.symm.trans outcome.1
      rw [flush_of_not_writing _ notWriting] at stays ⊢
      exact taken.awaits stays
    · exact taken
  · rw [ready_eq, ready_eq, failures, mayWrite]
    dsimp only
    refine List.rel_append (List.rel_append (Event.SameBut.forall₂_refl _ _) reads) ?_
    split
    · rw [writes]
      exact Event.SameBut.forall₂_refl _ _
    · exact .nil

end Step

/-- What is reported along a run. -/
def reports (site : Site) : Connection → List Occasion → List Event
  | _, [] => []
  | c, o :: rest => (ready site o.world c o.readiness).2 ++ reports site (c.handle site o) rest

/-- A request that comes in one piece is reported first, under the name that is found for the client. -/
theorem reports_of_whole (site : Site) (world : World) (peer : SocketAddress) (limits : Limits) (now : Nat)
    {bytes : Bytes} {i : Nat} {request : Request}
    (fits : bytes.length ≤ (start (.fresh [.octets bytes] []) peer limits now).readSize)
    (found : Head.terminatorOffset? bytes = some i) (parsed : Head.parse (bytes.take i) = .ok request) :
    ((start (.fresh [.octets bytes] []) peer limits now).reports site [⟨world, { readable := true }⟩]).head? =
      some (.requestReceived peer request.method.token request.target (request.userAgent world.headerOrder)) := by
  let c := start (.fresh [.octets bytes] []) peer limits now
  let o : Occasion := ⟨world, { readable := true }⟩
  have sound : c.checked o = c := checked_of_sound rfl
  have events : c.reads site o = (dispatch site world peer (bytes.take i)).2.2 := by
    rw [reads, sound, if_pos ⟨rfl, rfl⟩]
    exact (readHead_of_whole site world (c := c) rfl rfl fits found).2.2
  have noFailure : (c.checkFailure o.readiness).2 = [] := rfl
  change ((ready site o.world c o.readiness).2 ++ []).head? = _
  rw [ready_eq, noFailure, events, dispatch_of_request site world peer parsed]
  rfl

end Connection

namespace History

/-- Runs in step: where one has begun a response, the other has begun it at the same moment. -/
structure InStep (bodies : Bytes → Bytes → Prop) (server : Bytes) (moments : List (Occasion × Occasion))
    (fs fs' : FileSystem) (text : Bytes) (h h' : History) : Prop where
  connection : h.connection.InStep fs fs' text h'.connection
  responses : List.Forall₂
    (fun begun begun' => (begun.1, begun'.1) ∈ moments ∧
      Delivery.Twins bodies server begun.1.world begun'.1.world begun.2 begun'.2) h.responses h'.responses

variable {bodies : Bytes → Bytes → Prop} [Std.Refl bodies] {site site' : Site} {fs fs' : FileSystem} {text : Bytes}
  {moments : List (Occasion × Occasion)}
  {h h' : History}

theorem InStep.next (inStep : h.InStep bodies site.server moments fs fs' text h')
    (counterparts : site.Counterparts bodies site' fs fs' text) {o o' : Occasion} (parallel : o.Parallel fs fs' o')
    (member : (o, o') ∈ moments) :
    (h.next site o).InStep bodies site.server moments fs fs' text (h'.next site' o') where
  connection := (inStep.connection.ready counterparts parallel).1
  responses := by
    obtain ⟨-, -, opened⟩ := inStep.connection.takeIn counterparts parallel
    rw [next_responses, next_responses]
    refine List.rel_append inStep.responses ?_
    generalize h.connection.opens site o = d, h'.connection.opens site' o' = d' at opened
    cases opened with
    | none => exact .nil
    | some twins => exact .cons ⟨member, twins⟩ .nil

/-- From where they are in step, runs stay so. -/
theorem InStep.run (inStep : h.InStep bodies site.server moments fs fs' text h')
    (counterparts : site.Counterparts bodies site' fs fs' text) {later : List (Occasion × Occasion)}
    (parallel : ∀ m ∈ later, m.1.Parallel fs fs' m.2) (isPart : later ⊆ moments) :
    ((later.map Prod.fst).foldl (History.next site) h).InStep bodies site.server moments fs fs' text
        ((later.map Prod.snd).foldl (History.next site') h') ∧
      List.Forall₂ (Event.SameBut fun a a' => ∃ m ∈ moments, m.1.Agents text m.2 a a')
        (h.connection.reports site (later.map Prod.fst)) (h'.connection.reports site' (later.map Prod.snd)) := by
  induction later generalizing h h' with
  | nil => exact ⟨inStep, .nil⟩
  | cons m later ih =>
      obtain ⟨first, others⟩ := List.forall_mem_cons.mp parallel
      obtain ⟨member, isPart⟩ := List.cons_subset.mp isPart
      obtain ⟨runs, reports⟩ := ih (inStep.next counterparts first member) others isPart
      obtain ⟨-, now⟩ := inStep.connection.ready counterparts first
      exact ⟨runs, List.rel_append (now.imp fun _ _ same => same.mono fun _ _ agents => ⟨m, member, agents⟩) reports⟩

end History

/-- Nothing was given in either run, or the front of one response was, with the dates of one moment of both and with
bodies that are alike. -/
def SameBut (bodies : Bytes → Bytes → Prop) (server : Bytes) (moments : List (Occasion × Occasion))
    (output output' : Bytes) : Prop :=
  output = [] ∧ output' = [] ∨
    ∃ m ∈ moments, ∃ (response : Response) (body body' : Bytes) (n : Nat), bodies body body' ∧
      output = (response.head m.1.world.date.inHead server ++ body).take n ∧
        output' = (response.head m.2.world.date.inHead server ++ body').take n

/-- The same was given in both runs, but for the date. -/
abbrev SameButDate : Bytes → List (Occasion × Occasion) → Bytes → Bytes → Prop := SameBut Eq

namespace Connection

/-- Clients who send the same and take equally much are given the same, but for the date and for what bodies may
differ in. -/
theorem histories_in_step {bodies : Bytes → Bytes → Prop} [Std.Refl bodies] {site site' : Site} {fs fs' : FileSystem}
    {arrivals : List Arrival} (counterparts : site.Counterparts bodies site' fs fs' (Arrival.readable arrivals))
    (acceptances : List Acceptance) (peer : SocketAddress) (limits : Limits) (now now' : Nat)
    {moments : List (Occasion × Occasion)} (parallel : ∀ m ∈ moments, m.1.Parallel fs fs' m.2) :
    let c := start (.fresh arrivals acceptances) peer limits now
    let c' := start (.fresh arrivals acceptances) peer limits now'
    SameBut bodies site.server moments (c.history site (moments.map Prod.fst)).connection.stream.output
        (c'.history site' (moments.map Prod.snd)).connection.stream.output ∧
      List.Forall₂ (Event.SameBut fun a a' => ∃ m ∈ moments, m.1.Agents (Arrival.readable arrivals) m.2 a a')
        (c.reports site (moments.map Prod.fst)) (c'.reports site' (moments.map Prod.snd)) := by
  intro c c'
  have atFirst : History.InStep bodies site.server moments fs fs' (Arrival.readable arrivals)
      { connection := c, phases := [c.phase] } { connection := c', phases := [c'.phase] } := by
    refine ⟨⟨.intro (.refl _) .reading, ?_⟩, .nil⟩
    intro _
    exact ⟨rfl, rfl⟩
  obtain ⟨inStep, reports⟩ := atFirst.run counterparts parallel (List.Subset.refl moments)
  refine ⟨?_, reports⟩
  have files : ∀ o ∈ moments.map Prod.fst, o.world.files = fs := by
    simpa using fun o o' member => (parallel (o, o') member).files
  have files' : ∀ o ∈ moments.map Prod.snd, o.world.files = fs' := by
    simpa using fun o' o member => (parallel (o, o') member).files'
  have front := output_isPrefix_octets site arrivals acceptances peer limits now files
  have front' := output_isPrefix_octets site' arrivals acceptances peer limits now' files'
  have consistent := history_consistent site arrivals acceptances peer limits now (moments.map Prod.fst)
  have consistent' := history_consistent site' arrivals acceptances peer limits now' (moments.map Prod.snd)
  change (c.history site (moments.map Prod.fst)).InStep _ _ _ _ _ _ (c'.history site' (moments.map Prod.snd)) at inStep
  have length := inStep.connection.alike.stream.output
  have responses := inStep.responses
  generalize isBegun : (c.history site (moments.map Prod.fst)).responses = begun,
    isBegun' : (c'.history site' (moments.map Prod.snd)).responses = begun' at responses
  cases responses with
  | nil => exact .inl ⟨consistent.output_nil isBegun, consistent'.output_nil isBegun'⟩
  | @cons b b' _ _ both _ =>
      obtain ⟨member, twins⟩ := both
      obtain ⟨response, body, body', same, octets, octets'⟩ := twins.octets
      have first := front b.1 b.2 (isBegun ▸ List.mem_cons_self)
      have second := front' b'.1 b'.2 (isBegun' ▸ List.mem_cons_self)
      rw [(parallel _ member).files] at octets
      rw [(parallel _ member).files'] at octets'
      rw [octets, List.prefix_iff_eq_take] at first
      rw [octets', List.prefix_iff_eq_take] at second
      refine .inr ⟨_, member, response, body, body', _, same, first, ?_⟩
      exact second.trans (congrArg (List.take · _) length.symm)

end Connection

end Docroot
