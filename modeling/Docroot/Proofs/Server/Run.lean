import Docroot.Server.Loop
import Docroot.Proofs.Connection.Run
import Docroot.Proofs.Server.Table

/-!
Runs of a server. All that a run does is to take up streams, to hand on events and to close clients; each of
these has a few outcomes, and what every outcome keeps is kept by whole runs.
-/
namespace Docroot.Server

def start (site : Site) (limits : Limits) : Server := { site, limits }

/-- The token for the next client, and the one to search from the next time. -/
def fresh (s : Server) : Nat × Nat := freshToken s.clients.tokens s.clients.length s.nextToken

def letIn (s : Server) (now : Nat) (stream : Stream) (peer : SocketAddress) : Server :=
  { s with
    accepted := s.accepted + 1
    nextToken := s.fresh.2
    clients := s.clients.insert s.fresh.1 ⟨s.accepted, .start stream peer s.limits now, .readable⟩
    registry := s.registry.insert s.fresh.1 .readable }

/-- The server when a client is closed and its stream let go. -/
def release (s : Server) (token serial : Nat) (stream : Stream) : Server :=
  { s with
    clients := s.clients.remove token
    registry := s.registry.remove token
    departed := ⟨serial, .closed token, stream⟩ :: s.departed }

/-- What never changes in a run, and what only grows. -/
structure Continues (s s' : Server) : Prop where
  site : s'.site = s.site
  limits : s'.limits = s.limits
  accepted : s.accepted ≤ s'.accepted
  departed : s.departed <:+ s'.departed

theorem Continues.trans {s₁ s₂ s₃ : Server} (first : Continues s₁ s₂) (second : Continues s₂ s₃) :
    Continues s₁ s₃ where
  site := second.site.trans first.site
  limits := second.limits.trans first.limits
  accepted := first.accepted.trans second.accepted
  departed := first.departed.trans second.departed

/-- What becomes of a stream that has been accepted. -/
inductive TakesUp (s : Server) (now : Nat) (stream : Stream) (peer : SocketAddress) : Server → Prop where
  | refused (full : s.limits.maxConnections ≤ s.clients.length) :
      TakesUp s now stream peer
        { s with
          accepted := s.accepted + 1
          departed := ⟨s.accepted, .refused, stream⟩ :: s.departed }
  | unregistered (room : s.clients.length < s.limits.maxConnections) :
      TakesUp s now stream peer
        { s with
          accepted := s.accepted + 1
          nextToken := s.fresh.2
          departed := ⟨s.accepted, .unregistered, stream⟩ :: s.departed }
  | admitted (room : s.clients.length < s.limits.maxConnections) :
      TakesUp s now stream peer (s.letIn now stream peer)

section TakesUp

variable {s s' : Server} {now : Nat} {stream : Stream} {peer : SocketAddress}

theorem TakesUp.continues (takes : TakesUp s now stream peer s') : Continues s s' := by
  cases takes with
  | refused | unregistered => exact ⟨rfl, rfl, Nat.le_succ _, List.suffix_cons _ _⟩
  | admitted => exact ⟨rfl, rfl, Nat.le_succ _, List.suffix_rfl⟩

theorem TakesUp.get? {token : Nat} {client : Client} (takes : TakesUp s now stream peer s')
    (found : s.clients.get? token = some client) : s'.clients.get? token = some client := by
  cases takes with
  | refused | unregistered => exact found
  | admitted => exact Table.get?_insert_of_some found

end TakesUp

theorem takeUp_letIn (world : World) {s : Server} (room : s.clients.length < s.limits.maxConnections)
    (stream : Stream) (peer : SocketAddress) :
    (s.takeUp world stream peer none).1 = s.letIn world.clock stream peer := by
  unfold takeUp
  exact congrArg Prod.fst (if_neg (Nat.not_le.mpr room))

theorem takeUp_takesUp (world : World) (s : Server) (stream : Stream) (peer : SocketAddress)
    (refusal : Option ErrorKind) :
    TakesUp s world.clock stream peer (s.takeUp world stream peer refusal).1 := by
  by_cases full : s.limits.maxConnections ≤ s.clients.length
  · unfold takeUp
    rw [if_pos full]
    exact .refused full
  · have room := Nat.not_le.mp full
    cases refusal with
    | none =>
        rw [takeUp_letIn world room]
        exact .admitted room
    | some kind =>
        unfold takeUp
        rw [if_neg full]
        exact .unregistered room

theorem close_of_none {s : Server} {token : Nat} (absent : s.clients.get? token = none) :
    s.close token = (s, []) := by
  rw [close, absent]

theorem close_of_some {s : Server} {token : Nat} {client : Client} (found : s.clients.get? token = some client) :
    (s.close token).1 = s.release token client.serial client.connection.stream := by
  rw [close, found]
  rfl

theorem close_clients (s : Server) (token : Nat) : (s.close token).1.clients = s.clients.remove token := by
  cases found : s.clients.get? token with
  | none =>
      have absent := Table.get?_eq_none_iff.mp found
      rw [close_of_none found]
      refine (List.filter_eq_self.mpr ?_).symm
      intro entry member
      rw [bne_iff_ne]
      rintro rfl
      exact absent (List.mem_map_of_mem member)
  | some client =>
      rw [close_of_some found]
      rfl

theorem closeEach_clients (s : Server) (tokens : List Nat) :
    (s.closeEach tokens).1.clients = List.filter (fun entry => !tokens.contains entry.1) s.clients := by
  induction tokens generalizing s with
  | nil => exact (List.filter_eq_self.mpr fun _ _ => rfl).symm
  | cons token rest ih =>
      refine (ih (s.close token).1).trans ?_
      rw [close_clients, Table.remove, List.filter_filter]
      apply List.filter_congr
      intro entry _
      rw [List.contains_cons, Bool.not_or, bne, Bool.and_comm]

theorem release_continues (s : Server) (token serial : Nat) (stream : Stream) :
    Continues s (s.release token serial stream) := ⟨rfl, rfl, Nat.le_refl _, List.suffix_cons _ _⟩

/-- A client after an event, unless the event ends it: the connection has closed, or it waits for something
else and that cannot be registered. -/
def Client.driven (site : Site) (client : Client) (o : Occasion) (refusal : Option ErrorKind) : Option Client :=
  match (client.connection.handle site o).interest with
  | none => none
  | some interest =>
    if interest = client.interest ∨ refusal = none then
      some { client with connection := client.connection.handle site o, interest }
    else none

theorem Client.driven_eq_some {site : Site} {client next : Client} {o : Occasion} {refusal : Option ErrorKind}
    (goes : client.driven site o refusal = some next) :
    next.serial = client.serial ∧ next.connection = client.connection.handle site o ∧
      next.connection.interest = some next.interest := by
  unfold driven at goes
  split at goes
  · cases goes
  · next waits =>
    split at goes
    · cases goes
      exact ⟨rfl, rfl, waits⟩
    · cases goes

/-- What an event does to a server. -/
inductive Drives (s : Server) (token : Nat) (o : Occasion) (refusal : Option ErrorKind) : Server → Prop where
  | stale (absent : s.clients.get? token = none) : Drives s token o refusal s
  | ended {client : Client} (found : s.clients.get? token = some client)
      (ends : client.driven s.site o refusal = none) :
      Drives s token o refusal (s.release token client.serial (client.connection.handle s.site o).stream)
  | goesOn {client next : Client} {registry : Table Interest} (found : s.clients.get? token = some client)
      (goes : client.driven s.site o refusal = some next)
      (registered : registry = s.registry.update token next.interest ∨
        registry = s.registry ∧ next.interest = client.interest) :
      Drives s token o refusal { s with clients := s.clients.update token next, registry }

section Drives

variable {s s' : Server} {token other : Nat} {o : Occasion} {refusal : Option ErrorKind} {client : Client}

theorem Drives.continues (drives : Drives s token o refusal s') : Continues s s' := by
  cases drives with
  | stale | goesOn => exact ⟨rfl, rfl, Nat.le_refl _, List.suffix_rfl⟩
  | ended => exact release_continues s _ _ _

theorem Drives.get?_of_ne (drives : Drives s token o refusal s') (differ : other ≠ token) :
    s'.clients.get? other = s.clients.get? other := by
  cases drives with
  | stale => rfl
  | ended => exact Table.get?_put_of_ne differ none
  | @goesOn _ next => exact Table.get?_put_of_ne differ (some next)

/-- A client that is handed an event goes with its stream as the event has left it, or stays with its connection as
the event has left it. -/
theorem Drives.of_some (drives : Drives s token o refusal s') (found : s.clients.get? token = some client) :
    ⟨client.serial, .closed token, (client.connection.handle s.site o).stream⟩ ∈ s'.departed ∨
      ∃ interest, s'.clients.get? token = some ⟨client.serial, client.connection.handle s.site o, interest⟩ := by
  cases drives with
  | stale absent => cases absent.symm.trans found
  | ended found' =>
      cases found'.symm.trans found
      exact .inl List.mem_cons_self
  | @goesOn _ next _ found' goes =>
      cases found'.symm.trans found
      obtain ⟨serial, handled, -⟩ := Client.driven_eq_some goes
      rw [← serial, ← handled]
      exact .inr ⟨next.interest, Table.get?_update_self (Table.mem_tokens_of_get? found)⟩

end Drives

theorem drive_of_none {world : World} {s : Server} {token : Nat} (absent : s.clients.get? token = none)
    (readiness : Readiness) (refusal : Option ErrorKind) : s.drive world token readiness refusal = (s, []) := by
  rw [drive, absent]

/-- A client that is closed after it has been handed an event lets go the stream as the event has left it. -/
theorem close_update {s : Server} {token : Nat} {client : Client} (present : token ∈ s.clients.tokens) :
    ({ s with clients := s.clients.update token client }.close token).1 =
      s.release token client.serial client.connection.stream := by
  have found : (s.clients.update token client).get? token = some client := Table.get?_update_self present
  rw [close_of_some found, release, release, Table.remove_update]

theorem drive_drives (world : World) (s : Server) (token : Nat) (readiness : Readiness)
    (refusal : Option ErrorKind) :
    Drives s token ⟨world, readiness⟩ refusal (s.drive world token readiness refusal).1 := by
  cases found : s.clients.get? token with
  | none =>
      rw [drive_of_none found]
      exact .stale found
  | some client =>
      have present := Table.mem_tokens_of_get? found
      generalize handled : client.connection.ready s.site world readiness = outcome
      obtain ⟨connection, events⟩ := outcome
      have isHandled : client.connection.handle s.site ⟨world, readiness⟩ = connection := congrArg Prod.fst handled
      unfold drive
      rw [found]
      dsimp only
      rw [handled]
      dsimp only
      unfold Connection.step
      cases waits : connection.interest with
      | none =>
          dsimp only
          rw [close_update present, ← isHandled]
          exact .ended found (by rw [Client.driven, isHandled, waits])
      | some interest =>
          dsimp only
          split
          · next same =>
            have goes : client.driven s.site ⟨world, readiness⟩ refusal =
                some { client with connection, interest := client.interest } := by
              rw [Client.driven, isHandled, waits]
              dsimp only
              rw [if_pos (.inl same), same]
            exact .goesOn found goes (.inr ⟨rfl, rfl⟩)
          · next differs =>
            cases refusal with
            | none =>
                dsimp only
                rw [Table.update_update]
                refine .goesOn found ?_ (.inl rfl)
                rw [Client.driven, isHandled, waits]
                exact if_pos (.inr rfl)
            | some kind =>
                dsimp only
                rw [close_update present, ← isHandled]
                refine .ended found ?_
                rw [Client.driven, isHandled, waits]
                exact if_neg (by simpa using differs)

/-- What a run leads to from a server, and the events it hands on in the meantime, each with its token. -/
inductive Leads : Server → List (Nat × Occasion) → Server → Prop where
  | stay (s : Server) : Leads s [] s
  | takeUp {s s' : Server} {heard : List (Nat × Occasion)} (world : World) (stream : Stream)
      (peer : SocketAddress) (refusal : Option ErrorKind)
      (onward : Leads (s.takeUp world stream peer refusal).1 heard s') : Leads s heard s'
  | drive {s s' : Server} {heard : List (Nat × Occasion)} (world : World) (token : Nat)
      (readiness : Readiness) (refusal : Option ErrorKind)
      (onward : Leads (s.drive world token readiness refusal).1 heard s') :
      Leads s ((token, ⟨world, readiness⟩) :: heard) s'
  | close {s s' : Server} {heard : List (Nat × Occasion)} (token : Nat)
      (onward : Leads (s.close token).1 heard s') : Leads s heard s'

theorem Leads.trans {s₁ s₂ s₃ : Server} {heard more : List (Nat × Occasion)} (first : Leads s₁ heard s₂)
    (second : Leads s₂ more s₃) : Leads s₁ (heard ++ more) s₃ := by
  induction first with
  | stay => exact second
  | takeUp world stream peer refusal _ ih => exact .takeUp world stream peer refusal (ih second)
  | drive world token readiness refusal _ ih => exact .drive world token readiness refusal (ih second)
  | close token _ ih => exact .close token (ih second)

/-- What the three kinds of steps keep is kept by a run. -/
theorem Leads.invariant {P : Server → Prop}
    (takesUp : ∀ {s s' now stream peer}, TakesUp s now stream peer s' → P s → P s')
    (drives : ∀ {s s' token o refusal}, Drives s token o refusal s' → P s → P s')
    (releases : ∀ {s token client}, s.clients.get? token = some client → P s →
      P (s.release token client.serial client.connection.stream))
    {s s' : Server} {heard : List (Nat × Occasion)} (leads : Leads s heard s') (holds : P s) : P s' := by
  induction leads with
  | stay => exact holds
  | takeUp world stream peer refusal _ ih => exact ih (takesUp (takeUp_takesUp world _ stream peer refusal) holds)
  | drive world token readiness refusal _ ih =>
      exact ih (drives (drive_drives world _ token readiness refusal) holds)
  | @close s s' _ token _ ih =>
      cases found : s.clients.get? token with
      | none => exact ih (by rwa [close_of_none found])
      | some client =>
          refine ih ?_
          rw [close_of_some found]
          exact releases found holds

theorem Leads.continues {s s' : Server} {heard : List (Nat × Occasion)} (leads : Leads s heard s') :
    Continues s s' := by
  refine leads.invariant ?_ ?_ ?_ ⟨rfl, rfl, Nat.le_refl _, List.suffix_rfl⟩
  · intro s₁ s₂ now stream peer takes before
    exact before.trans takes.continues
  · intro s₁ s₂ token o refusal drives before
    exact before.trans drives.continues
  · intro s₁ token client found before
    exact before.trans (release_continues _ _ _ _)

section Loop

variable (s : Server)

/-- The events for clients among all that the poll reports. -/
def PollEvent.heard (world : World) : PollEvent → List (Nat × Occasion)
  | .ready token readiness _ => [(token, ⟨world, readiness⟩)]
  | _ => []

def heardOf (events : List (World × PollEvent)) : List (Nat × Occasion) := events.flatMap fun e => e.2.heard e.1

/-- The events that are handed on before the loop ends. -/
def heardBefore : List (Except ErrorKind Round) → List (Nat × Occasion)
  | [] => []
  | .error kind :: rest => if kind = .interrupted then heardBefore rest else []
  | .ok round :: rest => heardOf round.events ++ if round.wakes then [] else heardBefore rest

theorem acceptAll_leads (world : World) (results : List Incoming) : Leads s [] (acceptAll world s results).1 := by
  induction results generalizing s with
  | nil => exact .stay s
  | cons result rest ih =>
      cases result with
      | client stream peer refusal => exact .takeUp world stream peer refusal (ih _)
      | failure kind =>
          rw [acceptAll]
          split
          · exact .stay s
          · split
            · exact ih s
            · exact .stay s

theorem handle_leads (world : World) (event : PollEvent) : Leads s (event.heard world) (s.handle world event).1 := by
  cases event with
  | incoming results => exact acceptAll_leads s world results
  | wake => exact .stay s
  | ready token readiness refusal => exact .drive world token readiness refusal (.stay _)

theorem handleEach_leads (events : List (World × PollEvent)) : Leads s (heardOf events) (s.handleEach events).1 := by
  induction events generalizing s with
  | nil => exact .stay s
  | cons e rest ih => exact (handle_leads s e.1 e.2).trans (ih _)

theorem closeEach_leads (tokens : List Nat) : Leads s [] (s.closeEach tokens).1 := by
  induction tokens generalizing s with
  | nil => exact .stay s
  | cons token rest ih => exact .close token (ih _)

theorem expireEach_leads (tokens : List Nat) : Leads s [] (s.expireEach tokens).1 := by
  induction tokens generalizing s with
  | nil => exact .stay s
  | cons token rest ih => exact .close token (ih _)

theorem run_wakes (round : Round) : (s.run round).1 = round.wakes := by
  unfold run
  cases round.wakes <;> rfl

theorem run_leads (round : Round) : Leads s (heardOf round.events) (s.run round).2.1 := by
  have handled := handleEach_leads s round.events
  rw [← List.append_nil (heardOf round.events)]
  unfold run
  cases round.wakes with
  | true => exact handled.trans (closeEach_leads _ _)
  | false => exact handled.trans (expireEach_leads _ _)

theorem runAll_of_wakes {round : Round} (wakes : round.wakes = true) (rest : List (Except ErrorKind Round)) :
    s.runAll (.ok round :: rest) = (.stopped, (s.run round).2) := by
  have ends := run_wakes s round
  rw [runAll]
  generalize s.run round = outcome at ends ⊢
  obtain ⟨ended, s', events⟩ := outcome
  dsimp only at ends
  rw [ends, wakes]

theorem runAll_of_sleeps {round : Round} (sleeps : round.wakes = false) (rest : List (Except ErrorKind Round)) :
    (s.runAll (.ok round :: rest)).2.1 = ((s.run round).2.1.runAll rest).2.1 := by
  have goesOn := run_wakes s round
  rw [runAll]
  generalize s.run round = outcome at goesOn ⊢
  obtain ⟨ended, s', events⟩ := outcome
  dsimp only at goesOn
  rw [goesOn, sleeps]

theorem runAll_leads (rounds : List (Except ErrorKind Round)) : Leads s (heardBefore rounds) (s.runAll rounds).2.1 := by
  induction rounds generalizing s with
  | nil => exact .stay s
  | cons wait rest ih =>
      cases wait with
      | error kind =>
          rw [runAll, heardBefore]
          split
          · exact ih s
          · exact .stay s
      | ok round =>
          rw [heardBefore]
          cases wakes : round.wakes with
          | true =>
              rw [runAll_of_wakes s wakes, if_pos rfl, List.append_nil]
              exact run_leads s round
          | false =>
              rw [runAll_of_sleeps s wakes]
              exact (run_leads s round).trans (ih _)

end Loop

/-- A part of a run: rounds that are over, events of the next one that have been handled, and clients that have
been closed since. -/
structure Stretch where
  rounds : List (Except ErrorKind Round) := []
  events : List (World × PollEvent) := []
  closing : List Nat := []

def Stretch.heard (stretch : Stretch) : List (Nat × Occasion) := heardBefore stretch.rounds ++ heardOf stretch.events

/-- The events for one token. -/
def occasionsOf (token : Nat) (heard : List (Nat × Occasion)) : List Occasion :=
  heard.filterMap fun e => if e.1 = token then some e.2 else none

def Stretch.occasions (stretch : Stretch) (token : Nat) : List Occasion := occasionsOf token stretch.heard

def after (s : Server) (stretch : Stretch) : Server :=
  (((s.runAll stretch.rounds).2.1.handleEach stretch.events).1.closeEach stretch.closing).1

theorem after_leads (s : Server) (stretch : Stretch) : Leads s stretch.heard (s.after stretch) := by
  have handled := (runAll_leads s stretch.rounds).trans (handleEach_leads _ stretch.events)
  have closed := handled.trans (closeEach_leads _ stretch.closing)
  rwa [List.append_nil] at closed

end Docroot.Server
