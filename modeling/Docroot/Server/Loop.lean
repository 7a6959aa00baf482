import Docroot.Server.Table

/-!
The loop of the server: it accepts clients up to a limit, hands events on to their connections, and closes
those that are done or idle. What the poll and the sockets answer is part of the events, so a run is
determined by them. Closing is the only way out of the table; how every accepted stream left the server is
kept in order of departure.
-/
namespace Docroot

namespace Server

/-- What one call of the listener gives. -/
inductive Incoming where
  /-- A client, and how the registration of its stream fails, if it does. -/
  | client (stream : Stream) (peer : SocketAddress) (refusal : Option ErrorKind)
  | failure (kind : ErrorKind)
  deriving DecidableEq, Repr

/-- How a stream left the server. -/
inductive Fate where
  | refused
  | unregistered
  /-- It had this token and was closed. -/
  | closed (token : Nat)
  deriving DecidableEq, Repr

structure Departure where
  serial : Nat
  fate : Fate
  stream : Stream
  deriving DecidableEq, Repr

/-- Something the poll reports. -/
inductive PollEvent where
  /-- Clients may be waiting; what the listener gives until it would block. -/
  | incoming (results : List Incoming)
  /-- A shutdown is asked for. -/
  | wake
  /-- A stream is ready. A change of its registration fails as given, if it does. -/
  | ready (token : Nat) (readiness : Readiness) (refusal : Option ErrorKind)
  deriving DecidableEq, Repr

end Server

structure Server where
  site : Site
  limits : Limits
  clients : Server.Table Server.Client := []
  nextToken : Nat := Server.firstToken
  /-- What the poll knows of the clients: for what each token is registered. -/
  registry : Server.Table Interest := []
  /-- How many streams have been accepted. -/
  accepted : Nat := 0
  /-- The streams that have left, newest first. -/
  departed : List Server.Departure := []
  deriving DecidableEq, Repr

namespace Server

/-- Takes up a stream that has been accepted, or drops it. -/
def takeUp (world : World) (s : Server) (stream : Stream) (peer : SocketAddress)
    (refusal : Option ErrorKind) : Server × List Event :=
  let serial := s.accepted
  let s := { s with accepted := s.accepted + 1 }
  if s.limits.maxConnections ≤ s.clients.length then
    ({ s with departed := ⟨serial, .refused, stream⟩ :: s.departed },
      [.tableFull peer s.limits.maxConnections])
  else
    let (token, nextToken) := freshToken s.clients.tokens s.clients.length s.nextToken
    let s := { s with nextToken }
    match refusal with
    | some kind =>
      ({ s with departed := ⟨serial, .unregistered, stream⟩ :: s.departed },
        [.registrationFailed peer kind])
    | none =>
      let connection := Connection.start stream peer s.limits world.clock
      ({ s with
          clients := s.clients.insert token ⟨serial, connection, .readable⟩
          registry := s.registry.insert token .readable },
        [.connectionAccepted peer token])

/-- Accepts until the listener would block. A call that was interrupted or met a client that has gone is
made again; any other failure ends the round. The results that were not asked for come last. -/
def acceptAll (world : World) (s : Server) :
    List Incoming → Server × List Event × List Incoming
  | [] => (s, [], [])
  | .client stream peer refusal :: rest =>
    let (s, events) := s.takeUp world stream peer refusal
    let (s, more, left) := acceptAll world s rest
    (s, events ++ more, left)
  | .failure kind :: rest =>
    if kind = .wouldBlock then (s, [], rest)
    else if kind = .interrupted ∨ kind = .connectionAborted then acceptAll world s rest
    else (s, [.acceptFailed kind], rest)

/-- Closes a client: its registration and its connection are gone. -/
def close (s : Server) (token : Nat) : Server × List Event :=
  match s.clients.get? token with
  | none => (s, [])
  | some client =>
    ({ s with
        clients := s.clients.remove token
        registry := s.registry.remove token
        departed := ⟨client.serial, .closed token, client.connection.stream⟩ :: s.departed },
      [.connectionClosed client.connection.peer client.connection.responseSent])

/-- Hands an event on to a client. An event for a client that has been closed changes nothing. -/
def drive (world : World) (s : Server) (token : Nat) (readiness : Readiness)
    (refusal : Option ErrorKind) : Server × List Event :=
  match s.clients.get? token with
  | none => (s, [])
  | some client =>
    let (connection, events) := client.connection.ready s.site world readiness
    let s := { s with clients := s.clients.update token { client with connection } }
    match connection.step with
    | .close =>
      let (s, more) := s.close token
      (s, events ++ more)
    | .wait interest =>
      if interest = client.interest then (s, events)
      else
        match refusal with
        | some kind =>
          let (s, more) := s.close token
          (s, events ++ .reregistrationFailed connection.peer kind :: more)
        | none =>
          ({ s with
              clients := s.clients.update token { client with connection, interest }
              registry := s.registry.update token interest }, events)

def closeEach (s : Server) : List Nat → Server × List Event
  | [] => (s, [])
  | token :: rest =>
    let (s, events) := s.close token
    let (s, more) := closeEach s rest
    (s, events ++ more)

def closeAll (s : Server) : Server × List Event := s.closeEach s.clients.tokens

/-- The tokens of the clients that have been idle for too long. -/
def expired (s : Server) (now : Nat) : List Nat :=
  Table.tokens (s.clients.filter fun entry => entry.2.connection.isExpired now)

def expireEach (s : Server) : List Nat → Server × List Event
  | [] => (s, [])
  | token :: rest =>
    let notice := match s.clients.get? token with
      | some client => [.idleTimeout client.connection.peer client.connection.buffer.length]
      | none => []
    let (s, events) := s.close token
    let (s, more) := expireEach s rest
    (s, notice ++ events ++ more)

def expireIdle (s : Server) (now : Nat) : Server × List Event := s.expireEach (s.expired now)

/-- How long to wait for events at most; without clients there is no limit. -/
def nextTimeout (s : Server) (now : Nat) : Option Nat :=
  ((s.clients.map fun entry => entry.2.connection.deadline).min?).map (· - now)

/-- Handles one event; a wake-up is only noted. -/
def handle (world : World) (s : Server) : PollEvent → Server × List Event
  | .incoming results =>
    let (s, events, _) := s.acceptAll world results
    (s, events)
  | .wake => (s, [])
  | .ready token readiness refusal => s.drive world token readiness refusal

/-- Handles events one after the other, each in its own world. -/
def handleEach (s : Server) : List (World × PollEvent) → Server × List Event
  | [] => (s, [])
  | (world, event) :: rest =>
    let (s, events) := s.handle world event
    let (s, more) := handleEach s rest
    (s, events ++ more)

/-- A round of the loop: the events that came together, and the time after them. -/
structure Round where
  events : List (World × PollEvent)
  after : Nat

def Round.wakes (round : Round) : Bool := round.events.any fun e => e.2 = .wake

/-- Runs one round. The flag tells whether the loop ends, which closes all clients; otherwise those that
have been idle for too long are closed. -/
def run (s : Server) (round : Round) : Bool × Server × List Event :=
  let (s, events) := s.handleEach round.events
  if round.wakes then
    let (closed, more) := s.closeAll
    (true, closed, events ++ .shuttingDown s.clients.length :: more)
  else
    let (s, more) := s.expireIdle round.after
    (false, s, events ++ more)

inductive Ending where
  | running
  | stopped
  /-- Waiting for events failed. -/
  | failed (kind : ErrorKind)
  deriving DecidableEq, Repr

/-- Runs until a round or a failure to wait for one ends the loop. A wait that was interrupted is begun
again. -/
def runAll (s : Server) : List (Except ErrorKind Round) → Ending × Server × List Event
  | [] => (.running, s, [])
  | .error kind :: rest =>
    if kind = .interrupted then runAll s rest else (.failed kind, s, [.pollFailed kind])
  | .ok round :: rest =>
    match s.run round with
    | (true, s, events) => (.stopped, s, events)
    | (false, s, events) =>
      let (ending, s, more) := runAll s rest
      (ending, s, events ++ more)

end Server

end Docroot
