import Docroot.Limits
import Docroot.Site.Answer

/-!
One client, from its first octet to the end of the response. A connection reads until the head of a
request is complete or too long, answers at most once and closes. It moves on only when an event tells it
that its stream is ready, and then reads or writes until the stream would block.
-/
namespace Docroot

/-- What an event says about a stream. -/
structure Readiness where
  readable : Bool := false
  writable : Bool := false
  /-- The stream is broken, or the client can receive no more. -/
  failed : Bool := false
  deriving DecidableEq, Repr

inductive Interest where
  | readable
  | writable
  deriving DecidableEq, Repr

inductive Step where
  | wait (interest : Interest)
  | close
  deriving DecidableEq, Repr

inductive Phase where
  | reading
  | writing (delivery : Delivery)
  | closed
  deriving DecidableEq, Repr

/-- A client and what has come of it so far. -/
structure Connection where
  stream : Stream
  peer : SocketAddress
  limits : Limits
  /-- When the connection has been idle for too long. -/
  deadline : Nat
  /-- The octets of the head received so far, and what came with them. -/
  buffer : Bytes := []
  phase : Phase := .reading
  responseSent : Bool := false
  /-- Method and target of the request, for the report. -/
  requestLine : Option (Bytes × Bytes) := none
  deriving DecidableEq, Repr

namespace Connection

/-- The most that one read asks for. -/
def readChunk : Nat := 4096

def start (stream : Stream) (peer : SocketAddress) (limits : Limits) (now : Nat) : Connection where
  stream := stream
  peer := peer
  limits := limits.withRoom
  deadline := limits.deadline now

def isClosed (c : Connection) : Bool := c.phase = .closed

def isExpired (c : Connection) (now : Nat) : Bool := !c.isClosed && c.deadline ≤ now

def interest (c : Connection) : Option Interest :=
  match c.phase with
  | .reading => some .readable
  | .writing _ => some .writable
  | .closed => none

def step (c : Connection) : Step :=
  match c.interest with
  | some interest => .wait interest
  | none => .close

/-- The answer to a head, the request line for the report, and what is reported. -/
def dispatch (site : Site) (world : World) (peer : SocketAddress) (head : Bytes) :
    Delivery × Option (Bytes × Bytes) × List Event :=
  match Head.parse head with
  | .error e => (site.deliver world (.error .badRequest), none, [.headRejected peer e])
  | .ok request =>
    let (delivery, events) := site.answer world request peer
    (delivery, some (request.method.token, request.target),
      .requestReceived peer request.method.token request.target
        (request.userAgent world.headerOrder) :: events)

/-- The connection with octets that have been read, and whether it is to read on. A new end of the head
cannot start more than three octets before them. -/
def receive (site : Site) (world : World) (c : Connection) (bytes : Bytes) :
    Connection × List Event :=
  let searchFrom := c.buffer.length - 3
  let c := { c with buffer := c.buffer ++ bytes }
  match Head.terminatorOffset? (c.buffer.drop searchFrom) with
  | some offset =>
    let (delivery, requestLine, events) :=
      dispatch site world c.peer (c.buffer.take (searchFrom + offset))
    ({ c with phase := .writing delivery, requestLine }, events)
  | none =>
    if c.limits.maxHeaderBytes ≤ c.buffer.length then
      ({ c with phase := .writing (site.deliver world (.error .badRequest)) },
        [.headTooLarge c.peer c.limits.maxHeaderBytes])
    else (c, [])

def readSize (c : Connection) : Nat := min (c.limits.maxHeaderBytes - c.buffer.length) readChunk

theorem receive_stream (site : Site) (world : World) (c : Connection) (bytes : Bytes) :
    (receive site world c bytes).1.stream = c.stream := by
  unfold receive
  simp only
  split
  · rfl
  · split <;> rfl

/-- Reads until the stream would block, the head is complete or the buffer is full. -/
def readHead (site : Site) (world : World) (c : Connection) : Connection × List Event :=
  match _h : c.stream.read c.readSize with
  | (.ok [], stream) =>
    ({ c with stream, phase := .closed }, [.closedEarly c.peer c.buffer.length])
  | (.ok (b :: bs), stream) =>
    match _h' : receive site world { c with stream } (b :: bs) with
    | (c', events) => if c'.phase = .reading then readHead site world c' else (c', events)
  | (.error .wouldBlock, stream) => ({ c with stream }, [])
  | (.error .interrupted, stream) => readHead site world { c with stream }
  | (.error kind, stream) => ({ c with stream, phase := .closed }, [.readFailed c.peer kind])
termination_by c.stream.pendingReads
decreasing_by
  · have h1 := receive_stream site world { c with stream } (b :: bs)
    have h2 := Stream.pendingReads_read_ok (congrArg Prod.fst _h) (by simp)
    rw [_h'] at h1
    rw [_h] at h2
    simp only at h1 h2
    rw [h1]
    exact h2
  · have h2 := Stream.pendingReads_read_error (congrArg Prod.fst _h) (by decide)
    rw [_h] at h2
    exact h2

/-- Writes what the stream takes of the response. Progress moves the deadline. -/
def flush (world : World) (c : Connection) : Connection × List Event :=
  match c.phase with
  | .writing delivery =>
    match delivery.send world.files c.stream with
    | (.done, delivery', stream) =>
      let (method, path) := c.requestLine.getD (utf8 "-", utf8 "-")
      ({ c with stream, responseSent := true, phase := .closed },
        [.responseSent c.peer method path delivery'.status.code delivery'.bodyLength])
    | (.blocked, delivery', stream) =>
      let deadline :=
        if delivery.sent < delivery'.sent then c.limits.deadline world.clock else c.deadline
      ({ c with stream, deadline, phase := .writing delivery' }, [])
    | (.failed e, _, stream) => ({ c with stream, phase := .closed }, [.responseAbandoned c.peer e])
  | _ => (c, [])

def checkFailure (c : Connection) (readiness : Readiness) : Connection × List Event :=
  if readiness.failed ∧ c.phase ≠ .closed then ({ c with phase := .closed }, [.hungUp c.peer])
  else (c, [])

/-- Handles an event; a new response is sent right away, since the stream can usually take it. -/
def ready (site : Site) (world : World) (c : Connection) (readiness : Readiness) :
    Connection × List Event :=
  let (c, failures) := c.checkFailure readiness
  if readiness.readable ∧ c.phase = .reading then
    let (c, reads) := readHead site world c
    if c.interest = some .writable ∨ readiness.writable then
      let (c, writes) := c.flush world
      (c, failures ++ reads ++ writes)
    else (c, failures ++ reads)
  else if readiness.writable then
    let (c, writes) := c.flush world
    (c, failures ++ writes)
  else (c, failures)

end Connection

end Docroot
