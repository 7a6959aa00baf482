import Docroot.Message.Head
import Docroot.Net.Address
import Docroot.IoError
import Docroot.Text.Decimal

/-!
What the server reports while it runs: the events, how much they matter, and the text and values under
which they are written down.
-/
namespace Docroot

inductive Level where
  | trace
  | debug
  | info
  | warn
  | error
  deriving DecidableEq, Repr

/-- Something worth reporting. -/
inductive Event where
  | hungUp (peer : SocketAddress)
  | closedEarly (peer : SocketAddress) (buffered : Nat)
  | headTooLarge (peer : SocketAddress) (limit : Nat)
  | readFailed (peer : SocketAddress) (error : ErrorKind)
  | headRejected (peer : SocketAddress) (error : HeadError)
  | requestReceived (peer : SocketAddress) (method path userAgent : Bytes)
  | responseSent (peer : SocketAddress) (method path : Bytes) (status bytes : Nat)
  | responseAbandoned (peer : SocketAddress) (error : IoError)
  | pathForbidden (peer : SocketAddress) (path : Bytes)
  | listingTooLong (path : Bytes) (limit : Nat)
  | listingFailed (path : Bytes) (error : IoError)
  | listening (address : SocketAddress) (root : Bytes)
  | pollFailed (error : ErrorKind)
  | shuttingDown (count : Nat)
  | acceptFailed (error : ErrorKind)
  | tableFull (peer : SocketAddress) (limit : Nat)
  | registrationFailed (peer : SocketAddress) (error : ErrorKind)
  | connectionAccepted (peer : SocketAddress) (token : Nat)
  | reregistrationFailed (peer : SocketAddress) (error : ErrorKind)
  | connectionClosed (peer : SocketAddress) (responseSent : Bool)
  | idleTimeout (peer : SocketAddress) (buffered : Nat)
  deriving DecidableEq, Repr

namespace Event

def level : Event → Level
  | requestReceived .. => .trace
  | responseSent .. | listening .. | shuttingDown .. => .info
  | headTooLarge .. | pathForbidden .. | listingTooLong .. | tableFull .. | registrationFailed .. => .warn
  | listingFailed .. | pollFailed .. | acceptFailed .. => .error
  | _ => .debug

def message : Event → String
  | hungUp .. => "peer hung up or socket error"
  | closedEarly .. => "peer closed before completing request"
  | headTooLarge .. => "request head too large"
  | readFailed .. => "read failed"
  | headRejected .. => "rejecting request"
  | requestReceived .. => "request received"
  | responseSent .. => "response sent"
  | responseAbandoned .. => "abandoning response"
  | pathForbidden .. => "forbidden request path"
  | listingTooLong .. => "directory listing exceeds limit"
  | listingFailed .. => "directory listing failed"
  | listening .. => "Listening"
  | pollFailed .. => "poll failed"
  | shuttingDown .. => "Shutting down"
  | acceptFailed .. => "accept failed"
  | tableFull .. => "connection table full, dropping client"
  | registrationFailed .. => "failed to register client"
  | connectionAccepted .. => "Accepted connection"
  | reregistrationFailed .. => "reregister failed"
  | connectionClosed .. => "Connection closed"
  | idleTimeout .. => "idle timeout"

/-- The client an event is about. -/
def peerField (peer : SocketAddress) : String × Bytes := ("peer", utf8 peer.text)

def fields : Event → List (String × Bytes)
  | hungUp peer => [peerField peer]
  | closedEarly peer buffered => [peerField peer, ("buffered", Decimal.text buffered)]
  | headTooLarge peer limit => [peerField peer, ("limit", Decimal.text limit)]
  | readFailed peer error => [peerField peer, ("error", utf8 error.phrase)]
  | headRejected peer error => [peerField peer, ("error", utf8 error.message)]
  | requestReceived peer method path userAgent =>
    [peerField peer, ("method", method), ("path", path), ("user_agent", userAgent)]
  | responseSent peer method path status bytes =>
    [peerField peer, ("method", method), ("path", path), ("status", Decimal.text status),
      ("bytes", Decimal.text bytes)]
  | responseAbandoned peer error => [peerField peer, ("error", utf8 error.message)]
  | pathForbidden peer path => [peerField peer, ("path", path)]
  | listingTooLong path limit => [("path", path), ("limit", Decimal.text limit)]
  | listingFailed path error => [("path", path), ("error", utf8 error.message)]
  | listening address root => [("addr", utf8 address.text), ("root", Utf8.repair root)]
  | pollFailed error => [("error", utf8 error.phrase)]
  | shuttingDown count => [("open", Decimal.text count)]
  | acceptFailed error => [("error", utf8 error.phrase)]
  | tableFull peer limit => [peerField peer, ("limit", Decimal.text limit)]
  | registrationFailed peer error => [peerField peer, ("error", utf8 error.phrase)]
  | connectionAccepted peer token => [peerField peer, ("token", Decimal.text token)]
  | reregistrationFailed peer error => [peerField peer, ("error", utf8 error.phrase)]
  | connectionClosed peer sent =>
    [peerField peer, ("response_sent", utf8 (if sent then "true" else "false"))]
  | idleTimeout peer buffered => [peerField peer, ("buffered", Decimal.text buffered)]

end Event

end Docroot
