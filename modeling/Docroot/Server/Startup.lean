import Docroot.Server.Loop
import Docroot.Settings

/-!
From settings to a server: the bounds are checked first, then the directory is found, then the address is
read, and last the address is taken.
-/
namespace Docroot

/-- What a machine grants to those who listen. -/
structure Network where
  /-- Ports below this one are reserved. -/
  firstFreePort : Nat := 1024
  /-- Whether the loopback is up. -/
  loopback : Bool := true
  /-- Further addresses of the machine. -/
  addresses : List IpAddress := []
  deriving DecidableEq, Repr

namespace Network

/-- Whether a machine knows which addresses are its own. Where it has none at all it does not. -/
def hasTable (network : Network) : Bool := network.loopback || !network.addresses.isEmpty

/-- Whether four octets stand for hosts of this network, for many hosts, or for all of them. -/
def isShared (a b c d : UInt8) : Bool :=
  a == 0 || (224 ≤ a && a ≤ 239) || [a, b, c, d] == [255, 255, 255, 255]

/-- Whether an address of four octets can be listened on. A machine that does not know its own addresses
refuses none. -/
def holdsV4 (network : Network) (a b c d : UInt8) : Bool :=
  !network.hasTable || isShared a b c d || (network.loopback && a == 127)
    || network.addresses.contains (.v4 a b c d)

/-- Whether an address of eight groups can be listened on: the one that stands for all, the loopback or
another address of the machine. -/
def holdsV6 (network : Network) (groups : Vector UInt16 8) : Bool :=
  groups.toList == [0, 0, 0, 0, 0, 0, 0, 0]
    || (network.loopback && groups.toList == [0, 0, 0, 0, 0, 0, 0, 1])
    || network.addresses.contains (.v6 groups)

/-- Why an address cannot be listened on, if it cannot. Eight groups may spell four octets; addresses of one
link need the name of the link, which nothing here gives. -/
def refusal? (network : Network) (ip : IpAddress) (reserved : Bool) : Option ErrorKind :=
  match ip with
  | .v4 a b c d =>
    if !network.holdsV4 a b c d then some .addressNotAvailable
    else if reserved then some .permissionDenied
    else none
  | .v6 groups =>
    match groups.toList with
    | [0, 0, 0, 0, 0, 0xFFFF, high, low] =>
      if reserved then some .permissionDenied
      else if network.holdsV4 (high / 256).toUInt8 high.toUInt8 (low / 256).toUInt8 low.toUInt8 then none
      else some .addressNotAvailable
    | first :: _ =>
      if 0xFF00 ≤ first then some .invalidInput
      else if reserved then some .permissionDenied
      else if 0xFE80 ≤ first && first ≤ 0xFEBF then some .invalidInput
      else if network.holdsV6 groups then none
      else some .addressNotAvailable
    | [] => none

/-- Takes an address to listen on. Port 0 stands for a free one. -/
def bind (network : Network) (address : SocketAddress) : Except IoError SocketAddress :=
  let port := address.port.toNat
  match network.refusal? address.ip (port ≠ 0 && port < network.firstFreePort) with
  | some kind => .error (.system kind)
  | none => .ok address

end Network

inductive StartupError where
  | limits (error : LimitsError)
  | site (error : SiteError)
  | address (error : ListenError)
  | bind (address : SocketAddress) (cause : IoError)
  deriving DecidableEq, Repr

namespace StartupError

def message : StartupError → String
  | limits e => e.message
  | site e => e.message
  | address e => e.message
  | bind a _ => "failed to listen on " ++ a.text

def cause? : StartupError → Option IoError
  | site e => some e.cause
  | address e => e.cause?
  | bind _ cause => some cause
  | limits _ => none

end StartupError

namespace Server

/-- A server for some settings, and the address it listens on. -/
def ofSettings (fs : FileSystem) (network : Network) (settings : Settings) :
    Except StartupError (Server × SocketAddress) :=
  match settings.server.limits with
  | .error e => .error (.limits e)
  | .ok limits =>
    match Site.ofRoot fs (utf8 settings.files.root) settings.files.listingLimit with
    | .error e => .error (.site e)
    | .ok site =>
      match settings.server.address with
      | .error e => .error (.address e)
      | .ok address =>
        match network.bind address with
        | .error e => .error (.bind address e)
        | .ok address => .ok ({ site, limits }, address)

/-- What is reported when a server starts to run. -/
def greeting (s : Server) (address : SocketAddress) : Event := .listening address s.site.root.path

end Server

end Docroot
