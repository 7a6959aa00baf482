import Docroot.IoError
import Docroot.Net.Address
import Docroot.Text.Blank
import Docroot.Text.Quoted

/-!
Where to listen: `host:port`, `:port` or a port alone. The port stands after the last colon; the host is an
address literal, with or without brackets, and every interface is meant where there is none.
-/
namespace Docroot

inductive ListenError where
  | empty
  | badPort (spec : List Char) (fault : Decimal.Fault)
  | unresolvable (spec : List Char) (cause : IoError)
  deriving DecidableEq, Repr

namespace ListenError

def message : ListenError → String
  | empty => "empty listen address"
  | badPort spec _ => "invalid port in listen address " ++ Text.quoted spec
  | unresolvable spec _ => "cannot resolve listen address " ++ Text.quoted spec

def fault? : ListenError → Option Decimal.Fault
  | badPort _ fault => some fault
  | _ => none

def cause? : ListenError → Option IoError
  | unresolvable _ cause => some cause
  | _ => none

end ListenError

namespace SocketAddress

/-- The host where none is named: every interface. -/
def anyHost : List Char := "0.0.0.0".toList

def maxPort : Nat := 65535

/-- What stands before and after the last colon; all of it comes after where there is none. -/
def splitHost (spec : List Char) : List Char × List Char :=
  let reversed := spec.reverse
  let port := (reversed.takeWhile (· != ':')).reverse
  (((reversed.dropWhile (· != ':')).drop 1).reverse, port)

/-- A host without brackets, or the one that means every interface. -/
def bareHost (host : List Char) : List Char :=
  match dropTailWhile (· == ']') (host.dropWhile (· == '[')) with
  | [] => anyHost
  | bare => bare

/-- The address of a host. No names are looked up; a zero in a host keeps it from being one. -/
def resolve (host : List Char) : Except IoError IpAddress :=
  match IpAddress.ofText? host with
  | some ip => .ok ip
  | none => .error (if host.contains '\x00' then .zeroInPath else .system .uncategorized)

def ofListen (text : String) : Except ListenError SocketAddress :=
  let spec := Text.trim text.toList
  if spec.isEmpty then .error .empty
  else
    let (host, port) := splitHost spec
    match Decimal.read maxPort (port.flatMap String.utf8EncodeChar) with
    | .error fault => .error (.badPort spec fault)
    | .ok n =>
      match resolve (bareHost host) with
      | .ok ip => .ok ⟨ip, n.toUInt16⟩
      | .error e => .error (.unresolvable spec e)

end SocketAddress

end Docroot
