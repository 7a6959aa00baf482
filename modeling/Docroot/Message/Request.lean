import Docroot.Message.Headers

/-!
Requests: a method, the target as the client spelled it, a protocol token and headers. Only `GET` is
served; every other method is kept by its token so that it can be refused by name.
-/
namespace Docroot

inductive Method where
  | get
  | other (token : Bytes)
  deriving DecidableEq, Repr

namespace Method

/-- The method that a token names; letter case counts. -/
def ofToken (token : Bytes) : Method := if token = utf8 "GET" then .get else .other token

def token : Method → Bytes
  | get => utf8 "GET"
  | other t => t

theorem token_ofToken (t : Bytes) : (ofToken t).token = t := by
  unfold ofToken
  split
  · next h => exact h.symm
  · rfl

end Method

structure Request where
  method : Method
  /-- The request target as received, query and fragment included. -/
  target : Bytes
  version : Bytes
  headers : Headers
  deriving DecidableEq, Repr

/-- A target without its query and fragment: what stands before the first `?` or `#`. -/
def stripQuery (target : Bytes) : Bytes := target.takeWhile fun b => b != 63 && b != 35

namespace Request

def path (request : Request) : Bytes := stripQuery request.target

/-- The name the client gives itself, or `-`. One that it gives in several spellings of the header is taken
by the order of the fields. -/
def userAgent (request : Request) (order : Headers.Order) : Bytes :=
  (request.headers.find? order (utf8 "User-Agent")).getD (utf8 "-")

end Request

end Docroot
