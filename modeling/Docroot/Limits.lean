/-!
Bounds on what clients may take up. Times are counted in milliseconds.
-/
namespace Docroot

structure Limits where
  maxConnections : Nat
  maxHeaderBytes : Nat
  /-- How long a head may take to arrive, and a write to make progress. -/
  idleTimeout : Nat
  deriving DecidableEq, Repr

namespace Limits

/-- The smallest head buffer that can hold a request line and its end. -/
def minHeaderBytes : Nat := 64

/-- The longest idle time in seconds: one day. -/
def maxIdleSeconds : Nat := 86400

def maxIdleTimeout : Nat := maxIdleSeconds * 1000

/-- The bounds with room for a request line. -/
def withRoom (limits : Limits) : Limits :=
  { limits with maxHeaderBytes := max limits.maxHeaderBytes minHeaderBytes }

def deadline (limits : Limits) (now : Nat) : Nat := now + min limits.idleTimeout maxIdleTimeout

end Limits

end Docroot
