import Docroot.Bytes

/-!
Decimal numbers without a sign: how they are written, and how a bounded one is read. An optional `+`
is accepted, and of two faults the one further left is reported.
-/
namespace Docroot.Decimal

def text (n : Nat) : Bytes := utf8 (toString n)

inductive Fault where
  | empty
  | badDigit
  | tooLarge
  deriving DecidableEq, Repr

def Fault.message : Fault → String
  | .empty => "cannot parse integer from empty string"
  | .badDigit => "invalid digit found in string"
  | .tooLarge => "number too large to fit in target type"

def digit? (b : UInt8) : Option Nat :=
  if 48 ≤ b ∧ b ≤ 57 then some (b.toNat - 48) else none

/-- Reads digits after a beginning of value `n`, and stops at the first fault. -/
def readDigits (bound n : Nat) : Bytes → Except Fault Nat
  | [] => .ok n
  | b :: rest =>
    match digit? b with
    | none => .error .badDigit
    | some d => if bound < n * 10 + d then .error .tooLarge else readDigits bound (n * 10 + d) rest

def read (bound : Nat) (bs : Bytes) : Except Fault Nat :=
  match bs with
  | [] => .error .empty
  | b :: rest => if b = 43 ∧ rest ≠ [] then readDigits bound 0 rest else readDigits bound 0 bs

def maxWord : Nat := 0xFFFFFFFFFFFFFFFF

end Docroot.Decimal
