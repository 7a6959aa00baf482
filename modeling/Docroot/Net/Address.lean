import Docroot.Text.Decimal

/-!
Network addresses: the literals of both address families, read without a zone, and the text of an
address with its port. A literal may leave out one run of zero groups and may end in four decimal
numbers; the text leaves out the longest such run, the first of equals, and none of length one.
-/
namespace Docroot

inductive IpAddress where
  | v4 (a b c d : UInt8)
  | v6 (groups : Vector UInt16 8)
  deriving DecidableEq, Repr

structure SocketAddress where
  ip : IpAddress
  port : UInt16
  deriving DecidableEq, Repr

namespace IpAddress

/-- The value of a digit below sixteen. -/
def digitValue? (c : Char) : Option Nat :=
  if '0' ≤ c ∧ c ≤ '9' then some (c.toNat - 48)
  else if 'a' ≤ c ∧ c ≤ 'f' then some (c.toNat - 87)
  else if 'A' ≤ c ∧ c ≤ 'F' then some (c.toNat - 55)
  else none

def isDigitIn (base : Nat) (c : Char) : Bool :=
  match digitValue? c with
  | some d => d < base
  | none => false

def valueIn (base : Nat) (digits : List Char) : Nat :=
  digits.foldl (fun n c => n * base + (digitValue? c).getD 0) 0

/-- The number at the front of a text, of at most `width` digits; a longer run is no number. -/
def number? (base width : Nat) (text : List Char) : Option (Nat × List Char) :=
  let digits := text.takeWhile (isDigitIn base)
  if digits.isEmpty ∨ width < digits.length then none
  else some (valueIn base digits, text.dropWhile (isDigitIn base))

/-- One of the four numbers: below 256, and without needless zeros in front. -/
def octet? (text : List Char) : Option (UInt8 × List Char) :=
  match number? 10 3 text with
  | some (n, rest) =>
    if 255 < n ∨ (text.head? = some '0' ∧ 1 < (text.takeWhile (isDigitIn 10)).length) then none
    else some (n.toUInt8, rest)
  | none => none

/-- A text without the given character at its front. -/
def after? (c : Char) : List Char → Option (List Char)
  | [] => none
  | d :: rest => if d = c then some rest else none

/-- Four numbers with dots between them at the front of a text. -/
def dotted? (text : List Char) : Option ((UInt8 × UInt8 × UInt8 × UInt8) × List Char) := do
  let (a, rest) ← octet? text
  let (b, rest) ← octet? (← after? '.' rest)
  let (c, rest) ← octet? (← after? '.' rest)
  let (d, rest) ← octet? (← after? '.' rest)
  return ((a, b, c, d), rest)

/-- The 16 bits of two octets. -/
def pair (a b : UInt8) : UInt16 := a.toUInt16 * 256 + b.toUInt16

/-- Up to `limit` groups with colons between them; `first` tells whether the first of them stands without
a colon. The flag of the result is set where the groups end in four decimal numbers, which are worth two
groups and are only tried where two fit. -/
def groups (first : Bool) : Nat → List Char → List UInt16 × Bool × List Char
  | 0, text => ([], false, text)
  | limit + 1, text =>
    match (if first then some text else after? ':' text) with
    | none => ([], false, text)
    | some front =>
      match (if limit = 0 then none else dotted? front) with
      | some ((a, b, c, d), rest) => ([pair a b, pair c d], true, rest)
      | none =>
        match number? 16 4 front with
        | none => ([], false, text)
        | some (n, rest) =>
          let (more, decimal, rest) := groups false limit rest
          (n.toUInt16 :: more, decimal, rest)

/-- Eight groups, if there are eight. -/
def ofGroups? (l : List UInt16) : Option IpAddress :=
  if h : l.toArray.size = 8 then some (.v6 ⟨l.toArray, h⟩) else none

/-- The longer kind of address literal, which must be all of the text. -/
def v6? (text : List Char) : Option IpAddress :=
  let (front, decimal, rest) := groups true 8 text
  if front.length = 8 then
    if rest.isEmpty then ofGroups? front else none
  else if decimal then none
  else do
    let rest ← after? ':' rest
    let rest ← after? ':' rest
    let (back, _, rest) := groups true (7 - front.length) rest
    if rest.isEmpty then
      ofGroups? (front ++ List.replicate (8 - front.length - back.length) 0 ++ back)
    else none

/-- The shorter kind of address literal, which must be all of the text. -/
def v4? (text : List Char) : Option IpAddress :=
  match dotted? text with
  | some ((a, b, c, d), []) => some (.v4 a b c d)
  | _ => none

def ofText? (text : List Char) : Option IpAddress := v4? text <|> v6? text

/-- Four numbers with dots between them. -/
def dottedText (a b c d : UInt8) : String :=
  toString a.toNat ++ "." ++ toString b.toNat ++ "." ++ toString c.toNat ++ "." ++ toString d.toNat

/-- Groups in lower-case hexadecimal digits, with colons between them. -/
def groupsText (l : List UInt16) : String :=
  ":".intercalate (l.map fun g => String.ofList (Nat.toDigits 16 g.toNat))

def zeros (l : List UInt16) : Nat := (l.takeWhile (· == 0)).length

/-- Start and length of the longest run of zero groups, the first of equals. -/
def longestZeros (l : List UInt16) : Nat × Nat :=
  (List.range l.length).foldl
    (fun best i => if best.2 < zeros (l.drop i) then (i, zeros (l.drop i)) else best) (0, 0)

def text : IpAddress → String
  | v4 a b c d => dottedText a b c d
  | v6 v =>
    let l := v.toList
    if l.take 6 = [0, 0, 0, 0, 0, 0xFFFF] then
      let high := l.getD 6 0
      let low := l.getD 7 0
      "::ffff:" ++ dottedText (high / 256).toUInt8 (high % 256).toUInt8 (low / 256).toUInt8
        (low % 256).toUInt8
    else
      let (start, count) := longestZeros l
      if 1 < count then
        groupsText (l.take start) ++ "::" ++ groupsText (l.drop (start + count))
      else groupsText l

def isV6 : IpAddress → Bool
  | v4 .. => false
  | v6 _ => true

end IpAddress

/-- Host and port; an address that has colons of its own stands in brackets. -/
def SocketAddress.text (address : SocketAddress) : String :=
  match address.ip with
  | .v4 .. => address.ip.text ++ ":" ++ toString address.port.toNat
  | .v6 _ => "[" ++ address.ip.text ++ "]:" ++ toString address.port.toNat

end Docroot
