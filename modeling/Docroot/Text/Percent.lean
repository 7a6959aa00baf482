import Docroot.Bytes

/-!
Percent-encoding of octets. Decoding is done once and leaves a `%` without two hexadecimal digits as it
is; encoding makes an octet string safe as one segment of a link.
-/
namespace Docroot.Percent

/-- The value of a hexadecimal digit in either case. -/
def hexValue? (b : UInt8) : Option UInt8 :=
  if 48 ≤ b ∧ b ≤ 57 then some (b - 48)
  else if 65 ≤ b ∧ b ≤ 70 then some (b - 55)
  else if 97 ≤ b ∧ b ≤ 102 then some (b - 87)
  else none

def octet? (high low : UInt8) : Option UInt8 :=
  match hexValue? high, hexValue? low with
  | some h, some l => some (h * 16 + l)
  | _, _ => none

/-- Decodes `bs` behind the octets `done`, which are kept in reverse. -/
def decodeOnto (done : Bytes) : Bytes → Bytes
  | [] => done.reverse
  | [b] => (b :: done).reverse
  | [b, c] => (c :: b :: done).reverse
  | b :: h :: l :: rest =>
    if b = 37 then
      match octet? h l with
      | some v => decodeOnto (v :: done) rest
      | none => decodeOnto (b :: done) (h :: l :: rest)
    else decodeOnto (b :: done) (h :: l :: rest)

/-- Every `%` with two hexadecimal digits becomes the octet they stand for. -/
def decode (bs : Bytes) : Bytes := decodeOnto [] bs

/-- The digit of a value below sixteen, in upper case. -/
def hexDigit (n : UInt8) : UInt8 := if n < 10 then n + 48 else n + 55

/-- The printable characters that may not stand in a segment of a link. -/
def reserved : Bytes := utf8 " \"#%&'/<>?`\x7b\x7d"

/-- Octets that a segment spells by their number: controls, all that is not ASCII, and the reserved
characters. -/
def isEscaped (b : UInt8) : Bool := b < 32 || 127 ≤ b || reserved.contains b

def encodeOctet (b : UInt8) : Bytes :=
  if isEscaped b then [37, hexDigit (b / 16), hexDigit (b % 16)] else [b]

/-- A name as one segment of a link. -/
def encodeSegment (name : Bytes) : Bytes := name.flatMap encodeOctet

end Docroot.Percent
