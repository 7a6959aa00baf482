/-!
A place in a text that is read from left to right, with its line and column, and the classes of characters
that layout rests on.
-/
namespace Docroot.Yaml

/-- A line break. -/
def isBreak (c : Char) : Bool :=
  c == '\r' || c == '\n' || c == '\u0085' || c == '\u2028' || c == '\u2029'

def isBlank (c : Char) : Bool := c == ' ' || c == '\t'

/-- A letter, a digit, `-` or `_`. -/
def isWordChar (c : Char) : Bool := c.isAlphanum || c == '-' || c == '_'

/-- A character that a text may hold at all. -/
def isAllowed (c : Char) : Bool :=
  let n := c.toNat
  n == 0x09 || n == 0x0A || n == 0x0D || (0x20 ≤ n && n ≤ 0x7E) || n == 0x85
    || (0xA0 ≤ n && n ≤ 0xFFFD) || 0x10000 ≤ n

def hexValue? (c : Char) : Option Nat :=
  if '0' ≤ c ∧ c ≤ '9' then some (c.toNat - 48)
  else if 'a' ≤ c ∧ c ≤ 'f' then some (c.toNat - 87)
  else if 'A' ≤ c ∧ c ≤ 'F' then some (c.toNat - 55)
  else none

/-- The number that a run of hexadecimal digits stands for; `none` if one is no digit. -/
def hexNumber? (digits : List Char) : Option Nat :=
  digits.foldlM (fun n c => (hexValue? c).map fun d => n * 16 + d) 0

/-- What is still to be read, and where it starts. -/
structure Cursor where
  rest : List Char
  /-- The octets in front of it. -/
  index : Nat
  line : Nat
  column : Nat
  deriving DecidableEq, Repr

namespace Cursor

def start (text : List Char) : Cursor := ⟨text, 0, 0, 0⟩

/-- The character `k` places on. -/
def peek? (c : Cursor) (k : Nat) : Option Char := c.rest[k]?

def sees (c : Cursor) (k : Nat) (x : Char) : Bool := c.peek? k == some x

def seesAny (c : Cursor) (k : Nat) (xs : List Char) : Bool := xs.any (c.sees k)

def seesWhere (c : Cursor) (k : Nat) (p : Char → Bool) : Bool := (c.peek? k).any p

def atEnd (c : Cursor) : Bool := c.rest.isEmpty

/-- Whether the text ends or the line breaks here. -/
def atBreakOrEnd (c : Cursor) : Bool := c.atEnd || c.seesWhere 0 isBreak

/-- Whether there is a blank, a line break or the end of the text `k` places on. -/
def spaceAt (c : Cursor) (k : Nat) : Bool :=
  match c.peek? k with
  | some x => isBlank x || isBreak x
  | none => true

def octets (text : List Char) : Nat := text.foldl (fun n x => n + x.utf8Size) 0

/-- Past `n` characters of one line. -/
def skip (c : Cursor) (n : Nat) : Cursor :=
  ⟨c.rest.drop n, c.index + octets (c.rest.take n), c.line, c.column + n⟩

/-- Past the characters that satisfy `p`, which holds of no line break; the characters come first. -/
def span (c : Cursor) (p : Char → Bool) : List Char × Cursor :=
  let taken := c.rest.takeWhile p
  (taken, c.skip taken.length)

def skipBlanks (c : Cursor) : Cursor := (c.span isBlank).2

/-- Past a comment, if one starts here. -/
def skipComment (c : Cursor) : Cursor :=
  if c.sees 0 '#' then (c.span fun x => !isBreak x).2 else c

/-- Past a line break, and what the break reads as: a line feed, but for the two Unicode separators. -/
def readBreak (c : Cursor) : List Char × Cursor :=
  match c.rest with
  | '\r' :: '\n' :: rest => (['\n'], ⟨rest, c.index + 2, c.line + 1, 0⟩)
  | x :: rest =>
    if x == '\u2028' || x == '\u2029' then ([x], ⟨rest, c.index + x.utf8Size, c.line + 1, 0⟩)
    else if isBreak x then (['\n'], ⟨rest, c.index + x.utf8Size, c.line + 1, 0⟩)
    else ([], c)
  | [] => ([], c)

/-- Past blanks, a comment and a line break; `none` if anything else stands on the line. -/
def finishLine? (c : Cursor) : Option Cursor :=
  let c := c.skipBlanks.skipComment
  if c.atBreakOrEnd then some c.readBreak.2 else none

/-- Whether a line that marks the start or the end of a document starts here. -/
def atDocumentMark (c : Cursor) : Bool :=
  c.column == 0
    && ((c.sees 0 '-' && c.sees 1 '-' && c.sees 2 '-') || (c.sees 0 '.' && c.sees 1 '.' && c.sees 2 '.'))
    && c.spaceAt 3

end Cursor

end Docroot.Yaml
