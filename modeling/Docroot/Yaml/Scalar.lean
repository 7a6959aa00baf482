import Docroot.Yaml.Cursor
import Docroot.Yaml.Token

/-!
The text of scalars in their five styles. Within quotes and in plain text a single line break reads as a
space and further ones as themselves; a literal block keeps its breaks, a folded one joins its lines.
-/
namespace Docroot.Yaml

/-- Blanks and line breaks between two words of a scalar. -/
structure Gap where
  /-- Blanks before any break, the last one first. -/
  blanks : List Char := []
  /-- Whether the line was broken. -/
  broken : Bool := false
  /-- What the first break reads as; nothing where it was escaped. -/
  firstBreak : List Char := []
  /-- What the further breaks read as, the last one first. -/
  moreBreaks : List Char := []
  deriving DecidableEq, Repr

namespace Gap

/-- What a gap reads as, in reverse. -/
def reversed (g : Gap) : List Char :=
  if g.broken then
    if g.firstBreak = ['\n'] then (if g.moreBreaks.isEmpty then [' '] else g.moreBreaks)
    else g.moreBreaks ++ g.firstBreak
  else g.blanks

def isEmpty (g : Gap) : Bool := !g.broken && g.blanks.isEmpty

/-- Reads on over blanks and breaks, at most `fuel` of them. After a break a tab before the column
`indent` is an error. -/
def read? (indent : Nat) : Nat → Gap → Cursor → Option (Gap × Cursor)
  | 0, g, c => some (g, c)
  | fuel + 1, g, c =>
    match c.peek? 0 with
    | none => some (g, c)
    | some x =>
      if isBlank x then
        if g.broken then
          if x == '\t' && c.column < indent then none else read? indent fuel g (c.skip 1)
        else read? indent fuel { g with blanks := x :: g.blanks } (c.skip 1)
      else if isBreak x then
        let (b, c) := c.readBreak
        if g.broken then read? indent fuel { g with moreBreaks := b ++ g.moreBreaks } c
        else read? indent fuel { g with blanks := [], broken := true, firstBreak := b } c
      else some (g, c)

end Gap

/-- The character that a letter stands for after a backslash. -/
def escaped? : Char → Option Char
  | '0' => some '\x00'
  | 'a' => some '\x07'
  | 'b' => some '\x08'
  | 't' => some '\t'
  | '\t' => some '\t'
  | 'n' => some '\n'
  | 'v' => some '\x0b'
  | 'f' => some '\x0c'
  | 'r' => some '\r'
  | 'e' => some '\x1b'
  | ' ' => some ' '
  | '"' => some '"'
  | '/' => some '/'
  | '\\' => some '\\'
  | 'N' => some '\u0085'
  | '_' => some '\u00a0'
  | 'L' => some '\u2028'
  | 'P' => some '\u2029'
  | _ => none

/-- How many digits follow a letter after a backslash. -/
def escapeWidth? : Char → Option Nat
  | 'x' => some 2
  | 'u' => some 4
  | 'U' => some 8
  | _ => none

/-- The character with a given number, if it has one. -/
def charOfNumber? (n : Nat) : Option Char :=
  if (0xD800 ≤ n && n ≤ 0xDFFF) || 0x10FFFF < n then none else some (Char.ofNat n)

/-- The character that an escape at this place stands for. -/
def escape? (c : Cursor) : Option (Char × Cursor) := do
  let letter ← c.peek? 1
  match escapeWidth? letter with
  | none => return (← escaped? letter, c.skip 2)
  | some width =>
    let digits := (c.rest.drop 2).take width
    if digits.length < width then none
    else return (← charOfNumber? (← hexNumber? digits), c.skip (2 + width))

/-- Reads a word between quotes, up to a blank, a break or the closing quote, in front of which `done`
stands in reverse. The flag tells whether the word ends in an escaped line break. -/
def quotedWord? (single : Bool) : Nat → List Char → Cursor → Option (List Char × Bool × Cursor)
  | 0, done, c => some (done, false, c)
  | fuel + 1, done, c =>
    match c.peek? 0 with
    | none => some (done, false, c)
    | some x =>
      if isBlank x || isBreak x then some (done, false, c)
      else if single then
        if x == '\'' then
          if c.sees 1 '\'' then quotedWord? single fuel ('\'' :: done) (c.skip 2)
          else some (done, false, c)
        else quotedWord? single fuel (x :: done) (c.skip 1)
      else if x == '"' then some (done, false, c)
      else if x == '\\' then
        if c.seesWhere 1 isBreak then some (done, true, (c.skip 1).readBreak.2)
        else
          match escape? c with
          | some (y, c) => quotedWord? single fuel (y :: done) c
          | none => none
      else quotedWord? single fuel (x :: done) (c.skip 1)

/-- Reads words and gaps up to the closing quote, and past it; fewer than `fuel` characters are left. -/
def quotedRest? (single : Bool) : Nat → List Char → Cursor → Option (List Char × Cursor)
  | 0, _, _ => none
  | fuel + 1, done, c =>
    if c.atDocumentMark || c.atEnd then none
    else
      match quotedWord? single (fuel + 1) done c with
      | none => none
      | some (done, broken, c) =>
        if c.sees 0 (if single then '\'' else '"') then some (done.reverse, c.skip 1)
        else
          match Gap.read? 0 (fuel + 1) { broken } c with
          | none => none
          | some (g, c) => quotedRest? single fuel (g.reversed ++ done) c

def quoted? (single : Bool) (fuel : Nat) (c : Cursor) : Option (Token × Cursor) :=
  (quotedRest? single fuel [] (c.skip 1)).map fun (text, c) =>
    (.scalar text (if single then .singleQuoted else .doubleQuoted), c)

/-- The marks that end a plain word in a flow collection. -/
def flowMarks : List Char := [',', '[', ']', '\x7b', '\x7d']

/-- Reads a plain word up to a blank, a break or a mark. Before its first character the gap `g` is put. -/
def plainWord? (flow : Bool) : Nat → Gap → List Char → Cursor → Option (Gap × List Char × Cursor)
  | 0, g, done, c => some (g, done, c)
  | fuel + 1, g, done, c =>
    match c.peek? 0 with
    | none => some (g, done, c)
    | some x =>
      if isBlank x || isBreak x then some (g, done, c)
      else if flow && x == ':' && c.seesAny 1 ('?' :: flowMarks) then none
      else if (x == ':' && c.spaceAt 1) || (flow && flowMarks.contains x) then some (g, done, c)
      else plainWord? flow fuel {} (x :: (g.reversed ++ done)) (c.skip 1)

/-- Reads plain words and gaps; fewer than `fuel` characters are left. The flag tells whether a line break
comes after the last word. -/
def plainRest? (flow : Bool) (indent : Nat) :
    Nat → Gap → List Char → Cursor → Option (List Char × Bool × Cursor)
  | 0, _, _, _ => none
  | fuel + 1, g, done, c =>
    if c.atDocumentMark || c.sees 0 '#' then some (done.reverse, g.broken, c)
    else
      match plainWord? flow (fuel + 1) g done c with
      | none => none
      | some (g, done, c) =>
        if c.atEnd || !c.spaceAt 0 then some (done.reverse, g.broken, c)
        else
          match Gap.read? indent (fuel + 1) g c with
          | none => none
          | some (g, c) =>
            if !flow && c.column < indent then some (done.reverse, g.broken, c)
            else plainRest? flow indent fuel g done c

/-- Reads a plain scalar, whose further lines must be indented by `indent` columns outside flow
collections. -/
def plain? (flow : Bool) (indent fuel : Nat) (c : Cursor) : Option (Token × Bool × Cursor) :=
  (plainRest? flow indent fuel {} [] c).map fun (text, broken, c) =>
    (.scalar text .plain, broken, c)

/-- What becomes of the line breaks at the end of a block. -/
inductive Chomping where
  | strip
  | clip
  | keep
  deriving DecidableEq, Repr

/-- Reads the marks behind the opening of a block: the chomping, and how far it is indented, if that is
said. -/
def blockHeader? (c : Cursor) : Option (Chomping × Option Nat × Cursor) :=
  let chomping? (c : Cursor) : Option Chomping :=
    if c.sees 0 '+' then some .keep else if c.sees 0 '-' then some .strip else none
  let digit? (c : Cursor) : Option Nat :=
    match c.peek? 0 with
    | some x => if x.isDigit then some (x.toNat - 48) else none
    | none => none
  match chomping? c with
  | some chomping =>
    let c := c.skip 1
    match digit? c with
    | some 0 => none
    | some d => some (chomping, some d, c.skip 1)
    | none => some (chomping, none, c)
  | none =>
    match digit? c with
    | some 0 => none
    | some d =>
      let c := c.skip 1
      match chomping? c with
      | some chomping => some (chomping, some d, c.skip 1)
      | none => some (.clip, some d, c)
    | none => some (.clip, none, c)

/-- Reads empty lines and the indentation of the next line of a block. The number is the widest
indentation met, the breaks come last one first; `none` for `indent` means that it is still to be
found. -/
def blockBreaks? (indent : Option Nat) :
    Nat → Nat → List Char → Cursor → Option (Nat × List Char × Cursor)
  | 0, widest, breaks, c => some (widest, breaks, c)
  | fuel + 1, widest, breaks, c =>
    let spaces := (c.rest.takeWhile (· == ' ')).length
    let c := c.skip (match indent with
      | none => spaces
      | some n => min spaces (n - c.column))
    let widest := max widest c.column
    let short := match indent with
      | none => true
      | some n => c.column < n
    if short && c.sees 0 '\t' then none
    else if c.seesWhere 0 isBreak then
      let (b, c) := c.readBreak
      blockBreaks? indent fuel widest (b ++ breaks) c
    else some (widest, breaks, c)

/-- What a block has read so far, and the breaks after its last line, all in reverse. -/
structure BlockText where
  done : List Char := []
  lastBreak : List Char := []
  moreBreaks : List Char := []
  /-- Whether the last line started with a blank. -/
  leadingBlank : Bool := false
  deriving DecidableEq, Repr

/-- Reads the lines of a block that is indented by `indent` columns; fewer than `fuel` characters are
left. -/
def blockLines? (literal : Bool) (indent : Nat) : Nat → BlockText → Cursor → Option (BlockText × Cursor)
  | 0, b, c => some (b, c)
  | fuel + 1, b, c =>
    if c.column != indent || c.atEnd then some (b, c)
    else
      let blank := c.seesWhere 0 isBlank
      let joined :=
        if !literal && b.lastBreak == ['\n'] && !b.leadingBlank && !blank then
          if b.moreBreaks.isEmpty then [' '] else []
        else b.lastBreak
      let (line, c) := c.span fun x => !isBreak x
      let (lastBreak, c) := c.readBreak
      match blockBreaks? (some indent) (fuel + 1) 0 [] c with
      | none => none
      | some (_, moreBreaks, c) =>
        blockLines? literal indent fuel
          ⟨line.reverse ++ (b.moreBreaks ++ (joined ++ b.done)), lastBreak, moreBreaks, blank⟩ c

/-- Reads a block scalar in a block that is indented by `outer` columns, which is negative outside any
block. -/
def block? (literal : Bool) (outer : Int) (fuel : Nat) (c : Cursor) : Option (Token × Cursor) := do
  let (chomping, increment, c) ← blockHeader? (c.skip 1)
  let c ← c.finishLine?
  let said := increment.map fun n => if 0 ≤ outer then outer.toNat + n else n
  let (widest, breaks, c) ← blockBreaks? said fuel 0 [] c
  let indent := said.getD (max widest (max (outer + 1).toNat 1))
  let (b, c) ← blockLines? literal indent fuel { moreBreaks := breaks } c
  let ending := match chomping with
    | .strip => []
    | .clip => b.lastBreak
    | .keep => b.moreBreaks ++ b.lastBreak
  return (.scalar (ending ++ b.done).reverse (if literal then .literal else .folded), c)

end Docroot.Yaml
