import Docroot.Text.Utf8
import Docroot.Yaml.Scalar

/-!
From a text to its tokens. Outside flow collections the column of a token opens and closes blocks. Where a
token may turn out to be the key of a mapping its place is remembered; when a `:` follows on the same line,
the mark of the key, and that of a new mapping if one starts there, are put in front of it.
-/
namespace Docroot.Yaml

/-- The place of a token that may be a key. -/
structure KeyPlace where
  /-- How many tokens come before it. -/
  position : Nat
  /-- It stands where only a key may stand. -/
  required : Bool
  index : Nat
  line : Nat
  column : Nat
  deriving DecidableEq, Repr

/-- The tokens read so far, and what is needed to go on. -/
structure Lexer where
  cursor : Cursor
  /-- Newest first. -/
  tokens : List Token := []
  count : Nat := 0
  /-- Marks that belong in front of a token, by its position. -/
  marks : List (Nat × List Token) := []
  /-- The column of the innermost block. -/
  indent : Int := -1
  /-- The columns of the blocks around it, innermost first. -/
  outer : List Int := []
  /-- Whether the next token may be a key. -/
  keyAllowed : Bool := true
  /-- The possible key of the innermost flow collection, or of the blocks if there is none. -/
  possible : Option KeyPlace := none
  /-- The possible keys around it, one for each open flow collection. -/
  suspended : List (Option KeyPlace) := []
  deriving DecidableEq, Repr

namespace Lexer

def inFlow (l : Lexer) : Bool := !l.suspended.isEmpty

def add (l : Lexer) (t : Token) : Lexer := { l with tokens := t :: l.tokens, count := l.count + 1 }

def moveTo (l : Lexer) (c : Cursor) : Lexer := { l with cursor := c }

/-- Adds a token of `n` characters that stands here. -/
def addHere (l : Lexer) (n : Nat) (t : Token) : Lexer := (l.moveTo (l.cursor.skip n)).add t

/-- Closes the blocks that are indented more than `column`. -/
def closeBlocks (l : Lexer) (column : Int) : Lexer :=
  if l.inFlow then l else close l l.outer
where
  /-- Closes blocks as long as one is left. -/
  close (l : Lexer) : List Int → Lexer
    | [] => l
    | next :: rest =>
      if column < l.indent then close { l.add .blockEnd with indent := next, outer := rest } rest else l

/-- Opens a block at `column` if it is indented more than the one around it; the second component tells
whether it was opened. -/
def openBlock (l : Lexer) (column : Nat) : Lexer × Bool :=
  if !l.inFlow && l.indent < column then
    ({ l with indent := column, outer := l.indent :: l.outer }, true)
  else (l, false)

/-- Opens a block whose mark stands here. -/
def openBlockHere (l : Lexer) (mark : Token) : Lexer :=
  match l.openBlock l.cursor.column with
  | (l, true) => l.add mark
  | (l, false) => l

/-- Gives up the possible key; an error if one is required. -/
def dropKey? (l : Lexer) : Option Lexer :=
  match l.possible with
  | some k => if k.required then none else some { l with possible := none }
  | none => some l

/-- Notes that the token here may be a key. -/
def noteKey? (l : Lexer) : Option Lexer :=
  if l.keyAllowed then do
    let l ← l.dropKey?
    let c := l.cursor
    let required := !l.inFlow && l.indent == (c.column : Int)
    return { l with possible := some ⟨l.count, required, c.index, c.line, c.column⟩ }
  else some l

/-- The longest key, in octets. -/
def maxKey : Nat := 1024

/-- Whether a possible key is too far back to be one. -/
def isStale (c : Cursor) (k : KeyPlace) : Bool := k.line < c.line || k.index + maxKey < c.index

/-- Gives up a possible key that is too far back. -/
def refresh? (c : Cursor) : Option KeyPlace → Option (Option KeyPlace)
  | some k => if isStale c k then (if k.required then none else some none) else some (some k)
  | none => some none

/-- Gives up all possible keys that are too far back. -/
def refreshKeys? (l : Lexer) : Option Lexer := do
  let possible ← refresh? l.cursor l.possible
  let suspended ← l.suspended.mapM (refresh? l.cursor)
  return { l with possible, suspended }

/-- Goes to the next token, over blanks, comments and line breaks. A byte order mark at the start of a line
is passed over, but takes up a column. -/
def toNext : Nat → Lexer → Lexer
  | 0, l => l
  | fuel + 1, l =>
    let c := l.cursor
    let c := if c.column == 0 && c.sees 0 '\ufeff' then c.skip 1 else c
    let tabs := l.inFlow || !l.keyAllowed
    let c := (c.span fun x => x == ' ' || (tabs && x == '\t')).2
    let c := c.skipComment
    if c.seesWhere 0 isBreak then
      toNext fuel { l with cursor := c.readBreak.2, keyAllowed := l.keyAllowed || !l.inFlow }
    else l.moveTo c

/-- A number of at most nine digits. -/
def versionNumber? (c : Cursor) : Option (Nat × Cursor) :=
  let (digits, c) := c.span Char.isDigit
  if digits.isEmpty || 9 < digits.length then none
  else some (digits.foldl (fun n x => n * 10 + (x.toNat - 48)) 0, c)

/-- One octet spelled `%XX` in a tag. -/
def tagOctet? (c : Cursor) : Option UInt8 := do
  if !c.sees 0 '%' then none
  else
    let h ← hexValue? (← c.peek? 1)
    let l ← hexValue? (← c.peek? 2)
    return (h * 16 + l).toUInt8

/-- Further octets `10xxxxxx` spelled `%XX`. -/
def tagTail? : Nat → Cursor → Option (Bytes × Cursor)
  | 0, c => some ([], c)
  | n + 1, c => do
    let b ← tagOctet? c
    if b / 64 != 2 then none
    else
      let (rest, c) ← tagTail? n (c.skip 3)
      return (b :: rest, c)

/-- How many octets follow the first one of a character. -/
def tagTailLength? (b : UInt8) : Option Nat :=
  if b < 0x80 then some 0
  else if b / 32 == 6 then some 1
  else if b / 16 == 14 then some 2
  else if b / 8 == 30 then some 3
  else none

/-- Characters of a tag besides letters, digits, `-` and `_`. -/
def tagMarks : List Char :=
  [';', '/', '?', ':', '@', '&', '=', '+', '$', '.', '%', '!', '~', '*', '\'', '(', ')']

/-- Characters of a tag. In a tag between angle brackets there are three more. -/
def isTagChar (wide : Bool) (x : Char) : Bool :=
  isWordChar x || tagMarks.contains x || (wide && (x == ',' || x == '[' || x == ']'))

/-- Reads the characters of a tag, after the octets `done` in reverse. -/
def tagText? (wide : Bool) : Nat → Bytes → Cursor → Option (Bytes × Cursor)
  | 0, done, c => some (done.reverse, c)
  | fuel + 1, done, c =>
    match c.peek? 0 with
    | none => some (done.reverse, c)
    | some x =>
      if !isTagChar wide x then some (done.reverse, c)
      else if x == '%' then do
        let b ← tagOctet? c
        let (tail, c) ← tagTail? (← tagTailLength? b) (c.skip 3)
        tagText? wide fuel (tail.reverse ++ (b :: done)) c
      else tagText? wide fuel ((String.utf8EncodeChar x).reverse ++ done) (c.skip 1)

/-- What counts of the octets of a tag: those before the first zero. -/
def untilZero (tag : Bytes) : Bytes := tag.takeWhile (· != 0)

/-- Reads a tag of at least one character. -/
def tagUri? (wide : Bool) (c : Cursor) : Option (Bytes × Cursor) :=
  if c.seesWhere 0 (isTagChar wide) then
    (tagText? wide (c.rest.length + 1) [] c).map fun (tag, c) => (untilZero tag, c)
  else none

/-- Reads `!`, word characters and, if it is there, another `!`. -/
def tagHandle? (c : Cursor) : Option (List Char × Cursor) :=
  if c.sees 0 '!' then
    let (word, c) := (c.skip 1).span isWordChar
    if c.sees 0 '!' then some ('!' :: word ++ ['!'], c.skip 1) else some ('!' :: word, c)
  else none

def tag? (flow : Bool) (c : Cursor) : Option (Token × Cursor) := do
  let (handle, suffix, c) ←
    if c.sees 1 '<' then do
      let (uri, c) ← tagUri? true (c.skip 2)
      if c.sees 0 '>' then some ([], uri, c.skip 1) else none
    else do
      let (handle, c) ← tagHandle? c
      if 1 < handle.length && handle.getLast? == some '!' then do
        let (suffix, c) ← tagUri? false c
        some (handle, suffix, c)
      else do
        let (suffix, c) ← tagText? false (c.rest.length + 1) (Utf8.encode handle.tail).reverse c
        let suffix := untilZero suffix
        if suffix.isEmpty then some ([], utf8 "!", c) else some (['!'], suffix, c)
  if c.spaceAt 0 || (flow && c.sees 0 ',') then return (.tag handle suffix, c) else none

def directive? (c : Cursor) : Option (Token × Cursor) := do
  let (name, c) := (c.skip 1).span isWordChar
  if !c.spaceAt 0 then none
  else if name == "YAML".toList then
    let (major, c) ← versionNumber? c.skipBlanks
    if !c.sees 0 '.' then none
    else
      let (minor, c) ← versionNumber? (c.skip 1)
      return (.versionDirective major minor, ← c.finishLine?)
  else if name == "TAG".toList then
    let (handle, c) ← tagHandle? c.skipBlanks
    if (1 < handle.length && handle.getLast? != some '!') || !c.seesWhere 0 isBlank then none
    else
      let (uri, c) ← tagUri? true c.skipBlanks
      if !c.spaceAt 0 then none else return (.tagDirective handle uri, ← c.finishLine?)
  else none

/-- Reads the name of an anchor, which is cut off by a blank or one of a few marks. -/
def anchorName? (c : Cursor) : Option (List Char × Cursor) :=
  let (name, c) := (c.skip 1).span isWordChar
  let ended := c.spaceAt 0 || c.seesAny 0 ['?', ':', ',', ']', '\x7d', '%', '@', '\x60']
  if name.isEmpty || !ended then none else some (name, c)

/-- Adds a token that closes all blocks and comes on a line of its own. -/
def atMargin? (l : Lexer) : Option Lexer := do
  let l ← (l.closeBlocks (-1)).dropKey?
  return { l with keyAllowed := false }

def openFlow? (l : Lexer) (mark : Token) : Option Lexer := do
  let l ← l.noteKey?
  return { l with suspended := l.possible :: l.suspended, possible := none, keyAllowed := true }.addHere 1
    mark

def closeFlow? (l : Lexer) (mark : Token) : Option Lexer := do
  let l ← l.dropKey?
  let l := match l.suspended with
    | possible :: rest => { l with possible, suspended := rest }
    | [] => l
  return { l with keyAllowed := false }.addHere 1 mark

def blockEntry? (l : Lexer) : Option Lexer := do
  if !l.inFlow && !l.keyAllowed then none
  else
    let l ← (l.openBlockHere .blockSequenceStart).dropKey?
    return { l with keyAllowed := true }.addHere 1 .blockEntry

def key? (l : Lexer) : Option Lexer := do
  if !l.inFlow && !l.keyAllowed then none
  else
    let l ← (l.openBlockHere .blockMappingStart).dropKey?
    return { l with keyAllowed := !l.inFlow }.addHere 1 .key

def value? (l : Lexer) : Option Lexer :=
  match l.possible with
  | some k =>
    let (l, opened) := l.openBlock k.column
    let front := if opened then [.blockMappingStart, .key] else [.key]
    let l := { l with marks := (k.position, front) :: l.marks, possible := none, keyAllowed := false }
    some (l.addHere 1 .value)
  | none =>
    if !l.inFlow && !l.keyAllowed then none
    else
      let l := l.openBlockHere .blockMappingStart
      some ({ l with keyAllowed := !l.inFlow }.addHere 1 .value)

/-- Adds a token that may be a key, and what `read?` makes of the text here. -/
def keyLike? (l : Lexer) (read? : Cursor → Option (Token × Cursor)) : Option Lexer := do
  let l ← l.noteKey?
  let (t, c) ← read? l.cursor
  return { l with keyAllowed := false, cursor := c }.add t

/-- Adds a plain scalar; a line break behind it lets a key follow. -/
def plainScalar? (fuel : Nat) (l : Lexer) : Option Lexer := do
  let l ← l.noteKey?
  let (t, broken, c) ← plain? l.inFlow (l.indent + 1).toNat fuel l.cursor
  return { l with keyAllowed := broken, cursor := c }.add t

def blockScalar? (fuel : Nat) (l : Lexer) (literal : Bool) : Option Lexer := do
  let l ← l.dropKey?
  let (t, c) ← block? literal l.indent fuel l.cursor
  return { l with keyAllowed := true, cursor := c }.add t

/-- Marks that a plain scalar cannot start with. -/
def startMarks : List Char :=
  ['-', '?', ':', ',', '[', ']', '\x7b', '\x7d', '#', '&', '*', '!', '|', '>', '\'', '"', '%', '@', '\x60']

def startsPlain (l : Lexer) : Bool :=
  let c := l.cursor
  !(c.spaceAt 0 || c.seesAny 0 startMarks)
    || (c.sees 0 '-' && !c.seesWhere 1 isBlank)
    || (!l.inFlow && c.seesAny 0 ['?', ':'] && !c.spaceAt 1)

/-- Adds the token at the cursor; fewer than `fuel` characters are left. -/
def token? (fuel : Nat) (l : Lexer) : Option Lexer :=
  let c := l.cursor
  let flow := l.inFlow
  if c.column == 0 && c.sees 0 '%' then do
    let l ← l.atMargin?
    let (t, c) ← directive? l.cursor
    return (l.moveTo c).add t
  else if c.atDocumentMark then do
    let l ← l.atMargin?
    return l.addHere 3 (if c.sees 0 '-' then .documentStart else .documentEnd)
  else if c.sees 0 '[' then l.openFlow? .flowSequenceStart
  else if c.sees 0 '\x7b' then l.openFlow? .flowMappingStart
  else if c.sees 0 ']' then l.closeFlow? .flowSequenceEnd
  else if c.sees 0 '\x7d' then l.closeFlow? .flowMappingEnd
  else if c.sees 0 ',' then do
    let l ← l.dropKey?
    return { l with keyAllowed := true }.addHere 1 .flowEntry
  else if c.sees 0 '-' && c.spaceAt 1 then l.blockEntry?
  else if c.sees 0 '?' && (flow || c.spaceAt 1) then l.key?
  else if c.sees 0 ':' && (flow || c.spaceAt 1) then l.value?
  else if c.sees 0 '*' then
    l.keyLike? fun c => (anchorName? c).map fun (name, c) => (.alias name, c)
  else if c.sees 0 '&' then
    l.keyLike? fun c => (anchorName? c).map fun (name, c) => (.anchor name, c)
  else if c.sees 0 '!' then l.keyLike? (tag? flow)
  else if c.sees 0 '|' && !flow then blockScalar? fuel l true
  else if c.sees 0 '>' && !flow then blockScalar? fuel l false
  else if c.sees 0 '\'' then l.keyLike? (quoted? true fuel)
  else if c.sees 0 '"' then l.keyLike? (quoted? false fuel)
  else if l.startsPlain then plainScalar? fuel l
  else none

/-- Closes all blocks at the end of the text. -/
def finish? (l : Lexer) : Option Lexer := do
  let l ← (l.closeBlocks (-1)).dropKey?
  return l.add .streamEnd

/-- Adds tokens to the end of the text; fewer than `fuel` characters are left. -/
def run? : Nat → Lexer → Option Lexer
  | 0, _ => none
  | fuel + 1, l => do
    let l ← (toNext (fuel + 1) l).refreshKeys?
    let l := l.closeBlocks l.cursor.column
    if l.cursor.atEnd then l.finish? else run? fuel (← token? (fuel + 1) l)

/-- Puts tokens in front of `done`, and in front of each the marks that belong there. There are `n` tokens,
and tokens and marks come last one first. -/
def weave : Nat → List (Nat × List Token) → List Token → List Token → List Token
  | _, _, [], done => done
  | n, [], t :: rest, done => weave (n - 1) [] rest (t :: done)
  | n, (position, front) :: marks, t :: rest, done =>
    if position + 1 = n then weave (n - 1) marks rest (front ++ t :: done)
    else weave (n - 1) ((position, front) :: marks) rest (t :: done)

def woven (l : Lexer) : List Token :=
  weave l.count (l.marks.mergeSort fun a b => b.1 ≤ a.1) l.tokens []

end Lexer

/-- The tokens of a text; `none` if it is no YAML. -/
def Token.ofText? (text : List Char) : Option (List Token) :=
  if text.all isAllowed then
    (Lexer.run? (text.length + 2) { cursor := .start text }).map Lexer.woven
  else none

end Docroot.Yaml
