import Docroot.Text.Decimal
import Docroot.Text.Utf8
import Docroot.Yaml.Event
import Docroot.Yaml.Lexer

/-!
Documents whose aliases have been tied to what they repeat, and the values in them: texts, whole numbers
and the fields of mappings. A value is the list of events that starts with it.
-/
namespace Docroot.Yaml

/-- A document: its events, and for the number of each anchor the events from there on. -/
structure Document where
  events : List (Event Nat)
  anchors : List (Nat × List (Event Nat))

/-- The events that start with a value. -/
abbrev Value := List (Event Nat)

namespace Document

/-- Numbers an anchor by how many names are known already. A name that comes again gets a new number,
which the next new name then shares with it. -/
def number (known : List (Name × Nat)) (name : Name) : Nat × List (Name × Nat) :=
  let n := known.length
  (n, if (known.lookup name).isSome then known.map fun k => if k.1 = name then (name, n) else k
      else known ++ [(name, n)])

def numberOption (known : List (Name × Nat)) : Option Name → Option Nat × List (Name × Nat)
  | some name => (some (number known name).1, (number known name).2)
  | none => (none, known)

/-- The events with numbers for names; `none` if an alias comes before its anchor. -/
def resolve? (known : List (Name × Nat)) : List (Event Name) → Option (List (Event Nat))
  | [] => some []
  | .scalar anchor tag text style :: rest =>
    let (n, known) := numberOption known anchor
    (resolve? known rest).map (.scalar n tag text style :: ·)
  | .alias name :: rest => do
    let n ← known.lookup name
    (resolve? known rest).map (.alias n :: ·)
  | .sequenceStart anchor :: rest =>
    let (n, known) := numberOption known anchor
    (resolve? known rest).map (.sequenceStart n :: ·)
  | .sequenceEnd :: rest => (resolve? known rest).map (.sequenceEnd :: ·)
  | .mappingStart anchor :: rest =>
    let (n, known) := numberOption known anchor
    (resolve? known rest).map (.mappingStart n :: ·)
  | .mappingEnd :: rest => (resolve? known rest).map (.mappingEnd :: ·)

/-- The number of the anchor on an event. -/
def anchorOf : Event Nat → Option Nat
  | .scalar anchor .. => anchor
  | .sequenceStart anchor => anchor
  | .mappingStart anchor => anchor
  | _ => none

/-- The values with anchors, the last one first. -/
def anchored (events : List (Event Nat)) : List (Nat × Value) :=
  collect [] events
where
  /-- Puts the anchored values of the events in front of `found`. -/
  collect (found : List (Nat × Value)) : List (Event Nat) → List (Nat × Value)
    | [] => found
    | e :: rest =>
      match anchorOf e with
      | some n => collect ((n, e :: rest) :: found) rest
      | none => collect found rest

/-- The document in a text; `none` if the text is no YAML or has more than one document. -/
def ofText? (text : String) : Option Document := do
  let events ← resolve? [] (← Event.ofTokens? (← Token.ofText? text.toList))
  return ⟨events, anchored events⟩

/-- A value, with what it repeats in place of an alias. -/
def follow (d : Document) (v : Value) : Value :=
  match v with
  | .alias n :: _ => (d.anchors.lookup n).getD []
  | _ => v

/-- Past one value, or what is left of one inside `depth` open collections. -/
def skip (depth : Nat) : Value → Value
  | [] => []
  | .sequenceStart _ :: rest => skip (depth + 1) rest
  | .mappingStart _ :: rest => skip (depth + 1) rest
  | .sequenceEnd :: rest => if depth ≤ 1 then rest else skip (depth - 1) rest
  | .mappingEnd :: rest => if depth ≤ 1 then rest else skip (depth - 1) rest
  | _ :: rest => if depth = 0 then rest else skip depth rest

def text? (d : Document) (v : Value) : Option String :=
  match d.follow v with
  | .scalar _ _ text _ :: _ => some (String.ofList text)
  | _ => none

/-- The number that digits of a base stand for; `none` without a digit. -/
def digits? (base : Nat) (cs : List Char) : Option Nat :=
  if cs.isEmpty then none
  else cs.foldlM (fun n c => (hexValue? c).bind fun d => if d < base then some (n * base + d) else none) 0

/-- A number of at most 64 bits in digits of a base. -/
def word? (base : Nat) (cs : List Char) : Option Nat :=
  (digits? base cs).bind fun n => if n ≤ Decimal.maxWord then some n else none

/-- A whole number without a sign, or with a `+`: decimal without a needless zero in front, or with `0x`,
`0o` or `0b` in front. -/
def unsigned? (cs : List Char) : Option Nat :=
  let body := match cs with
    | '+' :: rest => rest
    | _ => cs
  match body with
  | '0' :: 'x' :: rest => word? 16 rest
  | '0' :: 'o' :: rest => word? 8 rest
  | '0' :: 'b' :: rest => word? 2 rest
  | '0' :: _ :: _ => none
  | _ => word? 10 body

def integerTag : Bytes := utf8 "tag:yaml.org,2002:int"

/-- The whole number in a plain scalar, or in a literal block that is tagged as one. -/
def natural? (d : Document) (v : Value) : Option Nat :=
  match d.follow v with
  | .scalar _ tag text style :: _ =>
    if style = .plain ∨ (style = .literal ∧ tag = some integerTag) then unsigned? text else none
  | _ => none

/-- The fields of a mapping from here to its end; a key must be a scalar. -/
def fieldsFrom? (d : Document) : Nat → Value → Option (List (String × Value))
  | 0, _ => none
  | _ + 1, [] => none
  | _ + 1, .mappingEnd :: _ => some []
  | fuel + 1, v => do
    let name ← d.text? v
    let value := skip 0 v
    let rest ← fieldsFrom? d fuel (skip 0 value)
    return (name, value) :: rest

/-- The fields of a mapping. No value at all, or an empty plain one, counts as a mapping without
fields. -/
def fields? (d : Document) (v : Value) : Option (List (String × Value)) :=
  match d.follow v with
  | [] => some []
  | .mappingStart _ :: rest => d.fieldsFrom? (rest.length + 1) rest
  | .scalar _ _ text style :: _ => if text.isEmpty ∧ style = .plain then some [] else none
  | _ => none

end Document

end Docroot.Yaml
