import Docroot.Yaml.Token

/-!
The structure of a YAML document: scalars, aliases and the starts and ends of collections, in the order of
the text. Values that are left out are empty plain scalars.
-/
namespace Docroot.Yaml

/-- A part of a document. Aliases refer to what they repeat by a value of type `ρ`. -/
inductive Event (ρ : Type) where
  | scalar (anchor : Option ρ) (tag : Option Bytes) (text : List Char) (style : Style)
  | alias (target : ρ)
  | sequenceStart (anchor : Option ρ)
  | sequenceEnd
  | mappingStart (anchor : Option ρ)
  | mappingEnd
  deriving DecidableEq, Repr

abbrev Name := List Char

namespace Event

/-- A value that is left out. -/
def absent : Event Name := .scalar none none [] .plain

/-- The prefixes that tag handles stand for. -/
abbrev Handles := List (List Char × Bytes)

/-- The handles that need no directive. -/
def standardHandles : Handles :=
  [(['!'], utf8 "!"), (['!', '!'], utf8 "tag:yaml.org,2002:")]

/-- What a tag stands for: `none` if its handle is unknown. The tag `!` alone says nothing. -/
def tag? (handles : Handles) (handle : List Char) (suffix : Bytes) : Option Bytes :=
  if handle.isEmpty then some suffix
  else (handles.lookup handle).map (· ++ suffix)

/-- The anchor and tag in front of a value, in either order, and the tokens after them. -/
def properties? (handles : Handles) : List Token → Option (Option Name × Option Bytes × List Token)
  | .anchor a :: .tag h s :: rest => (tag? handles h s).map fun t => (some a, some t, rest)
  | .tag h s :: .anchor a :: rest => (tag? handles h s).map fun t => (some a, some t, rest)
  | .anchor a :: rest => some (some a, none, rest)
  | .tag h s :: rest => (tag? handles h s).map fun t => (none, some t, rest)
  | rest => some (none, none, rest)

/-- Where a value may be left out: before these tokens. -/
abbrev Stops := List Token

/-- What stands where a collection is being read. -/
inductive Context where
  /-- Entries of a block sequence; `indentless` for one that is not indented more than its key. -/
  | blockEntries (indentless : Bool)
  | blockKeys
  | blockValue
  /-- Entries of a flow sequence; `first` before the first one. -/
  | flowEntries (first : Bool)
  /-- The value of a pair that is an entry of a flow sequence, and its end. -/
  | pairValue
  | pairEnd
  /-- Keys of a flow mapping. -/
  | flowKeys (first : Bool)
  | flowValue
  /-- The value of a key of a flow mapping that has none. -/
  | noFlowValue
  deriving DecidableEq, Repr

/-- What a value amounts to: its first events, the contexts that are entered for the rest of it, and the
tokens after the first events. `block` tells whether it may be a block collection, `indentless` whether
entries of a sequence may follow without further indentation. -/
def value? (handles : Handles) (block indentless : Bool) (tokens : List Token) :
    Option (List (Event Name) × List Context × List Token) :=
  match tokens with
  | .alias name :: rest => some ([.alias name], [], rest)
  | _ => do
    let (anchor, tag, tokens) ← properties? handles tokens
    match tokens with
    | .blockEntry :: _ =>
      if indentless then some ([.sequenceStart anchor], [.blockEntries true], tokens)
      else if anchor.isSome || tag.isSome then some ([.scalar anchor tag [] .plain], [], tokens)
      else none
    | .scalar text style :: rest =>
      some ([.scalar anchor (if tag == some (utf8 "!") then none else tag) text style], [], rest)
    | .flowSequenceStart :: rest => some ([.sequenceStart anchor], [.flowEntries true], rest)
    | .flowMappingStart :: rest => some ([.mappingStart anchor], [.flowKeys true], rest)
    | .blockSequenceStart :: rest =>
      if block then some ([.sequenceStart anchor], [.blockEntries false], rest)
      else if anchor.isSome || tag.isSome then some ([.scalar anchor tag [] .plain], [], tokens)
      else none
    | .blockMappingStart :: rest =>
      if block then some ([.mappingStart anchor], [.blockKeys], rest)
      else if anchor.isSome || tag.isSome then some ([.scalar anchor tag [] .plain], [], tokens)
      else none
    | _ =>
      if anchor.isSome || tag.isSome then some ([.scalar anchor tag [] .plain], [], tokens) else none

/-- A value unless one of the tokens `stops` comes first; then `next` is the context to go on with. -/
def valueOr? (handles : Handles) (block indentless : Bool) (stops : Stops) (next : Context)
    (tokens : List Token) : Option (List (Event Name) × List Context × List Token) :=
  if (tokens.head?).any stops.contains then some ([absent], [next], tokens)
  else (value? handles block indentless tokens).map fun (events, contexts, rest) =>
    (events, contexts ++ [next], rest)

/-- An entry of a flow sequence after its separator. -/
def flowEntry? (handles : Handles) (tokens : List Token) :
    Option (List (Event Name) × List Context × List Token) :=
  match tokens with
  | .flowSequenceEnd :: rest => some ([.sequenceEnd], [], rest)
  | .key :: rest =>
    match rest with
    | .value :: after | .flowEntry :: after | .flowSequenceEnd :: after =>
      some ([.mappingStart none, absent], [.pairValue], after)
    | _ =>
      (value? handles false false rest).map fun (events, contexts, after) =>
        (.mappingStart none :: events, contexts ++ [.pairValue], after)
  | _ =>
    (value? handles false false tokens).map fun (events, contexts, after) =>
      (events, contexts ++ [.flowEntries false], after)

/-- An entry of a flow mapping after its separator. -/
def flowKey? (handles : Handles) (tokens : List Token) :
    Option (List (Event Name) × List Context × List Token) :=
  match tokens with
  | .flowMappingEnd :: rest => some ([.mappingEnd], [], rest)
  | .key :: rest =>
    valueOr? handles false false [.value, .flowEntry, .flowMappingEnd] .flowValue rest
  | _ =>
    (value? handles false false tokens).map fun (events, contexts, after) =>
      (events, contexts ++ [.noFlowValue], after)

/-- Goes on in a context: the next events, the contexts that take its place, and the tokens left. -/
def step? (handles : Handles) (context : Context) (tokens : List Token) :
    Option (List (Event Name) × List Context × List Token) :=
  match context with
  | .blockEntries false =>
    match tokens with
    | .blockEntry :: rest =>
      valueOr? handles true false [.blockEntry, .blockEnd] (.blockEntries false) rest
    | .blockEnd :: rest => some ([.sequenceEnd], [], rest)
    | _ => none
  | .blockEntries true =>
    match tokens with
    | .blockEntry :: rest =>
      valueOr? handles true false [.blockEntry, .key, .value, .blockEnd] (.blockEntries true) rest
    | _ => some ([.sequenceEnd], [], tokens)
  | .blockKeys =>
    match tokens with
    | .key :: rest => valueOr? handles true true [.key, .value, .blockEnd] .blockValue rest
    | .blockEnd :: rest => some ([.mappingEnd], [], rest)
    | _ => none
  | .blockValue =>
    match tokens with
    | .value :: rest => valueOr? handles true true [.key, .value, .blockEnd] .blockKeys rest
    | _ => some ([absent], [.blockKeys], tokens)
  | .flowEntries true => flowEntry? handles tokens
  | .flowEntries false =>
    match tokens with
    | .flowEntry :: rest => flowEntry? handles rest
    | .flowSequenceEnd :: _ => flowEntry? handles tokens
    | _ => none
  | .pairValue =>
    match tokens with
    | .value :: rest => valueOr? handles false false [.flowEntry, .flowSequenceEnd] .pairEnd rest
    | _ => some ([absent], [.pairEnd], tokens)
  | .pairEnd => some ([.mappingEnd], [.flowEntries false], tokens)
  | .flowKeys true => flowKey? handles tokens
  | .flowKeys false =>
    match tokens with
    | .flowEntry :: rest => flowKey? handles rest
    | .flowMappingEnd :: _ => flowKey? handles tokens
    | _ => none
  | .flowValue =>
    match tokens with
    | .value :: rest =>
      valueOr? handles false false [.flowEntry, .flowMappingEnd] (.flowKeys false) rest
    | _ => some ([absent], [.flowKeys false], tokens)
  | .noFlowValue => some ([absent], [.flowKeys false], tokens)

/-- Goes on until no context is left; `done` holds the events so far in reverse. -/
def run? (handles : Handles) :
    Nat → List (Event Name) → List Context → List Token → Option (List (Event Name) × List Token)
  | 0, _, _, _ => none
  | _ + 1, done, [], tokens => some (done.reverse, tokens)
  | fuel + 1, done, context :: contexts, tokens =>
    match step? handles context tokens with
    | none => none
    | some (events, entered, tokens) =>
      run? handles fuel (events.reverse ++ done) (entered ++ contexts) tokens

/-- The events of a value. Each token is taken up by one step, and between two tokens there are at most
three steps more. -/
def document? (handles : Handles) (tokens : List Token) : Option (List (Event Name) × List Token) := do
  let (events, contexts, rest) ← value? handles true false tokens
  run? handles (4 * tokens.length + 8) events.reverse contexts rest

/-- Reads directives: at most one for the version, which must be 1.1 or 1.2, and one for each handle. -/
def directives? (version : Bool) (handles : Handles) : List Token → Option (Handles × List Token)
  | .versionDirective major minor :: rest =>
    if version || major != 1 || (minor != 1 && minor != 2) then none
    else directives? true handles rest
  | .tagDirective handle uri :: rest =>
    if (handles.lookup handle).isSome then none
    else directives? version (handles ++ [(handle, uri)]) rest
  | rest => some (handles, rest)

/-- Whether nothing follows a document but marks of its end. -/
def isLast : List Token → Bool
  | .documentEnd :: rest => isLast rest
  | [.streamEnd] => true
  | _ => false

/-- The events of the only document of a text; none if there is nothing in it. -/
def ofTokens? (tokens : List Token) : Option (List (Event Name)) :=
  let finish? (result : Option (List (Event Name) × List Token)) : Option (List (Event Name)) := do
    let (events, rest) ← result
    if isLast rest then some events else none
  match tokens with
  | [.streamEnd] => some []
  | .versionDirective .. :: _ | .tagDirective .. :: _ | .documentStart :: _ => do
    let (handles, rest) ← directives? false [] tokens
    match rest with
    | .documentStart :: rest =>
      match rest with
      | .versionDirective .. :: _ | .tagDirective .. :: _ | .documentStart :: _ | .documentEnd :: _
      | .streamEnd :: _ => finish? (some ([absent], rest))
      | _ => finish? (document? (handles ++ standardHandles) rest)
    | _ => none
  | _ => finish? (document? standardHandles tokens)

end Event

end Docroot.Yaml
