import Docroot.Bytes

/-!
The marks and words of a YAML text. Layout has become marks: a block opens where a line is indented more
than the block around it, and closes where one is indented less.
-/
namespace Docroot.Yaml

inductive Style where
  | plain
  | singleQuoted
  | doubleQuoted
  | literal
  | folded
  deriving DecidableEq, Repr

/-- A mark or word of a text. -/
inductive Token where
  | versionDirective (major minor : Nat)
  | tagDirective (handle : List Char) (uri : Bytes)
  | documentStart
  | documentEnd
  | streamEnd
  | blockSequenceStart
  | blockMappingStart
  | blockEnd
  | flowSequenceStart
  | flowSequenceEnd
  | flowMappingStart
  | flowMappingEnd
  | blockEntry
  | flowEntry
  | key
  | value
  | alias (name : List Char)
  | anchor (name : List Char)
  | tag (handle : List Char) (suffix : Bytes)
  | scalar (text : List Char) (style : Style)
  deriving DecidableEq, Repr

end Docroot.Yaml
