import Docroot.Bytes

/-!
Paths and places. A path is a spelling, with slashes, dots and all; a location is a place in the tree,
the names on the way down to it from the root.
-/
namespace Docroot

/-- The names on the way from the root down to a place. -/
abbrev Location := List Bytes

namespace Path

def separator : UInt8 := 47

def dot : Bytes := [46]

def dotDot : Bytes := [46, 46]

/-- The pieces of a path between its slashes, empty ones included. -/
def pieces (path : Bytes) : List Bytes := splitWhere (· == separator) path

def isAbsolute (path : Bytes) : Bool := path.head? == some separator

/-- The components of a spelling: the slash for the root, then the names. Empty pieces are passed over,
and so is every `.` but one at the very front. -/
def components (path : Bytes) : List Bytes :=
  let kept := (pieces path).filter fun p => p ≠ [] ∧ p ≠ dot
  if isAbsolute path then [separator] :: kept
  else if (pieces path).head? = some dot then dot :: kept
  else kept

/-- Whether one list of components is the beginning of another: the second place is the first one or lies
beneath it. -/
def isWithin (root candidate : List Bytes) : Bool := root.isPrefixOf candidate

/-- `name` in the directory spelled `path`. -/
def join (path name : Bytes) : Bytes :=
  if path.getLast? = some separator then path ++ name else path ++ [separator] ++ name

end Path

/-- The spelling of a place. -/
def Location.path (location : Location) : Bytes :=
  if location.isEmpty then [Path.separator] else location.flatMap (Path.separator :: ·)

end Docroot
