import Docroot.FileSystem.Tree

/-!
From a spelling to a place. A walk goes down one piece of the path at a time and follows symbolic links
as it meets them, at most forty in all. Every piece but the last must lead to a directory, also before
`.`, `..` and a slash at the end; above the root there is the root. There are two readings of a path. One
spells out where it leads: `.` and `..` are only a matter of spelling, and each place on the way is asked
for by its own full spelling, which must not be too long. The other goes there: `.` and `..` are entries
like others, and only the path itself must not be too long.
-/
namespace Docroot.FileSystem

/-- How many links one walk may follow. -/
def maxLinks : Nat := 40

def maxName : Nat := 255

def maxPath : Nat := 4095

/-- A way to read a path. -/
inductive Reading where
  /-- Places are spelled out one after the other. -/
  | spelling
  /-- The path is gone in one go. -/
  | going
  deriving DecidableEq, Repr

/-- Whether a place has a spelling that is too long to be asked for, with `more` octets behind it. -/
def isTooFar (here : Location) (more : Nat) : Bool := maxPath < here.path.length + more

/-- Whether what is asked for next is spelled too long: the entry of `here` that the next true name stands
for. There is none at the end of the path, nor before `..`. -/
def asksTooFar (here : Location) (pending : List Bytes) : Bool :=
  match pending.dropWhile fun name => name = [] ∨ name = Path.dot with
  | [] => false
  | name :: _ => name ≠ Path.dotDot && isTooFar (here ++ [name]) 0

/-- Where a walk ends that has come to `here`, has the pieces `pending` before it and may follow `links`
more links. One that spells places out looks whether something is a directory, if no true name comes
next, with a slash behind its spelling; so one octet more must fit wherever the path goes on. -/
def walkWith (reading : Reading) (fs : FileSystem) (links : Nat) (here : Location)
    (pending : List Bytes) : Except IoError Location :=
  match pending with
  | [] => .ok here
  | name :: rest =>
    match fs.at? here with
    | some (.directory info entries) =>
      if name = [] then walkWith reading fs links here rest
      else if reading = .going ∧ fs.maySearch info = false then .error (.system .permissionDenied)
      else if name = Path.dot then walkWith reading fs links here rest
      else if name = Path.dotDot then walkWith reading fs links here.dropLast rest
      else if reading = .spelling ∧ isTooFar (here ++ [name]) 0 then .error (.system .invalidFilename)
      else if fs.maySearch info = false then .error (.system .permissionDenied)
      else if maxName < name.length then .error (.system .invalidFilename)
      else
        match (Node.directory info entries).child? name with
        | none => .error (.system .notFound)
        | some (.link _ target) =>
          match links with
          | 0 => .error (.system .filesystemLoop)
          | links + 1 =>
            walkWith reading fs links (if Path.isAbsolute target then [] else here)
              (Path.pieces target ++ rest)
        | some _ =>
          if reading = .spelling ∧ rest ≠ [] ∧ isTooFar (here ++ [name]) 1 then
            .error (.system .invalidFilename)
          else walkWith reading fs links (here ++ [name]) rest
    | some _ =>
      if reading = .spelling ∧ asksTooFar here pending then .error (.system .invalidFilename)
      else .error (.system .notADirectory)
    | none => .error (.system .notFound)
termination_by (links, pending.length)

/-- A walk that spells out where it leads. -/
abbrev walk (fs : FileSystem) (links : Nat) (here : Location) (pending : List Bytes) :
    Except IoError Location := walkWith .spelling fs links here pending

/-- The place that a path leads to. A path that does not start with a slash starts at the root all the
same. -/
def canonicalize (fs : FileSystem) (path : Bytes) : Except IoError Location :=
  if 0 ∈ path then .error .zeroInPath
  else if path = [] then .error (.system .notFound)
  else walk fs maxLinks [] (Path.pieces path)

/-- The place that is reached by going a path. -/
def reach (fs : FileSystem) (path : Bytes) : Except IoError Location :=
  if 0 ∈ path then .error .zeroInPath
  else if maxPath < path.length then .error (.system .invalidFilename)
  else if path = [] then .error (.system .notFound)
  else walkWith .going fs maxLinks [] (Path.pieces path)

def metadata (fs : FileSystem) (location : Location) : Except IoError Metadata :=
  match fs.at? location with
  | some node => .ok (fs.describe node)
  | none => .error (.system .notFound)

/-- A look at what is reached by going a path. -/
def targetAt (fs : FileSystem) (path : Bytes) : Except IoError Metadata :=
  match fs.reach path with
  | .ok location => fs.metadata location
  | .error e => .error e

/-- A look at an entry itself of a directory that is reached by going a path. -/
def itselfAt (fs : FileSystem) (path : Bytes) (directory : Location) (name : Bytes) :
    Except IoError Metadata :=
  if maxPath < (Path.join path name).length then .error (.system .invalidFilename)
  else
    match fs.at? directory with
    | some (.directory info entries) =>
      if fs.maySearch info = false then .error (.system .permissionDenied)
      else
        match (Node.directory info entries).child? name with
        | some node => .ok (fs.describe node)
        | none => .error (.system .notFound)
    | some _ => .error (.system .notADirectory)
    | none => .error (.system .notFound)

/-- The names in a directory, in the order in which it holds them. -/
def entryNames (fs : FileSystem) (directory : Location) : Except IoError (List Bytes) :=
  match fs.at? directory with
  | some (.directory info entries) =>
    if fs.mayList info then .ok (entries.map Prod.fst) else .error (.system .permissionDenied)
  | some _ => .error (.system .notADirectory)
  | none => .error (.system .notFound)

end Docroot.FileSystem
