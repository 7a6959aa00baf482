import Docroot.FileSystem.Handle
import Docroot.FileSystem.Walk
import Docroot.Text.Percent

/-!
From request targets to files. The target is decoded once and walked from the root of the site; whether
the place it leads to lies within the root is judged when all links, `.` and `..` are gone, so that no
spelling of a target can lead outside.
-/
namespace Docroot

inductive Target where
  /-- A file, opened, with its length at that time. -/
  | file (location : Location) (handle : Handle) (length : Nat)
  | directory (location : Location)
  deriving DecidableEq, Repr

inductive TargetError where
  /-- It lies outside the root or may not be read. -/
  | forbidden
  | notFound
  deriving DecidableEq, Repr

def TargetError.message : TargetError → String
  | .forbidden => "forbidden"
  | .notFound => "not found"

namespace Target

def location : Target → Location
  | file location .. => location
  | directory location => location

/-- The text a target stands for, if it is text without a zero octet. -/
def decode? (path : Bytes) : Option Bytes :=
  let decoded := Percent.decode path
  if Utf8.isValid decoded ∧ 0 ∉ decoded then some decoded else none

/-- What a place within the root offers. -/
def offer (fs : FileSystem) (location : Location) : Except TargetError Target :=
  match fs.at? location with
  | some (.directory ..) => .ok (.directory location)
  | some (.file _) =>
    match Handle.openAt fs location with
    | .ok handle => .ok (.file location handle (handle.length fs))
    | .error e => if e.kind = .permissionDenied then .error .forbidden else .error .notFound
  | some _ => .error .forbidden
  | none => .error .notFound

/-- What a request path leads to from a root that is free of links. -/
def resolve (fs : FileSystem) (root : Location) (path : Bytes) : Except TargetError Target :=
  match decode? path with
  | none => .error .notFound
  | some decoded =>
    match fs.canonicalize (Path.join root.path (decoded.dropWhile (· == Path.separator))) with
    | .error _ => .error .notFound
    | .ok location =>
      if Path.isWithin root location then offer fs location else .error .forbidden

end Target

/-- The place of the directory to be served. -/
def canonicalRoot (fs : FileSystem) (root : Bytes) : Except IoError Location :=
  match fs.canonicalize root with
  | .error e => .error e
  | .ok location =>
    match fs.metadata location with
    | .error e => .error e
    | .ok metadata =>
      if metadata.kind = .directory then .ok location else .error (.rootNotDirectory root)

end Docroot
