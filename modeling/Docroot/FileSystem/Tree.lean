import Docroot.IoError
import Docroot.FileSystem.Path
import Docroot.Time.Calendar

/-!
A file system as a value: a tree of directories whose leaves are files, symbolic links, pipes and
sockets, and beside it the data of the files, numbered. A file in the tree is only its number, so a file
that is open stays what it is when the tree changes, and sees what is written to its number.
-/
namespace Docroot

structure FileData where
  content : Bytes := []
  modified : Timestamp := ⟨0, 0⟩
  readable : Bool := true
  deriving DecidableEq, Repr

/-- What is known of a directory apart from its entries. -/
structure DirectoryInfo where
  modified : Timestamp := ⟨0, 0⟩
  /-- How long the directory itself is; what it takes up for its entries is counted by the system. -/
  size : Nat := 0
  /-- Whether anyone may list the entries. -/
  listable : Bool := true
  /-- Whether anyone may pass through to an entry. -/
  searchable : Bool := true
  deriving DecidableEq, Repr

/-- Entries that are no files, directories or links. -/
inductive Special where
  | pipe
  | socket
  deriving DecidableEq, Repr

inductive Node where
  | file (number : Nat)
  | directory (info : DirectoryInfo) (entries : List (Bytes × Node))
  | link (modified : Timestamp) (target : Bytes)
  | special (modified : Timestamp) (kind : Special)

namespace Node

def emptyDirectory (info : DirectoryInfo) : Node := .directory info []

/-- The entry of a directory with a given name. -/
def child? (node : Node) (name : Bytes) : Option Node :=
  match node with
  | directory _ entries => (entries.find? fun e => e.1 == name).map Prod.snd
  | _ => none

/-- The node at a place below this one; links are not followed. -/
def at? (node : Node) : Location → Option Node
  | [] => some node
  | name :: rest =>
    match node.child? name with
    | some child => child.at? rest
    | none => none

def isDirectory : Node → Bool
  | directory .. => true
  | _ => false

def isLink : Node → Bool
  | link .. => true
  | _ => false

theorem at?_append (node : Node) (a b : Location) :
    node.at? (a ++ b) = (node.at? a).bind (·.at? b) := by
  induction a generalizing node with
  | nil => rfl
  | cons name rest ih =>
    simp only [List.cons_append, at?]
    split
    · next child _ => exact ih child
    · rfl

end Node

/-- A file system, as one user sees it. -/
structure FileSystem where
  root : Node
  files : List FileData := []
  /-- Whether the user is above all permissions. -/
  privileged : Bool := true

/-- What a look at a node tells. -/
inductive Kind where
  | file
  | directory
  | other
  deriving DecidableEq, Repr

structure Metadata where
  kind : Kind
  length : Nat
  modified : Timestamp
  deriving DecidableEq, Repr

namespace FileSystem

def data (fs : FileSystem) (number : Nat) : FileData := fs.files.getD number {}

/-- The node at a place; links are not followed. -/
def at? (fs : FileSystem) (location : Location) : Option Node := fs.root.at? location

def mayList (fs : FileSystem) (info : DirectoryInfo) : Bool := fs.privileged || info.listable

def maySearch (fs : FileSystem) (info : DirectoryInfo) : Bool := fs.privileged || info.searchable

def mayOpen (fs : FileSystem) (number : Nat) : Bool := fs.privileged || (fs.data number).readable

/-- A look at a node itself. A link is as long as the text of its target. -/
def describe (fs : FileSystem) : Node → Metadata
  | .file number => ⟨.file, (fs.data number).content.length, (fs.data number).modified⟩
  | .directory info _ => ⟨.directory, info.size, info.modified⟩
  | .link modified target => ⟨.other, target.length, modified⟩
  | .special modified _ => ⟨.other, 0, modified⟩

end FileSystem

end Docroot
