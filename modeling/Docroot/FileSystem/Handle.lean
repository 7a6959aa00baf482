import Docroot.FileSystem.Tree

/-!
Open files. A handle keeps the number of its file and the offset of the next octet; it reads what the
file holds at the time of the read. A read may give less than was asked for, or fail; when that happens
is given in advance, and without such a plan every read gives all there is.
-/
namespace Docroot

/-- What a read of a file meets, where that is not a full read. -/
inductive Turn where
  /-- The read gives at most one octet more than this number. -/
  | short (count : Nat)
  | failure (kind : ErrorKind)
  deriving DecidableEq, Repr

structure Handle where
  number : Nat
  offset : Nat := 0
  turns : List Turn := []
  deriving DecidableEq, Repr

namespace Handle

/-- Opens the file at a place. -/
def openAt (fs : FileSystem) (location : Location) : Except IoError Handle :=
  match fs.at? location with
  | some (.file number) =>
    if fs.mayOpen number then .ok { number } else .error (.system .permissionDenied)
  | some (.directory info _) =>
    .error (.system (if fs.mayList info then .isADirectory else .permissionDenied))
  | some _ => .error (.system .uncategorized)
  | none => .error (.system .notFound)

def length (fs : FileSystem) (handle : Handle) : Nat := (fs.data handle.number).content.length

/-- At most `count` octets at the offset, which moves on by what is given. -/
def take (fs : FileSystem) (handle : Handle) (count : Nat) : Bytes × Handle :=
  let bytes := ((fs.data handle.number).content.drop handle.offset).take count
  (bytes, { handle with offset := handle.offset + bytes.length })

/-- Reads at most `want` octets; none at the end of the file. A read that is interrupted is tried
again. -/
def readWith (fs : FileSystem) (handle : Handle) (want : Nat) :
    List Turn → Except ErrorKind Bytes × Handle
  | [] =>
    let given := handle.take fs want
    (.ok given.1, { given.2 with turns := [] })
  | .short count :: rest =>
    let given := handle.take fs (min want (count + 1))
    (.ok given.1, { given.2 with turns := rest })
  | .failure .interrupted :: rest => readWith fs handle want rest
  | .failure kind :: rest => (.error kind, { handle with turns := rest })

def read (fs : FileSystem) (handle : Handle) (want : Nat) : Except ErrorKind Bytes × Handle :=
  readWith fs handle want handle.turns

theorem take_length (fs : FileSystem) (handle : Handle) (count : Nat) :
    (handle.take fs count).1.length ≤ count := by
  simp only [take, List.length_take]
  omega

theorem readWith_length {fs : FileSystem} {handle : Handle} {want : Nat} {turns : List Turn}
    {bytes : Bytes} (h : (readWith fs handle want turns).1 = .ok bytes) : bytes.length ≤ want := by
  fun_induction readWith fs handle want turns with
  | case1 => cases h; exact take_length fs _ _
  | case2 => cases h; exact Nat.le_trans (take_length fs _ _) (Nat.min_le_left _ _)
  | case3 _ ih => exact ih h
  | case4 => simp at h

theorem read_length {fs : FileSystem} {handle : Handle} {want : Nat} {bytes : Bytes}
    (h : (handle.read fs want).1 = .ok bytes) : bytes.length ≤ want := readWith_length h

def readAllAt (fs : FileSystem) (location : Location) : Except IoError Bytes :=
  match openAt fs location with
  | .ok handle => .ok (fs.data handle.number).content
  | .error e => .error e

end Handle

end Docroot
