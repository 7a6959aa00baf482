import Docroot.Proofs.FileSystem.Walk

/-!
Trees as file systems keep them: an entry has a name that a path can hold, and no other entry of its directory
has the same.
-/
namespace Docroot

/-- A name that an entry is kept under. -/
structure Path.IsEntryName (name : Bytes) : Prop extends Path.IsName name where
  no_zero : 0 ∉ name
  short : name.length ≤ FileSystem.maxName

theorem Path.isEntryName_iff {name : Bytes} :
    IsEntryName name ↔ name ≠ [] ∧ name ≠ dot ∧ name ≠ dotDot ∧ separator ∉ name ∧ 0 ∉ name ∧
      name.length ≤ FileSystem.maxName := by
  constructor
  · rintro ⟨⟨ne_nil, ne_dot, ne_dotDot, onePiece⟩, noZero, short⟩
    exact ⟨ne_nil, ne_dot, ne_dotDot, onePiece, noZero, short⟩
  · rintro ⟨ne_nil, ne_dot, ne_dotDot, onePiece, noZero, short⟩
    exact ⟨⟨ne_nil, ne_dot, ne_dotDot, onePiece⟩, noZero, short⟩

instance (name : Bytes) : Decidable (Path.IsEntryName name) := decidable_of_iff' _ Path.isEntryName_iff

namespace Node

inductive Proper : Node → Prop where
  | file (number : Nat) : Proper (.file number)
  | directory {info : DirectoryInfo} {entries : List (Bytes × Node)}
      (distinct : (entries.map Prod.fst).Nodup) (names : ∀ e ∈ entries, Path.IsEntryName e.1)
      (nodes : ∀ e ∈ entries, e.2.Proper) : Proper (.directory info entries)
  | link (modified : Timestamp) (target : Bytes) : Proper (.link modified target)
  | special (modified : Timestamp) (kind : Special) : Proper (.special modified kind)

/-- A regular file or a directory. -/
def isPlain : Node → Bool
  | file _ | directory .. => true
  | _ => false

theorem mem_of_child? {info : DirectoryInfo} {entries : List (Bytes × Node)} {name : Bytes} {node : Node}
    (child : (directory info entries).child? name = some node) : (name, node) ∈ entries := by
  obtain ⟨⟨name', node'⟩, found, rfl⟩ := Option.map_eq_some_iff.mp child
  have same : name' = name := by simpa using List.find?_some found
  exact same ▸ List.mem_of_find?_eq_some found

theorem exists_child {info : DirectoryInfo} {entries : List (Bytes × Node)} {name : Bytes}
    (member : name ∈ entries.map Prod.fst) : ∃ node, (directory info entries).child? name = some node := by
  obtain ⟨entry, inside, rfl⟩ := List.mem_map.mp member
  obtain ⟨found, isFound⟩ := Option.isSome_iff_exists.mp
    (List.find?_isSome (p := fun e : Bytes × Node => e.1 == entry.1).mpr ⟨entry, inside, by simp⟩)
  exact ⟨found.2, by rw [child?, isFound, Option.map_some]⟩

theorem Proper.of_pair {info : DirectoryInfo} {name name' : Bytes} {node other : Node} (distinct : name ≠ name')
    (isName : Path.IsEntryName name) (isName' : Path.IsEntryName name') (proper : node.Proper) (proper' : other.Proper) :
    (Node.directory info [(name, node), (name', other)]).Proper := by
  refine .directory ?_ (List.forall_mem_cons.mpr ⟨isName, List.forall_mem_singleton.mpr isName'⟩)
    (List.forall_mem_cons.mpr ⟨proper, List.forall_mem_singleton.mpr proper'⟩)
  simp [distinct]

theorem Proper.at? {node below : Node} {location : Location} (proper : node.Proper)
    (found : node.at? location = some below) : below.Proper := by
  induction location generalizing node with
  | nil =>
      cases found
      exact proper
  | cons name rest ih =>
      rw [Node.at?] at found
      split at found
      · next child isChild =>
        cases proper with
        | directory _ _ nodes => exact ih (nodes _ (mem_of_child? isChild)) found
        | _ => cases isChild
      · cases found

theorem Proper.names {node below : Node} {location : Location} (proper : node.Proper)
    (found : node.at? location = some below) : ∀ name ∈ location, Path.IsEntryName name := by
  induction location generalizing node with
  | nil => exact nofun
  | cons name rest ih =>
      rw [Node.at?] at found
      split at found
      · next child isChild =>
        cases proper with
        | directory _ names nodes =>
            have member := mem_of_child? isChild
            exact List.forall_mem_cons.mpr ⟨names _ member, ih (nodes _ member) found⟩
        | _ => cases isChild
      · cases found

end Node

namespace FileSystem

variable {fs : FileSystem} {place : Location}

theorem describe_isDirectory (fs : FileSystem) (node : Node) :
    decide ((fs.describe node).kind = .directory) = node.isDirectory := by
  cases node <;> rfl

theorem entryNames_of_directory {info : DirectoryInfo} {entries : List (Bytes × Node)}
    (found : fs.at? place = some (.directory info entries)) :
    fs.entryNames place =
      if fs.mayList info then .ok (entries.map Prod.fst) else .error (.system .permissionDenied) := by
  rw [entryNames, found]

theorem entryNames_ok {names : List Bytes} (listed : fs.entryNames place = .ok names) :
    ∃ info entries, fs.at? place = some (.directory info entries) ∧ names = entries.map Prod.fst := by
  unfold entryNames at listed
  split at listed
  · next info entries found =>
    split at listed
    · exact ⟨info, entries, found, (Except.ok.inj listed).symm⟩
    · cases listed
  · cases listed
  · cases listed

theorem mem_entryNames {names : List Bytes} {name : Bytes} {node : Node}
    (listed : fs.entryNames place = .ok names) (found : fs.at? (place ++ [name]) = some node) :
    name ∈ names := by
  obtain ⟨info, entries, directory, rfl⟩ := entryNames_ok listed
  obtain ⟨info', entries', directory', child⟩ := directory_of_below found
  rw [directory] at directory'
  cases directory'
  exact List.mem_map_of_mem (Node.mem_of_child? child)

theorem entryNames_proper {names : List Bytes} (proper : fs.root.Proper)
    (listed : fs.entryNames place = .ok names) : names.Nodup ∧ ∀ name ∈ names, Path.IsEntryName name := by
  obtain ⟨info, entries, found, rfl⟩ := entryNames_ok listed
  cases proper.at? found with
  | directory distinct names nodes =>
      refine ⟨distinct, ?_⟩
      intro name member
      obtain ⟨e, inside, rfl⟩ := List.mem_map.mp member
      exact names e inside

end FileSystem

end Docroot
