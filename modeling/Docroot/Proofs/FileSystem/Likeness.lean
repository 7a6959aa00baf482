import Docroot.FileSystem.Handle
import Docroot.Proofs.FileSystem.SameWalks

/-!
Two trees that differ only in what some regular files hold and when they were changed. Walks are the same in
both, for they look at names, kinds, permissions and links alone.
-/
namespace Docroot

namespace FileSystem

/-- A node of one tree and the node of another tree in its place. Regular files are the same where it
`counts`. -/
inductive NodeAlike (fs fs' : FileSystem) (counts : Prop) : Node → Node → Prop
  | file {number number' : Nat} : (fs.data number).readable = (fs'.data number').readable →
      (counts → fs.data number = fs'.data number') → NodeAlike fs fs' counts (.file number) (.file number')
  | directory {info : DirectoryInfo} {entries entries' : List (Bytes × Node)} :
      entries.map Prod.fst = entries'.map Prod.fst →
      NodeAlike fs fs' counts (.directory info entries) (.directory info entries')
  | link {modified : Timestamp} {target : Bytes} :
      NodeAlike fs fs' counts (.link modified target) (.link modified target)
  | special {modified : Timestamp} {kind : Special} :
      NodeAlike fs fs' counts (.special modified kind) (.special modified kind)

/-- Trees that are the same, but for regular files outside a directory. -/
structure AlikeWithin (root : Location) (fs fs' : FileSystem) : Prop where
  privileged : fs.privileged = fs'.privileged
  nodes : ∀ location,
    Option.Rel (NodeAlike fs fs' (root <+: location)) (fs.at? location) (fs'.at? location)

variable {root : Location} {fs fs' : FileSystem}

/-- Trees of the same nodes are alike where the files within the root are the same. -/
theorem AlikeWithin.of_root (nodes : fs.root = fs'.root) (privileged : fs.privileged = fs'.privileged)
    (readable : ∀ number, (fs.data number).readable = (fs'.data number).readable)
    (inside : ∀ location number, root <+: location → fs.at? location = some (.file number) →
      fs.data number = fs'.data number) : AlikeWithin root fs fs' where
  privileged := privileged
  nodes location := by
    have same : fs'.at? location = fs.at? location := congrArg (·.at? location) nodes.symm
    rw [same]
    cases found : fs.at? location with
    | none => exact .none
    | some node =>
        cases node with
        | file number => exact .some (.file (readable number) fun within => inside location number within found)
        | directory => exact .some (.directory rfl)
        | link => exact .some .link
        | special => exact .some .special

namespace AlikeWithin

theorem at?_none (alike : AlikeWithin root fs fs') {location : Location} (missing : fs.at? location = none) :
    fs'.at? location = none :=
  rel_none (alike.nodes location) missing

theorem at?_some (alike : AlikeWithin root fs fs') {location : Location} {node : Node}
    (found : fs.at? location = some node) :
    ∃ node', fs'.at? location = some node' ∧ NodeAlike fs fs' (root <+: location) node node' :=
  rel_some (alike.nodes location) found

theorem mayList (alike : AlikeWithin root fs fs') (info : DirectoryInfo) :
    fs.mayList info = fs'.mayList info := by
  rw [FileSystem.mayList, FileSystem.mayList, alike.privileged]

theorem maySearch (alike : AlikeWithin root fs fs') (info : DirectoryInfo) :
    fs.maySearch info = fs'.maySearch info := by
  rw [FileSystem.maySearch, FileSystem.maySearch, alike.privileged]

theorem walked (alike : AlikeWithin root fs fs') : WalkedAlike fs fs' where
  privileged := alike.privileged
  nodes location := by
    refine rel_imp (alike.nodes location) ?_
    intro node node' same
    cases same with
    | file => exact .file
    | directory => exact .directory
    | link => exact .link
    | special => exact .special

theorem canonicalize_eq (alike : AlikeWithin root fs fs') (path : Bytes) :
    fs.canonicalize path = fs'.canonicalize path := alike.walked.canonicalize_eq path

theorem reach_eq (alike : AlikeWithin root fs fs') (path : Bytes) : fs.reach path = fs'.reach path :=
  alike.walked.reach_eq path

theorem entryNames_eq (alike : AlikeWithin root fs fs') (directory : Location) :
    fs.entryNames directory = fs'.entryNames directory := by
  unfold entryNames
  have same := alike.nodes directory
  generalize fs.at? directory = look, fs'.at? directory = look' at same
  cases same with
  | none => rfl
  | some same =>
      cases same with
      | directory names => dsimp only; rw [alike.mayList, names]
      | _ => rfl

end AlikeWithin

end FileSystem

namespace Handle

/-- Handles that have come equally far in files that are the same. -/
structure Alike (fs fs' : FileSystem) (handle handle' : Handle) : Prop where
  data : fs.data handle.number = fs'.data handle'.number
  offset : handle.offset = handle'.offset
  turns : handle.turns = handle'.turns

variable {fs fs' : FileSystem} {handle handle' : Handle}

theorem Alike.take (alike : Alike fs fs' handle handle') (count : Nat) :
    (handle.take fs count).1 = (handle'.take fs' count).1 ∧
      ∀ turns, Alike fs fs' { (handle.take fs count).2 with turns } { (handle'.take fs' count).2 with turns } := by
  unfold Handle.take
  rw [alike.data, alike.offset]
  exact ⟨rfl, fun turns => ⟨alike.data, rfl, rfl⟩⟩

theorem Alike.read (alike : Alike fs fs' handle handle') (want : Nat) :
    (handle.read fs want).1 = (handle'.read fs' want).1 ∧
      Alike fs fs' (handle.read fs want).2 (handle'.read fs' want).2 := by
  unfold Handle.read
  rw [← alike.turns]
  generalize handle.turns = turns
  fun_induction readWith fs handle want turns with
  | case1 given =>
      obtain ⟨bytes, rest⟩ := alike.take want
      exact ⟨congrArg Except.ok bytes, rest []⟩
  | case2 count turns given =>
      obtain ⟨bytes, rest⟩ := alike.take (min want (count + 1))
      exact ⟨congrArg Except.ok bytes, rest turns⟩
  | case3 turns ih => exact ih
  | case4 kind turns lasts =>
      rw [readWith]
      · exact ⟨rfl, alike.data, alike.offset, rfl⟩
      · exact lasts

end Handle

end Docroot
