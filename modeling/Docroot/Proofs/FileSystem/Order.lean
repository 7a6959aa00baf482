import Docroot.Proofs.FileSystem.SameWalks
import Docroot.Proofs.FileSystem.Tree
import Mathlib

/-!
The order in which directories hold their entries. An entry is found by its name, and no two entries of a directory
have the same, so that a tree is the same in whatever order it holds them, but for the order in which the names of a
directory are read.
-/
namespace Docroot

namespace Node

/-- A tree some of whose directories hold their entries in another order. -/
inductive Shuffled : Node → Node → Prop
  | refl (node : Node) : Shuffled node node
  | entries {info : DirectoryInfo} {entries entries' : List (Bytes × Node)} (perm : entries.Perm entries') :
      Shuffled (.directory info entries) (.directory info entries')
  | inner {info : DirectoryInfo} {before behind : List (Bytes × Node)} {name : Bytes} {node node' : Node}
      (shuffled : Shuffled node node') :
      Shuffled (.directory info (before ++ (name, node) :: behind)) (.directory info (before ++ (name, node') :: behind))
  | trans {node middle node' : Node} (first : Shuffled node middle) (second : Shuffled middle node') :
      Shuffled node node'

/-- What stands at a place of both trees: the same node, or directories of the same names. -/
inductive Reordered : Node → Node → Prop
  | refl (node : Node) : Reordered node node
  | directory {info : DirectoryInfo} {entries entries' : List (Bytes × Node)}
      (names : (entries.map Prod.fst).Perm (entries'.map Prod.fst)) :
      Reordered (.directory info entries) (.directory info entries')

theorem Reordered.trans {node middle node' : Node} (first : Reordered node middle) (second : Reordered middle node') :
    Reordered node node' := by
  cases first with
  | refl => exact second
  | directory names =>
      cases second with
      | refl => exact .directory names
      | directory names' => exact .directory (names.trans names')

theorem Reordered.walkedAlike {node node' : Node} (same : Reordered node node') : WalkedAlike node node' := by
  cases same with
  | refl => cases node <;> constructor
  | directory => exact .directory

/-- Of distinct names, each stands for the one entry that has it. -/
theorem child?_eq_some_iff (info : DirectoryInfo) {entries : List (Bytes × Node)}
    (distinct : (entries.map Prod.fst).Nodup) {name : Bytes} {node : Node} :
    (directory info entries).child? name = some node ↔ (name, node) ∈ entries := by
  refine ⟨mem_of_child?, fun member => ?_⟩
  have isName : name ∈ entries.map Prod.fst := List.mem_map_of_mem member
  obtain ⟨found, child⟩ : ∃ found, (directory info entries).child? name = some found := exists_child isName
  have same := List.inj_on_of_nodup_map distinct (mem_of_child? child) member rfl
  cases same
  exact child

theorem child?_eq_of_mem {info : DirectoryInfo} {entries entries' : List (Bytes × Node)} {name : Bytes}
    (distinct : (entries.map Prod.fst).Nodup) (distinct' : (entries'.map Prod.fst).Nodup)
    (same : ∀ node, (name, node) ∈ entries ↔ (name, node) ∈ entries') :
    (directory info entries).child? name = (directory info entries').child? name := by
  ext node
  rw [child?_eq_some_iff info distinct, child?_eq_some_iff info distinct', same]

theorem names_inner (before behind : List (Bytes × Node)) (name : Bytes) (node node' : Node) :
    (before ++ (name, node) :: behind).map Prod.fst = (before ++ (name, node') :: behind).map Prod.fst := by
  simp only [List.map_append, List.map_cons]

theorem Shuffled.proper {node node' : Node} (shuffled : Shuffled node node') (proper : node.Proper) :
    node'.Proper := by
  induction shuffled with
  | refl => exact proper
  | entries perm =>
      cases proper with
      | directory distinct names nodes =>
          refine .directory ((perm.map Prod.fst).nodup_iff.mp distinct) ?_ ?_
          · exact fun e member => names e (perm.mem_iff.mpr member)
          · exact fun e member => nodes e (perm.mem_iff.mpr member)
  | @inner _ before behind name node node' _ ih =>
      cases proper with
      | directory distinct names nodes =>
          simp only [List.forall_mem_append, List.forall_mem_cons] at names nodes
          refine .directory (names_inner before behind name node node' ▸ distinct) ?_ ?_ <;>
            simp only [List.forall_mem_append, List.forall_mem_cons]
          · exact names
          · exact ⟨nodes.1, ih nodes.2.1, nodes.2.2⟩
  | trans _ _ ih ih' => exact ih' (ih proper)

theorem Reordered.rel_refl (found : Option Node) : Option.Rel Reordered found found := by
  cases found with
  | none => exact .none
  | some node => exact .some (.refl node)

theorem Reordered.rel_trans {found middle found' : Option Node} (first : Option.Rel Reordered found middle)
    (second : Option.Rel Reordered middle found') : Option.Rel Reordered found found' := by
  cases first with
  | none => exact second
  | some first =>
      cases second with
      | some second => exact .some (first.trans second)

/-- At each place of a shuffled tree stands what stood there, its names reordered. -/
theorem Shuffled.at? {node node' : Node} (shuffled : Shuffled node node') (proper : node.Proper)
    (location : Location) : Option.Rel Reordered (node.at? location) (node'.at? location) := by
  induction shuffled generalizing location with
  | refl => exact Reordered.rel_refl _
  | entries perm =>
      cases location with
      | nil => exact .some (.directory (perm.map Prod.fst))
      | cons name rest =>
          cases proper with
          | directory distinct _ _ =>
              have distinct' := (perm.map Prod.fst).nodup_iff.mp distinct
              rw [Node.at?, Node.at?, child?_eq_of_mem distinct distinct' fun _ => perm.mem_iff]
              exact Reordered.rel_refl _
  | @inner info before behind name node node' shuffled ih =>
      have names := names_inner before behind name node node'
      cases location with
      | nil => exact .some (.directory (names ▸ .refl _))
      | cons asked rest =>
          cases proper with
          | directory distinct _ nodes =>
              have distinct' : ((before ++ (name, node') :: behind).map Prod.fst).Nodup := names ▸ distinct
              by_cases here : asked = name
              · subst here
                have child := (child?_eq_some_iff info distinct).mpr
                  (List.mem_append_right before List.mem_cons_self)
                have child' := (child?_eq_some_iff info distinct').mpr
                  (List.mem_append_right before List.mem_cons_self)
                rw [Node.at?, Node.at?, child, child']
                exact ih (nodes (asked, node) (List.mem_append_right before List.mem_cons_self)) rest
              · have same : ∀ other, (asked, other) ∈ before ++ (name, node) :: behind ↔
                    (asked, other) ∈ before ++ (name, node') :: behind := by
                  intro other
                  simp [here]
                rw [Node.at?, Node.at?, child?_eq_of_mem distinct distinct' same]
                exact Reordered.rel_refl _
  | trans first _ ih ih' => exact Reordered.rel_trans (ih proper location) (ih' (first.proper proper) location)

/-- Any order of the entries of a directory is that of a shuffled tree. -/
theorem exists_shuffled {node : Node} {location : Location} {info : DirectoryInfo}
    {entries entries' : List (Bytes × Node)} (found : node.at? location = some (.directory info entries))
    (perm : entries.Perm entries') :
    ∃ node', Shuffled node node' ∧ node'.at? location = some (.directory info entries') := by
  induction location generalizing node with
  | nil =>
      cases found
      exact ⟨_, .entries perm, rfl⟩
  | cons name rest ih =>
      rw [Node.at?] at found
      split at found
      · next child isChild =>
        obtain ⟨child', shuffled, found'⟩ := ih found
        cases node with
        | directory above others =>
            obtain ⟨⟨name', child⟩, first, rfl⟩ := Option.map_eq_some_iff.mp isChild
            obtain ⟨same, before, behind, rfl, notBefore⟩ := List.find?_eq_some_iff_append.mp first
            obtain rfl : name' = name := by simpa using same
            refine ⟨_, .inner shuffled, ?_⟩
            have first' : (before ++ (name', child') :: behind).find? (fun e => e.1 == name') = some (name', child') :=
              List.find?_eq_some_iff_append.mpr ⟨same, before, behind, rfl, notBefore⟩
            rw [Node.at?, child?, first', Option.map_some]
            exact found'
        | _ => cases isChild
      · cases found

end Node

namespace FileSystem

/-- Trees of the same entries, in whatever order their directories hold them. -/
structure Reordered (fs fs' : FileSystem) : Prop where
  privileged : fs.privileged = fs'.privileged
  files : fs.files = fs'.files
  nodes : ∀ location, Option.Rel Node.Reordered (fs.at? location) (fs'.at? location)

namespace Reordered

variable {fs fs' : FileSystem}

theorem of_shuffled {root' : Node} (proper : fs.root.Proper) (shuffled : fs.root.Shuffled root') :
    Reordered fs { fs with root := root' } where
  privileged := rfl
  files := rfl
  nodes := shuffled.at? proper

variable (same : Reordered fs fs')

include same

theorem walkedAlike : WalkedAlike fs fs' where
  privileged := same.privileged
  nodes location := rel_imp (same.nodes location) fun nodes => nodes.walkedAlike

theorem describe_eq {node node' : Node} (nodes : Node.Reordered node node') : fs.describe node = fs'.describe node' := by
  have data : ∀ number, fs.data number = fs'.data number := fun number => by rw [data, data, same.files]
  cases nodes with
  | refl =>
      cases node with
      | file number => rw [describe, describe, data]
      | _ => rfl
  | directory => rfl

theorem metadata_eq (location : Location) : fs.metadata location = fs'.metadata location := by
  have nodes := same.nodes location
  unfold metadata
  generalize fs.at? location = look, fs'.at? location = look' at nodes
  cases nodes with
  | none => rfl
  | some nodes => exact congrArg Except.ok (same.describe_eq nodes)

theorem targetAt_eq (path : Bytes) : fs.targetAt path = fs'.targetAt path := by
  rw [targetAt, targetAt, same.walkedAlike.reach_eq]
  cases fs'.reach path with
  | error e => rfl
  | ok location => exact same.metadata_eq location

theorem maySearch_eq (info : DirectoryInfo) : fs.maySearch info = fs'.maySearch info :=
  same.walkedAlike.maySearch info

theorem directory {place : Location} {info : DirectoryInfo} {entries : List (Bytes × Node)}
    (found : fs.at? place = some (.directory info entries)) :
    ∃ entries', fs'.at? place = some (.directory info entries') ∧
      (entries.map Prod.fst).Perm (entries'.map Prod.fst) := by
  obtain ⟨node', found', nodes⟩ := rel_some (same.nodes place) found
  cases nodes with
  | refl => exact ⟨entries, found', .refl _⟩
  | directory names => exact ⟨_, found', names⟩

/-- A look at an entry of a directory tells the same. -/
theorem child_rel {place : Location} {info : DirectoryInfo} {entries entries' : List (Bytes × Node)}
    (found : fs.at? place = some (.directory info entries)) (found' : fs'.at? place = some (.directory info entries'))
    (name : Bytes) : Option.Rel (fun node node' => fs.describe node = fs'.describe node')
      ((Node.directory info entries).child? name) ((Node.directory info entries').child? name) := by
  have nodes := same.nodes (place ++ [name])
  rw [at?_concat found, at?_concat found'] at nodes
  exact rel_imp nodes fun child => same.describe_eq child

theorem itselfAt_eq {place : Location} {info : DirectoryInfo} {entries : List (Bytes × Node)}
    (found : fs.at? place = some (.directory info entries)) (path name : Bytes) :
    fs.itselfAt path place name = fs'.itselfAt path place name := by
  obtain ⟨entries', found', -⟩ := same.directory found
  have child := same.child_rel found found' name
  rw [itselfAt, itselfAt, found, found']
  dsimp only
  rw [← same.maySearch_eq]
  generalize (Node.directory info entries).child? name = look,
    (Node.directory info entries').child? name = look' at child
  cases child with
  | none => rfl
  | some tells =>
      dsimp only
      rw [tells]

/-- The names of a directory are the same but for their order. -/
theorem entryNames_perm {place : Location} {names : List Bytes} (listed : fs.entryNames place = .ok names) :
    ∃ names', fs'.entryNames place = .ok names' ∧ names.Perm names' := by
  obtain ⟨info, entries, found, rfl⟩ := entryNames_ok listed
  obtain ⟨entries', found', perm⟩ := same.directory found
  have mayList : fs'.mayList info = fs.mayList info := by rw [mayList, mayList, same.privileged]
  refine ⟨_, ?_, perm⟩
  rw [entryNames_of_directory found] at listed
  rw [entryNames_of_directory found', mayList]
  split at listed
  · next readable => exact if_pos readable
  · cases listed

end Reordered

/-- Any order of the names of a directory is the one in which they are read from a shuffled tree. -/
theorem exists_order {fs : FileSystem} {place : Location} {names order : List Bytes}
    (listed : fs.entryNames place = .ok names) (perm : names.Perm order) :
    ∃ root', fs.root.Shuffled root' ∧ entryNames { fs with root := root' } place = .ok order := by
  obtain ⟨info, entries, found, rfl⟩ := entryNames_ok listed
  have paired : List.Forall₂ (fun name (e : Bytes × Node) => name = e.1) (entries.map Prod.fst) entries :=
    List.forall₂_map_left_iff.mpr (List.forall₂_same.mpr fun _ _ => rfl)
  obtain ⟨entries', named, perm'⟩ := List.perm_comp_forall₂ perm.symm paired
  have named : order = entries'.map Prod.fst := by
    rw [← List.forall₂_eq_eq_eq, List.forall₂_map_right_iff]
    exact named
  obtain ⟨root', shuffled, found'⟩ := Node.exists_shuffled found perm'.symm
  refine ⟨root', shuffled, ?_⟩
  have found' : FileSystem.at? { fs with root := root' } place = some (.directory info entries') := found'
  rw [entryNames_of_directory found] at listed
  rw [entryNames_of_directory found', named]
  split at listed
  · next readable => exact if_pos readable
  · cases listed

end FileSystem

end Docroot
