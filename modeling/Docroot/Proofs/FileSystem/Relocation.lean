import Docroot.Proofs.FileSystem.Lookup
import Docroot.Proofs.FileSystem.Passage
import Docroot.Proofs.Site.Listing

/-!
One tree at two places. Walks from the one place and from the other take the same steps, as long as they do not climb
above it, and come to the same places beneath it.
-/
namespace Docroot.FileSystem

/-- A node and its copy; none is a symbolic link. The entries of a directory are copies one by one, so that here
only their names are asked for. In which order it holds them and how long it is itself is up to the system. -/
inductive NodeCopy (fs fs' : FileSystem) : Node → Node → Prop
  | file {number number' : Nat} : fs.data number = fs'.data number' → NodeCopy fs fs' (.file number) (.file number')
  | directory {info : DirectoryInfo} {size : Nat} {entries entries' : List (Bytes × Node)} :
      (entries.map Prod.fst).Perm (entries'.map Prod.fst) →
      NodeCopy fs fs' (.directory info entries) (.directory { info with size } entries')
  | special {modified : Timestamp} {kind : Special} :
      NodeCopy fs fs' (.special modified kind) (.special modified kind)

/-- What is at `root` in one tree is at `root'` in the other, for a user who may do the same in both. -/
structure Copies (fs fs' : FileSystem) (root root' : Location) : Prop where
  privileged : fs.privileged = fs'.privileged
  nodes : ∀ place, Option.Rel (NodeCopy fs fs') (fs.at? (root ++ place)) (fs'.at? (root' ++ place))

/-- Nothing beneath the place has a spelling that is too long. -/
def Near (fs : FileSystem) (root : Location) : Prop :=
  ∀ place node, fs.at? (root ++ place) = some node → isTooFar (root ++ place) 1 = false

variable {fs fs' : FileSystem} {root root' place : Location}

theorem NodeCopy.symm {node node' : Node} (copy : NodeCopy fs fs' node node') : NodeCopy fs' fs node' node := by
  cases copy with
  | file same => exact .file same.symm
  | @directory info size _ _ names => exact @NodeCopy.directory _ _ { info with size } info.size _ _ names.symm
  | special => exact .special

theorem NodeCopy.describe_shown {node node' : Node} (copy : NodeCopy fs fs' node node') :
    (fs.describe node).shown = (fs'.describe node').shown := by
  cases copy with
  | file same => simp only [FileSystem.describe, same]
  | directory | special => rfl

theorem NodeCopy.isLink {node node' : Node} (copy : NodeCopy fs fs' node node') : node.isLink = false := by
  cases copy <;> rfl

namespace Copies

theorem symm (copies : fs.Copies fs' root root') : fs'.Copies fs root' root where
  privileged := copies.privileged.symm
  nodes place := by
    have same := copies.nodes place
    generalize fs.at? (root ++ place) = look, fs'.at? (root' ++ place) = look' at same
    cases same with
    | none => exact .none
    | some same => exact .some same.symm

theorem at?_some (copies : fs.Copies fs' root root') {node : Node} (found : fs.at? (root ++ place) = some node) :
    ∃ node', fs'.at? (root' ++ place) = some node' ∧ NodeCopy fs fs' node node' :=
  rel_some (copies.nodes place) found

theorem maySearch (copies : fs.Copies fs' root root') (info : DirectoryInfo) (size : Nat) :
    fs'.maySearch { info with size } = fs.maySearch info := by
  rw [FileSystem.maySearch, FileSystem.maySearch, copies.privileged]

theorem mayList (copies : fs.Copies fs' root root') (info : DirectoryInfo) (size : Nat) :
    fs'.mayList { info with size } = fs.mayList info := by
  rw [FileSystem.mayList, FileSystem.mayList, copies.privileged]

theorem directory (copies : fs.Copies fs' root root') {info : DirectoryInfo} {entries : List (Bytes × Node)}
    (found : fs.at? (root ++ place) = some (.directory info entries)) :
    ∃ size entries', fs'.at? (root' ++ place) = some (.directory { info with size } entries') ∧
      (entries.map Prod.fst).Perm (entries'.map Prod.fst) := by
  obtain ⟨node', found', copy⟩ := copies.at?_some found
  cases copy with
  | directory names => exact ⟨_, _, found', names⟩

/-- The entries of a directory are copies. -/
theorem child (copies : fs.Copies fs' root root') {info info' : DirectoryInfo} {entries entries' : List (Bytes × Node)}
    (found : fs.at? (root ++ place) = some (.directory info entries))
    (found' : fs'.at? (root' ++ place) = some (.directory info' entries')) (name : Bytes) :
    Option.Rel (NodeCopy fs fs') ((Node.directory info entries).child? name)
      ((Node.directory info' entries').child? name) := by
  have same := copies.nodes (place ++ [name])
  rwa [← List.append_assoc, ← List.append_assoc, at?_concat found, at?_concat found'] at same

theorem child_some (copies : fs.Copies fs' root root') {info info' : DirectoryInfo}
    {entries entries' : List (Bytes × Node)} (found : fs.at? (root ++ place) = some (.directory info entries))
    (found' : fs'.at? (root' ++ place) = some (.directory info' entries')) {name : Bytes} {node : Node}
    (child : (Node.directory info entries).child? name = some node) :
    ∃ node', (Node.directory info' entries').child? name = some node' ∧ NodeCopy fs fs' node node' :=
  rel_some (copies.child found found' name) child

/-- A walk that stays beneath the one place is gone beneath the other. -/
theorem walks {reading : Reading} {links left : Nat} {start here ending : Location} {pending : List Bytes}
    (copies : fs.Copies fs' root root') (near : fs'.Near root')
    (walks : Walks reading fs links start pending left ending) (starts : start = root ++ here)
    (below : Path.staysBelow here.length pending = true) :
    ∃ place, ending = root ++ place ∧ Walks reading fs' links (root' ++ here) pending left (root' ++ place) := by
  induction walks generalizing here with
  | done => exact ⟨here, starts, .done⟩
  | blank found _ ih =>
      subst starts
      obtain ⟨_, _, found', -⟩ := copies.directory found
      obtain ⟨place, ends, onward⟩ := ih rfl below
      exact ⟨place, ends, .blank found' onward⟩
  | dot found passable _ ih =>
      subst starts
      obtain ⟨_, _, found', -⟩ := copies.directory found
      obtain ⟨place, ends, onward⟩ := ih rfl below
      exact ⟨place, ends, .dot found' (copies.maySearch _ _ ▸ passable) onward⟩
  | dotDot found passable _ ih =>
      subst starts
      obtain ⟨_, _, found', -⟩ := copies.directory found
      rw [Path.staysBelow, if_neg (by decide), if_pos rfl, Bool.and_eq_true, decide_eq_true_iff] at below
      have ne_nil : here ≠ [] := List.ne_nil_of_length_pos below.1
      obtain ⟨place, ends, onward⟩ := ih (List.dropLast_append_of_ne_nil ne_nil)
        (by rw [List.length_dropLast]; exact below.2)
      rw [← List.dropLast_append_of_ne_nil ne_nil] at onward
      exact ⟨place, ends, .dotDot found' (copies.maySearch _ _ ▸ passable) onward⟩
  | link found asks child =>
      subst starts
      obtain ⟨_, _, found', -⟩ := copies.directory found
      obtain ⟨_, -, copy⟩ := copies.child_some found found' child
      cases copy.isLink
  | @down _ _ _ _ name rest node info entries found asks child noLink onwards _ ih =>
      subst starts
      obtain ⟨size, entries', found', -⟩ := copies.directory found
      obtain ⟨node', child', copy⟩ := copies.child_some found found' child
      have isNear : isTooFar (root' ++ here ++ [name]) 1 = false := by
        rw [List.append_assoc]
        refine near _ node' ?_
        rw [← List.append_assoc, at?_concat found', child']
      rw [Path.staysBelow, if_neg (not_or.mpr ⟨asks.ne_nil, asks.ne_dot⟩), if_neg asks.ne_dotDot] at below
      obtain ⟨place, ends, onward⟩ := ih (List.append_assoc _ _ _) (by rwa [List.length_append])
      rw [← List.append_assoc] at onward
      refine ⟨place, ends, .down found' ⟨asks.ne_nil, asks.ne_dot, asks.ne_dotDot, ?_, ?_, asks.short⟩ child'
        copy.symm.isLink ?_ onward⟩
      · rintro ⟨-, tooFar⟩
        cases (near_zero isNear).symm.trans tooFar
      · exact copies.maySearch info size ▸ asks.searchable
      · rintro ⟨-, -, tooFar⟩
        cases isNear.symm.trans tooFar

/-- Walks from both places come to the same place beneath them, or neither comes anywhere. -/
inductive Arrives (root root' : Location) : Except IoError Location → Except IoError Location → Prop
  | beneath (place : Location) : Arrives root root' (.ok (root ++ place)) (.ok (root' ++ place))
  | nowhere (e e' : IoError) : Arrives root root' (.error e) (.error e')

theorem walkWith_arrives (copies : fs.Copies fs' root root') (near : fs.Near root) (near' : fs'.Near root')
    (reading : Reading) (links : Nat) {here : Location} {pending : List Bytes}
    (below : Path.staysBelow here.length pending = true) :
    Arrives root root' (walkWith reading fs links (root ++ here) pending)
      (walkWith reading fs' links (root' ++ here) pending) := by
  cases arrived : walkWith reading fs links (root ++ here) pending with
  | ok ending =>
      obtain ⟨left, walked⟩ := walks_of_walkWith arrived
      obtain ⟨place, rfl, walked'⟩ := copies.walks near' walked rfl below
      rw [walked'.arrives]
      exact .beneath place
  | error e =>
      cases arrived' : walkWith reading fs' links (root' ++ here) pending with
      | error e' => exact .nowhere e e'
      | ok ending =>
          obtain ⟨left, walked'⟩ := walks_of_walkWith arrived'
          obtain ⟨place, -, walked⟩ := copies.symm.walks near walked' rfl below
          cases arrived.symm.trans walked.arrives

end Copies

/-- A directory in a tree as file systems keep them, to which the user can come. -/
structure Grounded (fs : FileSystem) (root : Location) : Prop where
  proper : fs.root.Proper
  near : fs.Near root
  accessible : fs.Accessible root
  directory : ∃ info entries, fs.at? root = some (.directory info entries)

theorem Grounded.beneath (grounded : fs.Grounded root) {path : Bytes}
    (arrived : fs.canonicalize path = .ok (root ++ place)) : fs.Accessible (root ++ place) := by
  have settled := canonicalize_settled arrived
  obtain ⟨node, isThere, -⟩ := settled.nodes _ List.prefix_rfl
  exact ⟨settled, canonicalize_passable arrived, grounded.proper.names isThere, grounded.near place node isThere⟩

theorem Near.length_join_le (near : fs.Near root) (accessible : fs.Accessible (root ++ place)) {name : Bytes}
    {node : Node} (isThere : fs.at? (root ++ (place ++ [name])) = some node) :
    (Path.join (root ++ place).path name).length ≤ maxPath := by
  have near := near _ _ isThere
  rw [Path.join_path fun n member => (accessible.names n member).toIsName, List.append_assoc]
  simp only [isTooFar, decide_eq_false_iff_not] at near
  omega

namespace Copies

section Looks

variable (copies : fs.Copies fs' root root') (grounded : fs.Grounded root) (grounded' : fs'.Grounded root')

include copies

theorem metadata_shown (place : Location) :
    (fs.metadata (root ++ place)).map Metadata.shown = (fs'.metadata (root' ++ place)).map Metadata.shown := by
  unfold FileSystem.metadata
  have same := copies.nodes place
  generalize fs.at? (root ++ place) = look, fs'.at? (root' ++ place) = look' at same
  cases same with
  | none => rfl
  | some copy => exact congrArg Except.ok copy.describe_shown

include grounded grounded'

theorem canonicalize_arrives {behind : Bytes} (noZero : 0 ∉ behind)
    (below : Path.staysBelow 0 (Path.pieces behind) = true) :
    Arrives root root' (fs.canonicalize (Path.join root.path behind))
      (fs'.canonicalize (Path.join root'.path behind)) := by
  obtain ⟨info, entries, found⟩ := grounded.directory
  obtain ⟨info', entries', found'⟩ := grounded'.directory
  have arrives : Arrives root root' (walkWith .spelling fs maxLinks (root ++ []) (Path.pieces behind))
      (walkWith .spelling fs' maxLinks (root' ++ []) (Path.pieces behind)) :=
    copies.walkWith_arrives grounded.near grounded'.near .spelling maxLinks below
  rw [List.append_nil, List.append_nil] at arrives
  rwa [canonicalize_join grounded.accessible found noZero, canonicalize_join grounded'.accessible found' noZero]

end Looks

section Entries

variable (copies : fs.Copies fs' root root') (grounded : fs.Grounded root) (grounded' : fs'.Grounded root')
  (accessible : fs.Accessible (root ++ place)) (accessible' : fs'.Accessible (root' ++ place))
  {info : DirectoryInfo} {size : Nat} {entries entries' : List (Bytes × Node)}
  (found : fs.at? (root ++ place) = some (.directory info entries))
  (found' : fs'.at? (root' ++ place) = some (.directory { info with size } entries'))

include copies found found'

include grounded grounded' accessible accessible'

variable {name : Bytes} {node : Node} (isThere : fs.at? (root ++ (place ++ [name])) = some node)

include isThere

/-- What an entry leads to shows the same in both trees, or the entry leads nowhere in both. -/
theorem targetAt_shown : (fs.targetAt (Path.join (root ++ place).path name)).toOption.map Metadata.shown =
    (fs'.targetAt (Path.join (root' ++ place).path name)).toOption.map Metadata.shown := by
  obtain ⟨node', isThere', -⟩ := copies.at?_some isThere
  have isName : Path.IsEntryName name := grounded.proper.names isThere name (by simp)
  have short := grounded.near.length_join_le accessible isThere
  have short' := grounded'.near.length_join_le accessible' isThere'
  have below : Path.staysBelow place.length (Path.pieces name) = true := by
    rw [Path.pieces_of_one_piece isName.one_piece, Path.staysBelow,
      if_neg (not_or.mpr ⟨isName.ne_nil, isName.ne_dot⟩), if_neg isName.ne_dotDot, Path.staysBelow]
  have arrives := copies.walkWith_arrives grounded.near grounded'.near .going maxLinks below
  rw [targetAt, targetAt, reach_join accessible found isName.no_zero short,
    reach_join accessible' found' isName.no_zero short']
  generalize walkWith .going fs maxLinks (root ++ place) (Path.pieces name) = ending,
    walkWith .going fs' maxLinks (root' ++ place) (Path.pieces name) = ending' at arrives
  cases arrives with
  | beneath place => exact Metadata.toOption_shown (copies.metadata_shown place)
  | nowhere => rfl

theorem itselfAt_shown : (fs.itselfAt (root ++ place).path (root ++ place) name).toOption.map Metadata.shown =
    (fs'.itselfAt (root' ++ place).path (root' ++ place) name).toOption.map Metadata.shown := by
  obtain ⟨node', isThere', -⟩ := copies.at?_some isThere
  have short := grounded.near.length_join_le accessible isThere
  have short' := grounded'.near.length_join_le accessible' isThere'
  have child := copies.child found found' name
  unfold itselfAt
  rw [if_neg (Nat.not_lt.mpr short), if_neg (Nat.not_lt.mpr short'), found, found']
  dsimp only
  rw [copies.maySearch]
  generalize (Node.directory info entries).child? name = look,
    (Node.directory _ entries').child? name = look' at child
  split
  · rfl
  · cases child with
    | none => rfl
    | some copy => exact congrArg some copy.describe_shown

end Entries

end Copies

/-- Entries with nothing beneath them. -/
def Flat (entries : List (Bytes × Node)) : Prop := ∀ e ∈ entries, ∀ name, e.2.child? name = none

section Flat

variable {info : DirectoryInfo} {size : Nat} {entries entries' : List (Bytes × Node)}

theorem at?_flat (flat : Flat entries) (found : fs.at? root = some (.directory info entries)) (name : Bytes)
    (rest : Location) : fs.at? (root ++ name :: rest) =
      if rest = [] then (Node.directory info entries).child? name else none := by
  change fs.root.at? root = _ at found
  rw [FileSystem.at?, Node.at?_append, found, Option.bind_some, Node.at?]
  cases isChild : (Node.directory info entries).child? name with
  | none => exact (ite_self none).symm
  | some node =>
      cases rest with
      | nil => rfl
      | cons below rest =>
          dsimp only
          rw [Node.at?, flat _ (Node.mem_of_child? isChild)]
          rfl

/-- Directories beneath such entries hold nothing. -/
theorem entries_nil_of_flat (flat : Flat entries) (found : fs.at? root = some (.directory info entries)) {name : Bytes}
    {rest : Location} {below : DirectoryInfo} {others : List (Bytes × Node)}
    (isThere : fs.at? (root ++ name :: rest) = some (.directory below others)) : others = [] := by
  rw [at?_flat flat found] at isThere
  split at isThere
  · refine List.eq_nil_iff_forall_not_mem.mpr fun e member => ?_
    obtain ⟨node, child⟩ := Node.exists_child (List.mem_map_of_mem member)
    cases (flat _ (Node.mem_of_child? isThere) e.1).symm.trans child
  · cases isThere

/-- Directories of such entries are copies where their entries are. -/
theorem Copies.of_flat (privileged : fs.privileged = fs'.privileged) (flat : Flat entries) (flat' : Flat entries')
    (found : fs.at? root = some (.directory info entries))
    (found' : fs'.at? root' = some (.directory { info with size } entries'))
    (names : (entries.map Prod.fst).Perm (entries'.map Prod.fst))
    (children : ∀ name, Option.Rel (NodeCopy fs fs') ((Node.directory info entries).child? name)
      ((Node.directory { info with size } entries').child? name)) : fs.Copies fs' root root' where
  privileged := privileged
  nodes place := by
    cases place with
    | nil =>
        rw [List.append_nil, List.append_nil, found, found']
        exact .some (.directory names)
    | cons name rest =>
        rw [at?_flat flat found, at?_flat flat' found']
        split
        · exact children name
        · exact .none

/-- Two entries are held one way round and the other. -/
theorem Copies.of_pair {name name' : Bytes} {node node' other other' : Node}
    (privileged : fs.privileged = fs'.privileged) (distinct : name ≠ name')
    (found : fs.at? root = some (.directory info [(name, node), (name', other)]))
    (found' : fs'.at? root' = some (.directory { info with size } [(name', other'), (name, node')]))
    (flat : Flat [(name, node), (name', other)]) (flat' : Flat [(name', other'), (name, node')])
    (copy : NodeCopy fs fs' node node') (copy' : NodeCopy fs fs' other other') : fs.Copies fs' root root' := by
  refine .of_flat privileged flat flat' found found' (.swap _ _ _) ?_
  intro asked
  by_cases isFirst : name = asked
  · subst isFirst
    simpa [Node.child?, distinct.symm] using Option.Rel.some copy
  · by_cases isSecond : name' = asked
    · subst isSecond
      simpa [Node.child?, distinct] using Option.Rel.some copy'
    · simp [Node.child?, isFirst, isSecond]

theorem flat_pair {name name' : Bytes} {node other : Node} (leaf : ∀ asked, node.child? asked = none)
    (leaf' : ∀ asked, other.child? asked = none) : Flat [(name, node), (name', other)] :=
  List.forall_mem_cons.mpr ⟨leaf, List.forall_mem_singleton.mpr leaf'⟩

theorem Near.of_flat (flat : Flat entries) (found : fs.at? root = some (.directory info entries))
    (short : ∀ place ∈ [] :: entries.map fun e => [e.1], isTooFar (root ++ place) 1 = false) : fs.Near root := by
  intro place node isThere
  refine short place ?_
  cases place with
  | nil => exact List.mem_cons_self
  | cons name rest =>
      rw [at?_flat flat found] at isThere
      split at isThere
      · next isLast =>
        subst isLast
        exact List.mem_cons_of_mem _ (List.mem_map_of_mem (Node.mem_of_child? isThere))
      · cases isThere

end Flat

end Docroot.FileSystem
