import Docroot.Proofs.FileSystem.Walk

/-!
Two trees that a walk cannot tell apart. A walk looks at what kind of node stands at a place, at who may pass through
a directory and at where a link leads, and at nothing else; so it ends the same in both.
-/
namespace Docroot

/-- Nodes of one kind that let the same users through or lead to the same path. -/
inductive Node.WalkedAlike : Node → Node → Prop
  | file {number number' : Nat} : WalkedAlike (.file number) (.file number')
  | directory {info : DirectoryInfo} {entries entries' : List (Bytes × Node)} :
      WalkedAlike (.directory info entries) (.directory info entries')
  | link {modified modified' : Timestamp} {target : Bytes} : WalkedAlike (.link modified target) (.link modified' target)
  | special {modified modified' : Timestamp} {kind kind' : Special} :
      WalkedAlike (.special modified kind) (.special modified' kind')

namespace FileSystem

structure WalkedAlike (fs fs' : FileSystem) : Prop where
  privileged : fs.privileged = fs'.privileged
  nodes : ∀ location, Option.Rel Node.WalkedAlike (fs.at? location) (fs'.at? location)

namespace WalkedAlike

variable {fs fs' : FileSystem}

theorem at?_none (alike : WalkedAlike fs fs') {location : Location} (missing : fs.at? location = none) :
    fs'.at? location = none :=
  rel_none (alike.nodes location) missing

theorem at?_some (alike : WalkedAlike fs fs') {location : Location} {node : Node}
    (found : fs.at? location = some node) :
    ∃ node', fs'.at? location = some node' ∧ Node.WalkedAlike node node' :=
  rel_some (alike.nodes location) found

theorem maySearch (alike : WalkedAlike fs fs') (info : DirectoryInfo) : fs.maySearch info = fs'.maySearch info := by
  rw [FileSystem.maySearch, FileSystem.maySearch, alike.privileged]

theorem directory (alike : WalkedAlike fs fs') {here : Location} {info : DirectoryInfo}
    {entries : List (Bytes × Node)} (found : fs.at? here = some (.directory info entries)) :
    ∃ entries', fs'.at? here = some (.directory info entries') ∧
      ∀ name, Option.Rel Node.WalkedAlike
        ((Node.directory info entries).child? name) ((Node.directory info entries').child? name) := by
  obtain ⟨node', found', same⟩ := alike.at?_some found
  cases same with
  | directory =>
      refine ⟨_, found', ?_⟩
      intro name
      rw [← at?_concat found, ← at?_concat found']
      exact alike.nodes _

/-- Both trees have the same kind of entry for a walk that asks for it. -/
theorem walkWith_asks (alike : WalkedAlike fs fs') {reading : Reading} {here : Location}
    {info : DirectoryInfo} {entries : List (Bytes × Node)} {name : Bytes}
    (found : fs.at? here = some (.directory info entries)) (asks : Asks reading fs here info name)
    (links : Nat) (rest : List Bytes) :
    walkWith reading fs' links here (name :: rest) =
      match (Node.directory info entries).child? name with
      | none => .error (.system .notFound)
      | some (.link _ target) =>
        match links with
        | 0 => .error (.system .filesystemLoop)
        | links + 1 =>
          walkWith reading fs' links (if Path.isAbsolute target then [] else here)
            (Path.pieces target ++ rest)
      | some _ =>
        if reading = .spelling ∧ rest ≠ [] ∧ isTooFar (here ++ [name]) 1 then
          .error (.system .invalidFilename)
        else walkWith reading fs' links (here ++ [name]) rest := by
  obtain ⟨entries', found', children⟩ := alike.directory found
  have asks' : Asks reading fs' here info name := { asks with searchable := alike.maySearch info ▸ asks.searchable }
  have child := children name
  rw [FileSystem.walkWith_asks found' asks']
  generalize (Node.directory info entries).child? name = look,
    (Node.directory info entries').child? name = look' at child
  cases child with
  | none => rfl
  | some same => cases same <;> rfl

theorem walkWith_eq (alike : WalkedAlike fs fs') (reading : Reading) (links : Nat) (here : Location)
    (pending : List Bytes) :
    walkWith reading fs links here pending = walkWith reading fs' links here pending := by
  fun_induction walkWith reading fs links here pending with
  | case1 => rw [walkWith]
  | case9 _ here name _ _ _ found ne_nil _ ne_dot ne_dotDot near searchable short look
  | case10 here name _ _ _ found ne_nil _ ne_dot ne_dotDot near searchable short _ _ look =>
      rw [alike.walkWith_asks found ⟨ne_nil, ne_dot, ne_dotDot, near, searchable, short⟩, look]
  | case11 here name _ _ _ found ne_nil _ ne_dot ne_dotDot near searchable short _ _ look _ ih =>
      rw [alike.walkWith_asks found ⟨ne_nil, ne_dot, ne_dotDot, near, searchable, short⟩, look]
      exact ih
  | case12 _ here name _ _ _ found ne_nil _ ne_dot ne_dotDot near searchable short node noLink look far =>
      rw [alike.walkWith_asks found ⟨ne_nil, ne_dot, ne_dotDot, near, searchable, short⟩, look]
      cases node with
      | link modified target => exact absurd rfl (noLink modified target)
      | _ => exact (if_pos far).symm
  | case13 _ here name _ _ _ found ne_nil _ ne_dot ne_dotDot near searchable short node noLink look close ih =>
      rw [alike.walkWith_asks found ⟨ne_nil, ne_dot, ne_dotDot, near, searchable, short⟩, look, ih]
      cases node with
      | link modified target => exact absurd rfl (noLink modified target)
      | _ => exact (if_neg close).symm
  | case14 _ _ _ _ node noDirectory found far | case15 _ _ _ _ node noDirectory found near =>
      obtain ⟨node', found', same⟩ := alike.at?_some found
      rw [walkWith, found']
      cases same <;> simp_all
  | case16 _ _ _ _ missing => rw [walkWith, alike.at?_none missing]
  | case2 _ _ _ _ _ found | case3 _ _ _ _ _ _ found | case4 _ _ _ _ _ found
  | case5 _ _ _ _ _ found | case6 _ _ _ _ _ _ found | case7 _ _ _ _ _ _ found
  | case8 _ _ _ _ _ _ found =>
      obtain ⟨entries', found', -⟩ := alike.directory found
      rw [walkWith, found']
      simp_all [alike.maySearch]

theorem canonicalize_eq (alike : WalkedAlike fs fs') (path : Bytes) :
    fs.canonicalize path = fs'.canonicalize path := by
  rw [canonicalize, canonicalize, walk, walk, alike.walkWith_eq]

theorem reach_eq (alike : WalkedAlike fs fs') (path : Bytes) : fs.reach path = fs'.reach path := by
  rw [reach, reach, alike.walkWith_eq]

end WalkedAlike

end FileSystem

end Docroot
