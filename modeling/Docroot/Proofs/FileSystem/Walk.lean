import Docroot.FileSystem.Walk
import Docroot.Proofs.FileSystem.Path

/-!
Where a walk ends. A settled place is spelled by true names alone, and everything on the way down to it
is there and is no link. Each step of a walk keeps to settled places: a name is only gone down when it
stands for something that is no link, and `..` and links fall back to a place that was settled before.
-/
namespace Docroot.FileSystem

section Look

variable {α β : Type} {related other : α → β → Prop} {look : Option α} {look' : Option β}

/-- What is found at a place of one tree has a counterpart in the other, where the looks are related. -/
theorem rel_some (same : Option.Rel related look look') {a : α} (found : look = some a) :
    ∃ b, look' = some b ∧ related a b := by
  cases same with
  | none => cases found
  | some same =>
      cases found
      exact ⟨_, rfl, same⟩

theorem rel_none (same : Option.Rel related look look') (missing : look = none) : look' = none := by
  cases same with
  | none => rfl
  | some same => cases missing

theorem rel_imp (same : Option.Rel related look look') (weaker : ∀ {a b}, related a b → other a b) :
    Option.Rel other look look' := by
  cases same with
  | none => exact .none
  | some same => exact .some (weaker same)

end Look

theorem at?_concat {fs : FileSystem} {here : Location} {node : Node} (found : fs.at? here = some node)
    (name : Bytes) : fs.at? (here ++ [name]) = node.child? name := by
  change fs.root.at? here = some node at found
  change fs.root.at? (here ++ [name]) = _
  rw [Node.at?_append, found, Option.bind_some, Node.at?]
  cases node.child? name <;> rfl

/-- What is beneath a place is an entry of the directory there. -/
theorem directory_of_below {fs : FileSystem} {here : Location} {name : Bytes} {node : Node}
    (below : fs.at? (here ++ [name]) = some node) :
    ∃ info entries, fs.at? here = some (.directory info entries) ∧
      (Node.directory info entries).child? name = some node := by
  cases found : fs.at? here with
  | none =>
      change fs.root.at? (here ++ [name]) = _ at below
      change fs.root.at? here = _ at found
      rw [Node.at?_append, found] at below
      cases below
  | some above =>
      rw [at?_concat found] at below
      cases above with
      | directory info entries => exact ⟨info, entries, rfl, below⟩
      | _ => cases below

/-- A place without links, `.` and `..` on the way down to it, nor at its end. -/
structure Settled (fs : FileSystem) (location : Location) : Prop where
  names : ∀ name ∈ location, Path.IsName name
  nodes : ∀ above, above <+: location → ∃ node, fs.at? above = some node ∧ node.isLink = false

theorem Settled.above {fs : FileSystem} {location above : Location} (settled : fs.Settled location)
    (h : above <+: location) : fs.Settled above where
  names name member := settled.names name (h.subset member)
  nodes higher hh := settled.nodes higher (hh.trans h)

theorem Settled.root {fs : FileSystem} {location : Location} (settled : fs.Settled location) :
    fs.Settled [] := settled.above List.nil_prefix

theorem settled_top {fs : FileSystem} {node : Node} (found : fs.at? [] = some node)
    (noLink : node.isLink = false) : fs.Settled [] where
  names := nofun
  nodes _ isAbove := List.prefix_nil.mp isAbove ▸ ⟨node, found, noLink⟩

theorem Settled.below {fs : FileSystem} {here : Location} {info : DirectoryInfo}
    {entries : List (Bytes × Node)} {name : Bytes} {node : Node} (settled : fs.Settled here)
    (directory : fs.at? here = some (.directory info entries)) (isName : Path.IsName name)
    (child : (Node.directory info entries).child? name = some node) (noLink : node.isLink = false) :
    fs.Settled (here ++ [name]) where
  names other member := by
    rcases List.mem_append.mp member with inside | last
    · exact settled.names other inside
    · exact List.mem_singleton.mp last ▸ isName
  nodes above h := by
    rcases List.prefix_concat_iff.mp h with rfl | higher
    · exact ⟨node, (at?_concat directory name).trans child, noLink⟩
    · exact settled.nodes above higher

/-- A walk from a settled place over pieces without slashes ends at a settled place. -/
theorem walkWith_settled {reading : Reading} {fs : FileSystem} {links : Nat} {here : Location}
    {pending : List Bytes} {location : Location} (settled : fs.Settled here)
    (clean : ∀ piece ∈ pending, Path.separator ∉ piece)
    (arrived : walkWith reading fs links here pending = .ok location) : fs.Settled location := by
  fun_induction walkWith reading fs links here pending with
  | case1 => cases arrived; exact settled
  | case2 _ _ _ _ _ _ ih | case4 _ _ _ _ _ _ _ _ ih =>
      exact ih settled (List.forall_mem_cons.mp clean).2 arrived
  | case5 _ here _ _ _ _ _ _ _ ih =>
      exact ih (settled.above (List.dropLast_prefix here)) (List.forall_mem_cons.mp clean).2 arrived
  | case11 here name rest _ _ _ _ _ _ _ _ _ _ _ target _ _ ih =>
      -- The walk starts over from the root or goes on from the directory that holds the link.
      refine ih ?_ ?_ arrived
      · split
        · exact settled.root
        · exact settled
      · intro piece member
        rcases List.mem_append.mp member with inTarget | later
        · exact Path.separator_not_mem_of_pieces inTarget
        · exact clean piece (List.mem_cons_of_mem _ later)
  | case13 _ here name rest _ _ directory ne_nil _ ne_dot ne_dotDot _ _ _ node noLink child _ ih =>
      obtain ⟨first, others⟩ := List.forall_mem_cons.mp clean
      have isName : Path.IsName name := ⟨ne_nil, ne_dot, ne_dotDot, first⟩
      have plain : node.isLink = false := by
        cases node with
        | link modified target => exact absurd rfl (noLink modified target)
        | _ => rfl
      exact ih (settled.below directory isName child plain) others arrived
  | case14 | case15 => split at arrived <;> cases arrived
  | _ => cases arrived

/-- Nothing is walked over from what is no directory. -/
theorem walkWith_directory {reading : Reading} {fs : FileSystem} {links : Nat} {here : Location}
    {pending : List Bytes} {location : Location} (some_left : pending ≠ [])
    (arrived : walkWith reading fs links here pending = .ok location) :
    ∃ info entries, fs.at? here = some (.directory info entries) := by
  cases pending with
  | nil => exact absurd rfl some_left
  | cons name rest =>
      rw [walkWith] at arrived
      split at arrived
      · next info entries directory => exact ⟨info, entries, directory⟩
      · split at arrived <;> cases arrived
      · cases arrived

/-- A walk asks the directory `here` for the entry that the true name `name` stands for. -/
structure Asks (reading : Reading) (fs : FileSystem) (here : Location) (info : DirectoryInfo)
    (name : Bytes) : Prop where
  ne_nil : name ≠ []
  ne_dot : name ≠ Path.dot
  ne_dotDot : name ≠ Path.dotDot
  near : ¬ (reading = .spelling ∧ isTooFar (here ++ [name]) 0)
  searchable : fs.maySearch info ≠ false
  short : ¬ maxName < name.length

theorem walkWith_asks {reading : Reading} {fs : FileSystem} {here : Location} {info : DirectoryInfo}
    {entries : List (Bytes × Node)} {name : Bytes} (found : fs.at? here = some (.directory info entries))
    (asks : Asks reading fs here info name) (links : Nat) (rest : List Bytes) :
    walkWith reading fs links here (name :: rest) =
      match (Node.directory info entries).child? name with
      | none => .error (.system .notFound)
      | some (.link _ target) =>
        match links with
        | 0 => .error (.system .filesystemLoop)
        | links + 1 =>
          walkWith reading fs links (if Path.isAbsolute target then [] else here)
            (Path.pieces target ++ rest)
      | some _ =>
        if reading = .spelling ∧ rest ≠ [] ∧ isTooFar (here ++ [name]) 1 then
          .error (.system .invalidFilename)
        else walkWith reading fs links (here ++ [name]) rest := by
  rw [walkWith, found]
  refine (if_neg asks.ne_nil).trans ((if_neg fun h => asks.searchable h.2).trans ?_)
  refine (if_neg asks.ne_dot).trans ((if_neg asks.ne_dotDot).trans ((if_neg asks.near).trans ?_))
  exact (if_neg asks.searchable).trans (if_neg asks.short)

/-- The names of a settled place lead to it, if anywhere. -/
theorem walkWith_names {reading : Reading} {fs : FileSystem} {links : Nat} {here : Location}
    {pending : List Bytes} {location : Location} (settled : fs.Settled (here ++ pending))
    (arrived : walkWith reading fs links here pending = .ok location) : location = here ++ pending := by
  have isName : ∀ name ∈ pending, Path.IsName name := fun name member =>
    settled.names name (List.mem_append_right _ member)
  fun_induction walkWith reading fs links here pending with
  | case1 => cases arrived; exact (List.append_nil _).symm
  | case2 => exact absurd rfl (List.forall_mem_cons.mp isName).1.ne_nil
  | case4 => exact absurd rfl (List.forall_mem_cons.mp isName).1.ne_dot
  | case5 => exact absurd rfl (List.forall_mem_cons.mp isName).1.ne_dotDot
  | case11 here name rest _ _ found _ _ _ _ _ _ _ modified target child =>
      obtain ⟨node, isThere, noLink⟩ := settled.nodes (here ++ [name]) (by simp)
      rw [at?_concat found, child] at isThere
      cases isThere
      cases noLink
  | case13 _ here name rest _ _ _ _ _ _ _ _ _ _ _ _ _ _ ih =>
      rw [List.append_cons] at settled ⊢
      exact ih settled arrived (List.forall_mem_cons.mp isName).2
  | case14 | case15 => split at arrived <;> cases arrived
  | _ => cases arrived

/-- A walk from the root over the pieces of a path ends at a settled place. -/
theorem walkWith_pieces_settled {reading : Reading} {fs : FileSystem} {links : Nat} {path : Bytes}
    {location : Location} (arrived : walkWith reading fs links [] (Path.pieces path) = .ok location) :
    fs.Settled location := by
  obtain ⟨info, entries, directory⟩ := walkWith_directory (Path.pieces_ne_nil path) arrived
  exact walkWith_settled (settled_top directory rfl) (fun _ member => Path.separator_not_mem_of_pieces member) arrived

/-- A path leads to a settled place, if anywhere. -/
theorem canonicalize_settled {fs : FileSystem} {path : Bytes} {location : Location}
    (arrived : fs.canonicalize path = .ok location) : fs.Settled location := by
  unfold canonicalize at arrived
  split at arrived
  · cases arrived
  · split at arrived
    · cases arrived
    · exact walkWith_pieces_settled arrived

theorem reach_is_settled {fs : FileSystem} {path : Bytes} {location : Location}
    (arrived : fs.reach path = .ok location) : fs.Settled location := by
  unfold reach at arrived
  split at arrived
  · cases arrived
  · split at arrived
    · cases arrived
    · split at arrived
      · cases arrived
      · exact walkWith_pieces_settled arrived

/-- The spelling of a settled place leads to it, if anywhere. -/
theorem reach_path {fs : FileSystem} {place location : Location} (settled : fs.Settled place)
    (reached : fs.reach place.path = .ok location) : location = place := by
  unfold reach at reached
  split at reached
  · cases reached
  · split at reached
    · cases reached
    · split at reached
      · cases reached
      · obtain ⟨info, entries, found⟩ := walkWith_directory (Path.pieces_ne_nil _) reached
        cases place with
        | nil =>
            change walkWith .going fs maxLinks [] [[], []] = .ok location at reached
            simp only [walkWith, found, if_true] at reached
            exact (Except.ok.inj reached).symm
        | cons name rest =>
            rw [Location.pieces_path fun n member => (settled.names n member).one_piece, walkWith, found] at reached
            simp only [if_true] at reached
            exact walkWith_names settled reached

end Docroot.FileSystem
