import Docroot.Proofs.FileSystem.Arrival

/-!
Places that are open to a user. Who has come to a place may pass through the directories above it, so the names
of the place lead there again, whatever is asked for from there on.
-/
namespace Docroot.FileSystem

variable {reading : Reading} {fs : FileSystem} {links left : Nat} {here place : Location}
  {pending rest : List Bytes} {info : DirectoryInfo} {entries : List (Bytes × Node)} {name : Bytes}
  {node : Node}

/-- The user may pass through each directory above the place. -/
def Passable (fs : FileSystem) (place : Location) : Prop :=
  ∀ above name, above ++ [name] <+: place →
    ∃ info entries, fs.at? above = some (.directory info entries) ∧ fs.maySearch info = true

theorem Passable.root : fs.Passable [] := by
  intro above name isAbove
  simp at isAbove

theorem Passable.above {above : Location} (passable : fs.Passable place) (isAbove : above <+: place) : fs.Passable above :=
  fun higher name isHigher => passable higher name (isHigher.trans isAbove)

theorem Passable.below (passable : fs.Passable here) (found : fs.at? here = some (.directory info entries))
    (searchable : fs.maySearch info = true) (name : Bytes) : fs.Passable (here ++ [name]) := by
  intro above other isAbove
  rcases List.prefix_concat_iff.mp isAbove with same | higher
  · obtain ⟨rfl, -⟩ := List.append_inj' same rfl
    exact ⟨info, entries, found, searchable⟩
  · exact passable above other higher

theorem Walks.passable (walks : Walks reading fs links here pending left place) (start : fs.Passable here) :
    fs.Passable place := by
  induction walks with
  | done => exact start
  | blank _ _ ih | dot _ _ _ ih => exact ih start
  | dotDot _ _ _ ih => exact ih (start.above (List.dropLast_prefix _))
  | link _ _ _ _ ih =>
      refine ih ?_
      split
      · exact .root
      · exact start
  | down found asks _ _ _ _ ih =>
      exact ih (start.below found (Bool.not_eq_false _ ▸ asks.searchable) _)

theorem canonicalize_passable {path : Bytes} (arrived : fs.canonicalize path = .ok place) :
    fs.Passable place := by
  obtain ⟨-, -, left, walks⟩ := canonicalize_eq_ok_iff.mp arrived
  exact walks.passable .root

/-- A place that the user can come to by its names. -/
structure Accessible (fs : FileSystem) (place : Location) : Prop where
  settled : fs.Settled place
  passable : fs.Passable place
  names : ∀ name ∈ place, Path.IsEntryName name
  near : isTooFar place 1 = false

theorem Accessible.above {above : Location} (accessible : fs.Accessible place) (isAbove : above <+: place) :
    fs.Accessible above where
  settled := accessible.settled.above isAbove
  passable := accessible.passable.above isAbove
  names name member := accessible.names name (isAbove.subset member)
  near := near_front isAbove accessible.near

/-- A walk goes down to an entry that it may have. -/
theorem walkWith_down (found : fs.at? here = some (.directory info entries)) (isName : Path.IsEntryName name)
    (searchable : fs.maySearch info = true)
    (child : (Node.directory info entries).child? name = some node) (noLink : node.isLink = false)
    (near : isTooFar (here ++ [name]) 1 = false) (links : Nat) (rest : List Bytes) :
    walkWith reading fs links here (name :: rest) = walkWith reading fs links (here ++ [name]) rest := by
  have asks : Asks reading fs here info name := by
    refine ⟨isName.ne_nil, isName.ne_dot, isName.ne_dotDot, ?_, by simp [searchable], Nat.not_lt.mpr isName.short⟩
    simp [near_zero near]
  rw [walkWith_asks found asks, child]
  cases node with
  | link => cases noLink
  | _ => exact if_neg (by simp [near])

theorem walkWith_accessible {names : List Bytes} (accessible : fs.Accessible (here ++ names)) (links : Nat)
    (rest : List Bytes) :
    walkWith reading fs links here (names ++ rest) = walkWith reading fs links (here ++ names) rest := by
  induction names generalizing here with
  | nil => rw [List.append_nil, List.nil_append]
  | cons name more ih =>
      rw [List.append_cons here] at accessible ⊢
      have entry : fs.Accessible (here ++ [name]) := accessible.above (List.prefix_append _ _)
      obtain ⟨node, isThere, noLink⟩ := entry.settled.nodes _ List.prefix_rfl
      obtain ⟨info, entries, found, child⟩ := directory_of_below isThere
      obtain ⟨info', entries', found', searchable⟩ := entry.passable here name List.prefix_rfl
      cases found.symm.trans found'
      rw [List.cons_append,
        walkWith_down found (entry.names name (by simp)) searchable child noLink entry.near, ih accessible]

/-- What comes behind the spelling of a directory is gone from there. -/
theorem walkWith_from_root (accessible : fs.Accessible place)
    (found : fs.at? place = some (.directory info entries)) (links : Nat) (rest : List Bytes) :
    walkWith reading fs links [] ([] :: place ++ rest) = walkWith reading fs links place rest := by
  obtain ⟨info', entries', directory⟩ := accessible.settled.root_directory found
  rw [List.cons_append, walkWith, directory]
  exact (if_pos rfl).trans (walkWith_accessible accessible links rest)

theorem Accessible.no_zero (accessible : fs.Accessible place) : 0 ∉ place.path :=
  Location.not_mem_path (by decide) fun name member => (accessible.names name member).no_zero

section Join

variable {behind : Bytes} (accessible : fs.Accessible place) (found : fs.at? place = some (.directory info entries))
  (noZero : 0 ∉ behind)

include accessible found noZero

theorem walkWith_join (reading : Reading) :
    0 ∉ Path.join place.path behind ∧ Path.join place.path behind ≠ [] ∧
      walkWith reading fs maxLinks [] (Path.pieces (Path.join place.path behind)) =
        walkWith reading fs maxLinks place (Path.pieces behind) := by
  have names := fun name member => (accessible.names name member).toIsName
  refine ⟨?_, ?_, ?_⟩
  · rw [Path.mem_join (by decide)]
    exact not_or.mpr ⟨accessible.no_zero, noZero⟩
  · exact Path.join_ne_nil (List.ne_nil_of_length_pos (Location.length_path_pos place)) behind
  · rw [Path.pieces_join names, walkWith_from_root accessible found]

/-- What is joined to the spelling of a directory is spelled out from there. -/
theorem canonicalize_join :
    fs.canonicalize (Path.join place.path behind) = walkWith .spelling fs maxLinks place (Path.pieces behind) := by
  obtain ⟨noZero, ne_nil, walks⟩ := walkWith_join accessible found noZero .spelling
  rw [canonicalize, if_neg noZero, if_neg ne_nil, walk, walks]

theorem reach_join (short : (Path.join place.path behind).length ≤ maxPath) :
    fs.reach (Path.join place.path behind) = walkWith .going fs maxLinks place (Path.pieces behind) := by
  obtain ⟨noZero, ne_nil, walks⟩ := walkWith_join accessible found noZero .going
  rw [reach, if_neg noZero, if_neg (Nat.not_lt.mpr short), if_neg ne_nil, walks]

end Join

/-- A directory is reached by its spelling. -/
theorem reach_accessible (accessible : fs.Accessible place)
    (found : fs.at? place = some (.directory info entries)) : fs.reach place.path = .ok place := by
  have ne_nil : place.path ≠ [] := List.ne_nil_of_length_pos (Location.length_path_pos place)
  have short : ¬ maxPath < place.path.length := by
    have near := accessible.near
    simp only [isTooFar, decide_eq_false_iff_not] at near
    omega
  rw [reach, if_neg accessible.no_zero, if_neg short, if_neg ne_nil]
  cases place with
  | nil =>
      refine (walkWith_from_root accessible found maxLinks [[]]).trans ?_
      rw [walkWith, found]
      exact (if_pos rfl).trans (by rw [walkWith])
  | cons name more =>
      rw [Location.pieces_path fun n member => (accessible.names n member).one_piece]
      have whole : walkWith .going fs maxLinks [] ([] :: (name :: more) ++ []) = _ :=
        walkWith_from_root accessible found maxLinks []
      rw [List.append_nil] at whole
      rw [whole, walkWith]

end Docroot.FileSystem
