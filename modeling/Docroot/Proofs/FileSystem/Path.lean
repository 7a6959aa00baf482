import Docroot.FileSystem.Path
import Docroot.Proofs.Bytes

/-!
Spellings of places. The names of a place are read back from its spelling, as long as they are names that
an entry can have.
-/
namespace Docroot

namespace Path

/-- A name that an entry can have: it is not empty, no way of speaking of a directory, and one piece. -/
structure IsName (name : Bytes) : Prop where
  ne_nil : name ≠ []
  ne_dot : name ≠ dot
  ne_dotDot : name ≠ dotDot
  one_piece : separator ∉ name

theorem separator_not_mem_of_pieces {path piece : Bytes} (member : piece ∈ pieces path) :
    separator ∉ piece := by
  intro inside
  have := not_mem_splitWhere member separator inside
  simp at this

theorem pieces_of_one_piece {name : Bytes} (onePiece : separator ∉ name) : pieces name = [name] := by
  refine splitWhere_of_clean ?_
  intro b inside
  have differs : b ≠ separator := fun same => onePiece (same ▸ inside)
  simpa using differs

theorem pieces_ne_nil (path : Bytes) : pieces path ≠ [] := splitWhere_ne_nil _ path

end Path

namespace Location

theorem path_cons (name : Bytes) (rest : Location) :
    Location.path (name :: rest) = Path.separator :: name ++ rest.flatMap (Path.separator :: ·) := by
  simp [Location.path]

theorem isAbsolute_path (location : Location) : Path.isAbsolute location.path = true := by
  cases location with
  | nil => rfl
  | cons name rest => rw [path_cons]; rfl

/-- The names of a place come back from its spelling, behind the empty piece before the first slash. -/
theorem pieces_path {name : Bytes} {rest : Location}
    (names : ∀ n ∈ name :: rest, Path.separator ∉ n) :
    Path.pieces (Location.path (name :: rest)) = [] :: name :: rest := by
  have clean : ∀ n ∈ name :: rest, ∀ b ∈ n, (b == Path.separator) = false := by
    intro n member b inside
    have differs : b ≠ Path.separator := by
      intro same
      exact names n member (same ▸ inside)
    simpa using differs
  rw [path_cons]
  change splitWhere (· == Path.separator) ([] ++ Path.separator :: (name ++ _)) = _
  rw [splitWhere_append_cons _ (by simp) (by simp), splitWhere_joined (by simp) clean]

/-- The components of the spelling of a place are the root and the names of the place. -/
theorem components_path {location : Location} (names : ∀ name ∈ location, Path.IsName name) :
    Path.components location.path = [Path.separator] :: location := by
  cases location with
  | nil => rfl
  | cons name rest =>
      have kept : (name :: rest).filter (fun p => decide (p ≠ [] ∧ p ≠ Path.dot)) = name :: rest := by
        rw [List.filter_eq_self]
        intro n member
        simp [(names n member).ne_nil, (names n member).ne_dot]
      simp only [Path.components, isAbsolute_path, if_true,
        pieces_path fun n member => (names n member).one_piece]
      rw [List.filter_cons_of_neg (by simp), kept]

theorem path_append {above below : Location} (ne_nil : above ≠ []) (ne_nil' : below ≠ []) :
    Location.path (above ++ below) = above.path ++ below.path := by
  cases above with
  | nil => exact absurd rfl ne_nil
  | cons name rest =>
      cases below with
      | nil => exact absurd rfl ne_nil'
      | cons name' rest' => simp [Location.path]

theorem length_path_pos (location : Location) : 0 < location.path.length := by
  cases location with
  | nil => decide
  | cons name rest => simp [path_cons]

theorem not_mem_path {location : Location} {b : UInt8} (other : b ≠ Path.separator)
    (absent : ∀ name ∈ location, b ∉ name) : b ∉ location.path := by
  unfold Location.path
  split
  · simpa using other
  · simpa [other] using absent

/-- A place is spelled at least as long as what it lies beneath. -/
theorem length_path_le {above location : Location} (h : above <+: location) :
    above.path.length ≤ location.path.length := by
  obtain ⟨below, rfl⟩ := h
  by_cases ne_nil : above = []
  · rw [ne_nil]
    exact length_path_pos _
  · by_cases ne_nil' : below = []
    · exact Nat.le_of_eq (by rw [ne_nil', List.append_nil])
    · rw [path_append ne_nil ne_nil', List.length_append]
      exact Nat.le_add_right _ _

end Location

namespace Path

theorem mem_join {path name : Bytes} {b : UInt8} (other : b ≠ separator) :
    b ∈ join path name ↔ b ∈ path ∨ b ∈ name := by
  unfold join
  split <;> simp [other]

theorem join_ne_nil {path : Bytes} (ne_nil : path ≠ []) (name : Bytes) : join path name ≠ [] := by
  unfold join
  split <;> simp [ne_nil]

theorem getLast?_path {place : Location} (names : ∀ name ∈ place, IsName name) (ne_nil : place ≠ []) :
    place.path.getLast? ≠ some separator := by
  intro isSlash
  obtain ⟨above, last, rfl⟩ := (List.eq_nil_or_concat place).resolve_left ne_nil
  have isName := names last (by simp)
  have spelled : Location.path (above ++ [last]) = above.flatMap (separator :: ·) ++ [separator] ++ last := by
    simp [Location.path]
  rw [List.concat_eq_append, spelled, List.getLast?_append, List.getLast?_eq_some_getLast isName.ne_nil,
    Option.some_or] at isSlash
  exact isName.one_piece (Option.some.inj isSlash ▸ List.getLast_mem isName.ne_nil)

/-- What is joined to the spelling of a place comes behind the names of that place. -/
theorem pieces_join {place : Location} (names : ∀ name ∈ place, IsName name) (rest : Bytes) :
    pieces (join place.path rest) = [] :: place ++ pieces rest := by
  cases place with
  | nil => exact splitWhere_append (a := []) rfl rest
  | cons name others =>
      rw [join, if_neg (getLast?_path names (by simp)), List.append_assoc, List.singleton_append]
      refine (splitWhere_append (by rfl) _ rest).trans (congrArg (· ++ pieces rest) ?_)
      exact Location.pieces_path fun n member => (names n member).one_piece

/-- A name that is joined to a path comes behind the pieces of that path, but for a slash at its end. -/
theorem pieces_join_name (path : Bytes) {name : Bytes} (onePiece : separator ∉ name) :
    ∃ front, pieces (join path name) = front ++ [name] ∧ (pieces path = front ∨ pieces path = front ++ [[]]) := by
  unfold join
  split
  · next isSlash =>
    obtain ⟨front, rfl⟩ := List.getLast?_eq_some_iff.mp isSlash
    refine ⟨pieces front, ?_, .inr (splitWhere_append (by rfl) front [])⟩
    rw [List.append_assoc, List.singleton_append]
    exact (splitWhere_append (by rfl) front name).trans (congrArg (pieces front ++ ·) (pieces_of_one_piece onePiece))
  · refine ⟨pieces path, ?_, .inl rfl⟩
    rw [List.append_assoc, List.singleton_append]
    exact (splitWhere_append (by rfl) path name).trans (congrArg (pieces path ++ ·) (pieces_of_one_piece onePiece))

theorem join_path {place : Location} (names : ∀ name ∈ place, IsName name) (name : Bytes) :
    join place.path name = Location.path (place ++ [name]) := by
  cases place with
  | nil => simp [join, Location.path]
  | cons first others =>
      rw [join, if_neg (getLast?_path names (by simp)), Location.path_append (by simp) (by simp),
        List.append_assoc]
      simp [Location.path]

end Path

end Docroot
