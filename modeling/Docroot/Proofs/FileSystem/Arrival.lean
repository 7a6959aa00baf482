import Docroot.Proofs.FileSystem.Tree

/-!
Walks that arrive, step by step. They can be put together, and one that spells places out comes to none
whose spelling is too long.
-/
namespace Docroot.FileSystem

/-- A walk from `here` over the pieces `pending` that arrives at `place`, with `left` of its links left. -/
inductive Walks (reading : Reading) (fs : FileSystem) :
    (links : Nat) → (here : Location) → (pending : List Bytes) → (left : Nat) → (place : Location) → Prop where
  | done {links : Nat} {here : Location} : Walks reading fs links here [] links here
  | blank {links left : Nat} {here place : Location} {rest : List Bytes} {info : DirectoryInfo}
      {entries : List (Bytes × Node)} (found : fs.at? here = some (.directory info entries))
      (onward : Walks reading fs links here rest left place) : Walks reading fs links here ([] :: rest) left place
  | dot {links left : Nat} {here place : Location} {rest : List Bytes} {info : DirectoryInfo}
      {entries : List (Bytes × Node)} (found : fs.at? here = some (.directory info entries))
      (passable : ¬ (reading = .going ∧ fs.maySearch info = false))
      (onward : Walks reading fs links here rest left place) :
      Walks reading fs links here (Path.dot :: rest) left place
  | dotDot {links left : Nat} {here place : Location} {rest : List Bytes} {info : DirectoryInfo}
      {entries : List (Bytes × Node)} (found : fs.at? here = some (.directory info entries))
      (passable : ¬ (reading = .going ∧ fs.maySearch info = false))
      (onward : Walks reading fs links here.dropLast rest left place) :
      Walks reading fs links here (Path.dotDot :: rest) left place
  | link {links left : Nat} {here place : Location} {name target : Bytes} {rest : List Bytes}
      {info : DirectoryInfo} {entries : List (Bytes × Node)} {modified : Timestamp}
      (found : fs.at? here = some (.directory info entries)) (asks : Asks reading fs here info name)
      (child : (Node.directory info entries).child? name = some (.link modified target))
      (onward : Walks reading fs links (if Path.isAbsolute target then [] else here)
        (Path.pieces target ++ rest) left place) :
      Walks reading fs (links + 1) here (name :: rest) left place
  | down {links left : Nat} {here place : Location} {name : Bytes} {rest : List Bytes} {node : Node}
      {info : DirectoryInfo} {entries : List (Bytes × Node)}
      (found : fs.at? here = some (.directory info entries)) (asks : Asks reading fs here info name)
      (child : (Node.directory info entries).child? name = some node) (noLink : node.isLink = false)
      (near : ¬ (reading = .spelling ∧ rest ≠ [] ∧ isTooFar (here ++ [name]) 1))
      (onward : Walks reading fs links (here ++ [name]) rest left place) :
      Walks reading fs links here (name :: rest) left place

variable {reading : Reading} {fs : FileSystem} {links left left' : Nat} {here middle place : Location}
  {pending rest : List Bytes}

theorem walks_of_walkWith (arrived : walkWith reading fs links here pending = .ok place) :
    ∃ left, Walks reading fs links here pending left place := by
  fun_induction walkWith reading fs links here pending with
  | case1 links here =>
      cases arrived
      exact ⟨links, .done⟩
  | case2 _ _ _ _ _ found ih =>
      obtain ⟨left, walks⟩ := ih arrived
      exact ⟨left, .blank found walks⟩
  | case4 _ _ _ _ _ found notClosed _ ih =>
      obtain ⟨left, walks⟩ := ih arrived
      exact ⟨left, .dot found notClosed walks⟩
  | case5 _ _ _ _ _ found notClosed _ _ ih =>
      obtain ⟨left, walks⟩ := ih arrived
      exact ⟨left, .dotDot found notClosed walks⟩
  | case11 here name rest info entries found notNil _ notDot notDotDot near searchable short modified target child
      links ih =>
      obtain ⟨left, walks⟩ := ih arrived
      exact ⟨left, .link found ⟨notNil, notDot, notDotDot, near, searchable, short⟩ child walks⟩
  | case13 _ here name rest info entries found notNil _ notDot notDotDot near searchable short node noLink child
      onward ih =>
      obtain ⟨left, walks⟩ := ih arrived
      have plain : node.isLink = false := by
        cases node with
        | link modified target => exact absurd rfl (noLink modified target)
        | _ => rfl
      exact ⟨left, .down found ⟨notNil, notDot, notDotDot, near, searchable, short⟩ child plain onward walks⟩
  | case14 | case15 => split at arrived <;> cases arrived
  | _ => cases arrived

theorem Walks.arrives (walks : Walks reading fs links here pending left place) :
    walkWith reading fs links here pending = .ok place := by
  induction walks with
  | done => rw [walkWith]
  | blank found _ ih =>
      rw [walkWith, found]
      exact (if_pos rfl).trans ih
  | dot found notClosed _ ih =>
      rw [walkWith, found]
      dsimp only
      rw [if_neg (by decide), if_neg notClosed, if_pos rfl, ih]
  | dotDot found notClosed _ ih =>
      rw [walkWith, found]
      dsimp only
      rw [if_neg (by decide), if_neg notClosed, if_neg (by decide), if_pos rfl, ih]
  | link found asks child _ ih =>
      rw [walkWith_asks found asks, child]
      exact ih
  | @down _ _ _ _ _ _ node _ _ found asks child noLink near _ ih =>
      rw [walkWith_asks found asks, child]
      cases node with
      | link => cases noLink
      | _ => exact (if_neg near).trans ih

/-- Two walks that meet are one. If they spell places out, the place where they meet must be one that can be spelled
with a slash behind it. -/
theorem Walks.append (first : Walks reading fs links here pending left middle)
    (second : Walks reading fs left middle rest left' place) (near : reading = .spelling → isTooFar middle 1 = false) :
    Walks reading fs links here (pending ++ rest) left' place := by
  induction first with
  | done => exact second
  | blank found _ ih => exact .blank found (ih second near)
  | dot found passable _ ih => exact .dot found passable (ih second near)
  | dotDot found passable _ ih => exact .dotDot found passable (ih second near)
  | link found asks child _ ih =>
      rw [List.cons_append]
      refine .link found asks child ?_
      rw [← List.append_assoc]
      exact ih second near
  | @down _ _ _ _ _ more _ _ _ found asks child noLink nearer onward ih =>
      refine .down found asks child noLink ?_ (ih second near)
      rintro ⟨spelling, -, tooFar⟩
      -- Only the last name of the first walk had nothing behind it, so its place was not measured.
      by_cases last : more = []
      · subst last
        cases onward
        rw [near spelling] at tooFar
        cases tooFar
      · exact nearer ⟨spelling, last, tooFar⟩

theorem Walks.trans (first : Walks reading fs links here pending left middle)
    (second : Walks reading fs left middle rest left' place) (near : isTooFar middle 1 = false) :
    Walks reading fs links here (pending ++ rest) left' place := first.append second fun _ => near

/-- A slash at the end does not lead elsewhere. -/
theorem Walks.of_slash (walks : Walks reading fs links here (pending ++ [[]]) left place) :
    Walks reading fs links here pending left place := by
  -- The induction is on the walk with the slash, of which `pending` is all but the blank at the end.
  generalize whole : pending ++ [[]] = pieces at walks
  induction walks generalizing pending with
  | done => simp at whole
  | blank found onward ih =>
      cases pending with
      | nil =>
          cases whole
          exact onward
      | cons =>
          cases whole
          exact .blank found (ih rfl)
  | dot found passable _ ih =>
      cases pending with
      | nil => cases whole
      | cons =>
          cases whole
          exact .dot found passable (ih rfl)
  | dotDot found passable _ ih =>
      cases pending with
      | nil => cases whole
      | cons =>
          cases whole
          exact .dotDot found passable (ih rfl)
  | link found asks child _ ih =>
      cases pending with
      | nil =>
          cases whole
          exact absurd rfl asks.ne_nil
      | cons name more =>
          cases whole
          exact .link found asks child (ih (List.append_assoc _ _ _))
  | down found asks child noLink near _ ih =>
      cases pending with
      | nil =>
          cases whole
          exact absurd rfl asks.ne_nil
      | cons name more =>
          cases whole
          refine .down found asks child noLink ?_ (ih rfl)
          rintro ⟨spelling, -, tooFar⟩
          exact near ⟨spelling, by simp, tooFar⟩

/-- Nothing above a place that is spelled short enough is spelled too long. -/
theorem near_front {above : Location} {more : Nat} (isAbove : above <+: place)
    (near : isTooFar place more = false) : isTooFar above more = false := by
  have shorter := Location.length_path_le isAbove
  simp only [isTooFar, decide_eq_false_iff_not] at near ⊢
  omega

theorem near_zero {more : Nat} (near : isTooFar place more = false) : isTooFar place 0 = false := by
  simp only [isTooFar, decide_eq_false_iff_not] at near ⊢
  omega

/-- No place that is come to is spelled too long. -/
theorem Walks.not_too_far (walks : Walks .spelling fs links here pending left place)
    (start : isTooFar here 0 = false) : isTooFar place 0 = false := by
  have root : isTooFar [] 0 = false := by decide
  induction walks with
  | done => exact start
  | blank _ _ ih | dot _ _ _ ih => exact ih start
  | dotDot _ _ _ ih => exact ih (near_front (List.dropLast_prefix _) start)
  | link _ _ _ _ ih =>
      refine ih ?_
      split
      · exact root
      · exact start
  | down _ asks _ _ _ _ ih => exact ih (Bool.not_eq_true _ ▸ fun tooFar => asks.near ⟨rfl, tooFar⟩)

/-- A walk over pieces that end with a blank one comes to no place that is spelled too long with a slash. -/
theorem Walks.not_too_far_for_slash (walks : Walks .spelling fs links here pending left place)
    (slashed : ∀ last ∈ pending.getLast?, last = []) (start : isTooFar here 1 = false) :
    isTooFar place 1 = false := by
  have root : isTooFar [] 1 = false := by decide
  -- What is left of the pieces still ends with the blank one, until that has been passed.
  have later : ∀ {name : Bytes} {rest : List Bytes}, (∀ last ∈ (name :: rest).getLast?, last = []) →
      ∀ last ∈ rest.getLast?, last = [] := by
    intro name rest slashed last isLast
    refine slashed last ?_
    rw [List.getLast?_cons, Option.mem_def.mp isLast]
    rfl
  have goesOn : ∀ {name : Bytes} {rest : List Bytes}, (∀ last ∈ (name :: rest).getLast?, last = []) →
      name ≠ [] → rest ≠ [] := by
    rintro name rest slashed ne_nil rfl
    exact ne_nil (slashed name rfl)
  induction walks with
  | done => exact start
  | blank _ _ ih | dot _ _ _ ih => exact ih (later slashed) start
  | dotDot _ _ _ ih => exact ih (later slashed) (near_front (List.dropLast_prefix _) start)
  | link _ asks _ _ ih =>
      refine ih ?_ ?_
      · rw [List.getLast?_append, Option.or_of_isSome (List.getLast?_isSome.mpr (goesOn slashed asks.ne_nil))]
        exact later slashed
      · split
        · exact root
        · exact start
  | down _ asks _ _ near _ ih =>
      refine ih (later slashed) (Bool.not_eq_true _ ▸ fun tooFar => ?_)
      exact near ⟨rfl, goesOn slashed asks.ne_nil, tooFar⟩

theorem near_above {name : Bytes} {more : Nat} (near : isTooFar (here ++ [name]) more = false) :
    isTooFar here 1 = false := by
  simp only [isTooFar, decide_eq_false_iff_not] at near ⊢
  by_cases top : here = []
  · rw [top]
    decide
  · rw [Location.path_append top (by simp), List.length_append] at near
    have := Location.length_path_pos [name]
    omega

/-- The names of a settled place lead to it where nothing is hidden and no name nor spelling too long. -/
theorem walks_names {names : List Bytes} (settled : fs.Settled (here ++ names))
    (privileged : fs.privileged = true) (short : ∀ name ∈ names, name.length ≤ maxName)
    (near : isTooFar (here ++ names) 0 = false) : Walks reading fs links here names links (here ++ names) := by
  induction names generalizing here with
  | nil =>
      rw [List.append_nil]
      exact .done
  | cons name more ih =>
      obtain ⟨first, others⟩ := List.forall_mem_cons.mp short
      rw [List.append_cons] at settled near ⊢
      obtain ⟨node, isThere, noLink⟩ := settled.nodes (here ++ [name]) (List.prefix_append _ _)
      obtain ⟨info, entries, found, child⟩ := directory_of_below isThere
      have isName := settled.names name (by simp)
      -- The places on the way are spelled in no more octets than the one at the end.
      have shorter := Location.length_path_le (List.prefix_append (here ++ [name]) more)
      simp only [isTooFar, decide_eq_false_iff_not] at near
      have asks : Asks reading fs here info name := by
        refine ⟨isName.ne_nil, isName.ne_dot, isName.ne_dotDot, ?_, ?_, Nat.not_lt.mpr first⟩
        · rintro ⟨-, tooFar⟩
          simp only [isTooFar, decide_eq_true_eq] at tooFar
          omega
        · simp [maySearch, privileged]
      refine .down found asks child noLink ?_ (ih settled others (by simpa [isTooFar] using near))
      rintro ⟨-, goesOn, tooFar⟩
      rw [Location.path_append (by simp) goesOn, List.length_append] at near
      have := Location.length_path_pos more
      simp only [isTooFar, decide_eq_true_eq] at tooFar
      omega

theorem canonicalize_eq_ok_iff {path : Bytes} :
    fs.canonicalize path = .ok place ↔
      0 ∉ path ∧ path ≠ [] ∧ ∃ left, Walks .spelling fs maxLinks [] (Path.pieces path) left place := by
  unfold canonicalize
  constructor
  · intro arrived
    split at arrived
    · cases arrived
    · next noZero =>
      split at arrived
      · cases arrived
      · next ne_nil => exact ⟨noZero, ne_nil, walks_of_walkWith arrived⟩
  · rintro ⟨noZero, ne_nil, left, walks⟩
    rw [if_neg noZero, if_neg ne_nil]
    exact walks.arrives

theorem reach_eq_ok_iff {path : Bytes} :
    fs.reach path = .ok place ↔ 0 ∉ path ∧ path.length ≤ maxPath ∧ path ≠ [] ∧
      ∃ left, Walks .going fs maxLinks [] (Path.pieces path) left place := by
  unfold reach
  constructor
  · intro arrived
    split at arrived
    · cases arrived
    · next noZero =>
      split at arrived
      · cases arrived
      · next short =>
        split at arrived
        · cases arrived
        · next ne_nil => exact ⟨noZero, Nat.not_lt.mp short, ne_nil, walks_of_walkWith arrived⟩
  · rintro ⟨noZero, short, ne_nil, left, walks⟩
    rw [if_neg noZero, if_neg (Nat.not_lt.mpr short), if_neg ne_nil]
    exact walks.arrives

/-- An entry that is no link is reached by the path to its directory with its name behind it, where the user may pass
and that path is not too long. -/
theorem reach_entry {path name : Bytes} {info : DirectoryInfo} {entries : List (Bytes × Node)} {node : Node}
    (reached : fs.reach path = .ok here) (found : fs.at? here = some (.directory info entries))
    (searchable : fs.maySearch info = true) (isName : Path.IsEntryName name)
    (child : (Node.directory info entries).child? name = some node) (noLink : node.isLink = false)
    (short : (Path.join path name).length ≤ maxPath) : fs.reach (Path.join path name) = .ok (here ++ [name]) := by
  obtain ⟨noZero, -, ne_nil, left, walks⟩ := reach_eq_ok_iff.mp reached
  obtain ⟨front, joined, whole⟩ := Path.pieces_join_name path isName.one_piece
  have toHere : Walks .going fs maxLinks [] front left here := by
    rcases whole with same | slashed
    · exact same ▸ walks
    · exact (slashed ▸ walks).of_slash
  have asks : Asks .going fs here info name :=
    ⟨isName.ne_nil, isName.ne_dot, isName.ne_dotDot, by simp, by simp [searchable], Nat.not_lt.mpr isName.short⟩
  have down : Walks .going fs left here [name] left (here ++ [name]) := .down found asks child noLink (by simp) .done
  refine reach_eq_ok_iff.mpr ⟨?_, short, Path.join_ne_nil ne_nil name, left, ?_⟩
  · rw [Path.mem_join (by decide)]
    exact not_or.mpr ⟨noZero, isName.no_zero⟩
  · rw [joined]
    exact toHere.append down nofun

theorem canonicalize_join_iff {rest : Bytes} (names : ∀ name ∈ here, Path.IsName name) :
    fs.canonicalize (Path.join here.path rest) = .ok place ↔
      0 ∉ here.path ∧ 0 ∉ rest ∧
        ∃ left, Walks .spelling fs maxLinks [] ([] :: here ++ Path.pieces rest) left place := by
  have ne_nil : here.path ≠ [] := List.ne_nil_of_length_pos (Location.length_path_pos here)
  rw [canonicalize_eq_ok_iff, Path.mem_join (by decide), not_or, Path.pieces_join names, and_assoc]
  simp only [ne_eq, Path.join_ne_nil ne_nil rest, not_false_eq_true, true_and]

section Settled

variable {info : DirectoryInfo} {entries : List (Bytes × Node)}

theorem Settled.root_directory (settled : fs.Settled place)
    (found : fs.at? place = some (.directory info entries)) :
    ∃ info entries, fs.at? [] = some (.directory info entries) := by
  cases place with
  | nil => exact ⟨info, entries, found⟩
  | cons name rest =>
      obtain ⟨node, isThere, -⟩ := settled.nodes ([] ++ [name]) (by simp)
      obtain ⟨info, entries, directory, -⟩ := directory_of_below isThere
      exact ⟨info, entries, directory⟩

/-- A settled directory is come to from the root, with or without a slash at the end. -/
theorem walks_from_root (proper : fs.root.Proper) (privileged : fs.privileged = true)
    (settled : fs.Settled place) (found : fs.at? place = some (.directory info entries))
    (near : isTooFar place 1 = false) :
    Walks reading fs links [] ([] :: place) links place ∧
      Walks reading fs links [] ([] :: place ++ [[]]) links place := by
  obtain ⟨info', entries', directory⟩ := settled.root_directory found
  have short := fun name member => (proper.names found name member).short
  have down : Walks reading fs links [] place links place := walks_names settled privileged short (near_zero near)
  exact ⟨.blank directory down, .blank directory (down.trans (.blank found .done) near)⟩

theorem reach_settled (proper : fs.root.Proper) (privileged : fs.privileged = true)
    (settled : fs.Settled place) (found : fs.at? place = some (.directory info entries))
    (near : isTooFar place 1 = false) :
    fs.reach place.path = .ok place := by
  have noZero : 0 ∉ place.path :=
    Location.not_mem_path (by decide) fun name member => (proper.names found name member).no_zero
  have short : ¬ maxPath < place.path.length := by
    simp only [isTooFar, decide_eq_false_iff_not] at near
    omega
  have ne_nil : place.path ≠ [] := List.ne_nil_of_length_pos (Location.length_path_pos place)
  have names : ∀ name ∈ place, Path.separator ∉ name := fun name member => (settled.names name member).one_piece
  obtain ⟨plain, slashed⟩ : Walks .going fs maxLinks [] ([] :: place) maxLinks place ∧
      Walks .going fs maxLinks [] ([] :: place ++ [[]]) maxLinks place :=
    walks_from_root proper privileged settled found near
  rw [reach, if_neg noZero, if_neg short, if_neg ne_nil]
  cases place with
  | nil => exact slashed.arrives
  | cons name rest =>
      rw [Location.pieces_path names]
      exact plain.arrives

end Settled

end Docroot.FileSystem
