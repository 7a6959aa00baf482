import Docroot.Proofs.FileSystem.Arrival
import Mathlib

/-!
Plain lookup in a tree. It goes from node to node and knows neither links nor permissions nor limits. In a tree
without links, walks by a user above all permissions come to where it does.
-/
namespace Docroot

/-- Whether no `..` leads above the start of a path, which is `depth` names further up. -/
def Path.staysBelow : (depth : Nat) → List Bytes → Bool
  | _, [] => true
  | depth, segment :: rest =>
    if segment = [] ∨ segment = dot then staysBelow depth rest
    else if segment = dotDot then decide (0 < depth) && staysBelow (depth - 1) rest
    else staysBelow (depth + 1) rest

theorem Path.staysBelow_prefix {depth : Nat} {front segments : List Bytes} (isPrefix : front <+: segments)
    (below : staysBelow depth segments = true) : staysBelow depth front = true := by
  induction front generalizing depth segments with
  | nil => rfl
  | cons segment more ih =>
      obtain ⟨rest, rfl⟩ := isPrefix
      rw [List.cons_append, staysBelow] at below
      rw [staysBelow]
      have isPrefix := List.prefix_append more rest
      split_ifs at below ⊢
      · exact ih isPrefix below
      · rw [Bool.and_eq_true] at below ⊢
        exact ⟨below.1, ih isPrefix below.2⟩
      · exact ih isPrefix below

namespace Node

/-- Where one segment leads from a place; nowhere from what is no directory. -/
def advance (tree : Node) (here : Location) (segment : Bytes) : Option Location :=
  match tree.at? here with
  | some (.directory info entries) =>
    if segment = [] ∨ segment = Path.dot then some here
    else if segment = Path.dotDot then some here.dropLast
    else ((Node.directory info entries).child? segment).map fun _ => here ++ [segment]
  | _ => none

def lookup (tree : Node) : Location → List Bytes → Option Location
  | here, [] => some here
  | here, segment :: rest => (tree.advance here segment).bind fun next => tree.lookup next rest

/-- No symbolic link is anywhere in the tree. -/
inductive LinkFree : Node → Prop where
  | file (number : Nat) : LinkFree (.file number)
  | directory {info : DirectoryInfo} {entries : List (Bytes × Node)} (nodes : ∀ e ∈ entries, e.2.LinkFree) :
      LinkFree (.directory info entries)
  | special (modified : Timestamp) (kind : Special) : LinkFree (.special modified kind)

variable {tree below : Node} {here place : Location} {info : DirectoryInfo} {entries : List (Bytes × Node)}
  {segment : Bytes}

theorem LinkFree.at? (linkFree : tree.LinkFree) (found : tree.at? place = some below) : below.LinkFree := by
  induction place generalizing tree with
  | nil =>
      cases found
      exact linkFree
  | cons name rest ih =>
      rw [Node.at?] at found
      split at found
      · next child isChild =>
        cases linkFree with
        | directory nodes => exact ih (nodes _ (mem_of_child? isChild)) found
        | _ => cases isChild
      · cases found

theorem LinkFree.isLink (linkFree : tree.LinkFree) : tree.isLink = false := by
  cases linkFree <;> rfl

section Advance

theorem advance_stays (found : tree.at? here = some (.directory info entries))
    (stays : segment = [] ∨ segment = Path.dot) : tree.advance here segment = some here := by
  rw [advance, found]
  exact if_pos stays

theorem advance_dotDot (found : tree.at? here = some (.directory info entries)) :
    tree.advance here Path.dotDot = some here.dropLast := by
  rw [advance, found]
  exact (if_neg (by decide)).trans (if_pos rfl)

theorem advance_name (found : tree.at? here = some (.directory info entries)) (ne_nil : segment ≠ [])
    (ne_dot : segment ≠ Path.dot) (ne_dotDot : segment ≠ Path.dotDot) :
    tree.advance here segment =
      ((Node.directory info entries).child? segment).map fun _ => here ++ [segment] := by
  rw [advance, found]
  exact (if_neg (not_or.mpr ⟨ne_nil, ne_dot⟩)).trans (if_neg ne_dotDot)

/-- What a segment leads to from a place in a directory: the place itself, the one above, or an entry. -/
inductive Advances (tree : Node) (here : Location) : Bytes → Location → Prop where
  | stays {info : DirectoryInfo} {entries : List (Bytes × Node)} {segment : Bytes}
      (found : tree.at? here = some (.directory info entries)) (stays : segment = [] ∨ segment = Path.dot) :
      Advances tree here segment here
  | up {info : DirectoryInfo} {entries : List (Bytes × Node)}
      (found : tree.at? here = some (.directory info entries)) :
      Advances tree here Path.dotDot here.dropLast
  | down {info : DirectoryInfo} {entries : List (Bytes × Node)} {name : Bytes} {child : Node}
      (found : tree.at? here = some (.directory info entries)) (ne_nil : name ≠ []) (ne_dot : name ≠ Path.dot)
      (ne_dotDot : name ≠ Path.dotDot) (isChild : (Node.directory info entries).child? name = some child) :
      Advances tree here name (here ++ [name])

theorem advances_of_advance {next : Location} (advance : tree.advance here segment = some next) :
    Advances tree here segment next := by
  unfold Node.advance at advance
  split at advance
  · next info entries found =>
    split at advance
    · next stays =>
      cases advance
      exact .stays found stays
    · next goes =>
      obtain ⟨ne_nil, ne_dot⟩ := not_or.mp goes
      split at advance
      · next isUp =>
        cases advance
        exact isUp ▸ .up found
      · next ne_dotDot =>
        obtain ⟨child, isChild, rfl⟩ := Option.map_eq_some_iff.mp advance
        exact .down found ne_nil ne_dot ne_dotDot isChild
  · cases advance

end Advance

theorem lookup_append (tree : Node) (here : Location) (front behind : List Bytes) :
    tree.lookup here (front ++ behind) = (tree.lookup here front).bind fun middle => tree.lookup middle behind := by
  induction front generalizing here with
  | nil => rfl
  | cons segment rest ih =>
      rw [List.cons_append, lookup, lookup, Option.bind_assoc]
      simp only [ih]

/-- The names of a place lead to it. -/
theorem lookup_names {names : List Bytes} (isNames : ∀ name ∈ names, Path.IsName name)
    (found : tree.at? (here ++ names) = some below) : tree.lookup here names = some (here ++ names) := by
  induction names generalizing here with
  | nil => rw [lookup, List.append_nil]
  | cons name rest ih =>
      obtain ⟨isName, others⟩ := List.forall_mem_cons.mp isNames
      rw [List.append_cons] at found ⊢
      obtain ⟨child, isThere⟩ : ∃ child, tree.at? (here ++ [name]) = some child := by
        rw [Node.at?_append] at found
        obtain ⟨child, isThere, -⟩ := Option.bind_eq_some_iff.mp found
        exact ⟨child, isThere⟩
      obtain ⟨info, entries, directory, isChild⟩ := @FileSystem.directory_of_below { root := tree } _ _ _ isThere
      rw [lookup, advance_name directory isName.ne_nil isName.ne_dot isName.ne_dotDot, isChild, Option.map_some,
        Option.bind_some, ih others found]

section Beneath

variable {top : Node} {root : Location}

/-- A place of the tree at `root` is looked from as one of the whole tree, unless that leads above the root. -/
theorem advance_beneath (found : top.at? root = some tree) (inside : segment = Path.dotDot → here ≠ []) :
    top.advance (root ++ here) segment = (tree.advance here segment).map (root ++ ·) := by
  have same : top.at? (root ++ here) = tree.at? here := by rw [Node.at?_append, found, Option.bind_some]
  unfold advance
  rw [same]
  split
  · next info entries _ =>
    by_cases stays : segment = [] ∨ segment = Path.dot
    · rw [if_pos stays, if_pos stays, Option.map_some]
    · rw [if_neg stays, if_neg stays]
      by_cases isUp : segment = Path.dotDot
      · rw [if_pos isUp, if_pos isUp, Option.map_some, List.dropLast_append_of_ne_nil (inside isUp)]
      · rw [if_neg isUp, if_neg isUp, Option.map_map]
        simp only [Function.comp_def, List.append_assoc]
  · rfl

theorem lookup_beneath {segments : List Bytes} (found : top.at? root = some tree)
    (below : Path.staysBelow here.length segments = true) :
    top.lookup (root ++ here) segments = (tree.lookup here segments).map (root ++ ·) := by
  induction segments generalizing here with
  | nil => rfl
  | cons segment rest ih =>
      have inside : segment = Path.dotDot → here ≠ [] := by
        rintro rfl rfl
        cases below
      rw [lookup, lookup, advance_beneath found inside]
      cases advance : tree.advance here segment with
      | none => rfl
      | some next =>
          refine ih ?_
          rw [Path.staysBelow] at below
          cases advances_of_advance advance with
          | stays _ stays => rwa [if_pos stays] at below
          | up =>
              rw [if_neg (by decide), if_pos rfl, Bool.and_eq_true] at below
              rw [List.length_dropLast]
              exact below.2
          | down _ ne_nil ne_dot ne_dotDot =>
              rw [if_neg (not_or.mpr ⟨ne_nil, ne_dot⟩), if_neg ne_dotDot] at below
              rw [List.length_append]
              exact below

theorem lookup_root_beneath {segments : List Bytes} (found : top.at? root = some tree)
    (below : Path.staysBelow 0 segments = true) :
    top.lookup root segments = (tree.lookup [] segments).map (root ++ ·) := by
  have beneath : top.lookup (root ++ []) segments = (tree.lookup [] segments).map (root ++ ·) :=
    lookup_beneath found below
  rwa [List.append_nil] at beneath

end Beneath

end Node

namespace FileSystem

variable {reading : Reading} {fs : FileSystem} {links left : Nat} {here place : Location}
  {segments rest : List Bytes}

theorem settled_of_linkFree {node : Node} (proper : fs.root.Proper) (linkFree : fs.root.LinkFree)
    (found : fs.at? place = some node) : fs.Settled place where
  names name member := (proper.names found name member).toIsName
  nodes above isAbove := by
    obtain ⟨beneath, rfl⟩ := isAbove
    change fs.root.at? (above ++ beneath) = some node at found
    rw [Node.at?_append] at found
    obtain ⟨node, isThere, -⟩ := Option.bind_eq_some_iff.mp found
    exact ⟨node, isThere, (linkFree.at? isThere).isLink⟩

/-- In a tree without links a walk comes to where plain lookup does. -/
theorem Walks.lookup (linkFree : fs.root.LinkFree) (walks : Walks reading fs links here segments left place) :
    fs.root.lookup here segments = some place := by
  induction walks with
  | done => rfl
  | blank found _ ih => rw [Node.lookup, Node.advance_stays found (.inl rfl), Option.bind_some, ih]
  | dot found _ _ ih => rw [Node.lookup, Node.advance_stays found (.inr rfl), Option.bind_some, ih]
  | dotDot found _ _ ih => rw [Node.lookup, Node.advance_dotDot found, Option.bind_some, ih]
  | link found asks child =>
      cases (linkFree.at? ((at?_concat found _).trans child)).isLink
  | down found asks child _ _ _ ih =>
      rw [Node.lookup, Node.advance_name found asks.ne_nil asks.ne_dot asks.ne_dotDot, child, Option.map_some,
        Option.bind_some, ih]

/-- Where plain lookup comes to a place, a walk does, and goes on from there, unless places on the way are spelled
too long for it. -/
theorem Walks.of_lookup (proper : fs.root.Proper) (linkFree : fs.root.LinkFree) (privileged : fs.privileged = true)
    {middle : Location} (leads : fs.root.lookup here segments = some middle)
    (near : reading = .spelling → ∀ passed, passed <+: segments →
      ∀ above, fs.root.lookup here passed = some above → isTooFar above 1 = false)
    (onward : Walks reading fs links middle rest left place) :
    Walks reading fs links here (segments ++ rest) left place := by
  have passable : ∀ info, ¬ (reading = .going ∧ fs.maySearch info = false) := by
    simp [maySearch, privileged]
  induction segments generalizing here with
  | nil =>
      cases leads
      exact onward
  | cons segment more ih =>
      rw [Node.lookup] at leads
      obtain ⟨next, advance, leads⟩ := Option.bind_eq_some_iff.mp leads
      have near' : reading = .spelling → ∀ passed, passed <+: more →
          ∀ above, fs.root.lookup next passed = some above → isTooFar above 1 = false := by
        intro spelling passed isPrefix above reached
        refine near spelling (segment :: passed) (List.cons_prefix_cons.mpr ⟨rfl, isPrefix⟩) above ?_
        rw [Node.lookup, advance, Option.bind_some, reached]
      have later := ih leads near'
      cases Node.advances_of_advance advance with
      | stays found stays =>
          rcases stays with rfl | rfl
          · exact .blank found later
          · exact .dot found (passable _) later
      | up found => exact .dotDot found (passable _) later
      | down found ne_nil ne_dot ne_dotDot isChild =>
          have isThere := (at?_concat found segment).trans isChild
          have isName := proper.names isThere segment (by simp)
          have notFar : reading = .spelling → isTooFar (here ++ [segment]) 1 = false := fun spelling =>
            near' spelling [] List.nil_prefix _ rfl
          refine .down found ⟨ne_nil, ne_dot, ne_dotDot, ?_, by simp [maySearch, privileged], ?_⟩ isChild
            (linkFree.at? isThere).isLink ?_ later
          · rintro ⟨spelling, tooFar⟩
            rw [near_zero (notFar spelling)] at tooFar
            cases tooFar
          · exact Nat.not_lt.mpr isName.short
          · rintro ⟨spelling, -, tooFar⟩
            rw [notFar spelling] at tooFar
            cases tooFar

end FileSystem

end Docroot
