import Docroot.Proofs.FileSystem.Lookup
import Docroot.Proofs.Site.Links

/-!
Resolution is plain lookup. In a tree without links, for a server above all permissions, what a request leads to
is found by looking up its segments from the root down, one after the other.
-/
namespace Docroot

namespace FileSystem

/-- Where a path leads. Spelled out, this is `canonicalize`; gone in one go, it is that without a limit on how
long spellings are. -/
def follow (reading : Reading) (fs : FileSystem) (path : Bytes) : Except IoError Location :=
  if 0 ∈ path then .error .zeroInPath
  else if path = [] then .error (.system .notFound)
  else walkWith reading fs maxLinks [] (Path.pieces path)

theorem follow_spelling (fs : FileSystem) : fs.follow .spelling = fs.canonicalize := rfl

section Beneath

variable {reading : Reading} {fs : FileSystem} {root place : Location} {tree : Node} {segments : List Bytes}
  (proper : fs.root.Proper) (linkFree : fs.root.LinkFree) (found : fs.at? root = some tree)
  (isDirectory : tree.isDirectory = true)

include proper linkFree found isDirectory

theorem root_is_directory : ∃ info entries, fs.at? [] = some (.directory info entries) := by
  cases tree with
  | directory info entries => exact (settled_of_linkFree proper linkFree found).root_directory found
  | _ => cases isDirectory

/-- From the spelling of a directory on, segments are looked up from that directory. -/
theorem lookup_from_root (below : Path.staysBelow 0 segments = true) :
    fs.root.lookup [] ([] :: root ++ segments) = (tree.lookup [] segments).map (root ++ ·) := by
  obtain ⟨info, entries, directory⟩ := root_is_directory proper linkFree found isDirectory
  have toRoot : fs.root.lookup [] root = some root :=
    Node.lookup_names (settled_of_linkFree proper linkFree found).names found
  rw [List.cons_append, Node.lookup, Node.advance_stays directory (.inl rfl), Option.bind_some, Node.lookup_append,
    toRoot, Option.bind_some, Node.lookup_root_beneath found below]

theorem walks_from_root_beneath (privileged : fs.privileged = true) (below : Path.staysBelow 0 segments = true)
    (near : reading = .spelling → ∀ passed, passed <+: segments →
      ∀ place, tree.lookup [] passed = some place → isTooFar (root ++ place) 1 = false)
    (looked : tree.lookup [] segments = some place) (links : Nat) :
    Walks reading fs links [] ([] :: root ++ segments) links (root ++ place) := by
  obtain ⟨info, entries, directory⟩ := root_is_directory proper linkFree found isDirectory
  have settled := settled_of_linkFree proper linkFree found
  have leads : fs.root.lookup root segments = some (root ++ place) := by
    rw [Node.lookup_root_beneath found below, looked, Option.map_some]
  have onward : Walks reading fs links root (segments ++ []) links (root ++ place) := by
    refine Walks.of_lookup proper linkFree privileged leads ?_ .done
    intro spelling passed isPrefix above reached
    rw [Node.lookup_root_beneath found (Path.staysBelow_prefix isPrefix below)] at reached
    obtain ⟨place, looked, rfl⟩ := Option.map_eq_some_iff.mp reached
    exact near spelling passed isPrefix place looked
  rw [List.append_nil] at onward
  refine .blank directory (Walks.of_lookup proper linkFree privileged (Node.lookup_names settled.names found) ?_ onward)
  -- What is above the root is spelled in no more octets than the root.
  intro spelling passed isPrefix above reached
  obtain ⟨node, isThere, -⟩ := settled.nodes passed isPrefix
  have isNames := fun name member => settled.names name (isPrefix.subset member)
  have same : fs.root.lookup [] passed = some passed := Node.lookup_names isNames isThere
  cases reached.symm.trans same
  have nearRoot := near spelling [] List.nil_prefix [] rfl
  rw [List.append_nil] at nearRoot
  exact near_front isPrefix nearRoot

/-- What is joined to the spelling of a directory leads to where it is looked up from there. -/
theorem follow_join {rest : Bytes} (privileged : fs.privileged = true) (noZero : 0 ∉ rest)
    (below : Path.staysBelow 0 (Path.pieces rest) = true)
    (near : reading = .spelling → ∀ passed, passed <+: Path.pieces rest →
      ∀ place, tree.lookup [] passed = some place → isTooFar (root ++ place) 1 = false) :
    (fs.follow reading (Path.join root.path rest)).toOption =
      (tree.lookup [] (Path.pieces rest)).map (root ++ ·) := by
  have names := proper.names found
  have noZeroRoot : 0 ∉ root.path := Location.not_mem_path (by decide) fun name member => (names name member).no_zero
  have noZero' : 0 ∉ Path.join root.path rest := by
    rw [Path.mem_join (by decide)]
    exact not_or.mpr ⟨noZeroRoot, noZero⟩
  have ne_nil := Path.join_ne_nil (List.ne_nil_of_length_pos (Location.length_path_pos root)) rest
  rw [follow, if_neg noZero', if_neg ne_nil, Path.pieces_join fun name member => (names name member).toIsName]
  cases looked : tree.lookup [] (Path.pieces rest) with
  | some place =>
      rw [(walks_from_root_beneath proper linkFree found isDirectory privileged below near looked maxLinks).arrives]
      rfl
  | none =>
      cases walked : walkWith reading fs maxLinks [] ([] :: root ++ Path.pieces rest) with
      | error e => rfl
      | ok place =>
          obtain ⟨left, walks⟩ := walks_of_walkWith walked
          have reached := walks.lookup linkFree
          rw [lookup_from_root proper linkFree found isDirectory below, looked] at reached
          cases reached

end Beneath

end FileSystem

namespace Target

/-- `resolve` with any way to find where a path leads. -/
def resolveBy (find : Bytes → Except IoError Location) (fs : FileSystem) (root : Location) (path : Bytes) :
    Except TargetError Target :=
  match decode? path with
  | none => .error .notFound
  | some decoded =>
    match find (Path.join root.path (decoded.dropWhile (· == Path.separator))) with
    | .error _ => .error .notFound
    | .ok location => if Path.isWithin root location then offer fs location else .error .forbidden

theorem resolveBy_canonicalize (fs : FileSystem) : resolveBy fs.canonicalize fs = resolve fs := rfl

/-- The segments of a request: it is decoded, freed of slashes in front, and cut at the others. -/
def segments (request : Bytes) : List Bytes :=
  Path.pieces ((Percent.decode request).dropWhile (· == Path.separator))

/-- What segments lead to by plain lookup in the tree at `root`. -/
def lookUp (fs : FileSystem) (root : Location) (tree : Node) (segments : List Bytes) : Except TargetError Target :=
  match tree.lookup [] segments with
  | none => .error .notFound
  | some place =>
    match tree.at? place with
    | some (.directory ..) => .ok (.directory (root ++ place))
    | some (.file number) => .ok (.file (root ++ place) { number } (fs.data number).content.length)
    | some _ => .error .forbidden
    | none => .error .notFound

variable {fs : FileSystem} {root : Location} {tree : Node} {request : Bytes}

/-- A place of the tree at `root` offers what the node there is. -/
theorem offer_beneath (privileged : fs.privileged = true) (found : fs.at? root = some tree) (place : Location) :
    offer fs (root ++ place) =
      match tree.at? place with
      | some (.directory ..) => .ok (.directory (root ++ place))
      | some (.file number) => .ok (.file (root ++ place) { number } (fs.data number).content.length)
      | some _ => .error .forbidden
      | none => .error .notFound := by
  have same : fs.at? (root ++ place) = tree.at? place := by
    change fs.root.at? root = some tree at found
    change fs.root.at? (root ++ place) = _
    rw [Node.at?_append, found, Option.bind_some]
  rw [offer, Handle.openAt, same]
  cases tree.at? place with
  | none => rfl
  | some node =>
      cases node with
      | file number => simp [FileSystem.mayOpen, privileged, Handle.length]
      | _ => rfl

theorem resolveBy_eq_lookUp {find : Bytes → Except IoError Location} (privileged : fs.privileged = true)
    (found : fs.at? root = some tree) (text : Utf8.WellFormed (Percent.decode request))
    (noZero : 0 ∉ Percent.decode request)
    (finds : (find (Path.join root.path ((Percent.decode request).dropWhile (· == Path.separator)))).toOption =
      (tree.lookup [] (segments request)).map (root ++ ·)) :
    resolveBy find fs root request = lookUp fs root tree (segments request) := by
  have isText : decode? request = some (Percent.decode request) := decode?_eq_some_iff.mpr ⟨rfl, text, noZero⟩
  unfold resolveBy lookUp
  rw [isText]
  dsimp only
  generalize find (Path.join root.path _) = outcome at finds ⊢
  generalize tree.lookup [] (segments request) = looked at finds ⊢
  cases outcome with
  | error e =>
      cases looked with
      | none => rfl
      | some place => cases finds
  | ok location =>
      cases looked with
      | none => cases finds
      | some place =>
          cases finds
          exact (if_pos (List.isPrefixOf_iff_prefix.mpr (List.prefix_append _ _))).trans
            (offer_beneath privileged found place)

/-- In a tree without links, for a server above all permissions, resolution from any directory agrees with plain
lookup of the segments of the request in the tree there, if they do not climb above it: with a `canonicalize` that
has no limit on how long spellings are, and with that of the system as long as no place that is passed is spelled
too long. What is found is there, and a file is given with its length and content. -/
theorem resolve_agrees_with_lookup (proper : fs.root.Proper) (linkFree : fs.root.LinkFree)
    (privileged : fs.privileged = true) (found : fs.at? root = some tree) (isDirectory : tree.isDirectory = true)
    (text : Utf8.WellFormed (Percent.decode request)) (noZero : 0 ∉ Percent.decode request)
    (below : Path.staysBelow 0 (segments request) = true) :
    resolveBy (fs.follow .going) fs root request = lookUp fs root tree (segments request) ∧
      ((∀ passed, passed <+: segments request → ∀ place, tree.lookup [] passed = some place →
          FileSystem.isTooFar (root ++ place) 1 = false) →
        resolve fs root request = lookUp fs root tree (segments request)) ∧
      ∀ target, lookUp fs root tree (segments request) = .ok target →
        root <+: target.location ∧ target.Genuine fs := by
  have noZero' : 0 ∉ (Percent.decode request).dropWhile (· == Path.separator) := fun inside =>
    noZero ((List.dropWhile_suffix _).subset inside)
  have freely : resolveBy (fs.follow .going) fs root request = lookUp fs root tree (segments request) :=
    resolveBy_eq_lookUp privileged found text noZero
      (FileSystem.follow_join proper linkFree found isDirectory privileged noZero' below nofun)
  refine ⟨freely, ?_, ?_⟩
  · intro near
    rw [← resolveBy_canonicalize, ← FileSystem.follow_spelling]
    exact resolveBy_eq_lookUp privileged found text noZero
      (FileSystem.follow_join proper linkFree found isDirectory privileged noZero' below fun _ => near)
  · intro target looked
    unfold lookUp at looked
    split at looked
    · cases looked
    · next place _ =>
      rw [← offer_beneath privileged found place] at looked
      obtain ⟨isPlace, genuine⟩ := offer_genuine looked
      exact ⟨isPlace ▸ List.prefix_append root place, genuine⟩

/-- A site with a file in a directory, beside a pipe. -/
def siteTree : Node :=
  .directory {} [(utf8 "d", .directory {} [(utf8 "f", .file 0)]), (utf8 "p", .special ⟨0, 0⟩ .pipe)]

def treeOfSite : FileSystem where
  root := .directory {} [(utf8 "srv", siteTree)]
  files := [{ content := utf8 "hi" }]

def dottedRequest : Bytes := utf8 "//d/.././/d/%66"

theorem resolve_agrees_over_dots :
    resolve treeOfSite [utf8 "srv"] dottedRequest =
      .ok (.file [utf8 "srv", utf8 "d", utf8 "f"] { number := 0 } 2) := by
  have proper : treeOfSite.root.Proper := by
    refine .directory (by decide +kernel) (by decide +kernel) (List.forall_mem_singleton.mpr ?_)
    refine .directory (by decide +kernel) (by decide +kernel) ?_
    simp only [List.forall_mem_cons]
    refine ⟨.directory (by decide +kernel) (by decide +kernel) ?_, .special _ _, nofun⟩
    exact List.forall_mem_singleton.mpr (.file 0)
  have linkFree : treeOfSite.root.LinkFree := by
    refine .directory (List.forall_mem_singleton.mpr (.directory ?_))
    simp only [List.forall_mem_cons]
    exact ⟨.directory (List.forall_mem_singleton.mpr (.file 0)), .special _ _, nofun⟩
  have found : treeOfSite.at? [utf8 "srv"] = some siteTree := rfl
  have decoded : Percent.decode dottedRequest = utf8 "//d/.././/d/f" := by cbv
  have text : Utf8.WellFormed (Percent.decode dottedRequest) := decoded ▸ .of_ascii (by decide +kernel)
  have noZero : 0 ∉ Percent.decode dottedRequest := decoded ▸ by decide +kernel
  have cut : segments dottedRequest = [utf8 "d", utf8 "..", utf8 ".", [], utf8 "d", utf8 "f"] := by
    unfold segments
    rw [decoded]
    cbv
  have below : Path.staysBelow 0 (segments dottedRequest) = true := cut ▸ by decide +kernel
  have near : ∀ passed ∈ (segments dottedRequest).inits,
      ∀ place ∈ siteTree.lookup [] passed, FileSystem.isTooFar ([utf8 "srv"] ++ place) 1 = false := by
    rw [cut]
    decide +kernel
  have agrees := (resolve_agrees_with_lookup proper linkFree rfl found rfl text noZero below).2.1
  rw [agrees fun passed isPrefix place looked => near passed ((List.mem_inits _ _).mpr isPrefix) place looked, cut]
  decide +kernel

end Target

end Docroot
