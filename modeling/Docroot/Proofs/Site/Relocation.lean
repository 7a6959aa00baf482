import Docroot.Proofs.FileSystem.Relocation
import Docroot.Proofs.Site.Lookup
import Docroot.Proofs.Site.Twins

/-!
One site at two places. Requests that do not climb above the root find the same in both trees, and pages and content
types tell nothing of where the root lies. Only the order in which a directory holds names that are shown alike is
seen in its page.
-/
namespace Docroot

/-- The type of a file is judged by its name. -/
theorem MediaType.lastComponent_path {place : Location} (names : ∀ name ∈ place, Path.IsName name) :
    lastComponent place.path = place.getLast?.getD [] := by
  have parts := Location.components_path names
  unfold Path.components at parts
  rw [if_pos (Location.isAbsolute_path place)] at parts
  exact congrArg (fun kept => kept.getLast?.getD []) (List.cons.inj parts).2

theorem MediaType.ofPath_beneath {root root' place : Location} (ne_nil : place ≠ [])
    (names : ∀ name ∈ root ++ place, Path.IsName name) (names' : ∀ name ∈ root' ++ place, Path.IsName name) :
    ofPath (root ++ place).path = ofPath (root' ++ place).path := by
  have last : ∀ root : Location, (root ++ place).getLast? = place.getLast? := by
    intro root
    rw [List.getLast?_append, List.getLast?_eq_some_getLast ne_nil, Option.some_or]
  unfold ofPath extension?
  rw [lastComponent_path names, lastComponent_path names', last, last]

section Copies

variable {bodies : Bytes → Bytes → Prop} {fs fs' : FileSystem} {root root' place : Location}

/-- Wherever both copies have a directory to which one can come, their listings are alike. -/
def FileSystem.ListedBeneath (bodies : Bytes → Bytes → Prop) (fs fs' : FileSystem) (root root' : Location) : Prop :=
  ∀ place info entries, fs.Accessible (root ++ place) → fs'.Accessible (root' ++ place) →
    fs.at? (root ++ place) = some (.directory info entries) → ∀ path limit,
      Listing.Alike bodies (Listing.ofPath fs (root ++ place).path path limit)
        (Listing.ofPath fs' (root' ++ place).path path limit)

/-- Where names are shown alike, the directories of both copies hold them in one order. -/
def FileSystem.HeldInOneOrder (fs fs' : FileSystem) (root root' : Location) : Prop :=
  ∀ place info info' entries entries', fs.at? (root ++ place) = some (.directory info entries) →
    fs'.at? (root' ++ place) = some (.directory info' entries') →
    Listing.inShownOrder (entries.map Prod.fst) = Listing.inShownOrder (entries'.map Prod.fst)

theorem FileSystem.HeldInOneOrder.of_flat {info info' : DirectoryInfo} {entries entries' : List (Bytes × Node)}
    (flat : Flat entries) (flat' : Flat entries') (found : fs.at? root = some (.directory info entries))
    (found' : fs'.at? root' = some (.directory info' entries'))
    (order : Listing.inShownOrder (entries.map Prod.fst) = Listing.inShownOrder (entries'.map Prod.fst)) :
    fs.HeldInOneOrder fs' root root' := by
  intro place below below' others others' isThere isThere'
  cases place with
  | nil =>
      rw [List.append_nil] at isThere isThere'
      cases found.symm.trans isThere
      cases found'.symm.trans isThere'
      exact order
  | cons name rest => rw [entries_nil_of_flat flat found isThere, entries_nil_of_flat flat' found' isThere']

namespace FileSystem.Copies

section Listed

variable (copies : fs.Copies fs' root root') (grounded : fs.Grounded root) (grounded' : fs'.Grounded root')
  (accessible : fs.Accessible (root ++ place)) (accessible' : fs'.Accessible (root' ++ place))
  {info : DirectoryInfo} {size : Nat} {entries entries' : List (Bytes × Node)}
  (found : fs.at? (root ++ place) = some (.directory info entries))
  (found' : fs'.at? (root' ++ place) = some (.directory { info with size } entries'))

include copies grounded grounded' accessible accessible' found found'

/-- The names that the one copy holds have rows that show the same in both. -/
theorem rows_shown :
    ((Listing.inShownOrder (entries.map Prod.fst)).map (Listing.entryAt fs (root ++ place))).map Listing.shown =
      ((Listing.inShownOrder (entries.map Prod.fst)).map (Listing.entryAt fs' (root' ++ place))).map Listing.shown := by
  rw [List.map_map, List.map_map]
  refine List.map_congr_left fun name member => ?_
  obtain ⟨node, isChild⟩ := Node.exists_child (List.mem_mergeSort.mp member)
  have isThere : fs.at? (root ++ (place ++ [name])) = some node := by
    rw [← List.append_assoc, at?_concat found, isChild]
  exact Listing.entry_shown
    (copies.targetAt_shown grounded grounded' accessible accessible' found found' isThere)
    (copies.itselfAt_shown grounded grounded' accessible accessible' found found' isThere) name

/-- The listings of copies of a directory are alike where the pages of its rows are. -/
theorem ofPath_alike (perm : (entries.map Prod.fst).Perm (entries'.map Prod.fst)) (requestPath : Bytes)
    (alike : ∀ {rows rows' : List Entry},
      rows = (Listing.inShownOrder (entries.map Prod.fst)).map (Listing.entryAt fs (root ++ place)) →
      rows' = (Listing.inShownOrder (entries'.map Prod.fst)).map (Listing.entryAt fs' (root' ++ place)) →
      (rows.map Listing.shown).Perm (rows'.map Listing.shown) →
      bodies (Listing.page rows requestPath) (Listing.page rows' requestPath)) (limit : Nat) :
    Listing.Alike bodies (Listing.ofPath fs (root ++ place).path requestPath limit)
      (Listing.ofPath fs' (root' ++ place).path requestPath limit) := by
  have listed := Listing.entries_of_reach (reach_accessible accessible found)
  have listed' := Listing.entries_of_reach (reach_accessible accessible' found')
  rw [entryNames_of_directory found] at listed
  rw [entryNames_of_directory found', copies.mayList] at listed'
  cases readable : fs.mayList info with
  | false =>
      rw [readable] at listed listed'
      rw [Listing.ofPath, Listing.ofPath, listed, listed']
      exact .error _
  | true =>
      rw [readable] at listed listed'
      rw [Listing.ofPath_of_entries listed, Listing.ofPath_of_entries listed']
      have rows := copies.rows_shown grounded grounded' accessible accessible' found found'
      have shows := (List.Perm.of_eq rows).trans
        (((Listing.perm_inShownOrder perm).map (Listing.entryAt fs' (root' ++ place))).map Listing.shown)
      have length := Listing.length_page_of_perm shows requestPath
      have pages := alike rfl rfl shows
      rw [Listing.render_eq, Listing.render_eq, length]
      split
      · exact .page pages length
      · exact .error _

end Listed

/-- Pages of copies differ at most in the order of rows for names that are shown alike. -/
theorem listed_sameRows (copies : fs.Copies fs' root root') (grounded : fs.Grounded root)
    (grounded' : fs'.Grounded root') : fs.ListedBeneath Listing.SameRows fs' root root' := by
  intro place info entries accessible accessible' found path
  obtain ⟨size, entries', found', perm⟩ := copies.directory found
  refine copies.ofPath_alike grounded grounded' accessible accessible' found found' perm path ?_
  rintro _ _ rfl rfl shows
  refine .page path shows ?_
  rw [List.map_map, List.map_map]
  have named : ∀ (fs : FileSystem) place, Entry.name ∘ Listing.entryAt fs place = Utf8.repair :=
    fun fs place => funext fun name => Listing.entry_name name _ _
  rw [named, named]
  exact Listing.map_repair_inShownOrder perm

/-- Where the order is the same, so are the pages. -/
theorem listed_eq (copies : fs.Copies fs' root root') (grounded : fs.Grounded root) (grounded' : fs'.Grounded root')
    (order : fs.HeldInOneOrder fs' root root') : fs.ListedBeneath Eq fs' root root' := by
  intro place info entries accessible accessible' found path
  obtain ⟨size, entries', found', perm⟩ := copies.directory found
  refine copies.ofPath_alike grounded grounded' accessible accessible' found found' perm path ?_
  rintro _ _ rfl rfl -
  refine Listing.page_eq_of_shown ?_ path
  rw [← order place _ _ _ _ found found']
  exact copies.rows_shown grounded grounded' accessible accessible' found found'

end FileSystem.Copies

/-- A place beneath the one root offers what it offers beneath the other. -/
theorem Target.offer_relocated (copies : fs.Copies fs' root root') (grounded : fs.Grounded root)
    (listed : fs.ListedBeneath bodies fs' root root')
    (accessible : fs.Accessible (root ++ place)) (accessible' : fs'.Accessible (root' ++ place)) :
    Target.Alike bodies fs fs' (offer fs (root ++ place)) (offer fs' (root' ++ place)) := by
  obtain ⟨node, found, -⟩ := accessible.settled.nodes _ List.prefix_rfl
  obtain ⟨node', found', copy⟩ := copies.at?_some found
  unfold offer
  rw [found, found']
  cases copy with
  | directory => exact .directory (listed place _ _ accessible accessible' found)
  | special => exact .error _
  | @file number number' data =>
      have opens : fs'.mayOpen number' = fs.mayOpen number := by
        rw [FileSystem.mayOpen, FileSystem.mayOpen, copies.privileged, data]
      have ne_nil : place ≠ [] := by
        rintro rfl
        obtain ⟨info, entries, directory⟩ := grounded.directory
        rw [List.append_nil, directory] at found
        cases found
      have type := MediaType.ofPath_beneath ne_nil (fun name member => (accessible.names name member).toIsName)
        fun name member => (accessible'.names name member).toIsName
      have length : Handle.length fs' { number := number' } = Handle.length fs { number } :=
        congrArg (List.length ∘ FileData.content) data.symm
      simp only [Handle.openAt, found, found', opens]
      cases fs.mayOpen number with
      | false => exact .error _
      | true =>
          rw [if_pos rfl, if_pos rfl]
          dsimp only
          rw [length]
          exact .file _ type ⟨data, rfl, rfl⟩

/-- A request that does not climb above the root finds the same at both places. -/
theorem Target.resolve_relocated (copies : fs.Copies fs' root root') (grounded : fs.Grounded root)
    (grounded' : fs'.Grounded root') (listed : fs.ListedBeneath bodies fs' root root') {request : Bytes}
    (below : Path.staysBelow 0 (segments request) = true) :
    Target.Alike bodies fs fs' (resolve fs root request) (resolve fs' root' request) := by
  unfold resolve
  cases isText : decode? request with
  | none => exact .error _
  | some decoded =>
      obtain ⟨rfl, -, noZero⟩ := decode?_eq_some_iff.mp isText
      have noZero' : 0 ∉ (Percent.decode request).dropWhile (· == Path.separator) := fun inside =>
        noZero ((List.dropWhile_suffix _).subset inside)
      have arrives := copies.canonicalize_arrives grounded grounded' noZero' below
      dsimp only
      generalize arrived : fs.canonicalize _ = ending, arrived' : fs'.canonicalize _ = ending' at arrives
      cases arrives with
      | nowhere => exact .error _
      | beneath place =>
          have within : ∀ root : Location, Path.isWithin root (root ++ place) = true := fun root =>
            List.isPrefixOf_iff_prefix.mpr (List.prefix_append root place)
          dsimp only
          rw [if_pos (within root), if_pos (within root')]
          exact offer_relocated copies grounded listed (grounded.beneath arrived) (grounded'.beneath arrived')

end Copies

/-- The directory that a site was made for is one to which the user can come. -/
theorem Site.grounded_of_ofRoot {fs : FileSystem} {spelling : Bytes} {limit : Nat} {site : Site}
    (served : Site.ofRoot fs spelling limit = .ok site) (proper : fs.root.Proper) (near : fs.Near site.root) :
    fs.Grounded site.root ∧ site.server = serverName ∧ site.listingLimit = limit := by
  unfold ofRoot at served
  split at served
  · next root accepted =>
    cases served
    obtain ⟨settled, info, entries, found⟩ := canonicalRoot_settled accepted
    have passable := FileSystem.canonicalize_passable (canonicalRoot_arrives accepted)
    have isNear := near [] _ ((List.append_nil root).symm ▸ found)
    rw [List.append_nil] at isNear
    exact ⟨⟨proper, near, ⟨settled, passable, proper.names found, isNear⟩, info, entries, found⟩, rfl, rfl⟩
  · cases served

end Docroot
