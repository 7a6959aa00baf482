import Docroot.Proofs.Site.SameHost

/-!
The way up. A page that is reached from the top of a site by links of directories has the link that leads there as its
path, and its link one level up is the path of the page before. So going up retraces the way down, through whatever
links and names it went.
-/
namespace Docroot

/-- A listing that was asked for: the path, the directory it is resolved to and the page that is sent. -/
structure ListedPage where
  path : Bytes
  place : Location
  page : Bytes

/-- The link of the first row that is shown as `..`. -/
def ListedPage.upLink? (here : ListedPage) : Option Bytes :=
  ((Markup.anchors here.page).find? fun anchor => anchor.2 = utf8 "..").map Prod.fst

namespace Site

/-- What a request for a path is answered with, if that is a listing. -/
def pageAt? (site : Site) (fs : FileSystem) (path : Bytes) : Option ListedPage :=
  match site.resolve fs path with
  | .ok (.directory place) =>
    match site.list fs place path with
    | .ok page => some ⟨path, place, page⟩
    | .error _ => none
  | _ => none

def up? (site : Site) (fs : FileSystem) (here : ListedPage) : Option ListedPage := here.upLink?.bind (site.pageAt? fs)

/-- Goes up so many times. -/
def climb? (site : Site) (fs : FileSystem) : Nat → ListedPage → Option ListedPage
  | 0, here => some here
  | steps + 1, here => (site.up? fs here).bind (site.climb? fs steps)

/-- Listings one after the other, the last one in front. The first is that of the path `/`, and each other one was asked
for by the link of a directory on the page before: the text of such a link ends with a slash. -/
inductive Descent (site : Site) (fs : FileSystem) : List ListedPage → Prop where
  | top {here : ListedPage} (asked : site.pageAt? fs [47] = some here) : Descent site fs [here]
  | down {here next : ListedPage} {above : List ListedPage} {link name : Bytes}
      (before : Descent site fs (here :: above))
      (row : (link, name ++ [47]) ∈ (Markup.anchors here.page).tail) (asked : site.pageAt? fs link = some next) :
      Descent site fs (next :: here :: above)

variable {site : Site} {fs : FileSystem} {here : ListedPage} {above : List ListedPage} {path : Bytes}

theorem pageAt?_eq_some_iff :
    site.pageAt? fs path = some here ↔
      here.path = path ∧ site.resolve fs path = .ok (.directory here.place) ∧
        site.list fs here.place path = .ok here.page := by
  unfold pageAt?
  constructor
  · intro asked
    split at asked
    · next place resolved =>
      split at asked
      · next page listed =>
        cases asked
        exact ⟨rfl, resolved, listed⟩
      · cases asked
    · cases asked
  · rintro ⟨rfl, resolved, listed⟩
    rw [resolved]
    dsimp only
    rw [listed]

theorem Descent.asked (descent : Descent site fs (here :: above)) : site.pageAt? fs here.path = some here := by
  cases descent with
  | top asked => rwa [(pageAt?_eq_some_iff.mp asked).1]
  | down _ _ asked => rwa [(pageAt?_eq_some_iff.mp asked).1]

theorem Descent.of_cons {next : ListedPage} (descent : Descent site fs (next :: here :: above)) :
    Descent site fs (here :: above) := by
  cases descent with
  | down before _ _ => exact before

/-- What came before is a way down itself. -/
theorem Descent.before {deeper : List ListedPage} (descent : Descent site fs (deeper ++ here :: above)) :
    Descent site fs (here :: above) := by
  induction deeper with
  | nil => exact descent
  | cons w deeper ih =>
      cases deeper with
      | nil => exact descent.of_cons
      | cons u deeper => exact ih descent.of_cons

end Site

namespace Listing

/-- A path that links are built on as it is. -/
structure IsBase (path : Bytes) : Prop where
  starts : path.head? = some 47
  ends : ∃ front, path = front ++ [47]
  isTarget : IsTarget path

theorem IsBase.top : IsBase [47] := ⟨rfl, ⟨[], rfl⟩, .slash⟩

theorem IsBase.linkBase_eq {path : Bytes} (h : IsBase path) : linkBase path = path := by
  obtain ⟨front, same⟩ := h.ends
  have rooted : rooted path = path := if_pos h.starts
  rw [linkBase_rooted, rooted, if_pos]
  rw [same, List.getLast?_concat]

/-- Without its last segment a path is what that segment was built on. -/
theorem parentOf_segment {segment : Bytes} (isSome : segment ≠ []) (noSlash : 47 ∉ segment) (front : Bytes) :
    parentOf (front ++ [47] ++ (segment ++ [47])) = front ++ [47] := by
  have reversed : (front ++ [47] ++ (segment ++ [47])).reverse = 47 :: (segment.reverse ++ 47 :: front.reverse) := by
    simp
  have inSegment : ∀ b ∈ segment.reverse, b ≠ 47 := fun b member is => noSlash (is ▸ List.mem_reverse.mp member)
  have atSegment : ∀ b ∈ (segment.reverse ++ 47 :: front.reverse).head?, (b == 47) = false := by
    intro b isHead
    rw [List.head?_append_of_ne_nil _ (List.reverse_ne_nil_iff.mpr isSome)] at isHead
    exact beq_eq_false_iff_ne.mpr (inSegment b (List.mem_of_mem_head? isHead))
  have kept : ((front ++ [47] ++ (segment ++ [47])).reverse.dropWhile (· == 47)).dropWhile (· != 47) =
      47 :: front.reverse := by
    rw [reversed, List.dropWhile_cons_of_pos (by rfl), dropWhile_of_head atSegment,
      List.dropWhile_append_of_pos fun b member => bne_iff_ne.mpr (inSegment b member),
      List.dropWhile_cons_of_neg (by simp)]
  rw [parentOf, kept]
  simp

/-- The link of a directory is built on the path of the page with one segment more. -/
theorem link_of_row {fs : FileSystem} {place : Location} {path page link shown : Bytes} {limit : Nat}
    (proper : fs.root.Proper) (settled : fs.Settled place) (listed : ofPath fs place.path path limit = .ok page)
    (row : (link, shown ++ [47]) ∈ (Markup.anchors page).tail) :
    ∃ name, name ≠ [] ∧ link = linkBase path ++ (Percent.encodeSegment name ++ [47]) := by
  obtain ⟨names, sorted, namesOf, perm, anchors⟩ := anchors_ofPath settled listed
  rw [anchors, List.tail_cons, List.mem_map] at row
  obtain ⟨name, inside, same⟩ := row
  have isName := (FileSystem.entryNames_proper proper namesOf).2 name (perm.mem_iff.mp inside)
  obtain ⟨isLink, isShown⟩ := Prod.mk.inj same
  have shownName : (entryAt fs place name).name = Utf8.repair name := entry_name name _ _
  have noSlash : 47 ∉ (entryAt fs place name).name := by
    rw [shownName]
    exact fun inName => isName.one_piece (Utf8.mem_of_mem_repair (by decide) inName)
  have isDirectory : slash (entryAt fs place name) = [47] := by
    unfold slash at isShown ⊢
    split at isShown
    · next directory => rw [if_pos directory]
    · rw [List.append_nil] at isShown
      exact absurd (isShown ▸ List.mem_append_right shown (List.mem_singleton_self 47)) noSlash
  refine ⟨Utf8.repair name, Utf8.repair_ne_nil isName.ne_nil, ?_⟩
  rw [← isLink, Listing.link, isDirectory, shownName, List.append_assoc]

theorem IsBase.segment {path name : Bytes} (h : IsBase path) :
    IsBase (path ++ (Percent.encodeSegment name ++ [47])) where
  starts := by
    obtain ⟨rest, same⟩ := List.head?_eq_some_iff.mp h.starts
    rw [same]
    rfl
  ends := ⟨path ++ Percent.encodeSegment name, (List.append_assoc _ _ _).symm⟩
  isTarget := h.isTarget.append ((isTarget_segment name).append .slash)

theorem IsBase.parentOf_eq {path name : Bytes} (h : IsBase path) (isSome : name ≠ []) :
    parentOf (path ++ (Percent.encodeSegment name ++ [47])) = path := by
  obtain ⟨front, rfl⟩ := h.ends
  refine parentOf_segment ?_ (fun inside => (Percent.safe_encodeSegment inside).2.1 rfl) front
  obtain ⟨b, name, rfl⟩ := List.exists_cons_of_ne_nil isSome
  obtain ⟨x, more, encoded, -⟩ := Percent.encodeOctet_starts b
  rw [Percent.encodeSegment, List.flatMap_cons, encoded]
  exact List.cons_ne_nil _ _

end Listing

namespace Site

variable {site : Site} {fs : FileSystem} {here : ListedPage} {above : List ListedPage} {path : Bytes}

theorem upLink?_eq (asked : site.pageAt? fs path = some here) :
    here.upLink? = some (Listing.parentOf (Listing.linkBase path)) := by
  obtain ⟨-, resolved, listed⟩ := pageAt?_eq_some_iff.mp asked
  obtain ⟨names, sorted, -, -, anchors⟩ := Listing.anchors_ofPath (Target.resolve_ok resolved).1 listed
  rw [ListedPage.upLink?, anchors, List.find?_cons_of_pos (by simp)]
  rfl

/-- The link of a directory on a page, and the page it leads to, whose path it is. -/
theorem asked_by_row {next : ListedPage} {link shown : Bytes} (proper : fs.root.Proper)
    (asked : site.pageAt? fs path = some here)
    (row : (link, shown ++ [47]) ∈ (Markup.anchors here.page).tail) (askedNext : site.pageAt? fs link = some next) :
    ∃ name, name ≠ [] ∧ next.path = Listing.linkBase path ++ (Percent.encodeSegment name ++ [47]) := by
  obtain ⟨-, resolved, listed⟩ := pageAt?_eq_some_iff.mp asked
  rw [(pageAt?_eq_some_iff.mp askedNext).1]
  exact Listing.link_of_row proper (Target.resolve_ok resolved).1 listed row

namespace Descent

/-- Every path on the way is one that links are built on as it is. -/
theorem isBase (proper : fs.root.Proper) {pages : List ListedPage} (descent : Descent site fs pages) :
    ∀ here ∈ pages.head?, Listing.IsBase here.path := by
  induction descent with
  | top asked =>
      rintro here ⟨⟩
      rw [(pageAt?_eq_some_iff.mp asked).1]
      exact .top
  | @down here next above link name before row asked ih =>
      rintro _ ⟨⟩
      have base : Listing.IsBase here.path := ih here rfl
      obtain ⟨name, -, same⟩ := asked_by_row proper before.asked row asked
      rw [same, base.linkBase_eq]
      exact base.segment

theorem upLink?_eq (proper : fs.root.Proper) (descent : Descent site fs (here :: above)) :
    here.upLink? = some ((above.head?.map ListedPage.path).getD [47]) := by
  have base : Listing.IsBase here.path := descent.isBase proper here rfl
  rw [Site.upLink?_eq descent.asked, base.linkBase_eq]
  cases descent with
  | top asked =>
      rw [(pageAt?_eq_some_iff.mp asked).1]
      rfl
  | @down u _ above link name before row asked =>
      have baseAbove : Listing.IsBase u.path := before.isBase proper u rfl
      obtain ⟨name, isSome, same⟩ := asked_by_row proper before.asked row asked
      rw [same, baseAbove.linkBase_eq, baseAbove.parentOf_eq isSome]
      rfl

theorem up?_eq {u : ListedPage} (proper : fs.root.Proper) (descent : Descent site fs (here :: u :: above)) :
    site.up? fs here = some u := by
  rw [up?, descent.upLink?_eq proper]
  exact descent.of_cons.asked

theorem climb?_eq (proper : fs.root.Proper) (descent : Descent site fs (here :: above)) :
    ∀ steps ≤ above.length, site.climb? fs steps here = (here :: above)[steps]? := by
  intro steps within
  induction steps generalizing here above with
  | zero => rfl
  | succ steps ih =>
      obtain ⟨u, above, rfl⟩ := List.exists_cons_of_length_pos (Nat.lt_of_lt_of_le (Nat.succ_pos steps) within)
      rw [climb?, descent.up?_eq proper]
      exact ih descent.of_cons (Nat.le_of_succ_le_succ within)

theorem path_last {pages : List ListedPage} (descent : Descent site fs pages) :
    ∃ first, pages.getLast? = some first ∧ first.path = [47] := by
  induction descent with
  | top asked => exact ⟨_, rfl, (pageAt?_eq_some_iff.mp asked).1⟩
  | down _ _ _ ih =>
      obtain ⟨first, isLast, path⟩ := ih
      exact ⟨first, by rw [List.getLast?_cons_cons, isLast], path⟩

end Descent

section Deeper

open FileSystem Listing

variable {place : Location} {name : Bytes} {info : DirectoryInfo} {entries : List (Bytes × Node)} {rows : List Entry}

theorem pageAt?_of_fits (resolved : site.resolve fs path = .ok (.directory place))
    (listed : Listing.entries fs place.path = .ok rows) (fits : (page rows path).length ≤ site.listingLimit) :
    site.pageAt? fs path = some ⟨path, place, page rows path⟩ := by
  refine pageAt?_eq_some_iff.mpr ⟨rfl, resolved, ?_⟩
  rw [list, ofPath_of_entries listed, render_of_fits fits]

/-- A directory that is itself below another has a row there, and the link of that row is resolved to it. -/
theorem directory_row (proper : fs.root.Proper) (privileged : fs.privileged = true)
    (resolved : site.resolve fs path = .ok (.directory place)) (listed : Listing.entries fs place.path = .ok rows)
    (found : fs.at? (place ++ [name]) = some (.directory info entries)) (isText : Utf8.isValid name = true)
    (near : isTooFar (place ++ [name]) 1 = false) :
    (linkBase path ++ (Percent.encodeSegment name ++ [47]), name ++ [47]) ∈ (Markup.anchors (page rows path)).tail ∧
      site.resolve fs (linkBase path ++ (Percent.encodeSegment name ++ [47])) = .ok (.directory (place ++ [name])) := by
  have settledPlace : fs.Settled place := (Target.resolve_ok resolved).1
  have settled := (settled_entry settledPlace found proper rfl).1
  obtain ⟨names, sorted, namesOf, perm, rfl⟩ := entries_eq settledPlace listed
  refine ⟨?_, ?_⟩
  · rw [anchors_page, List.tail_cons, List.map_map]
    have inside : name ∈ sorted := perm.mem_iff.mpr (mem_entryNames namesOf found)
    exact List.mem_map.mpr ⟨name, inside, anchor_entryAt settled privileged found (near_zero near) isText _⟩
  · obtain ⟨target, leads, isPlace, genuine⟩ :=
      resolve_link proper privileged resolved found rfl (Utf8.isValid_iff.mp isText) near
    cases target with
    | directory location =>
        obtain rfl : location = place ++ [name] := isPlace
        exact leads
    | file location handle length =>
        obtain rfl : location = place ++ [name] := isPlace
        obtain ⟨number, isFile, -⟩ := genuine
        rw [found] at isFile
        cases isFile

/-- The link of a directory on a page leads one step further down, where there is room for its listing. -/
theorem Descent.step {link : Bytes} (proper : fs.root.Proper) (privileged : fs.privileged = true)
    (descent : Descent site fs (here :: above)) (found : fs.at? (here.place ++ [name]) = some (.directory info entries))
    (isText : Utf8.isValid name = true) (near : isTooFar (here.place ++ [name]) 1 = false)
    (isLink : link = linkBase here.path ++ (Percent.encodeSegment name ++ [47]))
    (listed : Listing.entries fs (Location.path (here.place ++ [name])) = .ok rows)
    (fits : (page rows link).length ≤ site.listingLimit) :
    Descent site fs (⟨link, here.place ++ [name], page rows link⟩ :: here :: above) := by
  obtain ⟨-, resolved, listedHere⟩ := pageAt?_eq_some_iff.mp descent.asked
  obtain ⟨rowsHere, listedRows, isPage⟩ := ofPath_ok listedHere
  obtain ⟨row, leads⟩ := directory_row proper privileged resolved listedRows found isText near
  rw [← isPage, ← isLink] at row
  rw [← isLink] at leads
  exact descent.down row (pageAt?_of_fits leads listed fits)

theorem exists_entries (proper : fs.root.Proper) (privileged : fs.privileged = true) (settled : fs.Settled place)
    (found : fs.at? place = some (.directory info entries)) (near : isTooFar place 1 = false) :
    ∃ rows, Listing.entries fs place.path = .ok rows := by
  have namesOf : fs.entryNames place = .ok (entries.map Prod.fst) := by
    rw [entryNames, found]
    exact if_pos (by simp [mayList, privileged])
  rw [entries_of_reach (reach_settled proper privileged settled found near), namesOf]
  exact ⟨_, rfl⟩

end Deeper

/-- Going up retraces the way down. The link one level up of every page on the way is the path of the page before it,
and `/` for the first one; and as many steps as were made down to a page lead from it up, page by page, to the first
one. -/
theorem up_retraces_down {pages : List ListedPage} (proper : fs.root.Proper) (descent : Descent site fs pages) :
    ∀ deeper here above, pages = deeper ++ here :: above →
      here.upLink? = some ((above.head?.map ListedPage.path).getD [47]) ∧ stripQuery here.path = here.path ∧
      (∀ steps ≤ above.length, site.climb? fs steps here = (here :: above)[steps]?) ∧
      ∃ first, site.climb? fs above.length here = some first ∧ first.path = [47] := by
  rintro deeper here above rfl
  have fromHere : Descent site fs (here :: above) := descent.before
  have climbs := fromHere.climb?_eq proper
  obtain ⟨first, isLast, path⟩ := fromHere.path_last
  have base : Listing.IsBase here.path := fromHere.isBase proper here rfl
  refine ⟨fromHere.upLink?_eq proper, base.isTarget.stripQuery_eq, climbs, first, ?_, path⟩
  rw [climbs _ (Nat.le_refl _), ← isLast, List.getLast?_eq_getElem?]
  rfl

/-- A name of which every octet but the last has to be encoded. -/
def oddName : Bytes := utf8 "\"&?\" c"

/-- A directory in a directory. -/
def treeOfTwo : FileSystem where
  root := Listing.nested oddName (.directory {} []) 2

theorem up_retraces_down_twice :
    ∃ (site : Site) (top middle bottom : ListedPage), Descent site treeOfTwo [bottom, middle, top] ∧
      top.path = [47] ∧ middle.upLink? = some top.path ∧ bottom.upLink? = some middle.path ∧
      site.climb? treeOfTwo 2 bottom = some top := by
  have isName : Path.IsEntryName oddName := by decide +kernel
  have isText : Utf8.isValid oddName = true := Utf8.isValid_iff.mpr (.of_ascii (by decide +kernel))
  have empty : (Node.directory {} []).Proper := .directory .nil nofun nofun
  have proper : treeOfTwo.root.Proper := Listing.nested_proper isName empty 2
  have lowest : treeOfTwo.Settled [oddName, oddName] :=
    Listing.nested_settled isName (rfl : (Node.directory {} []).isLink = false)
      (rfl : treeOfTwo.root = Listing.nested oddName (.directory {} []) 2)
  have higher : treeOfTwo.Settled [oddName] := lowest.above (List.prefix_append _ _)
  obtain ⟨nearTop, nearMiddle, nearBottom⟩ : FileSystem.isTooFar [] 1 = false ∧
      FileSystem.isTooFar [oddName] 1 = false ∧ FileSystem.isTooFar [oddName, oddName] 1 = false := by decide +kernel
  have foundBottom : treeOfTwo.at? [oddName, oddName] = some (.directory {} []) :=
    Listing.nested_at? oddName (.directory {} []) 2 []
  have foundMiddle : treeOfTwo.at? [oddName] = some (.directory {} [(oddName, .directory {} [])]) :=
    Listing.nested_at? oddName (.directory {} [(oddName, .directory {} [])]) 1 []
  obtain ⟨rows, listed⟩ := exists_entries proper rfl lowest.root rfl nearTop
  obtain ⟨rows', listed'⟩ := exists_entries proper rfl higher foundMiddle nearMiddle
  obtain ⟨rows'', listed''⟩ := exists_entries proper rfl lowest foundBottom nearBottom
  let link := Listing.linkBase [47] ++ (Percent.encodeSegment oddName ++ [47])
  let link' := Listing.linkBase link ++ (Percent.encodeSegment oddName ++ [47])
  obtain ⟨limit, fits, fits', fits''⟩ : ∃ limit, (Listing.page rows [47]).length ≤ limit ∧
      (Listing.page rows' link).length ≤ limit ∧ (Listing.page rows'' link').length ≤ limit :=
    ⟨(Listing.page rows [47]).length + (Listing.page rows' link).length + (Listing.page rows'' link').length,
      by omega, by omega, by omega⟩
  let site : Site := { root := [], listingLimit := limit }
  have resolved : site.resolve treeOfTwo [47] = .ok (.directory []) :=
    Target.resolve_slash proper rfl lowest.root rfl nearTop
  have asked : site.pageAt? treeOfTwo [47] = _ := pageAt?_of_fits resolved listed fits
  have once := (Descent.top asked).step proper rfl foundMiddle isText nearMiddle rfl listed' fits'
  have twice := once.step proper rfl foundBottom isText nearBottom rfl listed'' fits''
  have retraced := up_retraces_down proper twice
  refine ⟨site, _, _, _, twice, rfl, ?_, ?_, ?_⟩
  · exact (retraced [_] _ _ rfl).1
  · exact (retraced [] _ _ rfl).1
  · exact (retraced [] _ _ rfl).2.2.1 2 (Nat.le_refl 2)

end Site

end Docroot
