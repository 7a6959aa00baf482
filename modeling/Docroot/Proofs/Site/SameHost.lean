import Docroot.Proofs.Site.Limit
import Mathlib

/-!
Where a browser goes from a listing. A link that starts with one slash stays on the host of the page, but behind two
slashes stands the name of another one, and a backslash is taken for a slash. A link is built on the path as it was
asked for, whose first slashes make no difference to what it is resolved to, so that a page can hold links of either
kind; which of them it holds shows in the path, and for the top of the site in the names.
-/
namespace Docroot

/-- A browser takes such a link for a path on the host of the page. -/
def StaysOnHost (link : Bytes) : Prop := link.head? = some 47 ∧ ∀ b ∈ link.tail.head?, b ≠ 47 ∧ b ≠ 92

instance (link : Bytes) : Decidable (StaysOnHost link) := inferInstanceAs (Decidable (_ ∧ _))

/-- What comes behind the second octet makes no difference. -/
theorem staysOnHost_append (a b : UInt8) (front rest : Bytes) :
    StaysOnHost (a :: b :: front ++ rest) ↔ StaysOnHost (a :: b :: front) := Iff.rfl

theorem StaysOnHost.above {base place : Bytes} (stays : StaysOnHost base) (isAbove : place <+: base)
    (ne_nil : place ≠ []) : StaysOnHost place := by
  obtain ⟨rest, rfl⟩ := isAbove
  match place with
  | [_] => exact ⟨stays.1, nofun⟩
  | _ :: _ :: _ => exact stays

/-- The first octet of a segment is no slash, and a backslash only where the name starts with one. -/
theorem Percent.encodeOctet_starts (b : UInt8) :
    ∃ x more, encodeOctet b = x :: more ∧ x ≠ 47 ∧ (x = 92 ↔ b = 92) := by
  unfold encodeOctet
  split
  · next escaped =>
    refine ⟨_, _, rfl, by decide, ?_⟩
    constructor
    · exact fun is => absurd is (by decide)
    · rintro rfl
      rw [isEscaped, reserved_eq] at escaped
      exact absurd escaped (by decide)
  · next kept =>
    obtain ⟨-, noSlash, -⟩ := safe_of_not_escaped (Bool.eq_false_of_not_eq_true kept)
    exact ⟨b, [], rfl, noSlash, Iff.rfl⟩

theorem Utf8.repair_ne_nil {name : Bytes} (ne_nil : name ≠ []) : repair name ≠ [] := by
  obtain ⟨b, rest, rfl⟩ := List.exists_cons_of_ne_nil ne_nil
  have encoded : ∀ c, String.utf8EncodeChar c ≠ [] := by
    intro c
    rw [← List.length_pos_iff, String.length_utf8EncodeChar]
    exact c.utf8Size_pos
  rw [repair_cons]
  exact List.append_ne_nil_of_left_ne_nil (encoded _) _

namespace Target

theorem decode?_cons_slash (path : Bytes) : decode? (47 :: path) = (decode? path).map (47 :: ·) := by
  have decoded : Percent.decode (47 :: path) = 47 :: Percent.decode path := Percent.decode_append_slash [] path
  have isText : Utf8.isValid (47 :: Percent.decode path) = Utf8.isValid (Percent.decode path) := by
    rw [Bool.eq_iff_iff, Utf8.isValid_iff, Utf8.isValid_iff]
    refine ⟨fun text => ?_, .ascii_cons (by decide)⟩
    have parted : Utf8.WellFormed ([] ++ 47 :: Percent.decode path) := text
    exact (parted.around_ascii (by decide)).2
  have noZero : (0 : UInt8) ∉ 47 :: Percent.decode path ↔ 0 ∉ Percent.decode path := by simp
  unfold decode?
  simp only [decoded, isText, noZero]
  split <;> rfl

/-- One more slash at the front of a path makes no difference to what it leads to. -/
theorem resolve_cons_slash (fs : FileSystem) (root : Location) (path : Bytes) :
    resolve fs root (47 :: path) = resolve fs root path := by
  rw [resolve, resolve, decode?_cons_slash]
  cases decode? path <;> rfl

end Target

namespace Listing

/-- A path with a slash at its front. -/
def rooted (path : Bytes) : Bytes := if path.head? = some 47 then path else 47 :: path

theorem head?_rooted (path : Bytes) : (rooted path).head? = some 47 := by
  unfold rooted
  split
  · assumption
  · rfl

theorem linkBase_rooted (path : Bytes) :
    linkBase path = if (rooted path).getLast? = some 47 then rooted path else rooted path ++ [47] := rfl

theorem head?_linkBase (path : Bytes) : (linkBase path).head? = some 47 := by
  rw [linkBase_rooted]
  split
  · exact head?_rooted path
  · rw [List.head?_append, head?_rooted]
    rfl

/-- The slash at the end of a path is not what leads to another host. -/
theorem staysOnHost_linkBase (path : Bytes) : StaysOnHost (linkBase path) ↔ StaysOnHost (rooted path) := by
  have starts := head?_rooted path
  rw [linkBase_rooted]
  split
  · exact Iff.rfl
  · next noSlash =>
    -- A path of one octet is a slash, which is at its end too.
    match rooted path, starts, noSlash with
    | [_], starts, noSlash => exact absurd starts noSlash
    | a :: b :: front, _, _ => exact staysOnHost_append a b front [47]

theorem parentOf_prefix {base : Bytes} (starts : base.head? = some 47) :
    parentOf base <+: base ∧ parentOf base ≠ [] := by
  unfold parentOf
  split
  · exact ⟨List.head?_eq_some_iff.mp starts |>.elim fun rest same => ⟨rest, same.symm⟩, nofun⟩
  · next kept ne_nil =>
    have isSuffix := (List.dropWhile_suffix (· != 47)).trans (List.dropWhile_suffix (· == 47) (l := base.reverse))
    exact ⟨List.reverse_suffix.mp (by rwa [List.reverse_reverse]), by simpa using ne_nil⟩

theorem head?_link {base : Bytes} (starts : base.head? = some 47) (e : Entry) : (link base e).head? = some 47 := by
  rw [link, List.append_assoc, List.head?_append, starts]
  rfl

theorem staysOnHost_link {base : Bytes} {e : Entry} (starts : base.head? = some 47) (named : e.name ≠ []) :
    StaysOnHost (link base e) ↔ StaysOnHost base ∧ (base = [47] → e.name.head? ≠ some 92) := by
  rw [link, List.append_assoc]
  obtain ⟨front, rfl⟩ := List.head?_eq_some_iff.mp starts
  cases front with
  | cons b front =>
      rw [staysOnHost_append]
      exact ⟨fun stays => ⟨stays, fun same => by cases same⟩, fun stays => stays.1⟩
  | nil =>
      obtain ⟨b, name, same⟩ := List.exists_cons_of_ne_nil named
      obtain ⟨x, more, encoded, noSlash, backslash⟩ := Percent.encodeOctet_starts b
      rw [same, Percent.encodeSegment, List.flatMap_cons, encoded]
      simp [StaysOnHost, noSlash, backslash]

variable {fs : FileSystem} {root place : Location} {path page : Bytes} {limit : Nat}

/-- The links of the entries stay where the path does, and beneath `/` no name starts with a backslash. -/
theorem staysOnHost_anchors (proper : fs.root.Proper) (settled : fs.Settled place)
    (listed : ofPath fs place.path path limit = .ok page) :
    ∀ anchor ∈ (Markup.anchors page).tail,
      StaysOnHost anchor.1 ↔ StaysOnHost (rooted path) ∧ (linkBase path = [47] → anchor.2.head? ≠ some 92) := by
  obtain ⟨names, sorted, namesOf, perm, anchors⟩ := anchors_ofPath settled listed
  rw [anchors]
  refine List.forall_mem_map.mpr fun name member => ?_
  have isName := (FileSystem.entryNames_proper proper namesOf).2 name (perm.mem_iff.mp member)
  have named : (entryAt fs place name).name ≠ [] := by
    rw [entryAt, entry_name]
    exact Utf8.repair_ne_nil isName.ne_nil
  rw [← staysOnHost_linkBase, anchor, List.head?_append_of_ne_nil _ named]
  exact staysOnHost_link (head?_linkBase path) named

/-- Every link of a listing starts with a slash. The links of the entries stay on the host of the page exactly where
the path that was asked for does, and beneath the path `/` the name shown starts with no backslash; where that path
does, so does the link one level up. -/
theorem links_stay_on_host (proper : fs.root.Proper)
    (resolved : Target.resolve fs root path = .ok (.directory place))
    (listed : ofPath fs place.path path limit = .ok page) :
    (∀ anchor ∈ Markup.anchors page, anchor.1.head? = some 47) ∧
    (∀ anchor ∈ (Markup.anchors page).tail,
      StaysOnHost anchor.1 ↔ StaysOnHost (rooted path) ∧ (linkBase path = [47] → anchor.2.head? ≠ some 92)) ∧
    ∃ parent, (Markup.anchors page).head? = some (parent, utf8 "..") ∧
      (StaysOnHost (rooted path) → StaysOnHost parent) := by
  have settled : fs.Settled place := (Target.resolve_ok resolved).1
  obtain ⟨names, sorted, -, -, anchors⟩ := anchors_ofPath settled listed
  have starts := head?_linkBase path
  obtain ⟨isAbove, ne_nil⟩ := parentOf_prefix starts
  refine ⟨?_, staysOnHost_anchors proper settled listed, parentOf (linkBase path), anchors ▸ rfl, ?_⟩
  · rw [anchors]
    refine List.forall_mem_cons.mpr ⟨?_, List.forall_mem_map.mpr fun name _ => head?_link starts _⟩
    obtain ⟨rest, same⟩ := isAbove
    rwa [← same, List.head?_append_of_ne_nil _ ne_nil] at starts
  · intro stays
    exact ((staysOnHost_linkBase path).mpr stays).above isAbove ne_nil

/-- The tree of one file has one row on its page. -/
theorem anchors_treeOfOne (listed : ofPath treeOfOne (Location.path []) path limit = .ok page) :
    Markup.anchors page = [(parentOf (linkBase path), utf8 ".."), (linkBase path ++ utf8 "f", utf8 "f")] := by
  obtain ⟨names, sorted, namesOf, perm, anchors⟩ := anchors_ofPath treeOfOne_settled listed
  have one : names = [utf8 "f"] := (Except.ok.inj namesOf).symm
  rw [one, List.perm_singleton] at perm
  have found : treeOfOne.at? ([] ++ [utf8 "f"]) = some (.file 0) := rfl
  have settled := (settled_entry treeOfOne_settled found treeOfOne_proper rfl).1
  have isText : Utf8.isValid (utf8 "f") = true := Utf8.isValid_iff.mpr (.ascii_cons (by decide) .nil)
  have row := anchor_entryAt settled rfl found (by decide) isText (linkBase path)
  have segment : Percent.encodeSegment (utf8 "f") ++ ending (.file 0) = utf8 "f" := by decide
  rw [segment] at row
  rw [anchors, perm, List.map_singleton]
  exact congrArg (_ :: [·]) row

theorem exists_listing_treeOfOne (path : Bytes) :
    ∃ limit page, ofPath treeOfOne (Location.path []) path limit = .ok page :=
  exists_ofPath treeOfOne_reach rfl path

theorem links_stay_on_host_of_file :
    ∃ limit page, Target.resolve treeOfOne [] [47] = .ok (.directory []) ∧
      ofPath treeOfOne (Location.path []) [47] limit = .ok page ∧
      (Markup.anchors page).length = 2 ∧ ∀ anchor ∈ Markup.anchors page, StaysOnHost anchor.1 := by
  obtain ⟨limit, page, listed⟩ := exists_listing_treeOfOne [47]
  have anchors := anchors_treeOfOne listed
  obtain ⟨-, rows, parent, top, above⟩ := links_stay_on_host treeOfOne_proper treeOfOne_resolve listed
  have stays : StaysOnHost (rooted [47]) := ⟨rfl, nofun⟩
  refine ⟨limit, page, treeOfOne_resolve, listed, by rw [anchors]; rfl, ?_⟩
  rw [anchors] at rows top ⊢
  refine List.forall_mem_cons.mpr ⟨?_, fun anchor member => (rows anchor member).mpr ⟨stays, fun _ => ?_⟩⟩
  · rw [List.head?_cons] at top
    cases top
    exact above stays
  · rw [List.mem_singleton.mp member]
    decide

/-- The root of a site is asked for by two slashes, and the link of its file names the host `f`. -/
theorem link_leaves_host :
    ∃ request place limit page,
      Head.parse (Head.lineFor [47, 47]) = .ok request ∧
      Target.resolve treeOfOne [] request.path = .ok (.directory place) ∧
      ofPath treeOfOne place.path request.path limit = .ok page ∧
      ∃ anchor ∈ Markup.anchors page, ¬ StaysOnHost anchor.1 := by
  obtain ⟨limit, page, listed⟩ := exists_listing_treeOfOne [47, 47]
  have parsed := Head.parse_lineFor (IsTarget.slash.append .slash) (by decide) (by decide)
  have resolved := (Target.resolve_cons_slash treeOfOne [] [47]).trans treeOfOne_resolve
  refine ⟨_, [], limit, page, parsed, resolved, listed, ([47, 47] ++ utf8 "f", utf8 "f"), ?_, ?_⟩
  · rw [anchors_treeOfOne listed]
    exact List.mem_cons_of_mem _ List.mem_cons_self
  · exact fun stays => (stays.2 47 rfl).1 rfl

end Listing

end Docroot
