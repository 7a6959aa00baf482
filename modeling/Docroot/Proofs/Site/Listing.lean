import Docroot.Site.Listing
import Mathlib

/-!
Pages. A page is what its parts are, one after the other, as long as that fits; a row shows no more of an
entry than its name, its kind and the two texts beside them.
-/
namespace Docroot

namespace Bytes

theorem ordered_trans {a b c : Bytes} (first : ordered a b = true) (second : ordered b c = true) :
    ordered a c = true := by
  simp only [ordered, decide_eq_true_iff] at first second ⊢
  exact List.le_trans first second

theorem ordered_total (a b : Bytes) : (ordered a b || ordered b a) = true := by
  simpa [ordered] using List.le_total a b

theorem ordered_antisymm {a b : Bytes} (first : ordered a b = true) (second : ordered b a = true) : a = b := by
  simp only [ordered, decide_eq_true_iff] at first second
  exact List.le_antisymm first second

end Bytes

namespace BoundedText

theorem write_of_room {b : BoundedText} {piece : Bytes} (room : b.size + piece.length ≤ b.limit) :
    ∃ c, b.write piece = some c ∧ c.text = b.text ++ piece ∧ c.limit = b.limit ∧
      c.size = b.size + piece.length := by
  unfold write
  rw [if_neg (Nat.not_lt.mpr room)]
  exact ⟨_, rfl, by simp [text], rfl, rfl⟩

theorem writeAll_of_room {b : BoundedText} {pieces : List Bytes}
    (room : b.size + pieces.flatten.length ≤ b.limit) :
    ∃ c, b.writeAll pieces = (true, c) ∧ c.text = b.text ++ pieces.flatten := by
  induction pieces generalizing b with
  | nil => exact ⟨b, rfl, (List.append_nil _).symm⟩
  | cons piece rest ih =>
      rw [List.flatten_cons, List.length_append] at room
      have first : b.size + piece.length ≤ b.limit := by omega
      obtain ⟨c, written, text, limit, size⟩ := write_of_room first
      obtain ⟨d, all, whole⟩ := ih (b := c) (by omega)
      refine ⟨d, ?_, ?_⟩
      · rw [writeAll, written]
        exact all
      · rw [whole, text, List.flatten_cons, List.append_assoc]

theorem writeAll_of_no_room {b : BoundedText} {pieces : List Bytes} (fits : b.size ≤ b.limit)
    (noRoom : b.limit < b.size + pieces.flatten.length) : (b.writeAll pieces).1 = false := by
  induction pieces generalizing b with
  | nil => exact absurd noRoom (Nat.not_lt.mpr fits)
  | cons piece rest ih =>
      rw [List.flatten_cons, List.length_append] at noRoom
      by_cases room : b.size + piece.length ≤ b.limit
      · obtain ⟨c, written, -, limit, size⟩ := write_of_room room
        rw [writeAll, written]
        exact ih (by omega) (by omega)
      · have refused : b.write piece = none := if_pos (Nat.lt_of_not_le room)
        rw [writeAll, refused]

end BoundedText

/-- What a page shows of something that was looked at. -/
def Metadata.shown (metadata : Metadata) : Kind × Bytes × Bytes :=
  (metadata.kind, if metadata.kind = .directory then utf8 "-" else Size.text metadata.length,
    metadata.modified.listed)

theorem Metadata.toOption_shown {look look' : Except IoError Metadata}
    (same : look.map Metadata.shown = look'.map Metadata.shown) :
    look.toOption.map Metadata.shown = look'.toOption.map Metadata.shown := by
  have options : ∀ look : Except IoError Metadata,
      look.toOption.map Metadata.shown = (look.map Metadata.shown).toOption := by
    rintro (e | m) <;> rfl
  rw [options, options, same]

namespace Listing

/-- What a row shows of an entry. -/
def shown (e : Entry) : Bytes × Bool × Bytes × Bytes := (e.name, e.isDirectory, sizeText e, timeText e)

/-- What every page for a path starts with. -/
def opening (path : Bytes) : Bytes :=
  pageHead ++ (heading (linkBase path) ++ (columns ++ parentRow (linkBase path)))

theorem page_eq (entries : List Entry) (path : Bytes) :
    page entries path = opening path ++ (entries.flatMap (row (linkBase path)) ++ pageFoot) := by
  unfold page parts opening
  simp only [List.flatten_cons, List.flatten_append, List.flatten_nil, List.append_nil, List.append_assoc,
    List.flatMap_def]

theorem rowText_size {mark link shown size size' modified : Bytes}
    (same : rowText mark link shown size modified = rowText mark link shown size' modified) :
    size = size' := by
  simpa only [rowText, List.append_assoc, List.append_cancel_left_eq, List.append_cancel_right_eq] using same

/-- Sizes of one length make rows of one length. -/
theorem length_row (base name : Bytes) (modified : Option Timestamp) {length length' : Nat}
    (size : (Size.text length).length = (Size.text length').length) :
    (row base ⟨name, false, length, modified⟩).length = (row base ⟨name, false, length', modified⟩).length := by
  have sizes : ∀ length, sizeText ⟨name, false, length, modified⟩ = Size.text length := fun _ => rfl
  simp only [row, rowText, List.length_append, sizes, size]
  rfl

/-- Names in the order in which they are shown. Names that are shown the same keep the order they have. -/
def inShownOrder (names : List Bytes) : List Bytes :=
  names.mergeSort fun a b => Bytes.ordered (Utf8.repair a) (Utf8.repair b)

theorem pairwise_inShownOrder (names : List Bytes) : (inShownOrder names).Pairwise
    fun a b => Bytes.ordered (Utf8.repair a) (Utf8.repair b) = true := by
  apply List.pairwise_mergeSort
  · exact fun _ _ _ => Bytes.ordered_trans
  · exact fun _ _ => Bytes.ordered_total _ _

theorem perm_inShownOrder {names names' : List Bytes} (same : names.Perm names') :
    (inShownOrder names).Perm (inShownOrder names') :=
  (List.mergeSort_perm _ _).trans (same.trans (List.mergeSort_perm _ _).symm)

/-- Of names that are shown differently, the order in which a directory holds them is not shown. -/
theorem inShownOrder_eq_of_perm {names names' : List Bytes} (same : names.Perm names')
    (distinct : (names.map Utf8.repair).Nodup) : inShownOrder names = inShownOrder names' := by
  refine List.Perm.eq_of_pairwise ?_ (pairwise_inShownOrder names) (pairwise_inShownOrder names')
    (perm_inShownOrder same)
  intro a b inFirst inSecond below above
  have member : a ∈ names := List.mem_mergeSort.mp inFirst
  have member' : b ∈ names := same.mem_iff.mpr (List.mem_mergeSort.mp inSecond)
  exact List.inj_on_of_nodup_map distinct member member' (Bytes.ordered_antisymm below above)

/-- In whatever order a directory holds its names, they are shown in one order. -/
theorem map_repair_inShownOrder {names names' : List Bytes} (same : names.Perm names') :
    (inShownOrder names).map Utf8.repair = (inShownOrder names').map Utf8.repair := by
  have inOrder : ∀ names, ((inShownOrder names).map Utf8.repair).Pairwise (Bytes.ordered · · = true) :=
    fun names => List.pairwise_map.mpr (pairwise_inShownOrder names)
  refine ((perm_inShownOrder same).map Utf8.repair).eq_of_pairwise ?_ (inOrder names) (inOrder names')
  exact fun _ _ _ _ => Bytes.ordered_antisymm

/-- Rows that are put in order stand in the order of the names they are for. -/
theorem mergeSort_rows (names : List Bytes) {row : Bytes → Entry}
    (named : ∀ name, (row name).name = Utf8.repair name) :
    ((names.map row).mergeSort fun a b => Bytes.ordered a.name b.name) = (inShownOrder names).map row := by
  refine (List.map_mergeSort ?_).symm
  intro a _ b _
  rw [named, named]

theorem entry_name (name : Bytes) (target itself : Except IoError Metadata) :
    (entry name target itself).name = Utf8.repair name := by
  unfold entry
  dsimp only
  split <;> rfl

/-- Rows are put in order by what they show. -/
theorem map_shown_mergeSort (entries : List Entry) :
    (entries.mergeSort fun a b => Bytes.ordered a.name b.name).map shown =
      (entries.map shown).mergeSort fun a b => Bytes.ordered a.1 b.1 :=
  List.map_mergeSort fun _ _ _ _ => rfl

/-- A row, of what it shows. -/
def shownRow (base : Bytes) (seen : Bytes × Bool × Bytes × Bytes) : Bytes :=
  let entry : Entry := ⟨seen.1, seen.2.1, 0, none⟩
  rowText (if entry.isDirectory then utf8 "dir" else []) (link base entry)
    (Markup.escapeText entry.name ++ slash entry) seen.2.2.1 seen.2.2.2

theorem page_eq_shownRows (entries : List Entry) (path : Bytes) :
    page entries path =
      opening path ++ ((entries.map shown).flatMap (shownRow (linkBase path)) ++ pageFoot) := by
  have rows : row (linkBase path) = shownRow (linkBase path) ∘ shown := rfl
  rw [page_eq, List.flatMap_map, rows]
  rfl

theorem page_eq_of_shown {entries entries' : List Entry} (same : entries.map shown = entries'.map shown)
    (path : Bytes) : page entries path = page entries' path := by
  rw [page_eq_shownRows, page_eq_shownRows, same]

/-- In whatever order its rows stand, a page is equally long. -/
theorem length_page_of_perm {entries entries' : List Entry} (same : (entries.map shown).Perm (entries'.map shown))
    (path : Bytes) : (page entries path).length = (page entries' path).length := by
  have rows := (same.flatMap_right (shownRow (linkBase path))).length_eq
  simp only [page_eq_shownRows, List.length_append, rows]

/-- Bodies that are the same but for the order in which a page has rows for names that are shown alike. -/
inductive SameRows : Bytes → Bytes → Prop
  | refl (body : Bytes) : SameRows body body
  | page (path : Bytes) {entries entries' : List Entry} : (entries.map shown).Perm (entries'.map shown) →
      entries.map Entry.name = entries'.map Entry.name → SameRows (page entries path) (page entries' path)

instance : Std.Refl SameRows := ⟨.refl⟩

/-- Listings that fail for one reason, or pages of one length that are alike. -/
inductive Alike (bodies : Bytes → Bytes → Prop) : Except ListingError Bytes → Except ListingError Bytes → Prop
  | error (e : ListingError) : Alike bodies (.error e) (.error e)
  | page {page page' : Bytes} : bodies page page' → page.length = page'.length →
      Alike bodies (.ok page) (.ok page')

theorem Alike.refl (bodies : Bytes → Bytes → Prop) [Std.Refl bodies] (listed : Except ListingError Bytes) :
    Alike bodies listed listed := by
  cases listed with
  | error e => exact .error e
  | ok page => exact .page (Std.Refl.refl page) rfl

theorem shown_entry_congr {found found' : Metadata} (same : found.shown = found'.shown) (name : Bytes) :
    shown ⟨name, found.kind = .directory, found.length, some found.modified⟩ =
      shown ⟨name, found'.kind = .directory, found'.length, some found'.modified⟩ := by
  obtain ⟨kind, same⟩ := Prod.mk.inj same
  obtain ⟨size, time⟩ := Prod.mk.inj same
  rw [← kind] at size
  simpa [shown, sizeText, timeText, ← kind, time] using size

/-- A row shows no more of what was looked at than is shown of that; why a look failed is not shown. -/
theorem entry_shown {target target' itself itself' : Except IoError Metadata}
    (sameTarget : target.toOption.map Metadata.shown = target'.toOption.map Metadata.shown)
    (sameItself : itself.toOption.map Metadata.shown = itself'.toOption.map Metadata.shown) (name : Bytes) :
    shown (entry name target itself) = shown (entry name target' itself') := by
  cases target with
  | ok m =>
      cases target' with
      | ok m' => exact shown_entry_congr (Option.some.inj sameTarget) _
      | error e' => cases sameTarget
  | error e =>
      cases target' with
      | ok m' => cases sameTarget
      | error e' =>
          cases itself with
          | ok m =>
              cases itself' with
              | ok m' => exact shown_entry_congr (Option.some.inj sameItself) _
              | error e' => cases sameItself
          | error e =>
              cases itself' with
              | ok m' => cases sameItself
              | error e' => rfl

theorem compose_eq (pieces : List Bytes) (limit : Nat) :
    compose pieces limit =
      if pieces.flatten.length ≤ limit then .ok pieces.flatten else .error .tooLong := by
  have start : ({ limit } : BoundedText).size + pieces.flatten.length = pieces.flatten.length :=
    Nat.zero_add _
  unfold compose
  by_cases room : pieces.flatten.length ≤ limit
  · obtain ⟨whole, written, text⟩ := BoundedText.writeAll_of_room (start.trans_le room)
    rw [if_pos room, written]
    exact congrArg Except.ok text
  · have refused := BoundedText.writeAll_of_no_room (b := { limit }) (Nat.zero_le limit)
      ((Nat.lt_of_not_le room).trans_eq start.symm)
    rw [if_neg room]
    split
    · next written => rw [written] at refused; cases refused
    · rfl

/-- The page itself where it fits, and otherwise nothing. -/
theorem render_eq (entries : List Entry) (path : Bytes) (limit : Nat) :
    render entries path limit =
      if (page entries path).length ≤ limit then .ok (page entries path) else .error .tooLong :=
  compose_eq (parts entries path) limit

section Rendered

variable {entries : List Entry} {path whole : Bytes} {limit : Nat}

theorem render_of_fits (fits : (page entries path).length ≤ limit) :
    render entries path limit = .ok (page entries path) := by
  rw [render_eq, if_pos fits]

theorem render_of_not_fits (tooLong : ¬ (page entries path).length ≤ limit) :
    render entries path limit = .error .tooLong := by
  rw [render_eq, if_neg tooLong]

theorem render_ok (rendered : render entries path limit = .ok whole) :
    whole = page entries path ∧ whole.length ≤ limit := by
  rw [render_eq] at rendered
  split at rendered
  · next fits =>
    have same := Except.ok.inj rendered
    exact ⟨same.symm, same ▸ fits⟩
  · cases rendered

end Rendered

section OfPath

variable {fs : FileSystem} {path requestPath whole : Bytes} {limit : Nat}

theorem ofPath_of_entries {rows : List Entry} (listed : entries fs path = .ok rows) :
    ofPath fs path requestPath limit = render rows requestPath limit := by
  rw [ofPath, listed]

theorem ofPath_ok (listed : ofPath fs path requestPath limit = .ok whole) :
    ∃ rows, entries fs path = .ok rows ∧ whole = page rows requestPath := by
  unfold ofPath at listed
  split at listed
  · next rows found => exact ⟨rows, found, (render_ok listed).1⟩
  · cases listed

end OfPath

end Listing

end Docroot
