import Docroot.Proofs.FileSystem.Walk
import Docroot.Proofs.Site.Listing
import Docroot.Proofs.Text.Markup
import Docroot.Proofs.Text.Utf8
import Mathlib

/-!
What a reader of a listing finds: one anchor for the directory above, and then one for each name of the
directory. Sizes and times hold no markup and escaped names no tag, so nothing else on the page is taken for a link.
-/
namespace Docroot

section Unmarked

open Markup

theorem unmarked_utf8 {text : String} (plain : ∀ c ∈ text.toList, c ∉ ['"', '&', '<', '>']) :
    Unmarked (utf8 text) := by
  intro b member marked
  have ascii : ∀ b : UInt8, b ∈ [34, 38, 60, 62] → b.toNat < 128 ∧ Char.ofNat b.toNat ∈ ['"', '&', '<', '>'] := by
    simp
  obtain ⟨small, isMark⟩ := ascii b marked
  obtain ⟨c, inText, same⟩ := mem_utf8 member small
  rw [← same, Char.ofNat_toNat] at isMark
  exact plain c inText isMark

theorem unmarked_digits (n : Nat) : Unmarked (utf8 (toString n)) := by
  refine unmarked_utf8 fun c member marked => ?_
  rw [Nat.toString_eq_repr, Nat.toList_repr] at member
  have isDigit := Nat.isDigit_of_mem_toDigits (by decide) (by decide) member
  have noDigit : ∀ c ∈ ['"', '&', '<', '>'], c.isDigit = false := by simp
  rw [noDigit c marked] at isDigit
  cases isDigit

theorem unmarked_padded (width n : Nat) : Unmarked (utf8 (padded width n)) := by
  rw [padded, utf8_append]
  refine Unmarked.append (unmarked_utf8 fun c member => ?_) (unmarked_digits n)
  rw [String.toList_ofList] at member
  rw [List.eq_of_mem_replicate member]
  decide

theorem Size.unmarked_text (length : Nat) : Unmarked (Size.text length) := by
  have units : Unmarked (utf8 " B") ∧ Unmarked (utf8 " KB") ∧ Unmarked (utf8 " MB") ∧ Unmarked (utf8 ".") := by
    decide
  obtain ⟨bytes, kilo, mega, point⟩ := units
  have tenths : ∀ n, Unmarked (utf8 (tenthsText n)) := by
    intro n
    rw [tenthsText, utf8_append, utf8_append]
    exact ((unmarked_digits _).append point).append (unmarked_digits _)
  unfold Size.text
  simp only [utf8_append]
  split
  · exact (unmarked_digits _).append bytes
  · split
    · exact (tenths _).append kilo
    · exact (tenths _).append mega

theorem Timestamp.unmarked_listed (t : Timestamp) : Unmarked t.listed := by
  have between : Unmarked (utf8 "-") ∧ Unmarked (utf8 "+") ∧ Unmarked (utf8 " ") ∧ Unmarked (utf8 ":") := by
    decide
  obtain ⟨dash, plus, blank, colon⟩ := between
  have year : ∀ y, Unmarked (utf8 (yearText y)) := by
    intro y
    unfold yearText
    split
    · rw [utf8_append]
      exact dash.append (unmarked_padded _ _)
    · split
      · rw [utf8_append]
        exact plus.append (unmarked_padded _ _)
      · exact unmarked_padded _ _
  have clock : Unmarked (utf8 t.clock) := by
    simp only [Timestamp.clock, utf8_append]
    exact ((((unmarked_padded _ _).append colon).append (unmarked_padded _ _)).append colon).append
      (unmarked_padded _ _)
  simp only [listed, utf8_append]
  exact ((((((year _).append dash).append (unmarked_padded _ _)).append dash).append (unmarked_padded _ _)).append
    blank).append clock

end Unmarked

namespace Listing

open Markup

theorem calm_pageHead : calm pageHead = true := by
  simp only [pageHead, utf8_append]
  iterate 11 refine calm_append ?_ (by rw [utf8_ofList]; rfl)
  rw [utf8_ofList]
  rfl

theorem calm_columns : calm columns = true := by
  simp only [columns, utf8_append]
  refine calm_append ?_ (by rw [utf8_ofList]; rfl)
  rw [utf8_ofList]
  rfl

theorem calm_heading (base : Bytes) : calm (heading base) = true := by
  unfold heading
  refine calm_append (calm_append (by rw [utf8_ofList]; rfl) ?_) (by rw [utf8_ofList]; rfl)
  exact calm_of_not_mem (tagFree_escapeText _).no_start

/-- A row is read as the link it holds and the text between its tags. -/
theorem anchors_rowText {mark shown size modified : Bytes} (plainMark : calm mark = true) (noTag : 60 ∉ shown)
    (plainSize : 60 ∉ size) (plainTime : 60 ∉ modified) (link rest : Bytes) :
    anchors (rowText mark link shown size modified ++ rest) = (link, unescape shown) :: anchors rest := by
  -- All that is around the anchor is skipped over, and the texts of the row are cut where it begins and ends.
  have before : calm (utf8 "        <tr>\n            <td class=\"") = true := by rw [utf8_ofList]; rfl
  have opens : utf8 "\"><a href=\"" = [34, 62] ++ linkTag := by decide
  have ends : utf8 "\">" = [34, 62] := by decide
  obtain ⟨closing, closes, calmClosing⟩ : ∃ closing,
      utf8 "</a></td>\n            <td class=\"size\">" = 60 :: closing ∧ calm (60 :: closing) = true :=
    ⟨utf8 "/a></td>\n            <td class=\"size\">", by rw [utf8_ofList, utf8_ofList]; rfl, by rw [utf8_ofList]; rfl⟩
  have between : calm (utf8 "</td>\n            <td>") = true := by rw [utf8_ofList]; rfl
  have after : calm (utf8 "</td>\n        </tr>\n") = true := by rw [utf8_ofList]; rfl
  unfold rowText
  rw [opens, ends, closes]
  simp only [List.append_assoc, List.cons_append, List.nil_append]
  have quote : ∀ l, anchors (34 :: 62 :: l) = anchors l := anchors_calm (a := [34, 62]) rfl
  have rest_calm : ∀ l, anchors (60 :: (closing ++ l)) = anchors l := anchors_calm calmClosing
  rw [anchors_calm before, anchors_calm plainMark, quote, anchors_anchor noTag, rest_calm,
    anchors_calm (calm_of_not_mem plainSize), anchors_calm between, anchors_calm (calm_of_not_mem plainTime),
    anchors_calm after]

section Texts

variable (e : Entry)

theorem tagFree_slash : TagFree (slash e) := by
  unfold slash
  split <;> decide

theorem tagFree_name : TagFree (escapeText e.name ++ slash e) := (tagFree_escapeText _).append (tagFree_slash e)

theorem unmarked_sizeText : Unmarked (sizeText e) := by
  unfold sizeText
  split
  · decide
  · exact Size.unmarked_text e.length

theorem unmarked_timeText : Unmarked (timeText e) := by
  unfold timeText
  cases e.modified with
  | none => decide
  | some t =>
      rw [Option.map_some, Option.getD_some]
      exact t.unmarked_listed

/-- Undoing the references of a text restores the name it was made from. -/
theorem unescape_name : unescape (escapeText e.name ++ slash e) = e.name ++ slash e := by
  refine (unescape_flatMap textOctet_stands e.name (slash e)).trans (congrArg (e.name ++ ·) ?_)
  unfold slash
  split
  · rw [unescape_cons (by decide), unescape]
  · rw [unescape]

end Texts

/-- What a reader finds in a row: where it leads, and the name it is shown by. -/
def anchor (base : Bytes) (e : Entry) : Bytes × Bytes := (link base e, e.name ++ slash e)

theorem anchors_row (base : Bytes) (e : Entry) (rest : Bytes) :
    anchors (row base e ++ rest) = anchor base e :: anchors rest := by
  have mark : calm (if e.isDirectory then utf8 "dir" else []) = true := by
    split
    · decide
    · rfl
  have noTag := (tagFree_name e).no_start
  have size := (unmarked_sizeText e).tagFree.no_start
  have time := (unmarked_timeText e).tagFree.no_start
  unfold row
  rw [anchors_rowText mark noTag size time, unescape_name]
  rfl

theorem anchors_parentRow (base rest : Bytes) :
    anchors (parentRow base ++ rest) = (parentOf base, utf8 "..") :: anchors rest := by
  have dots : Unmarked (utf8 "..") := by decide
  have dash : 60 ∉ utf8 "-" := by decide
  unfold parentRow
  rw [anchors_rowText (by decide) dots.tagFree.no_start dash dash, dots.unescape]

theorem anchors_page (entries : List Entry) (path : Bytes) :
    anchors (page entries path) =
      (parentOf (linkBase path), utf8 "..") :: entries.map (anchor (linkBase path)) := by
  have rows : anchors (entries.flatMap (row (linkBase path)) ++ pageFoot) =
      entries.map (anchor (linkBase path)) := by
    induction entries with
    | nil =>
        have foot : calm pageFoot = true := by rw [pageFoot, utf8_ofList]; rfl
        rw [List.flatMap_nil, List.nil_append, ← List.append_nil pageFoot, anchors_calm foot]
        rfl
    | cons e entries ih =>
        rw [List.flatMap_cons, List.append_assoc, anchors_row, ih, List.map_cons]
  rw [page_eq, opening]
  simp only [List.append_assoc]
  rw [anchors_calm calm_pageHead, anchors_calm (calm_heading _), anchors_calm calm_columns,
    anchors_parentRow, rows]

/-- The row that is made for a name of the directory a path leads to. -/
def rowAt (fs : FileSystem) (path : Bytes) (directory : Location) (name : Bytes) : Entry :=
  entry name (fs.targetAt (Path.join path name)) (fs.itselfAt path directory name)

/-- The entry for a name of the directory at a place. -/
def entryAt (fs : FileSystem) (place : Location) (name : Bytes) : Entry :=
  entry name (fs.targetAt (Path.join place.path name)) (fs.itselfAt place.path place name)

/-- The rows of a directory that is reached are those of its names, put in order. -/
theorem entries_eq_rows {fs : FileSystem} {path : Bytes} {directory : Location}
    (reached : fs.reach path = .ok directory) :
    entries fs path =
      (fs.entryNames directory).map fun names => (inShownOrder names).map (rowAt fs path directory) := by
  unfold entries
  rw [reached]
  dsimp only
  cases fs.entryNames directory with
  | error e => rfl
  | ok names => exact congrArg Except.ok (mergeSort_rows names fun name => entry_name name _ _)

theorem entries_of_reach {fs : FileSystem} {place : Location} (reached : fs.reach place.path = .ok place) :
    entries fs place.path = (fs.entryNames place).map fun names => (inShownOrder names).map (entryAt fs place) :=
  entries_eq_rows reached

theorem entries_eq {fs : FileSystem} {place : Location} {rows : List Entry} (settled : fs.Settled place)
    (listed : entries fs place.path = .ok rows) :
    ∃ names sorted : List Bytes, fs.entryNames place = .ok names ∧ sorted.Perm names ∧
      rows = sorted.map (entryAt fs place) := by
  cases reached : fs.reach place.path with
  | error e =>
      rw [entries, reached] at listed
      cases listed
  | ok directory =>
      obtain rfl := FileSystem.reach_path settled reached
      rw [entries_of_reach reached] at listed
      cases isThere : fs.entryNames directory with
      | error e =>
          rw [isThere] at listed
          cases listed
      | ok names =>
          rw [isThere] at listed
          exact ⟨names, inShownOrder names, rfl, List.mergeSort_perm _ _, (Except.ok.inj listed).symm⟩

/-- A directory that is reached and may be read has a listing, where there is room for it. -/
theorem exists_ofPath {fs : FileSystem} {place : Location} {names : List Bytes}
    (reached : fs.reach place.path = .ok place) (readable : fs.entryNames place = .ok names) (path : Bytes) :
    ∃ limit page, ofPath fs place.path path limit = .ok page := by
  let rows := (inShownOrder names).map (entryAt fs place)
  have listed : entries fs place.path = .ok rows := by
    rw [entries_of_reach reached, readable]
    rfl
  refine ⟨(page rows path).length, page rows path, ?_⟩
  rw [ofPath_of_entries listed]
  exact render_of_fits (Nat.le_refl _)

/-- A page holds one anchor for each name of the directory. -/
theorem anchors_ofPath {fs : FileSystem} {place : Location} {path page : Bytes} {limit : Nat}
    (settled : fs.Settled place) (listed : ofPath fs place.path path limit = .ok page) :
    ∃ names sorted : List Bytes, fs.entryNames place = .ok names ∧ sorted.Perm names ∧
      anchors page = (parentOf (linkBase path), utf8 "..") ::
        sorted.map fun name => anchor (linkBase path) (entryAt fs place name) := by
  obtain ⟨rows, found, whole⟩ := ofPath_ok listed
  obtain ⟨names, sorted, isThere, same, rfl⟩ := entries_eq settled found
  refine ⟨names, sorted, isThere, same, ?_⟩
  rw [whole, anchors_page, List.map_map]
  rfl

end Listing

end Docroot
