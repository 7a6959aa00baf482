import Docroot.Proofs.Site.Anchors
import Docroot.Proofs.Site.Limit
import Docroot.Proofs.Text.Elements
import Mathlib

/-!
What the page of a listing is made of. However its path and its names are spelled, a page has the brackets of one
template for each row, and is read as its rows: heading, links and names come back as they were, so that two pages
for one path that are the same show the same rows.
-/
namespace Docroot.Listing

open Markup

section Brackets

theorem brackets_rowText {mark shown size modified : Bytes} (plainMark : TagFree mark) (plainShown : TagFree shown)
    (plainSize : TagFree size) (plainTime : TagFree modified) (link : Bytes) :
    brackets (rowText mark link shown size modified) = brackets (rowText [] [] [] [] []) := by
  have noBrackets : brackets [] = [] := rfl
  simp only [rowText, brackets_append, plainMark.brackets, plainShown.brackets, plainSize.brackets,
    plainTime.brackets, (tagFree_escapeAttribute _).brackets, noBrackets]

theorem brackets_heading (base : Bytes) : brackets (heading base) = brackets (heading []) := by
  simp only [heading, brackets_append, (tagFree_escapeText _).brackets]

/-- The word that marks the row of a directory. -/
def mark (e : Entry) : Bytes := if e.isDirectory then utf8 "dir" else []

theorem unmarked_mark (e : Entry) : Unmarked (mark e) := by
  unfold mark
  split <;> decide

theorem brackets_row (base : Bytes) (e : Entry) : brackets (row base e) = brackets (rowText [] [] [] [] []) :=
  brackets_rowText (unmarked_mark e).tagFree (tagFree_name e) (unmarked_sizeText e).tagFree
    (unmarked_timeText e).tagFree _

theorem brackets_rows (base : Bytes) (entries : List Entry) :
    brackets (entries.flatMap (row base)) =
      (List.replicate entries.length (brackets (rowText [] [] [] [] []))).flatten := by
  induction entries with
  | nil => rfl
  | cons e entries ih =>
      rw [List.flatMap_cons, brackets_append, brackets_row, ih, List.length_cons, List.replicate_succ,
        List.flatten_cons]

theorem brackets_opening (path : Bytes) : brackets (opening path) = brackets (opening []) := by
  have dots : TagFree (utf8 "..") ∧ TagFree (utf8 "dir") ∧ TagFree (utf8 "-") := by decide
  obtain ⟨dots, dir, dash⟩ := dots
  simp only [opening, parentRow, brackets_append, brackets_heading (linkBase _), brackets_rowText dir dots dash dash]

/-- The brackets of a page are those of its frame and of one row for each entry. -/
theorem brackets_page (entries : List Entry) (path : Bytes) :
    brackets (page entries path) = brackets (opening []) ++
      ((List.replicate entries.length (brackets (rowText [] [] [] [] []))).flatten ++ brackets pageFoot) := by
  rw [page_eq, brackets_append, brackets_append, brackets_opening, brackets_rows]

end Brackets

/-- The elements of a row. -/
def rowElements (mark link shown size modified : Bytes) : List Element :=
  [⟨[utf8 "tr"], utf8 "\n            "⟩, ⟨[utf8 "td class=", mark, []], []⟩, ⟨[utf8 "a href=", link, []], shown⟩,
    ⟨[utf8 "td class=", utf8 "size", []], size⟩, ⟨[utf8 "td"], modified⟩]

def entryElements (base : Bytes) (e : Entry) : List Element :=
  rowElements (mark e) (link base e) (e.name ++ slash e) (sizeText e) (timeText e)

/-- What stands before the heading. -/
def front : Bytes := pageHead ++ utf8 "    "

/-- The elements of a table before its first row. -/
def columnElements : List Element :=
  [⟨[utf8 "table"], utf8 "\n        "⟩, ⟨[utf8 "tr"], utf8 "\n            "⟩, ⟨[utf8 "th"], utf8 "Name"⟩,
    ⟨[utf8 "th"], utf8 "Size"⟩, ⟨[utf8 "th"], utf8 "Modified"⟩]

/-- The elements of the page for some rows: its front, its heading, and a table of the row that leads one level up and
then one for each entry. -/
def pageElements (entries : List Entry) (path : Bytes) : List Element :=
  elements front ++
    ⟨[utf8 "h1"], utf8 "Directory Listing: " ++ Utf8.repair (Percent.decode (linkBase path))⟩ ::
      (columnElements ++
        (rowElements (utf8 "dir") (parentOf (linkBase path)) (utf8 "..") (utf8 "-") (utf8 "-") ++
          entries.flatMap (entryElements (linkBase path))))

section Elements

theorem elements_rowText {mark shown size modified : Bytes} (plainMark : Unmarked mark) (plainShown : TagFree shown)
    (plainSize : Unmarked size) (plainTime : Unmarked modified) (link rest : Bytes) :
    elements (rowText mark link shown size modified ++ rest) =
      rowElements mark link (unescape shown) size modified ++ elements rest := by
  have start : utf8 "        <tr>\n            <td class=\"" =
      utf8 "        " ++ 60 :: (utf8 "tr" ++ 62 :: (utf8 "\n            " ++ 60 :: (utf8 "td class=" ++ [34]))) := by
    repeat rw [utf8_ofList]
    rfl
  have opens : utf8 "\"><a href=\"" = 34 :: 62 :: 60 :: (utf8 "a href=" ++ [34]) := by decide
  have ends : utf8 "\">" = [34, 62] := by decide
  have behindName : utf8 "</a></td>\n            <td class=\"size\">" =
      60 :: 47 :: (utf8 "a>" ++ 60 :: 47 :: (utf8 "td>\n            " ++
        60 :: (utf8 "td class=" ++ 34 :: (utf8 "size" ++ [34, 62])))) := by
    repeat rw [utf8_ofList]
    rfl
  have behindSize : utf8 "</td>\n            <td>" =
      60 :: 47 :: (utf8 "td>\n            " ++ 60 :: (utf8 "td" ++ [62])) := by
    repeat rw [utf8_ofList]
    rfl
  have behindTime : utf8 "</td>\n        </tr>\n" =
      60 :: 47 :: (utf8 "td>\n        " ++ 60 :: 47 :: utf8 "tr>\n") := by
    repeat rw [utf8_ofList]
    rfl
  have noTag : 60 ∉ utf8 "        " ∧ 60 ∉ utf8 "a>" ∧ 60 ∉ utf8 "td>\n            " ∧ 60 ∉ utf8 "td>\n        " ∧
      60 ∉ utf8 "tr>\n" := by decide
  obtain ⟨noTagFirst, noTagAnchor, noTagCell, noTagTime, noTagRow⟩ := noTag
  have plain : Unmarked (utf8 "\n            ") ∧ Unmarked (utf8 "size") := by decide
  obtain ⟨blank, word⟩ := plain
  have names : IsTagName (utf8 "tr") ∧ IsTagName (utf8 "td class=") ∧ IsTagName (utf8 "a href=") ∧
      IsTagName (utf8 "td") := by decide
  obtain ⟨tr, cell, anchor, td⟩ := names
  unfold rowText
  rw [start, opens, ends, behindName, behindSize, behindTime]
  simp only [List.append_assoc, List.cons_append, List.nil_append]
  rw [elements_of_no_tag noTagFirst, elements_plain tr blank.tagFree.no_start,
    elements_valued_nil cell plainMark.tagFree plainMark.no_quote,
    elements_valued anchor (tagFree_escapeAttribute link) (no_quote_escapeAttribute link) plainShown.no_start,
    elements_closing noTagAnchor, elements_closing noTagCell,
    elements_valued cell word.tagFree word.no_quote plainSize.tagFree.no_start, elements_closing noTagCell,
    elements_plain td plainTime.tagFree.no_start, elements_closing noTagTime, elements_closing noTagRow,
    blank.unescape, plainMark.unescape, unescape_escapeAttribute, word.unescape, plainSize.unescape,
    plainTime.unescape]
  rfl

theorem elements_row (base : Bytes) (e : Entry) (rest : Bytes) :
    elements (row base e ++ rest) = entryElements base e ++ elements rest := by
  have read := elements_rowText (unmarked_mark e) (tagFree_name e) (unmarked_sizeText e) (unmarked_timeText e)
    (link base e) rest
  rwa [unescape_name] at read

theorem elements_rows (base : Bytes) (entries : List Entry) :
    elements (entries.flatMap (row base) ++ pageFoot) = entries.flatMap (entryElements base) := by
  induction entries with
  | nil =>
      have foot : elements pageFoot = [] := by decide
      exact foot
  | cons e entries ih => rw [List.flatMap_cons, List.append_assoc, elements_row, ih, List.flatMap_cons]

theorem elements_parentRow (base rest : Bytes) :
    elements (parentRow base ++ rest) =
      rowElements (utf8 "dir") (parentOf base) (utf8 "..") (utf8 "-") (utf8 "-") ++ elements rest := by
  have plain : Unmarked (utf8 "dir") ∧ Unmarked (utf8 "..") ∧ Unmarked (utf8 "-") := by decide
  obtain ⟨dir, dots, dash⟩ := plain
  rw [parentRow, elements_rowText dir dots.tagFree dash dash, dots.unescape]

theorem wellTagged_front : WellTagged front := by
  simp only [front, pageHead, utf8_append]
  iterate 12 refine WellTagged.append ?_ (by rw [utf8_ofList]; decide +kernel)
  rw [utf8_ofList]
  decide +kernel

/-- The table is read up to its first row. -/
theorem elements_columns (rest : Bytes) :
    elements (utf8 "</h1>\n    <table>\n" ++ (columns ++ rest)) = columnElements ++ elements rest := by
  -- The table is cut before the tag that closes its last column, so that all of its elements end before the cut.
  let table := utf8 "<table>\n        <tr>\n            <th>Name</th>\n            <th>Size</th>\n            <th>Modified"
  have behind : utf8 "</h1>\n    <table>\n" ++ columns =
      60 :: 47 :: (utf8 "h1>\n    " ++ (table ++
        60 :: 47 :: (utf8 "th>\n        " ++ 60 :: 47 :: utf8 "tr>\n"))) := by
    simp only [columns, utf8_append, table]
    repeat rw [utf8_ofList]
    rfl
  have read : closed table = true ∧ elements table = columnElements := by
    simp only [table, columnElements]
    repeat rw [utf8_ofList]
    decide +kernel
  have noTag : 60 ∉ utf8 "h1>\n    " ∧ 60 ∉ utf8 "th>\n        " ∧ 60 ∉ utf8 "tr>\n" := by decide
  obtain ⟨noTagHeading, noTagColumn, noTagRow⟩ := noTag
  rw [← List.append_assoc, behind]
  simp only [List.append_assoc, List.cons_append]
  rw [elements_closing noTagHeading, elements_append read.1, read.2, elements_closing noTagColumn,
    elements_closing noTagRow]

theorem elements_heading (base rest : Bytes) :
    elements (pageHead ++ (heading base ++ (columns ++ rest))) =
      elements front ++
        ⟨[utf8 "h1"], utf8 "Directory Listing: " ++ Utf8.repair (Percent.decode base)⟩ ::
          (columnElements ++ elements rest) := by
  have opens : utf8 "    <h1>Directory Listing: " =
      utf8 "    " ++ 60 :: (utf8 "h1" ++ 62 :: utf8 "Directory Listing: ") := by
    repeat rw [utf8_ofList]
    rfl
  have closes : utf8 "</h1>\n    <table>\n" = 60 :: utf8 "/h1>\n    <table>\n" := by
    repeat rw [utf8_ofList]
    rfl
  have table := elements_columns rest
  have word : Unmarked (utf8 "Directory Listing: ") ∧ IsTagName (utf8 "h1") := by decide
  obtain ⟨word, h1⟩ := word
  let shown := utf8 "Directory Listing: " ++ escapeText (Utf8.repair (Percent.decode base))
  have free : TagFree shown := word.tagFree.append (tagFree_escapeText _)
  have restored : unescape shown = utf8 "Directory Listing: " ++ Utf8.repair (Percent.decode base) := by
    rw [word.unescape_append, unescape_escapeText]
  have cut : pageHead ++ (heading base ++ (columns ++ rest)) =
      front ++ 60 :: (utf8 "h1" ++ 62 :: (shown ++ 60 :: (utf8 "/h1>\n    <table>\n" ++ (columns ++ rest)))) := by
    rw [heading, opens, closes, front]
    simp only [shown, List.append_assoc, List.cons_append]
  rw [closes, List.cons_append] at table
  rw [cut, elements_append wellTagged_front.1, elements_plain h1 free.no_start, restored, table]

theorem elements_page (entries : List Entry) (path : Bytes) :
    elements (page entries path) = pageElements entries path := by
  rw [page_eq, opening]
  simp only [List.append_assoc]
  rw [elements_heading, elements_parentRow, elements_rows, pageElements]

end Elements

section Shown

theorem mark_inj {e e' : Entry} (same : mark e = mark e') : e.isDirectory = e'.isDirectory := by
  have isWord : utf8 "dir" ≠ [] := by decide
  unfold mark at same
  split at same <;> split at same
  · next first second => rw [first, second]
  · exact absurd same isWord
  · exact absurd same.symm isWord
  · next first second => rw [Bool.eq_false_of_not_eq_true first, Bool.eq_false_of_not_eq_true second]

/-- The elements of a row tell all that the row shows. -/
theorem shown_of_entryElements {base : Bytes} {e e' : Entry} (same : entryElements base e = entryElements base e') :
    shown e = shown e' := by
  simp only [entryElements, rowElements, List.cons.injEq, Element.mk.injEq, and_true, true_and] at same
  obtain ⟨marked, ⟨-, named⟩, size, time⟩ := same
  have kind := mark_inj marked
  rw [slash, slash, kind, List.append_cancel_right_eq] at named
  rw [shown, shown, named, kind, size, time]

theorem shown_of_elements {base : Bytes} {entries entries' : List Entry}
    (same : entries.flatMap (entryElements base) = entries'.flatMap (entryElements base)) :
    entries.map shown = entries'.map shown := by
  induction entries generalizing entries' with
  | nil =>
      cases entries' with
      | nil => rfl
      | cons e' entries' => cases same
  | cons e entries ih =>
      cases entries' with
      | nil => cases same
      | cons e' entries' =>
          -- Every row has five elements, so the first rows are the same, and so are all others.
          rw [List.flatMap_cons, List.flatMap_cons] at same
          obtain ⟨first, others⟩ := List.append_inj same rfl
          rw [List.map_cons, List.map_cons, shown_of_entryElements first, ih others]

theorem shown_of_page {entries entries' : List Entry} {path : Bytes} (same : page entries path = page entries' path) :
    entries.map shown = entries'.map shown := by
  have read := congrArg elements same
  rw [elements_page, elements_page, pageElements, pageElements, List.append_cancel_left_eq, List.cons.injEq,
    List.append_cancel_left_eq, List.append_cancel_left_eq] at read
  exact shown_of_elements read.2

end Shown

theorem quoted_rowElements (mark link shown size modified : Bytes) :
    ∀ element ∈ rowElements mark link shown size modified, quoted element.tag = true := by
  simp [rowElements, quoted]

theorem quoted_pageElements (entries : List Entry) (path : Bytes) :
    ∀ element ∈ pageElements entries path, quoted element.tag = true := by
  have columns : ∀ element ∈ columnElements, quoted element.tag = true := by decide
  intro element member
  simp only [pageElements, List.mem_append, List.mem_cons, List.mem_flatMap] at member
  rcases member with inFront | rfl | inColumns | inParent | ⟨e, -, inRow⟩
  · exact wellTagged_front.2 _ (List.mem_map_of_mem inFront)
  · rfl
  · exact columns element inColumns
  · exact quoted_rowElements _ _ _ _ _ element inParent
  · exact quoted_rowElements _ _ _ _ _ element inRow

theorem heading_mem_pageElements (entries : List Entry) (path : Bytes) :
    ⟨[utf8 "h1"], utf8 "Directory Listing: " ++ Utf8.repair (Percent.decode (linkBase path))⟩ ∈
      pageElements entries path :=
  List.mem_append_right _ List.mem_cons_self

theorem anchor_mem_pageElements {entries : List Entry} {e : Entry} (listed : e ∈ entries) (path : Bytes) :
    ⟨[utf8 "a href=", link (linkBase path) e, []], e.name ++ slash e⟩ ∈ pageElements entries path := by
  simp only [pageElements, List.mem_append, List.mem_cons, List.mem_flatMap]
  exact .inr (.inr (.inr (.inr ⟨e, listed, by simp [entryElements, rowElements]⟩)))

/-- However its path and the names on it are spelled, a page that is rendered has the brackets of its frame and of one
row for each entry. Its tags have at most one value, which ends at the second quote of the tag. It is read as the
heading, the links and the names it was made from, and another page for the same path is only the same if it shows
the same rows. -/
theorem names_inject_no_markup {entries : List Entry} {path whole : Bytes} {limit : Nat}
    (rendered : render entries path limit = .ok whole) :
    brackets whole = brackets (opening []) ++
      ((List.replicate entries.length (brackets (rowText [] [] [] [] []))).flatten ++ brackets pageFoot) ∧
    elements whole = pageElements entries path ∧
    (∀ tag ∈ tags whole, quoted tag = true) ∧
    ∀ entries' limit', render entries' path limit' = .ok whole → entries'.map shown = entries.map shown := by
  obtain ⟨same, -⟩ := render_ok rendered
  rw [same]
  refine ⟨brackets_page entries path, elements_page entries path, ?_, ?_⟩
  · rw [tags, elements_page]
    exact List.forall_mem_map.mpr (quoted_pageElements entries path)
  · intro entries' limit' rendered'
    exact (shown_of_page (render_ok rendered').1).symm

/-- An entry whose name would end its link and open another, and one whose name would end its row. -/
def endsLink : Entry := ⟨utf8 "\"><a href=\"//x\">", false, 0, none⟩

def endsRow : Entry := ⟨utf8 "</td>&lt;", true, 0, none⟩

theorem names_inject_no_markup_endsLink :
    ∃ limit whole, let base := utf8 "/<i>&quot;/"
      render [endsLink, endsRow] (utf8 "/<i>&quot;") limit = .ok whole ∧
      brackets whole = brackets (page [⟨utf8 "a", false, 0, none⟩, ⟨utf8 "b", false, 0, none⟩] [47]) ∧
      ⟨[utf8 "h1"], utf8 "Directory Listing: " ++ base⟩ ∈ elements whole ∧
      ⟨[utf8 "a href=", base ++ utf8 "%22%3E%3Ca%20href=%22%2F%2Fx%22%3E", []], utf8 "\"><a href=\"//x\">"⟩ ∈
        elements whole ∧
      ⟨[utf8 "a href=", base ++ utf8 "%3C%2Ftd%3E%26lt;/", []], utf8 "</td>&lt;/"⟩ ∈ elements whole := by
  have rendered : render [endsLink, endsRow] (utf8 "/<i>&quot;") (page [endsLink, endsRow] (utf8 "/<i>&quot;")).length =
      .ok (page [endsLink, endsRow] (utf8 "/<i>&quot;")) := render_of_fits (Nat.le_refl _)
  obtain ⟨same, read, -, -⟩ := names_inject_no_markup rendered
  have heading : Utf8.repair (Percent.decode (linkBase (utf8 "/<i>&quot;"))) = utf8 "/<i>&quot;/" := by
    decide +kernel
  have link : link (linkBase (utf8 "/<i>&quot;")) endsLink =
        utf8 "/<i>&quot;/" ++ utf8 "%22%3E%3Ca%20href=%22%2F%2Fx%22%3E" ∧
      endsLink.name ++ slash endsLink = utf8 "\"><a href=\"//x\">" := by decide +kernel
  have row : Listing.link (linkBase (utf8 "/<i>&quot;")) endsRow =
        utf8 "/<i>&quot;/" ++ utf8 "%3C%2Ftd%3E%26lt;/" ∧
      endsRow.name ++ slash endsRow = utf8 "</td>&lt;/" := by decide +kernel
  refine ⟨_, _, rendered, ?_, ?_, ?_, ?_⟩
  · rw [same, brackets_page]
    rfl
  · rw [read, ← heading]
    exact heading_mem_pageElements _ _
  · rw [read, ← link.1, ← link.2]
    exact anchor_mem_pageElements List.mem_cons_self _
  · rw [read, ← row.1, ← row.2]
    exact anchor_mem_pageElements (List.mem_cons_of_mem _ List.mem_cons_self) _

end Docroot.Listing
