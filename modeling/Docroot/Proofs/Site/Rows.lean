import Docroot.Proofs.FileSystem.Order
import Docroot.Proofs.Site.Markup

/-!
The rows of a listing. Every entry of a directory has one, in the order of the names and not in that in which the
directory is read. It tells of what the entry leads to, or of a link that leads nowhere, or of nothing where the user
may not look.
-/
namespace Docroot

theorem Bytes.lt_of_ordered {a b : Bytes} (inOrder : ordered a b = true) (distinct : a ≠ b) : a < b := by
  rw [ordered, decide_eq_true_iff] at inOrder
  exact Std.lt_of_le_of_ne inOrder distinct

namespace FileSystem

/-- An entry of a directory may be looked at by its path. -/
structure MayLook (fs : FileSystem) (path : Bytes) (directory : Location) (name : Bytes) : Prop where
  short : (Path.join path name).length ≤ maxPath
  searchable : ∃ info entries, fs.at? directory = some (.directory info entries) ∧ fs.maySearch info = true

variable {fs : FileSystem} {path name : Bytes} {directory : Location} {info : DirectoryInfo}
  {entries : List (Bytes × Node)} {node : Node}

theorem itselfAt_ok (mayLook : fs.MayLook path directory name) (found : fs.at? (directory ++ [name]) = some node) :
    fs.itselfAt path directory name = .ok (fs.describe node) := by
  obtain ⟨short, info, entries, isDirectory, searchable⟩ := mayLook
  rw [at?_concat isDirectory] at found
  rw [itselfAt, isDirectory, if_neg (Nat.not_lt.mpr short)]
  dsimp only
  rw [if_neg (by simp [searchable]), found]

theorem itselfAt_error (isDirectory : fs.at? directory = some (.directory info entries))
    (hidden : ¬ fs.MayLook path directory name) : ∃ e, fs.itselfAt path directory name = .error e := by
  rw [itselfAt, isDirectory]
  dsimp only
  split
  · exact ⟨_, rfl⟩
  · next short =>
    split
    · exact ⟨_, rfl⟩
    · next searchable =>
      exact absurd ⟨Nat.not_lt.mp short, info, entries, isDirectory, Bool.not_eq_false _ ▸ searchable⟩ hidden

end FileSystem

namespace Listing

/-- The row of what was looked at. -/
def looked (name : Bytes) (metadata : Metadata) : Entry :=
  ⟨name, metadata.kind = .directory, metadata.length, some metadata.modified⟩

/-- The row for a name in a directory: what the name leads to, else the link that it is, else next to nothing. -/
inductive RowOf (fs : FileSystem) (path : Bytes) (directory : Location) (name : Bytes) : Entry → Prop
  | target {place : Location} {node : Node} (reached : fs.reach (Path.join path name) = .ok place)
      (found : fs.at? place = some node) : RowOf fs path directory name (looked name (fs.describe node))
  | link {error : IoError} {modified : Timestamp} {target : Bytes}
      (unreached : fs.reach (Path.join path name) = .error error) (mayLook : fs.MayLook path directory name)
      (found : fs.at? (directory ++ [name]) = some (.link modified target)) :
      RowOf fs path directory name ⟨name, false, target.length, some modified⟩
  | unknown {error : IoError} (unreached : fs.reach (Path.join path name) = .error error)
      (hidden : ¬ fs.MayLook path directory name) : RowOf fs path directory name ⟨name, false, 0, none⟩

variable {fs : FileSystem} {path name : Bytes} {directory : Location} {names : List Bytes}

theorem rowAt_name (fs : FileSystem) (path : Bytes) (directory : Location) (isText : Utf8.isValid name = true) :
    (rowAt fs path directory name).name = name := by
  rw [rowAt, entry_name, Utf8.repair_of_valid isText]

theorem rowOf_rowAt (proper : fs.root.Proper) (reached : fs.reach path = .ok directory)
    (readable : fs.entryNames directory = .ok names) (member : name ∈ names) (isText : Utf8.isValid name = true) :
    RowOf fs path directory name (rowAt fs path directory name) := by
  obtain ⟨info, entries, isDirectory, same⟩ := FileSystem.entryNames_ok readable
  have isName := (FileSystem.entryNames_proper proper readable).2 name member
  obtain ⟨node, child⟩ : ∃ node, (Node.directory info entries).child? name = some node :=
    Node.exists_child (same ▸ member)
  unfold rowAt entry
  rw [Utf8.repair_of_valid isText]
  cases target : fs.reach (Path.join path name) with
  | ok place =>
      obtain ⟨leads, found, -⟩ := (FileSystem.reach_is_settled target).nodes place List.prefix_rfl
      rw [FileSystem.targetAt, target]
      dsimp only
      rw [FileSystem.metadata, found]
      exact .target target found
  | error error =>
      rw [FileSystem.targetAt, target]
      by_cases mayLook : fs.MayLook path directory name
      · have found : fs.at? (directory ++ [name]) = some node := (FileSystem.at?_concat isDirectory name).trans child
        rw [FileSystem.itselfAt_ok mayLook found]
        cases isLink : node.isLink with
        | false =>
            -- Whatever is no link is reached where it may be looked at.
            obtain ⟨short, info', entries', isDirectory', searchable⟩ := mayLook
            cases isDirectory.symm.trans isDirectory'
            cases target.symm.trans (FileSystem.reach_entry reached isDirectory searchable isName child isLink short)
        | true =>
            cases node with
            | link modified text => exact .link target mayLook found
            | _ => cases isLink
      · obtain ⟨e, unseen⟩ := FileSystem.itselfAt_error isDirectory mayLook
        rw [unseen]
        exact .unknown target mayLook

theorem entries_eq_rowAt (reached : fs.reach path = .ok directory) (readable : fs.entryNames directory = .ok names) :
    entries fs path = .ok ((inShownOrder names).map (rowAt fs path directory)) := by
  rw [entries_eq_rows reached, readable]
  rfl

/-- In whatever order a directory is read, its rows are the same. -/
theorem entries_reordered {fs' : FileSystem} (same : fs.Reordered fs') (proper : fs.root.Proper)
    (reached : fs.reach path = .ok directory) (readable : fs.entryNames directory = .ok names)
    (text : ∀ name ∈ names, Utf8.isValid name = true) : entries fs' path = entries fs path := by
  obtain ⟨names', readable', perm⟩ := same.entryNames_perm readable
  obtain ⟨info, _, isDirectory, -⟩ := FileSystem.entryNames_ok readable
  have reached' : fs'.reach path = .ok directory := same.walkedAlike.reach_eq path ▸ reached
  have rows : rowAt fs path directory = rowAt fs' path directory := by
    funext name
    rw [rowAt, rowAt, same.targetAt_eq, same.itselfAt_eq isDirectory]
  have distinct : (names.map Utf8.repair).Nodup := by
    rw [List.map_congr_left fun name member => Utf8.repair_of_valid (text name member), List.map_id']
    exact (FileSystem.entryNames_proper proper readable).1
  rw [entries_eq_rowAt reached readable, entries_eq_rowAt reached' readable', rows,
    inShownOrder_eq_of_perm perm distinct]

/-- Names that are text are shown in strictly increasing order. -/
theorem inShownOrder_increasing (distinct : names.Nodup) (text : ∀ name ∈ names, Utf8.isValid name = true) :
    (inShownOrder names).Pairwise (· < ·) := by
  have distinct' : (inShownOrder names).Nodup := (List.mergeSort_perm _ _).nodup_iff.mpr distinct
  refine ((pairwise_inShownOrder names).and distinct').imp_of_mem ?_
  rintro a b inFirst inSecond ⟨below, other⟩
  rw [Utf8.repair_of_valid (text a (List.mem_mergeSort.mp inFirst)),
    Utf8.repair_of_valid (text b (List.mem_mergeSort.mp inSecond))] at below
  exact Bytes.lt_of_ordered below other

theorem elements_ofPath {requestPath page : Bytes} {limit : Nat} {rows : List Entry}
    (listed : entries fs path = .ok rows) (rendered : ofPath fs path requestPath limit = .ok page) :
    Markup.elements page = pageElements rows requestPath := by
  rw [ofPath_of_entries listed] at rendered
  rw [(render_ok rendered).1, elements_page]

/-- A directory that is reached and may be read has one row for each entry, in strictly increasing order of the
names, and each tells of what its entry leads to. In whatever order the directory is read, the rows are the same, and
so is the page, which is read as the row that leads one level up and these rows. -/
theorem each_entry_once (proper : fs.root.Proper) (reached : fs.reach path = .ok directory)
    (readable : fs.entryNames directory = .ok names) (text : ∀ name ∈ names, Utf8.isValid name = true) :
    ∃ rows, entries fs path = .ok rows ∧
      (rows.map Entry.name).Perm names ∧ (rows.map Entry.name).Pairwise (· < ·) ∧
      (∀ row ∈ rows, row.name ≠ Path.dot ∧ row.name ≠ Path.dotDot ∧ RowOf fs path directory row.name row) ∧
      (∀ order, names.Perm order → ∃ root', fs.root.Shuffled root' ∧
        FileSystem.entryNames { fs with root := root' } directory = .ok order) ∧
      ∀ root', fs.root.Shuffled root' → entries { fs with root := root' } path = .ok rows ∧
        ∀ requestPath limit,
          ofPath { fs with root := root' } path requestPath limit = ofPath fs path requestPath limit ∧
          ∀ page, ofPath { fs with root := root' } path requestPath limit = .ok page →
            Markup.elements page = pageElements rows requestPath := by
  have listed := entries_eq_rowAt reached readable
  have distinct := FileSystem.entryNames_proper proper readable
  have named : ((inShownOrder names).map (rowAt fs path directory)).map Entry.name = inShownOrder names := by
    have shown : ∀ name ∈ inShownOrder names, (Entry.name ∘ rowAt fs path directory) name = name :=
      fun name member => rowAt_name fs path directory (text name (List.mem_mergeSort.mp member))
    rw [List.map_map, List.map_congr_left shown, List.map_id']
  refine ⟨_, listed, ?_, ?_, ?_, ?_, ?_⟩
  · rw [named]
    exact List.mergeSort_perm _ _
  · rw [named]
    exact inShownOrder_increasing distinct.1 text
  · refine List.forall_mem_map.mpr fun name member => ?_
    have member : name ∈ names := List.mem_mergeSort.mp member
    have isName := distinct.2 name member
    rw [rowAt_name fs path directory (text name member)]
    exact ⟨isName.ne_dot, isName.ne_dotDot, rowOf_rowAt proper reached readable member (text name member)⟩
  · intro order perm
    exact FileSystem.exists_order readable perm
  · intro root' shuffled
    have same := FileSystem.Reordered.of_shuffled proper shuffled
    have listed' := (entries_reordered same proper reached readable text).trans listed
    refine ⟨listed', fun requestPath limit => ⟨?_, fun page rendered => elements_ofPath listed' rendered⟩⟩
    rw [ofPath_of_entries listed', ofPath_of_entries listed]

/-- A directory, entries that are neither files nor directories, and a link to a file outside their directory. -/
def kinds : List (Bytes × Node) :=
  [(utf8 "socket", .special ⟨0, 0⟩ .socket), (utf8 "out", .link ⟨0, 0⟩ (utf8 "../f")),
    (utf8 "shelf", .emptyDirectory { size := 4096 }), (utf8 "pipe", .special ⟨0, 0⟩ .pipe),
    (utf8 "dangling", .link ⟨0, 0⟩ (utf8 "nowhere"))]

def rootOfKinds (entries : List (Bytes × Node)) : Node :=
  .directory {} [(utf8 "www", .directory {} entries), (utf8 "f", .file 0)]

def treeOfKinds : FileSystem where
  root := rootOfKinds kinds
  files := [{ content := utf8 "hi" }]

theorem treeOfKinds_proper : treeOfKinds.root.Proper := by
  refine .of_pair (by decide) (by decide) (by decide) (.directory (by decide) (by decide) ?_) (.file 0)
  simp only [kinds, List.forall_mem_cons]
  exact ⟨.special _ _, .link _ _, .directory (by decide) nofun nofun, .special _ _, .link _ _, nofun⟩

theorem treeOfKinds_reach : treeOfKinds.reach (Location.path [utf8 "www"]) = .ok [utf8 "www"] := by
  have isName : Path.IsEntryName (utf8 "www") := by decide
  have found : treeOfKinds.at? [utf8 "www"] = some (.directory {} kinds) := rfl
  have settled : treeOfKinds.Settled ([] ++ [utf8 "www"]) :=
    (FileSystem.settled_top rfl rfl).below rfl isName.toIsName found rfl
  exact FileSystem.reach_settled treeOfKinds_proper rfl settled found (by decide)

theorem kinds_text : ∀ name ∈ kinds.map Prod.fst, Utf8.isValid name = true := by
  have ascii : (kinds.map Prod.fst).all (·.all (·.toNat < 0x80)) = true := by decide
  refine fun name member => Utf8.isValid_iff.mpr (.of_ascii fun b inName => ?_)
  exact of_decide_eq_true (List.all_eq_true.mp (List.all_eq_true.mp ascii name member) b inName)

/-- A link that leads nowhere is as long as its target is spelled; the other one is as long as the file. -/
def rowsOfKinds : List Entry :=
  [⟨utf8 "dangling", false, 7, some ⟨0, 0⟩⟩, ⟨utf8 "out", false, 2, some ⟨0, 0⟩⟩, ⟨utf8 "pipe", false, 0, some ⟨0, 0⟩⟩,
    ⟨utf8 "shelf", true, 4096, some ⟨0, 0⟩⟩, ⟨utf8 "socket", false, 0, some ⟨0, 0⟩⟩]

theorem entries_of_kinds : entries treeOfKinds (Location.path [utf8 "www"]) = .ok rowsOfKinds := by cbv

theorem each_entry_once_of_kinds :
    entries treeOfKinds (Location.path [utf8 "www"]) = .ok rowsOfKinds ∧
      (rowsOfKinds.map Entry.name).Perm (kinds.map Prod.fst) ∧ (rowsOfKinds.map Entry.name).Pairwise (· < ·) ∧
      entries { treeOfKinds with root := rootOfKinds kinds.reverse } (Location.path [utf8 "www"]) = .ok rowsOfKinds := by
  have shuffled : treeOfKinds.root.Shuffled (rootOfKinds kinds.reverse) :=
    @Node.Shuffled.inner {} [] [(utf8 "f", .file 0)] (utf8 "www") _ _ (.entries (List.reverse_perm kinds).symm)
  obtain ⟨rows, listed, perm, increasing, -, -, reordered⟩ :=
    each_entry_once treeOfKinds_proper treeOfKinds_reach rfl kinds_text
  cases entries_of_kinds.symm.trans listed
  exact ⟨listed, perm, increasing, (reordered _ shuffled).1⟩

end Listing

end Docroot
