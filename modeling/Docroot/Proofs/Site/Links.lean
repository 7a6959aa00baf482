import Docroot.Proofs.FileSystem.Arrival
import Docroot.Proofs.FileSystem.Tree
import Docroot.Proofs.Message.RequestTarget
import Docroot.Proofs.Site.Anchors
import Docroot.Proofs.Site.Containment
import Docroot.Proofs.Text.Percent
import Mathlib

/-!
Links of a listing. A link is the path that was asked for, one slash, and the name of the entry, encoded. It
is decoded apart at that slash, so it is walked to the directory first, however its path spells that, and from
there to the entry.
-/
namespace Docroot

namespace Target

variable {fs : FileSystem} {place : Location}

theorem decode?_eq_some_iff {path decoded : Bytes} :
    decode? path = some decoded ↔
      decoded = Percent.decode path ∧ Utf8.WellFormed decoded ∧ 0 ∉ decoded := by
  unfold decode?
  dsimp only
  rw [← Utf8.isValid_iff]
  constructor
  · intro isText
    split at isText
    · next text =>
      cases isText
      exact ⟨rfl, text⟩
    · cases isText
  · rintro ⟨rfl, text⟩
    exact if_pos text

theorem offer_plain {node : Node} (found : fs.at? place = some node) (plain : node.isPlain = true)
    (privileged : fs.privileged = true) : ∃ target, offer fs place = .ok target := by
  unfold offer Handle.openAt
  rw [found]
  cases node with
  | file number =>
      refine ⟨.file place { number } (Handle.length fs { number }), ?_⟩
      simp [FileSystem.mayOpen, privileged]
  | directory info entries => exact ⟨_, rfl⟩
  | _ => cases plain

theorem resolve_slash {info : DirectoryInfo} {entries : List (Bytes × Node)} (proper : fs.root.Proper)
    (privileged : fs.privileged = true) (settled : fs.Settled place)
    (found : fs.at? place = some (.directory info entries)) (near : FileSystem.isTooFar place 1 = false) :
    resolve fs place [47] = .ok (.directory place) := by
  have noZero : 0 ∉ place.path :=
    Location.not_mem_path (by decide) fun name member => (proper.names found name member).no_zero
  have arrives : fs.canonicalize (Path.join place.path []) = .ok place :=
    (FileSystem.canonicalize_join_iff settled.names).mpr ⟨noZero, List.not_mem_nil, FileSystem.maxLinks,
      (FileSystem.walks_from_root proper privileged settled found near).2⟩
  have isText : decode? [47] = some [47] :=
    decode?_eq_some_iff.mpr ⟨rfl, .ascii_cons (by decide) .nil, by decide⟩
  refine resolve_eq_ok_iff.mpr ⟨[47], place, isText, arrives, List.prefix_rfl, ?_⟩
  rw [offer, found]

end Target

namespace Listing

section Front

open Percent

/-- A path up to the slash that every link on it goes on from. -/
theorem linkBase_eq (path : Bytes) :
    ∃ lead front, (lead = [] ∨ lead = [47]) ∧ linkBase path = front ++ [47] ∧
      (front = lead ++ path ∨ front ++ [47] = lead ++ path) := by
  have start : ∃ lead : Bytes, (lead = [] ∨ lead = [47]) ∧
      (if path.head? = some 47 then path else 47 :: path) = lead ++ path := by
    split
    · exact ⟨[], .inl rfl, rfl⟩
    · exact ⟨[47], .inr rfl, rfl⟩
  obtain ⟨lead, isLead, base⟩ := start
  unfold linkBase
  dsimp only
  rw [base]
  split
  · next isSlash =>
    obtain ⟨front, same⟩ := List.getLast?_eq_some_iff.mp isSlash
    exact ⟨lead, front, isLead, same, .inr same.symm⟩
  · exact ⟨lead, lead ++ path, isLead, rfl, .inl rfl⟩

theorem linkBase_ne_nil (path : Bytes) : linkBase path ≠ [] := by
  obtain ⟨lead, front, -, base, -⟩ := linkBase_eq path
  simp [base]

theorem decode_lead {lead : Bytes} (isLead : lead = [] ∨ lead = [47]) (path : Bytes) :
    decode (lead ++ path) = lead ++ decode path := by
  rcases isLead with rfl | rfl
  · rfl
  · exact decode_append_slash [] path

/-- The decoded path up to that slash, which is decoded apart from what comes behind it. -/
theorem decode_linkBase (path : Bytes) :
    ∃ lead front, (lead = [] ∨ lead = [47]) ∧
      (front = lead ++ decode path ∨ front ++ [47] = lead ++ decode path) ∧
      ∀ rest, decode (linkBase path ++ rest) = front ++ 47 :: decode rest := by
  obtain ⟨lead, front, isLead, base, same⟩ := linkBase_eq path
  refine ⟨lead, decode front, isLead, ?_, ?_⟩
  · rcases same with same | same
    · exact .inl (by rw [same, decode_lead isLead])
    · right
      rw [← decode_lead isLead, ← same]
      exact (decode_append_slash front []).symm
  · intro rest
    rw [base, List.append_assoc, List.singleton_append, decode_append_slash]

theorem dropWhile_lead {lead : Bytes} (isLead : lead = [] ∨ lead = [47]) (text : Bytes) :
    (lead ++ text).dropWhile (· == Path.separator) = text.dropWhile (· == Path.separator) := by
  rcases isLead with rfl | rfl <;> rfl

/-- The pieces of a decoded link are those of the path it is on, but for a slash at its end, and then those of
what comes behind. -/
theorem pieces_front {lead front text rest : Bytes} (isLead : lead = [] ∨ lead = [47])
    (same : front = lead ++ text ∨ front ++ [47] = lead ++ text)
    (noSlash : rest.dropWhile (· == Path.separator) = rest) :
    ∃ before,
      (Path.pieces (text.dropWhile (· == Path.separator)) = before ∨
        Path.pieces (text.dropWhile (· == Path.separator)) = before ++ [[]]) ∧
      Path.pieces ((front ++ 47 :: rest).dropWhile (· == Path.separator)) = before ++ Path.pieces rest := by
  have skipped : text.dropWhile (· == Path.separator) = front.dropWhile (· == Path.separator) ∨
      text.dropWhile (· == Path.separator) = (front ++ [47]).dropWhile (· == Path.separator) := by
    rw [← dropWhile_lead isLead text]
    rcases same with same | same
    · exact .inl (by rw [same])
    · exact .inr (by rw [same])
  have behind : ∀ more, (front ++ 47 :: more).dropWhile (· == Path.separator) =
      if (front.dropWhile (· == Path.separator)).isEmpty then more.dropWhile (· == Path.separator)
      else front.dropWhile (· == Path.separator) ++ 47 :: more := fun more => List.dropWhile_append
  rw [behind] at skipped ⊢
  -- A path of slashes alone is skipped with the slash behind it, and has no pieces.
  by_cases onlySlashes : front.dropWhile (· == Path.separator) = []
  · have nothing : text.dropWhile (· == Path.separator) = [] := by simpa [onlySlashes] using skipped
    rw [onlySlashes, List.isEmpty_nil, if_pos rfl, noSlash, nothing]
    exact ⟨[], .inr rfl, rfl⟩
  · rw [if_neg (by simpa using onlySlashes)] at skipped ⊢
    refine ⟨Path.pieces (front.dropWhile (· == Path.separator)), ?_, splitWhere_append rfl _ rest⟩
    rcases skipped with same | same
    · exact .inl (by rw [same])
    · right
      rw [same]
      exact splitWhere_append rfl _ []

theorem front_text {lead front text : Bytes} (isLead : lead = [] ∨ lead = [47])
    (same : front = lead ++ text ∨ front ++ [47] = lead ++ text) (isText : Utf8.WellFormed text)
    (noZero : 0 ∉ text) : Utf8.WellFormed front ∧ 0 ∉ front := by
  have leadText : Utf8.WellFormed (lead ++ text) ∧ 0 ∉ lead ++ text := by
    rcases isLead with rfl | rfl
    · exact ⟨isText, noZero⟩
    · exact ⟨isText.ascii_cons (by decide), by simpa using noZero⟩
  rcases same with rfl | same
  · exact leadText
  · rw [← same] at leadText
    exact ⟨(leadText.1.around_ascii (by decide)).1, mt (List.mem_append_left _) leadText.2⟩

theorem isTarget_linkBase {path : Bytes} (isTarget : IsTarget path) : IsTarget (linkBase path) := by
  obtain ⟨lead, front, isLead, base, same⟩ := linkBase_eq path
  have leadTarget : IsTarget (lead ++ path) := by
    rcases isLead with rfl | rfl
    · exact isTarget
    · exact IsTarget.slash.append isTarget
  rw [base]
  rcases same with rfl | same
  · exact leadTarget.append .slash
  · rwa [same]

end Front

section Entry

open FileSystem

variable {fs : FileSystem} {root place : Location} {path name : Bytes} {node : Node}

/-- What a link to a node ends with. -/
def ending (node : Node) : Bytes := if node.isDirectory then [47] else []

theorem settled_entry (settled : fs.Settled place) (found : fs.at? (place ++ [name]) = some node)
    (proper : fs.root.Proper) (plain : node.isPlain = true) :
    fs.Settled (place ++ [name]) ∧ Path.IsEntryName name := by
  obtain ⟨info, entries, directory, child⟩ := directory_of_below found
  have noLink : node.isLink = false := by cases node <;> first | rfl | cases plain
  cases proper.at? directory with
  | directory _ names _ =>
      have isName := names _ (Node.mem_of_child? child)
      exact ⟨settled.below directory isName.toIsName child noLink, isName⟩

theorem walks_entry (settled : fs.Settled (place ++ [name])) (privileged : fs.privileged = true)
    (short : name.length ≤ maxName) (found : fs.at? (place ++ [name]) = some node)
    (near : isTooFar (place ++ [name]) (ending node).length = false) (links : Nat) :
    Walks .spelling fs links place (Path.pieces (name ++ ending node)) links (place ++ [name]) := by
  have whole : Path.pieces name = [name] := Path.pieces_of_one_piece (settled.names name (by simp)).one_piece
  have goes : Walks .spelling fs links place [name] links (place ++ [name]) :=
    walks_names settled privileged (List.forall_mem_singleton.mpr short) (near_zero near)
  unfold ending at near ⊢
  cases node with
  | directory info entries =>
      have parted : Path.pieces (name ++ [47]) = [name] ++ [[]] := by
        refine (splitWhere_append (by rfl) name []).trans (congrArg (· ++ [[]]) ?_)
        exact whole
      exact parted ▸ goes.trans (.blank found .done) near
  | _ =>
      have nothing : Path.pieces (name ++ []) = [name] := by rw [List.append_nil, whole]
      exact nothing ▸ goes

theorem ending_text (node : Node) : Utf8.WellFormed (ending node) ∧ 0 ∉ ending node := by
  unfold ending
  split
  · exact ⟨.ascii_cons (by decide) .nil, by decide⟩
  · exact ⟨.nil, List.not_mem_nil⟩

theorem decode_entry (name : Bytes) (node : Node) :
    Percent.decode (Percent.encodeSegment name ++ ending node) = name ++ ending node := by
  rw [Percent.decode_encodeSegment]
  unfold ending
  split <;> rfl

/-- A link is decoded to the front of its path, a slash, and the name. -/
theorem decode?_link {text : Bytes} (isDecoded : Target.decode? path = some text)
    (isText : Utf8.WellFormed name) (noZero : 0 ∉ name) (node : Node) :
    ∃ lead front, (lead = [] ∨ lead = [47]) ∧ (front = lead ++ text ∨ front ++ [47] = lead ++ text) ∧
      Target.decode? (linkBase path ++ (Percent.encodeSegment name ++ ending node)) =
        some (front ++ 47 :: (name ++ ending node)) := by
  obtain ⟨rfl, pathText, pathNoZero⟩ := Target.decode?_eq_some_iff.mp isDecoded
  obtain ⟨lead, front, isLead, same, decodes⟩ := decode_linkBase path
  obtain ⟨frontText, frontNoZero⟩ := front_text isLead same pathText pathNoZero
  obtain ⟨endingText, endingNoZero⟩ := ending_text node
  refine ⟨lead, front, isLead, same, Target.decode?_eq_some_iff.mpr ⟨?_, ?_, ?_⟩⟩
  · rw [decodes, decode_entry]
  · exact frontText.append ((isText.append endingText).ascii_cons (by decide))
  · simp [frontNoZero, noZero, endingNoZero]

/-- A link on a path that is resolved to a directory is resolved to the entry there. -/
theorem resolve_link (proper : fs.root.Proper) (privileged : fs.privileged = true)
    (resolved : Target.resolve fs root path = .ok (.directory place))
    (found : fs.at? (place ++ [name]) = some node) (plain : node.isPlain = true)
    (isText : Utf8.WellFormed name) (near : isTooFar (place ++ [name]) (ending node).length = false) :
    ∃ target,
      Target.resolve fs root (linkBase path ++ (Percent.encodeSegment name ++ ending node)) = .ok target ∧
      target.location = place ++ [name] ∧ target.Genuine fs := by
  obtain ⟨settledPlace, within, -⟩ := Target.resolve_ok resolved
  obtain ⟨settled, isName⟩ := settled_entry settledPlace found proper plain
  have rootNames : ∀ name ∈ root, Path.IsName name := fun name member =>
    settledPlace.names name (within.subset member)
  obtain ⟨text, place', isDecoded, arrived, -, offered⟩ := Target.resolve_eq_ok_iff.mp resolved
  obtain rfl : place = place' := (Target.offer_genuine offered).1
  obtain ⟨noZero, -, left, walks⟩ := (canonicalize_join_iff rootNames).mp arrived
  obtain ⟨lead, front, isLead, same, isDecoded'⟩ := decode?_link isDecoded isText isName.no_zero node
  have noSlash : (name ++ ending node).dropWhile (· == Path.separator) = name ++ ending node := by
    cases name with
    | nil => exact absurd rfl isName.ne_nil
    | cons b name =>
        have differs : b ≠ Path.separator := fun is => isName.one_piece (is ▸ List.mem_cons_self)
        rw [List.cons_append, List.dropWhile_cons_of_neg (by simpa using differs)]
  obtain ⟨before, atPath, atLink⟩ := pieces_front isLead same noSlash
  -- Both are walked alike up to the directory, and there the name leads on.
  have toPlace : Walks .spelling fs maxLinks [] ([] :: root ++ before) left place := by
    rcases atPath with whole | slashed
    · rwa [whole] at walks
    · rw [slashed, ← List.append_assoc] at walks
      exact walks.of_slash
  have toEntry := walks_entry settled privileged isName.short found near left
  have arrives : fs.canonicalize (Path.join root.path
      ((front ++ 47 :: (name ++ ending node)).dropWhile (· == Path.separator))) = .ok (place ++ [name]) := by
    refine (canonicalize_join_iff rootNames).mpr ⟨noZero, fun inside => ?_, left, ?_⟩
    · exact (Target.decode?_eq_some_iff.mp isDecoded').2.2 ((List.dropWhile_suffix _).subset inside)
    · rw [atLink, ← List.append_assoc]
      exact toPlace.trans toEntry (near_above near)
  obtain ⟨target, offered'⟩ := Target.offer_plain found plain privileged
  refine ⟨target, ?_, Target.offer_genuine offered'⟩
  exact Target.resolve_eq_ok_iff.mpr
    ⟨_, _, isDecoded', arrives, within.trans (List.prefix_append _ _), offered'⟩

/-- A row tells a directory from a file, whether its entry is looked at by its path or by itself. -/
theorem entryAt_isDirectory (settled : fs.Settled (place ++ [name])) (privileged : fs.privileged = true)
    (found : fs.at? (place ++ [name]) = some node) (near : isTooFar (place ++ [name]) 0 = false) :
    (entryAt fs place name).isDirectory = node.isDirectory := by
  obtain ⟨info, entries, directory, child⟩ := directory_of_below found
  have spelled : Path.join place.path name = Location.path (place ++ [name]) :=
    Path.join_path (fun n member => settled.names n (List.mem_append_left _ member)) name
  rw [entryAt, spelled]
  cases looked : fs.targetAt (Location.path (place ++ [name])) with
  | ok metadata =>
      unfold targetAt at looked
      split at looked
      · next location reached =>
        obtain rfl := reach_path settled reached
        rw [FileSystem.metadata, found] at looked
        cases looked
        exact describe_isDirectory fs node
      · cases looked
  | error e =>
      have itself : fs.itselfAt place.path place name = .ok (fs.describe node) := by
        have short : ¬ maxPath < (Location.path (place ++ [name])).length := by simpa [isTooFar] using near
        have searchable : fs.maySearch info ≠ false := by simp [maySearch, privileged]
        rw [itselfAt, spelled, if_neg short, directory]
        dsimp only
        rw [if_neg searchable, child]
      rw [itself]
      exact describe_isDirectory fs node

theorem entryAt_shown (name : Bytes) : (entryAt fs place name).name = Utf8.repair name := by
  rw [entryAt, entry_name]

theorem entryAt_name (isText : Utf8.isValid name = true) : (entryAt fs place name).name = name := by
  rw [entryAt_shown, Utf8.repair_of_valid isText]

theorem anchor_shown (settled : fs.Settled (place ++ [name])) (privileged : fs.privileged = true)
    (found : fs.at? (place ++ [name]) = some node) (near : isTooFar (place ++ [name]) 0 = false) (base : Bytes) :
    anchor base (entryAt fs place name) =
      (base ++ (Percent.encodeSegment (Utf8.repair name) ++ ending node), Utf8.repair name ++ ending node) := by
  have shownSlash : slash (entryAt fs place name) = ending node := by
    rw [slash, entryAt_isDirectory settled privileged found near, ending]
  rw [anchor, link, entryAt_shown, shownSlash, List.append_assoc]

theorem anchor_entryAt (settled : fs.Settled (place ++ [name])) (privileged : fs.privileged = true)
    (found : fs.at? (place ++ [name]) = some node) (near : isTooFar (place ++ [name]) 0 = false)
    (isText : Utf8.isValid name = true) (base : Bytes) :
    anchor base (entryAt fs place name) =
      (base ++ (Percent.encodeSegment name ++ ending node), name ++ ending node) := by
  rw [anchor_shown settled privileged found near, Utf8.repair_of_valid isText]

theorem pieces_slashed (text : Bytes) :
    ∃ before, Path.pieces ((text ++ [47]).dropWhile (· == Path.separator)) = before ++ [[]] := by
  rw [List.dropWhile_append]
  split
  · exact ⟨[], rfl⟩
  · exact ⟨Path.pieces (text.dropWhile (· == Path.separator)), splitWhere_append rfl _ []⟩

/-- What a link is resolved to can be spelled, and with a slash behind it if the link ends with one. -/
theorem near_of_resolve_link {target : Target} (rootNames : ∀ name ∈ root, Path.IsName name)
    (resolved : Target.resolve fs root (linkBase path ++ (Percent.encodeSegment name ++ ending node)) =
      .ok target) : isTooFar target.location (ending node).length = false := by
  obtain ⟨decoded, place, isDecoded, arrived, -, offered⟩ := Target.resolve_eq_ok_iff.mp resolved
  obtain ⟨lead, front, -, -, decodes⟩ := decode_linkBase path
  obtain ⟨rfl, -, -⟩ := Target.decode?_eq_some_iff.mp isDecoded
  obtain ⟨-, -, left, walks⟩ := (canonicalize_join_iff rootNames).mp arrived
  rw [(Target.offer_genuine offered).1]
  rw [decodes, decode_entry] at walks
  unfold ending at walks ⊢
  split
  · next isDirectory =>
    rw [if_pos isDirectory, ← List.cons_append, ← List.append_assoc] at walks
    obtain ⟨before, ends⟩ := pieces_slashed (front ++ 47 :: name)
    rw [ends, ← List.append_assoc] at walks
    refine walks.not_too_far_for_slash ?_ (by decide)
    intro last isLast
    rw [List.getLast?_concat] at isLast
    exact (Option.some.inj isLast).symm
  · exact walks.not_too_far (by decide)

end Entry

/-- A link can be asked for: it has no query, and if it is not too long for one, a request for it can be read. -/
structure Requestable (link : Bytes) : Prop where
  noQuery : stripQuery link = link
  requested : link.length ≤ Head.maxTarget → ∃ request count,
    Head.read (Head.lineFor link ++ Head.terminator) = .ok (request, count) ∧ request.method = .get ∧
      request.path = link

/-- A link leads to a place: it is resolved to what is there. -/
def LeadsTo (fs : FileSystem) (root : Location) (link : Bytes) (place : Location) : Prop :=
  ∃ target, Target.resolve fs root link = .ok target ∧ target.location = place ∧ target.Genuine fs

theorem isTarget_segment (name : Bytes) : IsTarget (Percent.encodeSegment name) where
  text := .of_ascii fun b member => (Percent.safe_encodeSegment member).1
  plain b member := by
    obtain ⟨-, -, notQuery, notFragment, notBlank⟩ := Percent.safe_encodeSegment member
    exact ⟨notBlank, notQuery, notFragment⟩

theorem requestable_link {path : Bytes} (isTarget : IsTarget path) (e : Entry) :
    Requestable (link (linkBase path) e) := by
  have last : IsTarget (slash e) := by
    unfold slash
    split
    · exact .slash
    · exact ⟨.nil, nofun⟩
  have whole : IsTarget (link (linkBase path) e) :=
    ((isTarget_linkBase isTarget).append (isTarget_segment e.name)).append last
  refine ⟨whole.stripQuery_eq, ?_⟩
  intro short
  have ne_nil : link (linkBase path) e ≠ [] :=
    List.append_ne_nil_of_left_ne_nil (List.append_ne_nil_of_left_ne_nil (linkBase_ne_nil path) _) _
  exact ⟨_, _, Head.read_lineFor whole ne_nil short, rfl, whole.stripQuery_eq⟩

theorem link_injective {base : Bytes} {e e' : Entry} (noSlash : 47 ∉ e.name) (noSlash' : 47 ∉ e'.name)
    (same : link base e = link base e') : e.name = e'.name := by
  have segments : Percent.encodeSegment e.name ++ slash e = Percent.encodeSegment e'.name ++ slash e' := by
    rw [link, link, List.append_assoc, List.append_assoc] at same
    exact List.append_cancel_left same
  have read : ∀ e : Entry, 47 ∉ e.name →
      (Percent.decode (Percent.encodeSegment e.name ++ slash e)).takeWhile (· != 47) = e.name := by
    intro e noSlash
    have plain : ∀ b ∈ e.name, (b != 47) = true := fun b member =>
      bne_iff_ne.mpr fun is => noSlash (is ▸ member)
    rw [Percent.decode_encodeSegment, List.takeWhile_append_of_pos plain]
    unfold slash
    split <;> simp [Percent.decode, Percent.decodeOnto]
  rw [← read e noSlash, segments, read e' noSlash']

/-- Every entry of a listed directory that is itself a file or a directory, under a name that is text, has one
row. The link of that row is shared with no entry that is shown under another name. It can be asked for, and it
leads back to the entry exactly where the place can be spelled with what the link of its kind ends with. -/
theorem links_lead_back {fs : FileSystem} {root place : Location} {raw name page : Bytes} {request : Request}
    {node : Node} {limit : Nat} (proper : fs.root.Proper) (privileged : fs.privileged = true)
    (parsed : Head.parse raw = .ok request)
    (resolved : Target.resolve fs root request.path = .ok (.directory place))
    (listed : ofPath fs place.path request.path limit = .ok page)
    (found : fs.at? (place ++ [name]) = some node) (plain : node.isPlain = true)
    (isText : Utf8.isValid name = true) :
    let row other := anchor (linkBase request.path) (entryAt fs place other)
    ∃ names above below,
      fs.entryNames place = .ok names ∧ (above ++ name :: below).Perm names ∧ name ∉ above ++ below ∧
      Markup.anchors page = (parentOf (linkBase request.path), utf8 "..") ::
        (above.map row ++ row name :: below.map row) ∧
      (entryAt fs place name).name = name ∧
      (∀ other ∈ above ++ below, Utf8.repair other ≠ name → (row other).1 ≠ (row name).1) ∧
      Requestable (row name).1 ∧
      (LeadsTo fs root (row name).1 (place ++ [name]) ↔
        (Location.path (place ++ [name])).length + (ending node).length ≤ FileSystem.maxPath) := by
  intro row
  have settledPlace : fs.Settled place := (Target.resolve_ok resolved).1
  have rootNames : ∀ name ∈ root, Path.IsName name := fun name member =>
    settledPlace.names name ((Target.resolve_ok resolved).2.1.subset member)
  obtain ⟨settled, isName⟩ := settled_entry settledPlace found proper plain
  obtain ⟨names, sorted, namesOf, perm, anchors⟩ := anchors_ofPath settledPlace listed
  obtain ⟨distinct, allNames⟩ := FileSystem.entryNames_proper proper namesOf
  have inside := perm.mem_iff.mpr (FileSystem.mem_entryNames namesOf found)
  -- The names of a directory differ, so the rows are cut at the one row for this name.
  obtain ⟨above, below, rfl⟩ := List.append_of_mem inside
  have alone : name ∉ above ++ below := (List.nodup_middle.mp (perm.nodup_iff.mpr distinct)).notMem
  have rowOf : FileSystem.isTooFar (place ++ [name]) 0 = false → (row name).1 =
      linkBase request.path ++ (Percent.encodeSegment name ++ ending node) := fun near =>
    congrArg Prod.fst (anchor_entryAt settled privileged found near isText (linkBase request.path))
  refine ⟨names, above, below, namesOf, perm, alone, ?_, entryAt_name isText, ?_,
    requestable_link (Head.isTarget_path parsed) (entryAt fs place name), ?_⟩
  · rw [anchors, List.map_append, List.map_cons]
  · intro other member shownElse same
    have otherInside : other ∈ names :=
      perm.mem_iff.mp (List.mem_append.mpr ((List.mem_append.mp member).imp_right (List.mem_cons_of_mem name)))
    have otherName : 47 ∉ (entryAt fs place other).name := by
      rw [entryAt_shown]
      exact mt (Utf8.mem_of_mem_repair (by decide)) (allNames other otherInside).one_piece
    have sameName := link_injective otherName (by rw [entryAt_name isText]; exact isName.one_piece) same
    rw [entryAt_shown, entryAt_name isText] at sameName
    exact shownElse sameName
  · have bound : FileSystem.isTooFar (place ++ [name]) (ending node).length = false ↔
        (Location.path (place ++ [name])).length + (ending node).length ≤ FileSystem.maxPath := by
      simp [FileSystem.isTooFar]
    rw [← bound]
    constructor
    · rintro ⟨target, isTarget, same, -⟩
      obtain ⟨decoded, arrivedAt, -, arrived, -, offered⟩ := Target.resolve_eq_ok_iff.mp isTarget
      obtain ⟨-, -, left, walks⟩ := FileSystem.canonicalize_eq_ok_iff.mp arrived
      have near := walks.not_too_far (by decide)
      rw [← (Target.offer_genuine offered).1, same] at near
      rw [rowOf near] at isTarget
      exact same ▸ near_of_resolve_link rootNames isTarget
    · intro near
      rw [rowOf (FileSystem.near_zero near)]
      exact resolve_link proper privileged resolved found plain (Utf8.isValid_iff.mp isText) near

/-- A tree with names that have to be encoded in more than one way. -/
def treeOfNames : FileSystem where
  root := .directory {} [(utf8 "50%?", .file 0), (utf8 "a \"b\" & c", .directory {} [])]
  files := [{ content := utf8 "hi" }]

theorem links_lead_back_to_file :
    ∃ limit page link, ofPath treeOfNames (Location.path []) [47] limit = .ok page ∧
      (link, utf8 "50%?") ∈ Markup.anchors page ∧ Requestable link ∧
      LeadsTo treeOfNames [] link [utf8 "50%?"] := by
  have proper : treeOfNames.root.Proper :=
    .of_pair (by decide) (by decide) (by decide +kernel) (.file 0) (.directory .nil nofun nofun)
  have settled : treeOfNames.Settled [] := FileSystem.settled_top rfl rfl
  have near : FileSystem.isTooFar [] 1 = false := by decide
  have parsed := Head.parse_lineFor .slash (by decide) (by decide)
  have resolved := Target.resolve_slash proper rfl settled rfl near
  obtain ⟨limit, page, listed⟩ :=
    exists_ofPath (FileSystem.reach_settled proper rfl settled rfl near) rfl [47]
  have isText : Utf8.isValid (utf8 "50%?") = true := Utf8.isValid_iff.mpr (.of_ascii (by decide +kernel))
  have inside : treeOfNames.Settled ([] ++ [utf8 "50%?"]) :=
    settled.below rfl ⟨by decide, by decide, by decide, by decide⟩ rfl rfl
  obtain ⟨names, above, below, -, -, -, anchors, -, -, requestable, leads⟩ :=
    links_lead_back proper rfl parsed resolved listed rfl rfl isText
  refine ⟨limit, page, _, listed, ?_, requestable, leads.mpr (by decide +kernel)⟩
  have shown : (anchor (linkBase [47]) (entryAt treeOfNames [] (utf8 "50%?"))).2 = utf8 "50%?" := by
    rw [anchor_entryAt inside rfl rfl (by decide +kernel) isText]
    exact List.append_nil _
  rw [anchors]
  exact List.mem_cons_of_mem _ (List.mem_append_right _ (List.mem_cons.mpr (.inl (Prod.ext rfl shown.symm))))

section Far

/-- A node at the end of `depth` directories, each with one entry of the same name. -/
def nested (name : Bytes) (node : Node) : Nat → Node
  | 0 => node
  | depth + 1 => .directory {} [(name, nested name node depth)]

variable {name : Bytes} {node : Node}

theorem nested_proper (isName : Path.IsEntryName name) (proper : node.Proper) (depth : Nat) :
    (nested name node depth).Proper := by
  induction depth with
  | zero => exact proper
  | succ depth ih =>
      refine .directory (List.nodup_singleton name) ?_ ?_
      · exact List.forall_mem_singleton.mpr isName
      · exact List.forall_mem_singleton.mpr ih

theorem nested_at? (name : Bytes) (node : Node) (depth : Nat) (below : Location) :
    (nested name node depth).at? (List.replicate depth name ++ below) = node.at? below := by
  induction depth with
  | zero => rfl
  | succ depth ih =>
      have child : (nested name node (depth + 1)).child? name = some (nested name node depth) := by
        simp [nested, Node.child?]
      rw [List.replicate_succ, List.cons_append, Node.at?, child]
      exact ih

theorem nested_add (name : Bytes) (node : Node) (depth more : Nat) :
    nested name node (depth + more) = nested name (nested name node more) depth := by
  induction depth with
  | zero => rw [Nat.zero_add]; rfl
  | succ depth ih => rw [Nat.succ_add, nested, ih]; rfl

theorem nested_settled {fs : FileSystem} (isName : Path.IsEntryName name) (noLink : node.isLink = false)
    {depth : Nat} (root : fs.root = nested name node depth) : fs.Settled (List.replicate depth name) where
  names other member := List.eq_of_mem_replicate member ▸ isName.toIsName
  nodes above isAbove := by
    obtain ⟨short, same⟩ := List.prefix_replicate_iff.mp isAbove
    refine ⟨nested name node (depth - above.length), ?_, ?_⟩
    · change fs.root.at? above = _
      have apart : depth = above.length + (depth - above.length) := by omega
      rw [root, apart, nested_add, Nat.add_sub_cancel_left]
      have found := nested_at? name (nested name node (depth - above.length)) above.length []
      rw [List.append_nil, ← same] at found
      exact found
    · cases depth - above.length with
      | zero => exact noLink
      | succ => rfl

def longName : Bytes := List.replicate 250 110

theorem length_path_replicate (depth : Nat) (name : Bytes) :
    (Location.path (List.replicate (depth + 1) name)).length = (depth + 1) * (name.length + 1) := by
  rw [List.replicate_succ, Location.path_cons, List.length_append, List.length_flatMap, List.map_replicate,
    List.sum_replicate_nat, List.length_cons]
  ring

/-- A name for which a directory can just be spelled below sixteen long names, but not with a slash. -/
def edgeName : Bytes := List.replicate 78 98

/-- A directory with an empty one, under sixteen directories with long names. -/
def deepTree : FileSystem where
  root := nested longName (.directory {} [(edgeName, .directory {} [])]) 16

def deepPlace : Location := List.replicate 16 longName

theorem deepTree_proper : deepTree.root.Proper := by
  have isName : Path.IsEntryName longName := by decide +kernel
  refine nested_proper isName ?_ 16
  exact .directory (List.nodup_singleton edgeName) (by decide +kernel)
    (List.forall_mem_singleton.mpr (.directory .nil nofun nofun))

theorem deepTree_at_place :
    deepTree.at? deepPlace = some (.directory {} [(edgeName, .directory {} [])]) ∧
      deepTree.at? (deepPlace ++ [edgeName]) = some (.directory {} []) := by
  have bottom := nested_at? longName (.directory {} [(edgeName, .directory {} [])]) 16 []
  rw [List.append_nil] at bottom
  have found : deepTree.at? deepPlace = some (.directory {} [(edgeName, .directory {} [])]) := bottom
  refine ⟨found, ?_⟩
  rw [FileSystem.at?_concat found]
  simp [Node.child?]

theorem length_deepPlace :
    deepPlace.path.length = 4016 ∧ (Location.path (deepPlace ++ [edgeName])).length = 4095 := by
  have above : deepPlace.path.length = 4016 := by
    rw [deepPlace, length_path_replicate 15, longName, List.length_replicate]
  have last : (Location.path [edgeName]).length = 79 := by
    rw [← List.replicate_one, length_path_replicate 0, edgeName, List.length_replicate]
  refine ⟨above, ?_⟩
  rw [Location.path_append (by decide) (by decide), List.length_append, above, last]

/-- A file whose name is no text, and one whose name is what the other is shown as. -/
def alikeTree : FileSystem where
  root := .directory {} [([0xff], .file 0), ([0xef, 0xbf, 0xbd], .file 0)]
  files := [{ content := utf8 "hi" }]

theorem alikeTree_proper : alikeTree.root.Proper :=
  .of_pair (by decide) (by decide) (by decide) (.file 0) (.file 0)

/-- Both files are shown alike, so that the rows do not tell in which order they stand. -/
theorem alikeTree_anchors {page : Bytes} {limit : Nat}
    (listed : ofPath alikeTree (Location.path []) [47] limit = .ok page) :
    Markup.anchors page =
      ([47], utf8 "..") :: List.replicate 2 (utf8 "/%EF%BF%BD", [0xef, 0xbf, 0xbd]) := by
  have settled : alikeTree.Settled [] := FileSystem.settled_top rfl rfl
  obtain ⟨names, sorted, isThere, perm, anchors⟩ := anchors_ofPath settled listed
  obtain rfl : [[0xff], [0xef, 0xbf, 0xbd]] = names := Except.ok.inj isThere
  have alike : ∀ name ∈ sorted, anchor (linkBase [47]) (entryAt alikeTree [] name) =
      (utf8 "/%EF%BF%BD", [0xef, 0xbf, 0xbd]) := by
    intro name member
    obtain ⟨shown, isName, found, near⟩ : Utf8.repair name = [0xef, 0xbf, 0xbd] ∧ Path.IsName name ∧
        alikeTree.at? ([] ++ [name]) = some (.file 0) ∧ FileSystem.isTooFar ([] ++ [name]) 0 = false := by
      have inside := perm.mem_iff.mp member
      simp only [List.mem_cons, List.not_mem_nil, or_false] at inside
      rcases inside with rfl | rfl
      · exact ⟨by cbv, ⟨by decide, by decide, by decide, by decide⟩, rfl, by decide⟩
      · exact ⟨by cbv, ⟨by decide, by decide, by decide, by decide⟩, rfl, by decide⟩
    have inside := settled.below rfl isName ((FileSystem.at?_concat rfl name).symm.trans found) rfl
    rw [anchor_shown inside rfl found near, shown]
    decide +kernel
  rw [anchors, List.map_congr_left alike, List.map_const', perm.length_eq]
  rfl

/-- Two files can have one link, which leads to one of them; and the link to a directory that can just be
spelled leads nowhere, since it ends with a slash. -/
theorem links_shared_or_lost :
    Head.parse (Head.lineFor [47]) = .ok ⟨.get, [47], utf8 "HTTP/1.1", Head.headers []⟩ ∧
    (alikeTree.root.Proper ∧ alikeTree.privileged = true ∧
      Target.resolve alikeTree [] [47] = .ok (.directory []) ∧
      alikeTree.at? [[0xef, 0xbf, 0xbd]] = some (.file 0) ∧ Utf8.isValid [0xef, 0xbf, 0xbd] = true ∧
      ∃ limit page, ofPath alikeTree (Location.path []) [47] limit = .ok page ∧
        Markup.anchors page =
          ([47], utf8 "..") :: List.replicate 2 (utf8 "/%EF%BF%BD", [0xef, 0xbf, 0xbd])) ∧
    deepTree.root.Proper ∧ deepTree.privileged = true ∧
      Target.resolve deepTree deepPlace [47] = .ok (.directory deepPlace) ∧
      deepTree.at? (deepPlace ++ [edgeName]) = some (.directory {} []) ∧ Utf8.isValid edgeName = true ∧
      ∃ limit page link, ofPath deepTree deepPlace.path [47] limit = .ok page ∧
        Markup.anchors page = [([47], utf8 ".."), (link, edgeName ++ [47])] ∧
        ∀ target, Target.resolve deepTree deepPlace link = .ok target →
          target.location ≠ deepPlace ++ [edgeName] := by
  refine ⟨Head.parse_lineFor .slash (by decide) (by decide), ?_, ?_⟩
  · have settled : alikeTree.Settled [] := FileSystem.settled_top rfl rfl
    have near : FileSystem.isTooFar [] 1 = false := by decide
    obtain ⟨limit, page, listed⟩ :=
      exists_ofPath (FileSystem.reach_settled alikeTree_proper rfl settled rfl near) rfl [47]
    exact ⟨alikeTree_proper, rfl, Target.resolve_slash alikeTree_proper rfl settled rfl near, rfl, by cbv,
      limit, page, listed, alikeTree_anchors listed⟩
  · have settled : deepTree.Settled deepPlace := nested_settled (by decide +kernel) rfl rfl
    obtain ⟨found, child⟩ := deepTree_at_place
    obtain ⟨above, below⟩ := length_deepPlace
    have near : FileSystem.isTooFar deepPlace 1 = false := by
      simp [FileSystem.isTooFar, FileSystem.maxPath, above]
    have nearBelow : FileSystem.isTooFar (deepPlace ++ [edgeName]) 0 = false := by
      simp [FileSystem.isTooFar, FileSystem.maxPath, below]
    have readable : deepTree.entryNames deepPlace = .ok [edgeName] := by
      rw [FileSystem.entryNames, found]
      rfl
    have isText : Utf8.isValid edgeName = true := by
      have ascii : ∀ b ∈ edgeName, b.toNat < 0x80 := fun b member => List.eq_of_mem_replicate member ▸ by decide
      exact Utf8.isValid_iff.mpr (.of_ascii ascii)
    obtain ⟨limit, page, listed⟩ :=
      exists_ofPath (FileSystem.reach_settled deepTree_proper rfl settled found near) readable [47]
    obtain ⟨names, sorted, isThere, perm, anchors⟩ := anchors_ofPath settled listed
    obtain rfl : [edgeName] = names := Except.ok.inj (readable.symm.trans isThere)
    obtain rfl : sorted = [edgeName] := List.perm_singleton.mp perm
    obtain ⟨inside, -⟩ := settled_entry settled child deepTree_proper rfl
    have row := anchor_entryAt inside rfl child nearBelow isText (linkBase [47])
    refine ⟨deepTree_proper, rfl, Target.resolve_slash deepTree_proper rfl settled found near, child, isText,
      limit, page, linkBase [47] ++ (Percent.encodeSegment edgeName ++ [47]), listed, ?_, ?_⟩
    · rw [anchors, List.map_singleton, row]
      rfl
    · intro target resolved same
      have isNear : FileSystem.isTooFar target.location (ending (.directory {} [])).length = false :=
        near_of_resolve_link settled.names resolved
      rw [same, FileSystem.isTooFar, below] at isNear
      cases isNear

end Far

end Listing

end Docroot
