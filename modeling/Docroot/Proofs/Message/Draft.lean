import Docroot.Proofs.Message.Framing
import Docroot.Proofs.Message.HeadEnd
import Docroot.Proofs.Message.RequestTarget

/-!
Request heads as a client may write them, and how they are read back: the words of the first line, and for each name in
the lines behind it the value that comes last.
-/
namespace Docroot

namespace Text

theorem trim_of_ends {cs : List Char} (front : ∀ c ∈ cs.head?, isBlank c = false)
    (back : ∀ c ∈ cs.getLast?, isBlank c = false) : trim cs = cs := by
  rw [← List.head?_reverse] at back
  rw [trim, dropWhile_of_head front, dropWhile_of_head back, List.reverse_reverse]

theorem trim_space (cs : List Char) : trim (' ' :: cs) = trim cs := by
  rw [trim, List.dropWhile_cons_of_pos (by decide), trim]

end Text

namespace Headers

theorem ofList_append (fields : List (Bytes × Bytes)) (name value : Bytes) :
    ofList (fields ++ [(name, value)]) = (ofList fields).set name value := by
  rw [ofList, List.foldl_append]
  rfl

theorem nodup_ofList (fields : List (Bytes × Bytes)) : (ofList fields).names.Nodup := by
  induction fields using List.reverseRecOn with
  | nil => exact List.nodup_nil
  | append_singleton fields field ih =>
      rw [ofList_append]
      exact nodup_set _ _ ih

/-- What is stored under a name is what came last for it. -/
theorem mem_ofList_iff {fields : List (Bytes × Bytes)} {name value : Bytes} :
    (name, value) ∈ ofList fields ↔
      ∃ above below, fields = above ++ (name, value) :: below ∧ ∀ field ∈ below, field.1 ≠ name := by
  induction fields using List.reverseRecOn with
  | nil => simp [ofList]
  | append_singleton fields last ih =>
      obtain ⟨lastName, lastValue⟩ := last
      have distinct := nodup_ofList fields
      rw [ofList_append, ← get?_eq_some_iff (nodup_set _ _ distinct)]
      constructor
      · intro stored
        by_cases same : name = lastName
        · subst same
          rw [get?_set_self] at stored
          cases stored
          exact ⟨fields, [], rfl, nofun⟩
        · rw [get?_set_ne _ _ same, get?_eq_some_iff distinct, ih] at stored
          obtain ⟨above, below, rfl, isLast⟩ := stored
          refine ⟨above, below ++ [(lastName, lastValue)], by simp, ?_⟩
          simpa [or_imp, forall_and, Ne.symm same] using isLast
      · rintro ⟨above, below, parts, isLast⟩
        obtain rfl | ⟨between, field, rfl⟩ := below.eq_nil_or_concat
        · obtain ⟨-, same⟩ := List.append_inj' parts rfl
          cases same
          exact get?_set_self _ _ _
        · rw [List.concat_eq_append, ← List.cons_append, ← List.append_assoc] at parts
          obtain ⟨rfl, same⟩ := List.append_inj' parts rfl
          cases same
          have other : name ≠ lastName := fun same => isLast (lastName, lastValue) (by simp) same.symm
          rw [get?_set_ne _ _ other, get?_eq_some_iff distinct, ih]
          exact ⟨above, between, rfl, fun field member => isLast field (by simp [member])⟩

end Headers

namespace Head

/-- Text that can stand in a header line: it has no line end and no blanks at its ends. -/
structure IsFieldText (cs : List Char) : Prop where
  oneLine : ¬ lineEnd <:+: cs
  front : ∀ c ∈ cs.head?, Text.isBlank c = false
  back : ∀ c ∈ cs.getLast?, Text.isBlank c = false

def fieldText (field : List Char × List Char) : List Char := field.1 ++ ':' :: ' ' :: field.2

def fieldOctets (field : List Char × List Char) : Bytes × Bytes := (Utf8.encode field.1, Utf8.encode field.2)

section Field

variable {field : List Char × List Char}

theorem fieldText_oneLine (isName : IsFieldText field.1) (isValue : IsFieldText field.2) :
    indexOf? lineEnd (fieldText field) = none := by
  have name : indexOf? lineEnd field.1 = none := indexOf?_eq_none_iff_not_inside.mpr isName.oneLine
  have value : indexOf? lineEnd field.2 = none := indexOf?_eq_none_iff_not_inside.mpr isValue.oneLine
  have spaced : indexOf? lineEnd ([] ++ ' ' :: field.2) = none :=
    indexOf?_pair_append_cons (by decide) (by decide) rfl value
  exact indexOf?_pair_append_cons (by decide) (by decide) name spaced

/-- A header line is read as the name and the value that it was put together from. -/
theorem field?_fieldText (isName : IsFieldText field.1) (isValue : IsFieldText field.2) (noColon : ':' ∉ field.1) :
    field? (fieldText field) = some (fieldOctets field) := by
  have colon : indexOf? [':'] (field.1 ++ ([':'] ++ ' ' :: field.2)) = some field.1.length := by
    rw [indexOf?_append_of_not_mem noColon, indexOf?_append_right]
    rfl
  have broken : breakAt? [':'] (fieldText field) = some (field.1, ' ' :: field.2) := breakAt?_append colon
  rw [field?, broken, Option.map_some]
  dsimp only
  rw [Text.trim_space, Text.trim_of_ends isName.front isName.back, Text.trim_of_ends isValue.front isValue.back]
  rfl

/-- Text on one line is encoded on one line. -/
theorem encode_oneLine {cs : List Char} (oneLine : indexOf? lineEnd cs = none) :
    indexOf? Bytes.crlf (Utf8.encode cs) = none := by
  rw [indexOf?_eq_none_iff_not_inside] at oneLine ⊢
  rintro ⟨before, after, parts⟩
  have text := decodeLossy_crlf before after
  rw [← List.append_assoc, parts, Utf8.decodeLossy_encode, ← List.append_assoc] at text
  exact oneLine ⟨_, _, text.symm⟩

theorem encode_ne_nil {cs : List Char} (isSome : cs ≠ []) : Utf8.encode cs ≠ [] :=
  fun empty => isSome (Utf8.encode_injective empty)

end Field

/-- Lines that are not empty are read up to the empty one that follows them. -/
theorem leadingLines_lines {ls : List (List Char)} (lines : ∀ line ∈ ls, indexOf? lineEnd line = none ∧ line ≠ []) :
    leadingLines (ls.flatMap (· ++ lineEnd) ++ lineEnd) = ls := by
  induction ls with
  | nil => exact leadingLines_lineEnd []
  | cons line ls ih =>
      obtain ⟨⟨oneLine, isSome⟩, others⟩ := List.forall_mem_cons.mp lines
      have broken : breakAt? lineEnd (line ++ (lineEnd ++ (ls.flatMap (· ++ lineEnd) ++ lineEnd))) =
          some (line, ls.flatMap (· ++ lineEnd) ++ lineEnd) := breakAt?_pair (by decide) oneLine _
      rw [List.flatMap_cons, List.append_assoc, List.append_assoc, leadingLines_of_break broken, ih others, if_neg]
      simpa using isSome

theorem encode_lines (ls : List (List Char)) :
    Utf8.encode (ls.flatMap (· ++ lineEnd) ++ lineEnd) =
      ls.flatMap (fun line => Utf8.encode line ++ Bytes.crlf) ++ Bytes.crlf := by
  have ending : Utf8.encode lineEnd = Bytes.crlf := by decide
  unfold Utf8.encode at ending ⊢
  rw [List.flatMap_append, List.flatMap_assoc, ending]
  simp only [List.flatMap_append, ending]

theorem headers_lines {ls : List (List Char)} (lines : ∀ line ∈ ls, indexOf? lineEnd line = none ∧ line ≠ []) :
    headers (ls.flatMap (fun line => Utf8.encode line ++ Bytes.crlf) ++ Bytes.crlf) =
      .ofList (ls.filterMap field?) := by
  rw [← encode_lines, headers, Utf8.decodeLossy_encode, leadingLines_lines lines]

/-- A value stands under a name if it comes last for the text that the name encodes. -/
theorem mem_headers_iff {fields : List (List Char × List Char)} {name value : Bytes} :
    (name, value) ∈ Headers.ofList (fields.map fieldOctets) ↔
      ∃ above k w below, fields = above ++ (k, w) :: below ∧ (∀ field ∈ below, field.1 ≠ k) ∧
        name = Utf8.encode k ∧ value = Utf8.encode w := by
  rw [Headers.mem_ofList_iff]
  constructor
  · rintro ⟨above', below', parts, isLast⟩
    obtain ⟨above, field, rfl, rfl, same⟩ := List.map_eq_append_iff.mp parts
    obtain ⟨field, below, rfl, spelled, rfl⟩ := List.map_eq_cons_iff.mp same
    obtain ⟨rfl, rfl⟩ := Prod.mk.inj spelled
    refine ⟨above, field.1, field.2, below, rfl, ?_, rfl, rfl⟩
    intro other member same
    exact isLast _ (List.mem_map_of_mem member) (congrArg Utf8.encode same)
  · rintro ⟨above, k, w, below, rfl, isLast, rfl, rfl⟩
    refine ⟨above.map fieldOctets, below.map fieldOctets, List.map_append, ?_⟩
    intro other member same
    obtain ⟨field, inBelow, rfl⟩ := List.mem_map.mp member
    exact isLast field inBelow (Utf8.encode_injective same)

/-- Spaces and tabs between two words. -/
structure IsSpacing (gap : Bytes) : Prop where
  isSome : gap ≠ []
  blanks : ∀ b ∈ gap, b = 32 ∨ b = 9

namespace IsSpacing

variable {gap : Bytes}

theorem isGap (h : IsSpacing gap) : IsGap gap where
  blanks b member := by rcases h.blanks b member with rfl | rfl <;> rfl
  isSome := h.isSome

theorem text (h : IsSpacing gap) : Utf8.WellFormed gap := by
  refine .of_ascii ?_
  intro b member
  rcases h.blanks b member with rfl | rfl <;> decide

theorem no_return (h : IsSpacing gap) : 13 ∉ gap := by
  intro member
  exact absurd (h.blanks 13 member) (by decide)

end IsSpacing

/-- A request as a client may write it down, with blanks of any length between the words and with any header lines. -/
structure Draft where
  method : Bytes
  target : Bytes
  version : Bytes
  gap : Bytes
  gap' : Bytes
  fields : List (List Char × List Char)
  isMethod : IsWord maxMethod method
  isTarget : IsWord maxTarget target
  isVersion : IsWord maxVersion version
  isSpacing : IsSpacing gap
  isSpacing' : IsSpacing gap'
  isField : ∀ field ∈ fields, IsFieldText field.1 ∧ IsFieldText field.2 ∧ ':' ∉ field.1

namespace Draft

def line (d : Draft) : Bytes := d.method ++ (d.gap ++ (d.target ++ (d.gap' ++ d.version)))

/-- The header lines. -/
def lines (d : Draft) : List (List Char) := d.fields.map fieldText

/-- The octets of a draft: its line, the header lines and an empty one. -/
def octets (d : Draft) : Bytes :=
  d.line ++ (Bytes.crlf ++ (d.lines.flatMap (fun line => Utf8.encode line ++ Bytes.crlf) ++ Bytes.crlf))

variable (d : Draft)

theorem worded_line : Bytes.Worded d.line [d.method, d.target, d.version] :=
  Head.worded_line d.isMethod d.isTarget d.isVersion d.isSpacing.isGap d.isSpacing'.isGap

theorem text_line : Utf8.WellFormed d.line :=
  d.isMethod.text.append (d.isSpacing.text.append (d.isTarget.text.append (d.isSpacing'.text.append d.isVersion.text)))

theorem line_oneLine : indexOf? Bytes.crlf d.line = none := by
  refine indexOf?_eq_none_of_not_mem ?_ _
  simp [line, d.isMethod.no_return, d.isTarget.no_return, d.isVersion.no_return, d.isSpacing.no_return,
    d.isSpacing'.no_return]

theorem lines_oneLine : ∀ line ∈ d.lines, indexOf? lineEnd line = none ∧ line ≠ [] := by
  intro line member
  obtain ⟨field, inFields, rfl⟩ := List.mem_map.mp member
  obtain ⟨isName, isValue, -⟩ := d.isField field inFields
  exact ⟨fieldText_oneLine isName isValue, by simp [fieldText]⟩

theorem filterMap_lines : d.lines.filterMap field? = d.fields.map fieldOctets := by
  rw [lines, List.filterMap_map, ← List.filterMap_eq_map]
  refine List.filterMap_congr ?_
  intro field inFields
  obtain ⟨isName, isValue, noColon⟩ := d.isField field inFields
  exact field?_fieldText isName isValue noColon

theorem parse_octets :
    parse d.octets = .ok ⟨.ofToken d.method, d.target, d.version, .ofList (d.fields.map fieldOctets)⟩ := by
  have parts : cut d.octets = _ := cut_line d.line_oneLine _
  rw [parse_of_isWord d.isMethod d.isTarget d.isVersion parts d.text_line d.worded_line,
    headers_lines d.lines_oneLine, filterMap_lines]

/-- The octets of a draft up to the end of its last line. -/
def front : Bytes := Bytes.crlf.intercalate (d.line :: d.lines.map Utf8.encode)

theorem octets_eq : d.octets = d.front ++ terminator := by
  have blank : terminator = Bytes.crlf ++ Bytes.crlf := rfl
  rw [blank, ← List.append_assoc, front, Response.intercalate_append, List.flatMap_cons, List.flatMap_map, octets]
  simp only [List.append_assoc]

theorem terminatorOffset?_octets (rest : Bytes) : terminatorOffset? (d.octets ++ rest) = some d.front.length := by
  rw [octets_eq, List.append_assoc]
  refine terminatorOffset?_intercalate (List.cons_ne_nil _ _) ?_ rest
  intro line member
  rcases List.mem_cons.mp member with rfl | inLines
  · exact ⟨d.line_oneLine, by simp [Draft.line, d.isMethod.isSome]⟩
  · obtain ⟨text, isLine, rfl⟩ := List.mem_map.mp inLines
    obtain ⟨oneLine, isSome⟩ := d.lines_oneLine text isLine
    exact ⟨encode_oneLine oneLine, encode_ne_nil isSome⟩

/-- A draft is read as what it was put together from, whatever follows it. -/
theorem read_octets (rest : Bytes) :
    read (d.octets ++ rest) =
      .ok (⟨.ofToken d.method, d.target, d.version, .ofList (d.fields.map fieldOctets)⟩, d.octets.length) := by
  have parsed := d.parse_octets
  rw [octets_eq, ← List.append_nil terminator, parse_append] at parsed
  rw [read, terminatorOffset?_octets]
  dsimp only
  rw [octets_eq, List.append_assoc, List.take_left, parsed, List.length_append]
  rfl

end Draft

/-- What stands before the first line end, or everything if there is none. -/
def IsFirstLine (raw line : Bytes) : Prop :=
  ¬ Bytes.crlf <:+: line ∧ (raw = line ∨ ∃ rest, raw = line ++ (Bytes.crlf ++ rest))

theorem isFirstLine_cut (raw : Bytes) : IsFirstLine raw (cut raw).1 := by
  unfold cut
  cases broken : breakAt? Bytes.crlf raw with
  | none => exact ⟨indexOf?_eq_none_iff_not_inside.mp (breakAt?_eq_none_iff.mp broken), .inl rfl⟩
  | some parts =>
      obtain ⟨whole, oneLine⟩ := breakAt?_some broken (by decide)
      exact ⟨indexOf?_eq_none_iff_not_inside.mp oneLine, .inr ⟨parts.2, whole⟩⟩

/-- What is put together from words, gaps and header lines is read back, whatever follows it; and whether a head is
accepted at all depends on its first line alone. -/
theorem reading_undoes_writing :
    (∀ (draft : Draft) (rest : Bytes),
      ∃ request, read (draft.octets ++ rest) = .ok (request, draft.octets.length) ∧
        request.method.token = draft.method ∧ request.target = draft.target ∧ request.version = draft.version ∧
        request.headers.names.Nodup ∧
        ∀ name value, (name, value) ∈ request.headers ↔
          ∃ above k w below, draft.fields = above ++ (k, w) :: below ∧ (∀ field ∈ below, field.1 ≠ k) ∧
            name = Utf8.encode k ∧ value = Utf8.encode w) ∧
    ∀ raw, ∃ line, IsFirstLine raw line ∧
      ((∃ request, parse raw = .ok request) ↔
        ∃ method target version, IsRequestLine line method target version ∧ Fits method target version) ∧
      (parse raw = .error .malformed ↔ ¬ ∃ method target version, IsRequestLine line method target version) ∧
      (parse raw = .error .tokenTooLong ↔
        ∃ method target version, IsRequestLine line method target version ∧ ¬ Fits method target version) := by
  refine ⟨?_, fun raw => ⟨(cut raw).1, isFirstLine_cut raw, parse_verdict raw⟩⟩
  intro draft rest
  refine ⟨_, draft.read_octets rest, Method.token_ofToken _, rfl, rfl, Headers.nodup_ofList _, ?_⟩
  intro name value
  exact mem_headers_iff

/-- A draft with two gaps of different lengths, a name that comes twice and an empty one. -/
theorem reading_undoes_writing_twice :
    ∃ draft : Draft, draft.fields = [(['a'], ['1']), ([], []), (['a'], ['x', '\r', 'y'])] ∧
      ∃ request, read (draft.octets ++ terminator) = .ok (request, draft.octets.length) ∧
        (Utf8.encode ['a'], Utf8.encode ['x', '\r', 'y']) ∈ request.headers := by
  have isTarget : IsWord maxTarget [47] :=
    ⟨.of_ascii (by decide +kernel), by decide +kernel, by decide +kernel, by decide +kernel⟩
  have isText : ∀ cs ∈ [['a'], ['1'], [], ['x', '\r', 'y']], IsFieldText cs := by
    intro cs member
    simp only [List.mem_cons, List.not_mem_nil, or_false] at member
    rcases member with rfl | rfl | rfl | rfl <;> refine ⟨by decide, ?_, ?_⟩ <;> rintro c ⟨⟩ <;> decide
  have isSpacing : IsSpacing [32] ∧ IsSpacing [9, 32] :=
    ⟨⟨by decide, by decide +kernel⟩, ⟨by decide, by decide +kernel⟩⟩
  refine ⟨⟨_, _, _, _, _, _, isWord_get, isTarget, isWord_version, isSpacing.1, isSpacing.2, ?_⟩, rfl, ?_⟩
  · intro field member
    simp only [List.mem_cons, List.not_mem_nil, or_false] at member
    rcases member with rfl | rfl | rfl <;> exact ⟨isText _ (by simp), isText _ (by simp), by decide⟩
  · obtain ⟨request, read, -, -, -, -, stored⟩ := reading_undoes_writing.1 _ terminator
    exact ⟨request, read, (stored _ _).mpr ⟨[(['a'], ['1']), ([], [])], _, _, [], rfl, nofun, rfl, rfl⟩⟩

end Head

end Docroot
