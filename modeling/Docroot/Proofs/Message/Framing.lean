import Docroot.Message.Head
import Docroot.Message.Response
import Docroot.Proofs.Bytes
import Docroot.Proofs.Text.Plain

/-!
How a response is read back from its octets: they fall apart at the first blank line into head and body, the
head into lines, and each line after the first into a name and a value. The order in which a response keeps
its own headers changes no more than the order of these lines.
-/
namespace Docroot

namespace Bytes

theorem Plain.oneLine {line : Bytes} (plain : line.Plain) : indexOf? crlf line = none :=
  indexOf?_eq_none_of_not_mem (fun member => (plain 13 member).1 rfl) _

/-- The lines of a text, as the line ends of a message head separate them. -/
def lines : Bytes → List Bytes
  | [] => [[]]
  | 13 :: 10 :: rest => [] :: lines rest
  | b :: rest =>
    match lines rest with
    | [] => [[b]]
    | line :: others => (b :: line) :: others

theorem lines_append {line : Bytes} (plain : line.Plain) (rest : Bytes) :
    lines (line ++ crlf ++ rest) = line :: lines rest := by
  induction line with
  | nil => rfl
  | cons b line ih =>
      obtain ⟨⟨notReturn, -⟩, others⟩ := List.forall_mem_cons.mp plain
      have later := ih others
      change lines (b :: (line ++ crlf ++ rest)) = _
      rw [lines, later]
      intro _ same
      exact absurd same notReturn

theorem lines_of_plain {line : Bytes} (plain : line.Plain) : lines line = [line] := by
  induction line with
  | nil => rfl
  | cons b line ih =>
      obtain ⟨⟨notReturn, -⟩, others⟩ := List.forall_mem_cons.mp plain
      have later := ih others
      rw [lines, later]
      intro _ same
      exact absurd same notReturn

theorem lines_intercalate {ls : List Bytes} (isSome : ls ≠ []) (plain : ∀ line ∈ ls, line.Plain) :
    lines (crlf.intercalate ls) = ls := by
  induction ls with
  | nil => exact absurd rfl isSome
  | cons line ls ih =>
      obtain ⟨first, others⟩ := List.forall_mem_cons.mp plain
      cases ls with
      | nil => rw [List.intercalate_singleton, lines_of_plain first]
      | cons next ls =>
          rw [List.intercalate_cons_cons, lines_append first, ih (by simp) others]

end Bytes

namespace Head

/-- No blank line begins within a line. -/
theorem not_terminator_in_line {line : Bytes} (oneLine : indexOf? Bytes.crlf line = none) (more : Bytes) :
    ∀ j < line.length, ¬ terminator <+: (line ++ (Bytes.crlf ++ more)).drop j := by
  intro j below found
  have ends : indexOf? Bytes.crlf (line ++ (Bytes.crlf ++ more)) = some line.length :=
    indexOf?_pair (by decide) oneLine more
  have begins : Bytes.crlf <+: terminator := ⟨Bytes.crlf, rfl⟩
  exact (indexOf?_eq_some_iff.mp ends).2.2 j below (begins.trans found)

theorem terminatorOffset?_line {line : Bytes} (oneLine : indexOf? Bytes.crlf line = none) (rest : Bytes) :
    terminatorOffset? (line ++ (terminator ++ rest)) = some line.length := by
  have passed := not_terminator_in_line oneLine (Bytes.crlf ++ rest)
  have found : indexOf? terminator (line ++ (terminator ++ rest)) =
      (indexOf? terminator ((line ++ (terminator ++ rest)).drop line.length)).map (line.length + ·) :=
    indexOf?_eq_map_drop (by simp) passed
  rw [terminatorOffset?, found, List.drop_left, indexOf?_append_right]
  rfl

/-- The end of a line does not begin a blank line if another line follows that is not empty. -/
theorem terminatorOffset?_cons {line : Bytes} (oneLine : indexOf? Bytes.crlf line = none) {more : Bytes}
    (isNext : ¬ Bytes.crlf <+: more) :
    terminatorOffset? (line ++ (Bytes.crlf ++ more)) = (terminatorOffset? more).map (line.length + 2 + ·) := by
  have passed : ∀ j < line.length + 2, ¬ terminator <+: (line ++ (Bytes.crlf ++ more)).drop j := by
    intro j below found
    rcases Nat.lt_trichotomy j line.length with inside | rfl | behind
    · exact not_terminator_in_line oneLine more j inside found
    · rw [List.drop_left] at found
      exact isNext ((List.prefix_append_right_inj Bytes.crlf).mp found)
    · obtain rfl : j = line.length + 1 := by omega
      rw [← List.drop_drop, List.drop_left] at found
      exact absurd (List.cons_prefix_cons.mp found).1 (by decide)
  have skip : indexOf? terminator (line ++ (Bytes.crlf ++ more)) = _ := indexOf?_eq_map_drop (by simp [Bytes.crlf]) passed
  rw [← List.drop_drop, List.drop_left] at skip
  exact skip

/-- No blank line stands in lines that are not empty themselves, so the first one is that at the end. -/
theorem terminatorOffset?_intercalate {ls : List Bytes} (isSome : ls ≠ [])
    (lines : ∀ line ∈ ls, indexOf? Bytes.crlf line = none ∧ line ≠ []) (rest : Bytes) :
    terminatorOffset? (Bytes.crlf.intercalate ls ++ (terminator ++ rest)) =
      some (Bytes.crlf.intercalate ls).length := by
  induction ls with
  | nil => exact absurd rfl isSome
  | cons line ls ih =>
      obtain ⟨⟨oneLine, -⟩, others⟩ := List.forall_mem_cons.mp lines
      cases ls with
      | nil =>
          rw [List.intercalate_singleton]
          exact terminatorOffset?_line oneLine rest
      | cons next ls =>
          have later := ih (by simp) others
          obtain ⟨nextLine, isSome⟩ := others next List.mem_cons_self
          obtain ⟨more, continues⟩ : ∃ more,
              Bytes.crlf.intercalate (next :: ls) ++ (terminator ++ rest) = next ++ (Bytes.crlf ++ more) := by
            cases ls with
            | nil => exact ⟨Bytes.crlf ++ rest, by rw [List.intercalate_singleton]; rfl⟩
            | cons third ls => exact ⟨_, by rw [List.intercalate_cons_cons, List.append_assoc, List.append_assoc]⟩
          have isNext : ¬ Bytes.crlf <+: Bytes.crlf.intercalate (next :: ls) ++ (terminator ++ rest) := by
            have ends : indexOf? Bytes.crlf (next ++ (Bytes.crlf ++ more)) = some next.length :=
              indexOf?_pair (by decide) nextLine more
            rw [continues]
            exact (indexOf?_eq_some_iff.mp ends).2.2 0 (List.length_pos_iff.mpr isSome)
          rw [List.intercalate_cons_cons, List.append_assoc, List.append_assoc, terminatorOffset?_cons oneLine isNext,
            later, Option.map_some, List.length_append, List.length_append]
          rfl

end Head

namespace Headers

/-- A value that is found is stored, and with distinct names a stored value is found. -/
theorem get?_eq_some_iff {headers : Headers} (distinct : headers.names.Nodup) {name value : Bytes} :
    headers.get? name = some value ↔ (name, value) ∈ headers := by
  induction headers with
  | nil => simp [get?]
  | cons field headers ih =>
      obtain ⟨first, rest⟩ := List.nodup_cons.mp distinct
      have later := ih rest
      simp only [get?] at later
      by_cases same : field.1 = name
      · subst same
        have absent : (field.1, value) ∉ headers := by
          intro member
          exact first (List.mem_map.mpr ⟨_, member, rfl⟩)
        simp [get?, absent, Prod.ext_iff, eq_comm]
      · have other : (name, value) ≠ field := fun e => same (e ▸ rfl)
        simp [get?, same, later, other]

theorem get?_perm {headers others : Headers} (distinct : headers.names.Nodup) (perm : others.Perm headers)
    (name : Bytes) : others.get? name = headers.get? name := by
  have distinctOthers : others.names.Nodup := (perm.map Prod.fst).nodup_iff.mpr distinct
  refine Option.ext ?_
  intro value
  rw [get?_eq_some_iff distinctOthers, get?_eq_some_iff distinct, perm.mem_iff]

/-- The fields of a head that frame a body of `length` octets: each that must be there is there once, and
none holds a line end or a colon in its name. -/
structure Frame (fields : Headers) (length : Nat) : Prop where
  date : (fields.named (utf8 "Date")).length = 1
  server : (fields.named (utf8 "Server")).length = 1
  connection : fields.named (utf8 "Connection") = [(utf8 "Connection", utf8 "close")]
  length : fields.named contentLength = [(contentLength, Decimal.text length)]
  type : (fields.named contentType).length = 1
  plain : ∀ field ∈ fields, field.1.Plain ∧ 58 ∉ field.1 ∧ field.2.Plain

theorem Frame.perm {fields others : Headers} {length : Nat} (h : fields.Frame length)
    (perm : others.Perm fields) : others.Frame length := by
  have named : ∀ name, (others.named name).Perm (fields.named name) := by
    intro name
    exact perm.filter _
  refine ⟨?_, ?_, ?_, ?_, ?_, ?_⟩
  · rw [(named _).length_eq, h.date]
  · rw [(named _).length_eq, h.server]
  · exact List.perm_singleton.mp (h.connection ▸ named _)
  · exact List.perm_singleton.mp (h.length ▸ named _)
  · rw [(named _).length_eq, h.type]
  · intro field member
    exact h.plain field (perm.mem_iff.mp member)

end Headers

namespace Response

def statusLine (status : Status) : Bytes := utf8 "HTTP/1.1 " ++ status.text

def fieldLine (field : Bytes × Bytes) : Bytes := field.1 ++ utf8 ": " ++ field.2

/-- All fields of a head, in the order in which they are written. -/
def fields (date server : Bytes) (response : Response) : Headers :=
  [(utf8 "Date", date), (utf8 "Server", server), (utf8 "Connection", utf8 "close")] ++
    ((response.headers.get? contentLength).map (Prod.mk contentLength)).toList ++
    List.filter (fun field => !isReserved field.1) response.headers

/-- The octets of a message with the given first line and fields. -/
structure Framed (octets : Bytes) (status : Status) (fields : Headers) (body : Bytes) : Prop where
  lines : ∃ head, breakAt? Head.terminator octets = some (head, body) ∧
    Bytes.lines head = statusLine status :: fields.map fieldLine
  names : ∀ field ∈ fields, breakAt? (utf8 ": ") (fieldLine field) = some field
  frame : fields.Frame body.length

theorem intercalate_append (sep line : Bytes) (ls : List Bytes) :
    sep.intercalate (line :: ls) ++ sep = (line :: ls).flatMap (· ++ sep) := by
  induction ls generalizing line with
  | nil => simp
  | cons next ls ih =>
      rw [List.intercalate_cons_cons, List.append_assoc, ih]
      rfl

theorem head_eq (date server : Bytes) (response : Response) :
    response.head date server =
      Bytes.crlf.intercalate (statusLine response.status :: (response.fields date server).map fieldLine) ++
        Head.terminator := by
  have blank : Head.terminator = Bytes.crlf ++ Bytes.crlf := rfl
  rw [blank, ← List.append_assoc, intercalate_append, head]
  cases announced : response.headers.get? contentLength <;>
    simp [fields, announced, statusLine, fieldLine, line, List.flatMap_map, List.append_assoc]

theorem head_ne_nil (date server : Bytes) (response : Response) : response.head date server ≠ [] := by
  rw [head_eq]
  exact List.append_ne_nil_of_right_ne_nil _ (by decide)

/-- The date stands between two parts of a head that do not depend on it. -/
theorem head_around_date (server : Bytes) (response : Response) :
    ∃ before behind, ∀ date, response.head date server = before ++ date ++ behind := by
  refine ⟨utf8 "HTTP/1.1 " ++ response.status.text ++ Bytes.crlf ++ utf8 "Date" ++ utf8 ": ", ?_, ?_⟩
  · exact Bytes.crlf ++ line (utf8 "Server") server ++ line (utf8 "Connection") (utf8 "close")
      ++ ((response.headers.get? contentLength).map (line contentLength)).getD []
      ++ (response.headers.filter fun field => !isReserved field.1).flatMap (fun field => line field.1 field.2)
      ++ Bytes.crlf
  · intro date
    simp only [head, line, List.append_assoc]

theorem plain_statusLine (status : Status) : (statusLine status).Plain ∧ statusLine status ≠ [] := by
  cases status <;> decide +kernel

theorem plain_fieldLine {field : Bytes × Bytes} (name : field.1.Plain) (value : field.2.Plain) :
    (fieldLine field).Plain ∧ fieldLine field ≠ [] := by
  refine ⟨(name.append (by decide +kernel)).append value, ?_⟩
  intro empty
  have separator : utf8 ": " = [] := (List.append_eq_nil_iff.mp (List.append_eq_nil_iff.mp empty).1).2
  exact absurd separator (by decide)

theorem breakAt?_fieldLine {field : Bytes × Bytes} (noColon : 58 ∉ field.1) :
    breakAt? (utf8 ": ") (fieldLine field) = some field := by
  have separator : utf8 ": " = [58, 32] := by decide
  rw [fieldLine, List.append_assoc]
  refine breakAt?_append ?_
  rw [separator, indexOf?_append_of_not_mem noColon, indexOf?_append_right]
  rfl

/-- Fields without line ends and without colons in their names are read back from the lines of their head. -/
theorem head_lines {date server : Bytes} {response : Response}
    (plain : ∀ field ∈ response.fields date server, field.1.Plain ∧ 58 ∉ field.1 ∧ field.2.Plain) (body : Bytes) :
    (∃ front, breakAt? Head.terminator (response.head date server ++ body) = some (front, body) ∧
      Bytes.lines front = statusLine response.status :: (response.fields date server).map fieldLine) ∧
    ∀ field ∈ response.fields date server, breakAt? (utf8 ": ") (fieldLine field) = some field := by
  have plainLine : ∀ line ∈ statusLine response.status :: (response.fields date server).map fieldLine,
      line.Plain ∧ line ≠ [] := by
    intro line member
    rcases List.mem_cons.mp member with rfl | inFields
    · exact plain_statusLine _
    · obtain ⟨field, isField, rfl⟩ := List.mem_map.mp inFields
      obtain ⟨name, -, value⟩ := plain field isField
      exact plain_fieldLine name value
  have oneLine : ∀ line ∈ statusLine response.status :: (response.fields date server).map fieldLine,
      indexOf? Bytes.crlf line = none ∧ line ≠ [] :=
    fun line member => ⟨(plainLine line member).1.oneLine, (plainLine line member).2⟩
  refine ⟨⟨_, ?_, Bytes.lines_intercalate (by simp) fun line member => (plainLine line member).1⟩, ?_⟩
  · rw [head_eq, List.append_assoc]
    exact breakAt?_append (Head.terminatorOffset?_intercalate (by simp) oneLine body)
  · intro field member
    exact breakAt?_fieldLine (plain field member).2.1

/-- Where the fields frame a body of its length, head and body are read back from their octets. -/
theorem framed_of_frame {date server body : Bytes} {response : Response}
    (frame : (response.fields date server).Frame body.length) :
    Framed (response.head date server ++ body) response.status (response.fields date server) body := by
  obtain ⟨lines, names⟩ := head_lines frame.plain body
  exact ⟨lines, names, frame⟩

/-- With another order of the response's own headers the head has the same fields. -/
theorem fields_perm {response : Response} (distinct : response.headers.names.Nodup) {headers : Headers}
    (perm : headers.Perm response.headers) (date server : Bytes) :
    (fields date server { response with headers }).Perm (response.fields date server) := by
  unfold fields
  rw [Headers.get?_perm distinct perm]
  exact (perm.filter _).append_left _

/-- The headers of every response that is given: the type of its body and its length. -/
def announcing (type : Bytes) (length : Nat) : Headers :=
  [(contentType, type), (contentLength, Decimal.text length)]

theorem build_headers (status : Status) (type body : Bytes) :
    (build status [(contentType, type)] body).headers = announcing type body.length := rfl

theorem head_eq_of_headers {response response' : Response} (status : response.status = response'.status)
    (headers : response.headers = response'.headers) (date server : Bytes) :
    response.head date server = response'.head date server := by
  rw [head, head, status, headers]

theorem fileHead_headers (type : Bytes) (length : Nat) :
    (fileHead type length).headers = announcing type length := rfl

theorem frame_of_announcing {date server type : Bytes} (datePlain : date.Plain) (serverPlain : server.Plain)
    (typePlain : type.Plain) {response : Response} {length : Nat}
    (h : response.headers = announcing type length) : (response.fields date server).Frame length := by
  have same : response.fields date server =
      [(utf8 "Date", date), (utf8 "Server", server), (utf8 "Connection", utf8 "close"),
        (contentLength, Decimal.text length), (contentType, type)] := by
    rw [fields, h]
    rfl
  rw [same]
  have names : ∀ name ∈ [utf8 "Date", utf8 "Server", utf8 "Connection", contentLength, contentType],
      name.Plain ∧ 58 ∉ name := by decide +kernel
  have plain : ∀ {name value : Bytes}, name ∈ [utf8 "Date", utf8 "Server", utf8 "Connection",
      contentLength, contentType] → value.Plain → name.Plain ∧ 58 ∉ name ∧ value.Plain :=
    fun isName value => ⟨(names _ isName).1, (names _ isName).2, value⟩
  refine ⟨rfl, rfl, rfl, rfl, rfl, ?_⟩
  intro field member
  simp only [List.mem_cons, List.not_mem_nil, or_false] at member
  rcases member with rfl | rfl | rfl | rfl | rfl
  · exact plain (by simp) datePlain
  · exact plain (by simp) serverPlain
  · exact plain (by simp) (by decide +kernel)
  · exact plain (by simp) (Decimal.plain_text length)
  · exact plain (by simp) typePlain

/-- A response that announces the length of its body is framed in every order of its headers. -/
theorem framed_of_announcing {date server type body : Bytes} (datePlain : date.Plain)
    (serverPlain : server.Plain) (typePlain : type.Plain) {response : Response}
    (h : response.headers = announcing type body.length) {headers : Headers}
    (perm : headers.Perm response.headers) :
    (fields date server { response with headers }).Perm (response.fields date server) ∧
      Framed (head date server { response with headers } ++ body) response.status
        (fields date server { response with headers }) body := by
  have distinct : response.headers.names.Nodup := by rw [h]; exact (by decide : [contentType, contentLength].Nodup)
  have same := fields_perm distinct perm date server
  have frame : (fields date server { response with headers }).Frame body.length :=
    (frame_of_announcing datePlain serverPlain typePlain h).perm same
  exact ⟨same, framed_of_frame frame⟩

end Response

end Docroot
