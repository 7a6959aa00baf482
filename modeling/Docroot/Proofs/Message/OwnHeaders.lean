import Docroot.Proofs.Message.Draft

/-!
The headers that are added to a response when its head is written: the date, the name of the server, the close of the
connection and the length of the body. The close stands on one line whatever the response says of it. Each of the
others does so only where the response has no header of its own by that name in other letters, and for the date and
the server in the same letters too.
-/
namespace Docroot

namespace Headers

section Stored

variable {headers : Headers} {fields : List (Bytes × Bytes)} {name value : Bytes}

theorem named_append (name : Bytes) (headers others : Headers) :
    (headers ++ others).named name = headers.named name ++ others.named name := List.filter_append _ _

theorem mem_names_set {other : Bytes} :
    other ∈ (headers.set name value).names ↔ other ∈ headers.names ∨ other = name := by
  rw [names_set]
  split
  · next stored =>
    refine ⟨.inl, ?_⟩
    rintro (isName | rfl)
    · exact isName
    · exact stored
  · rw [List.mem_append, List.mem_singleton]

theorem mem_names_ofList : name ∈ (ofList fields).names ↔ ∃ field ∈ fields, field.1 = name := by
  induction fields using List.reverseRecOn with
  | nil => exact iff_of_false List.not_mem_nil (by rintro ⟨_, none, -⟩; cases none)
  | append_singleton fields last ih =>
      rw [ofList_append, mem_names_set, ih]
      constructor
      · rintro (⟨field, member, same⟩ | rfl)
        · exact ⟨field, List.mem_append_left _ member, same⟩
        · exact ⟨last, List.mem_append_right _ List.mem_cons_self, rfl⟩
      · rintro ⟨field, member, rfl⟩
        rcases List.mem_append.mp member with front | isLast
        · exact .inl ⟨field, front, rfl⟩
        · exact .inr (congrArg Prod.fst (List.mem_singleton.mp isLast))

theorem named_eq_nil_iff {own : Bytes} :
    headers.named own = [] ↔ ∀ name ∈ headers.names, Bytes.sameIgnoringCase name own = false := by
  rw [named, List.filter_eq_nil_iff, names, List.forall_mem_map]
  simp only [Bool.not_eq_true]

/-- A stored name is stored once. -/
theorem filter_name (distinct : headers.names.Nodup) (stored : (name, value) ∈ headers) :
    List.filter (fun field => field.1 = name) headers = [(name, value)] := by
  induction headers with
  | nil => cases stored
  | cons field headers ih =>
      obtain ⟨first, later⟩ := List.nodup_cons.mp distinct
      rcases List.mem_cons.mp stored with rfl | behind
      · have none : List.filter (fun field => field.1 = name) headers = [] := by
          refine List.filter_eq_nil_iff.mpr ?_
          intro field member same
          exact first (List.mem_map.mpr ⟨field, member, of_decide_eq_true same⟩)
        rw [List.filter_cons_of_pos (by simp), none]
      · have other : field.1 ≠ name := by
          rintro rfl
          exact first (List.mem_map.mpr ⟨_, behind, rfl⟩)
        rw [List.filter_cons_of_neg (by simpa using other)]
        exact ih later behind

end Stored

end Headers

namespace Response

/-- The names of the headers that are added. -/
def ownNames : List Bytes := [utf8 "Date", utf8 "Server", utf8 "Connection", contentLength]

section Built

variable {status : Status} {fields : List (Bytes × Bytes)} {body name value : Bytes}

theorem build_of_announced (announced : (Headers.ofList fields).get? contentLength = some value) :
    (build status fields body).headers = Headers.ofList fields := by
  simp only [build, announced]

theorem build_of_not_announced (silent : (Headers.ofList fields).get? contentLength = none) :
    (build status fields body).headers = (Headers.ofList fields).set contentLength (Decimal.text body.length) := by
  simp only [build, silent]

theorem nodup_build : (build status fields body).headers.names.Nodup := by
  have distinct := Headers.nodup_ofList fields
  cases announced : (Headers.ofList fields).get? contentLength with
  | none =>
      rw [build_of_not_announced announced]
      exact Headers.nodup_set _ _ distinct
  | some value =>
      rw [build_of_announced announced]
      exact distinct

/-- A built response always announces a length. -/
theorem build_announces : ∃ value, (build status fields body).headers.get? contentLength = some value := by
  cases announced : (Headers.ofList fields).get? contentLength with
  | none =>
      rw [build_of_not_announced announced]
      exact ⟨_, Headers.get?_set_self _ _ _⟩
  | some value =>
      rw [build_of_announced announced]
      exact ⟨value, announced⟩

theorem get?_build (other : name ≠ contentLength) :
    (build status fields body).headers.get? name = (Headers.ofList fields).get? name := by
  cases announced : (Headers.ofList fields).get? contentLength with
  | none => rw [build_of_not_announced announced, Headers.get?_set_ne _ _ other]
  | some value => rw [build_of_announced announced]

theorem mem_build (other : name ≠ contentLength) :
    (name, value) ∈ (build status fields body).headers ↔
      ∃ above below, fields = above ++ (name, value) :: below ∧ ∀ field ∈ below, field.1 ≠ name := by
  rw [← Headers.get?_eq_some_iff nodup_build, get?_build other, Headers.get?_eq_some_iff (Headers.nodup_ofList fields),
    Headers.mem_ofList_iff]

theorem value_of_mem_build (stored : (contentLength, value) ∈ (build status fields body).headers) :
    (contentLength, value) ∈ fields ∨ value = Decimal.text body.length := by
  cases announced : (Headers.ofList fields).get? contentLength with
  | none =>
      have distinct := Headers.nodup_set contentLength (Decimal.text body.length) (Headers.nodup_ofList fields)
      rw [build_of_not_announced announced, ← Headers.get?_eq_some_iff distinct, Headers.get?_set_self] at stored
      exact .inr (Option.some.inj stored).symm
  | some value' =>
      rw [build_of_announced announced, Headers.mem_ofList_iff] at stored
      obtain ⟨above, below, rfl, -⟩ := stored
      exact .inl (List.mem_append_right _ List.mem_cons_self)

theorem mem_names_build (other : name ≠ contentLength) :
    name ∈ (build status fields body).headers.names ↔ ∃ field ∈ fields, field.1 = name := by
  cases announced : (Headers.ofList fields).get? contentLength with
  | none => rw [build_of_not_announced announced, Headers.mem_names_set, or_iff_left other, Headers.mem_names_ofList]
  | some value => rw [build_of_announced announced, Headers.mem_names_ofList]

end Built

section Lines

variable {status : Status} {fields : List (Bytes × Bytes)} {body date server name value : Bytes}

/-- The headers that are added, in their places. -/
def ownFields (date server length : Bytes) : Headers :=
  [(utf8 "Date", date), (utf8 "Server", server), (utf8 "Connection", utf8 "close"), (contentLength, length)]

/-- The headers of a response that are written behind those. -/
def otherFields (response : Response) : Headers := List.filter (fun field => !isReserved field.1) response.headers

theorem fields_build (date server : Bytes) :
    ∃ length, (contentLength, length) ∈ (build status fields body).headers ∧
      (build status fields body).fields date server = ownFields date server length ++
        (build status fields body).otherFields := by
  obtain ⟨length, announced⟩ := @build_announces status fields body
  refine ⟨length, (Headers.get?_eq_some_iff nodup_build).mp announced, ?_⟩
  rw [Response.fields, announced]
  rfl

theorem named_ownFields {own : Bytes} (isOwn : own ∈ ownNames) (date server length : Bytes) :
    ((ownFields date server length).named own).length = 1 := by
  simp only [ownNames, List.mem_cons, List.not_mem_nil, or_false] at isOwn
  rcases isOwn with rfl | rfl | rfl | rfl <;> rfl

theorem isReserved_eq_false_iff :
    isReserved name = false ↔ name ≠ contentLength ∧ Bytes.sameIgnoringCase name (utf8 "Connection") = false := by
  rw [isReserved, Bool.or_eq_false_iff, beq_eq_false_iff_ne]

theorem mem_otherFields {response : Response} {field : Bytes × Bytes} :
    field ∈ response.otherFields ↔ field ∈ response.headers ∧ isReserved field.1 = false := by
  rw [otherFields, List.mem_filter, Bool.not_eq_true']

theorem mem_names_otherFields :
    name ∈ (build status fields body).otherFields.names ↔
      isReserved name = false ∧ ∃ field ∈ fields, field.1 = name := by
  constructor
  · intro isName
    obtain ⟨stored, isStored, rfl⟩ := List.mem_map.mp isName
    obtain ⟨inside, kept⟩ := mem_otherFields.mp isStored
    have isName : stored.1 ∈ (build status fields body).headers.names := List.mem_map.mpr ⟨stored, inside, rfl⟩
    exact ⟨kept, (mem_names_build (isReserved_eq_false_iff.mp kept).1).mp isName⟩
  · rintro ⟨kept, isSet⟩
    have isName : name ∈ (build status fields body).headers.names :=
      (mem_names_build (isReserved_eq_false_iff.mp kept).1).mpr isSet
    obtain ⟨stored, isStored, rfl⟩ := List.mem_map.mp isName
    exact List.mem_map.mpr ⟨stored, mem_otherFields.mpr ⟨isStored, kept⟩, rfl⟩

/-- Of a name that has a place of its own in a head there is one line, unless it has been set in a spelling that is
not kept back. -/
theorem named_length_eq_one_iff {own : Bytes} (isOwn : own ∈ ownNames) :
    (((build status fields body).fields date server).named own).length = 1 ↔
      ∀ field ∈ fields, Bytes.sameIgnoringCase field.1 own = true → isReserved field.1 = true := by
  obtain ⟨length, -, parts⟩ := @fields_build status fields body date server
  rw [parts, Headers.named_append, List.length_append, named_ownFields isOwn, Nat.add_eq_left, List.length_eq_zero_iff,
    Headers.named_eq_nil_iff]
  constructor
  · intro noOther field member same
    by_contra notReserved
    have kept : isReserved field.1 = false := Bool.eq_false_iff.mpr notReserved
    have differs := noOther field.1 (mem_names_otherFields.mpr ⟨kept, field, member, rfl⟩)
    exact absurd same (Bool.eq_false_iff.mp differs)
  · intro reserved other isName
    obtain ⟨kept, field, member, rfl⟩ := mem_names_otherFields.mp isName
    exact Bool.eq_false_iff.mpr fun same => Bool.eq_false_iff.mp kept (reserved field member same)

/-- What is kept back is the length in one spelling and the close of the connection in every one. -/
theorem own_of_reserved {own : Bytes} (same : Bytes.sameIgnoringCase name own = true)
    (reserved : isReserved name = true) :
    (name = contentLength ∧ own.lower = contentLength.lower) ∨ own.lower = (utf8 "Connection").lower := by
  have lower : name.lower = own.lower := beq_iff_eq.mp same
  rcases Bool.or_eq_true_iff.mp reserved with isLength | isConnection
  · obtain rfl := beq_iff_eq.mp isLength
    exact .inl ⟨rfl, lower.symm⟩
  · exact .inr (lower.symm.trans (beq_iff_eq.mp isConnection))

theorem reserved_iff_differs {own : Bytes}
    (free : own.lower ≠ contentLength.lower ∧ own.lower ≠ (utf8 "Connection").lower) :
    (Bytes.sameIgnoringCase name own = true → isReserved name = true) ↔ Bytes.sameIgnoringCase name own = false := by
  constructor
  · intro reserved
    refine Bool.eq_false_iff.mpr ?_
    intro same
    rcases own_of_reserved same (reserved same) with ⟨-, isLength⟩ | isConnection
    · exact free.1 isLength
    · exact free.2 isConnection
  · exact fun differs same => absurd same (Bool.eq_false_iff.mp differs)

theorem reserved_iff_spelled :
    (Bytes.sameIgnoringCase name contentLength = true → isReserved name = true) ↔
      (Bytes.sameIgnoringCase name contentLength = true → name = contentLength) := by
  constructor
  · intro reserved same
    exact ((own_of_reserved same (reserved same)).resolve_right (by decide)).1
  · intro spelled same
    rw [spelled same]
    rfl

/-- The close of the connection is not in the hands of a response. -/
theorem named_connection :
    ((build status fields body).fields date server).named (utf8 "Connection") =
      [(utf8 "Connection", utf8 "close")] := by
  obtain ⟨length, -, parts⟩ := @fields_build status fields body date server
  have none : (build status fields body).otherFields.named (utf8 "Connection") = [] :=
    Headers.named_eq_nil_iff.mpr fun _ isName => (isReserved_eq_false_iff.mp (mem_names_otherFields.mp isName).1).2
  rw [parts, Headers.named_append, none, List.append_nil]
  rfl

/-- Any other name stands on one line with the value that was set last. -/
theorem filter_other (notOwn : ∀ own ∈ ownNames, Bytes.sameIgnoringCase name own = false)
    {above below : List (Bytes × Bytes)} (parts : fields = above ++ (name, value) :: below)
    (isLast : ∀ field ∈ below, field.1 ≠ name) :
    List.filter (fun field => field.1 = name) ((build status fields body).fields date server) = [(name, value)] := by
  obtain ⟨length, -, isFields⟩ := @fields_build status fields body date server
  have differs : ∀ own ∈ ownNames, own ≠ name := by
    rintro own isOwn rfl
    exact absurd (beq_self_eq_true _) (Bool.eq_false_iff.mp (notOwn own isOwn))
  have kept : isReserved name = false :=
    isReserved_eq_false_iff.mpr ⟨(differs contentLength (by simp [ownNames])).symm, notOwn _ (by simp [ownNames])⟩
  have none : List.filter (fun field => field.1 = name) (ownFields date server length) = [] := by
    refine List.filter_eq_nil_iff.mpr ?_
    intro field member same
    have isOwn : field.1 ∈ ownNames := List.mem_map_of_mem member
    exact differs field.1 isOwn (of_decide_eq_true same)
  have stored : (name, value) ∈ (build status fields body).otherFields :=
    mem_otherFields.mpr ⟨(mem_build (isReserved_eq_false_iff.mp kept).1).mpr ⟨above, below, parts, isLast⟩, kept⟩
  have distinct : (build status fields body).otherFields.names.Nodup :=
    nodup_build.sublist (List.filter_sublist.map Prod.fst)
  rw [isFields, List.filter_append, none, List.nil_append, Headers.filter_name distinct stored]

theorem plain_own : ∀ own ∈ ownNames, own.Plain ∧ 58 ∉ own := by decide +kernel

theorem plain_fields (plain : ∀ field ∈ fields, field.1.Plain ∧ 58 ∉ field.1 ∧ field.2.Plain)
    (datePlain : date.Plain) (serverPlain : server.Plain) :
    ∀ field ∈ (build status fields body).fields date server, field.1.Plain ∧ 58 ∉ field.1 ∧ field.2.Plain := by
  obtain ⟨length, isStored, parts⟩ := @fields_build status fields body date server
  have lengthPlain : length.Plain := by
    rcases value_of_mem_build isStored with isSet | rfl
    · exact (plain _ isSet).2.2
    · exact Decimal.plain_text body.length
  intro field member
  rw [parts] at member
  rcases List.mem_append.mp member with isOwn | isOther
  · have valuePlain : field.2.Plain := by
      simp only [ownFields, List.mem_cons, List.not_mem_nil, or_false] at isOwn
      rcases isOwn with rfl | rfl | rfl | rfl
      · exact datePlain
      · exact serverPlain
      · exact (by decide +kernel : (utf8 "close").Plain)
      · exact lengthPlain
    have isName : field.1 ∈ ownNames := List.mem_map_of_mem isOwn
    exact ⟨(plain_own _ isName).1, (plain_own _ isName).2, valuePlain⟩
  · obtain ⟨inside, kept⟩ := mem_otherFields.mp isOther
    obtain ⟨above, below, rfl, -⟩ := (mem_build (isReserved_eq_false_iff.mp kept).1).mp inside
    exact plain field (List.mem_append_right _ List.mem_cons_self)

end Lines

/-- In whatever order a built response keeps its headers, its head is read back as lines of which one closes the
connection and one holds each other name that was set, with the value that was set last. The date, the server and the
length stand on one line each exactly if the response sets no header of its own by that name, other than the length
in the spelling that is looked for. -/
theorem own_lines_unique_unless_set (status : Status) (fields : List (Bytes × Bytes)) (body date server : Bytes)
    (headers : Headers) (plain : ∀ field ∈ fields, field.1.Plain ∧ 58 ∉ field.1 ∧ field.2.Plain)
    (datePlain : date.Plain) (serverPlain : server.Plain) (perm : headers.Perm (build status fields body).headers) :
    let lines := Response.fields date server ⟨status, headers, body⟩
    (∃ front, breakAt? Head.terminator (head date server ⟨status, headers, body⟩) = some (front, []) ∧
        Bytes.lines front = statusLine status :: lines.map fieldLine) ∧
      (∀ field ∈ lines, breakAt? (utf8 ": ") (fieldLine field) = some field) ∧
      lines.named (utf8 "Connection") = [(utf8 "Connection", utf8 "close")] ∧
      ((lines.named (utf8 "Date")).length = 1 ↔
        ∀ field ∈ fields, Bytes.sameIgnoringCase field.1 (utf8 "Date") = false) ∧
      ((lines.named (utf8 "Server")).length = 1 ↔
        ∀ field ∈ fields, Bytes.sameIgnoringCase field.1 (utf8 "Server") = false) ∧
      ((lines.named contentLength).length = 1 ↔
        ∀ field ∈ fields, Bytes.sameIgnoringCase field.1 contentLength = true → field.1 = contentLength) ∧
      ∀ name value above below, (∀ own ∈ ownNames, Bytes.sameIgnoringCase name own = false) →
        fields = above ++ (name, value) :: below → (∀ field ∈ below, field.1 ≠ name) →
        List.filter (fun field => field.1 = name) lines = [(name, value)] := by
  intro lines
  have reordered : lines.Perm ((build status fields body).fields date server) :=
    fields_perm nodup_build perm date server
  have linesPlain : ∀ field ∈ lines, field.1.Plain ∧ 58 ∉ field.1 ∧ field.2.Plain :=
    fun field member => plain_fields plain datePlain serverPlain field (reordered.mem_iff.mp member)
  obtain ⟨readBack, names⟩ := head_lines linesPlain []
  rw [List.append_nil] at readBack
  have oneLine : ∀ own ∈ ownNames, (lines.named own).length = 1 ↔
      ∀ field ∈ fields, Bytes.sameIgnoringCase field.1 own = true → isReserved field.1 = true := by
    intro own isOwn
    rw [Headers.named, (reordered.filter _).length_eq]
    exact named_length_eq_one_iff isOwn
  refine ⟨readBack, names, ?_, ?_, ?_, ?_, ?_⟩
  · have closes := @named_connection status fields body date server
    exact List.perm_singleton.mp (closes ▸ reordered.filter _)
  · rw [oneLine _ (by simp [ownNames])]
    exact forall₂_congr fun _ _ => reserved_iff_differs (by decide)
  · rw [oneLine _ (by simp [ownNames])]
    exact forall₂_congr fun _ _ => reserved_iff_differs (by decide)
  · rw [oneLine _ (by simp [ownNames])]
    exact forall₂_congr fun _ _ => reserved_iff_spelled
  · intro name value above below notOwn parts isLast
    exact List.perm_singleton.mp (filter_other notOwn parts isLast ▸ reordered.filter _)

theorem own_lines_unique_of_type :
    let lines := Response.fields (utf8 "today") (utf8 "here")
      ⟨.ok, [(contentLength, utf8 "2"), (contentType, utf8 "text/html")], utf8 "hi"⟩
    List.filter (fun field => field.1 = contentType) lines = [(contentType, utf8 "text/html")] ∧
      (lines.named (utf8 "Date")).length = 1 ∧ (lines.named (utf8 "Server")).length = 1 ∧
      (lines.named contentLength).length = 1 := by
  obtain ⟨-, -, -, date, server, length, others⟩ :=
    own_lines_unique_unless_set .ok [(contentType, utf8 "text/plain"), (contentType, utf8 "text/html")] (utf8 "hi")
      (utf8 "today") (utf8 "here") [(contentLength, utf8 "2"), (contentType, utf8 "text/html")] (by decide +kernel)
      (by decide +kernel) (by decide +kernel) (by decide +kernel)
  refine ⟨others _ _ [(contentType, utf8 "text/plain")] [] (by decide) rfl nofun, ?_, ?_, ?_⟩
  · exact date.mpr (by decide)
  · exact server.mpr (by decide)
  · exact length.mpr (by decide)

/-- A response that names a server of its own is written with two such lines. -/
theorem own_lines_not_unique :
    ¬ ∀ (status : Status) (fields : List (Bytes × Bytes)) (body date server front : Bytes),
      (∀ field ∈ fields, field.1.Plain ∧ 58 ∉ field.1 ∧ field.2.Plain) → date.Plain → server.Plain →
      breakAt? Head.terminator ((build status fields body).head date server) = some (front, []) →
      (Headers.named ((Bytes.lines front).filterMap (breakAt? (utf8 ": "))) (utf8 "Server")).length = 1 := by
  intro unique
  have one := unique .ok [(utf8 "Server", utf8 "other")] [] (utf8 "today") (utf8 "here")
    (utf8 "HTTP/1.1 200 OK\r\nDate: today\r\nServer: here\r\nConnection: close\r\nContent-Length: 0\r\nServer: other")
    (by decide +kernel) (by decide +kernel) (by decide +kernel) (by decide +kernel)
  exact absurd one (by decide +kernel)

end Response

end Docroot
