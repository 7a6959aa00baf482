import Docroot.Proofs.Connection.HeadRoom
import Docroot.Proofs.Site.Links

/-!
What a client has once a response counts as sent. The response answers the head that was read, and no other.
The octets of a file that are read along a run follow one another as they stand in it, as long as nobody
writes to it, so that they make up the whole file in the end; with its head they can be taken apart again in
one way only.
-/
namespace Docroot

/-- While a run goes on, the file of a response that it has begun holds what it held at the beginning. What
the tree has become otherwise does not matter. -/
def FileKept (site : Site) (c : Connection) (occasions : List Occasion) : Prop :=
  ∀ before o after, occasions = before ++ o :: after →
    ∀ began d, (began, d) ∈ (c.history site before).responses →
      ∀ handle length, d.file = some (handle, length) →
        (o.world.files.data handle.number).content = (began.world.files.data handle.number).content

namespace History

/-- What has been read for a response is a beginning of its file, and the reading stands at its end. -/
structure Reads (h : History) (o : Occasion) (d : Delivery) : Prop where
  front : h.loaded <+: d.ahead o.world.files
  advanced : ∀ rest, h.connection.phase = .writing rest → d.Advanced h.loaded rest

theorem reads_of_flush {h : History} {t : Connection} {o : Occasion} {world : World} {d rest : Delivery}
    {loaded : Bytes} (writing : t.phase = .writing rest) (front : loaded <+: d.ahead o.world.files)
    (advanced : d.Advanced loaded rest) (kept : d.ahead world.files = d.ahead o.world.files)
    (connection : h.connection = (t.flush world).1)
    (read : h.loaded = loaded ++ rest.loads world.files t.stream) : h.Reads o d := by
  obtain ⟨progress, left, next, sends, -, outcome⟩ := Connection.flush_writing world writing
  obtain ⟨goesOn, moved⟩ := sends.ahead
  rw [← connection] at outcome
  constructor
  · rw [read, ← kept]
    rw [← kept] at front
    exact advanced.prefix_append front goesOn
  · intro rest' stillWriting
    rw [read]
    cases progress with
    | done | failed => cases stillWriting.symm.trans outcome.1
    | blocked =>
        obtain rfl : rest' = left := Phase.writing.inj (stillWriting.symm.trans outcome.1)
        exact advanced.trans moved

theorem reads_next {site : Site} {h : History} {o : Occasion} (consistent : h.Consistent)
    (reads : ∀ began d, (began, d) ∈ h.responses → h.Reads began d)
    (kept : ∀ began d, (began, d) ∈ h.responses → d.ahead o.world.files = d.ahead began.world.files) :
    ∀ began d, (began, d) ∈ (h.next site o).responses → (h.next site o).Reads began d := by
  intro began d begun
  cases consistent with
  | reading reading silent =>
      rw [next_responses, silent.responses, List.nil_append] at begun
      simp only [Option.mem_toList, Option.map_eq_some_iff, Prod.mk.injEq] at begun
      obtain ⟨_, opens, rfl, rfl⟩ := begun
      obtain ⟨-, writing, -⟩ := Connection.opens_eq_some opens
      obtain ⟨connection, -, loaded⟩ := next_opens opens
      rw [silent.loaded] at loaded
      exact reads_of_flush writing List.nil_prefix (.of_file rfl) rfl connection loaded
  | silent closed silent =>
      rw [(next_closed site o closed).2.1, silent.responses] at begun
      cases begun
  | writing writing =>
      obtain ⟨responses, goesOn | waits | givenUp⟩ := next_writing site o writing
      all_goals rw [responses] at begun
      all_goals obtain ⟨front, advanced⟩ := reads began d begun
      · exact reads_of_flush writing front (advanced _ writing) (kept began d begun) goesOn.1 goesOn.2
      · obtain ⟨connection, loaded⟩ := waits
        exact ⟨loaded ▸ front, by rw [connection, loaded]; exact advanced⟩
      · obtain ⟨connection, loaded⟩ := givenUp
        refine ⟨loaded ▸ front, ?_⟩
        intro rest stillWriting
        rw [connection] at stillWriting
        cases stillWriting
  | ended closed =>
      obtain ⟨connection, responses, loaded⟩ := next_closed site o closed
      rw [responses] at begun
      obtain ⟨front, advanced⟩ := reads began d begun
      exact ⟨loaded ▸ front, by rw [connection, loaded]; exact advanced⟩

end History

theorem Site.plain_server {startup : FileSystem} {spelling : Bytes} {listingLimit : Nat} {site : Site}
    (served : Site.ofRoot startup spelling listingLimit = .ok site) : site.server.Plain := by
  unfold ofRoot at served
  split at served
  · cases served
    exact (by decide +kernel : serverName.Plain)
  · cases served

namespace Connection

theorem ahead_eq_of_kept {site : Site} {c : Connection} {before after : List Occasion} {o : Occasion}
    (kept : FileKept site c (before ++ o :: after)) {began : Occasion} {d : Delivery}
    (begun : (began, d) ∈ (c.history site before).responses) :
    d.ahead o.world.files = d.ahead began.world.files := by
  unfold Delivery.ahead
  split
  · rfl
  · next handle length isFile =>
    rw [Handle.ahead, kept before o after rfl began d begun handle length isFile, Handle.ahead]

theorem history_reads {site : Site} (arrivals : List Arrival) (acceptances : List Acceptance)
    (peer : SocketAddress) (limits : Limits) (now : Nat) {occasions : List Occasion}
    (kept : FileKept site (start (.fresh arrivals acceptances) peer limits now) occasions) :
    let h := (start (.fresh arrivals acceptances) peer limits now).history site occasions
    ∀ o d, (o, d) ∈ h.responses → h.Reads o d := by
  apply history_prefixes (P := fun h => ∀ o d, (o, d) ∈ h.responses → h.Reads o d)
  · intro o d begun
    cases begun
  · intro before o after split reads
    subst split
    have consistent := history_consistent site arrivals acceptances peer limits now before
    apply History.reads_next consistent reads
    intro began d begun
    exact ahead_eq_of_kept kept begun

theorem history_began (site : Site) (c : Connection) (occasions : List Occasion) :
    ∀ o d, (o, d) ∈ (c.history site occasions).responses → o ∈ occasions := by
  apply history_invariant (P := fun h => ∀ o d, (o, d) ∈ h.responses → o ∈ occasions)
  · intro o d begun
    cases begun
  · intro h now member earlier o d begun
    rcases List.mem_append.mp begun with before | after
    · exact earlier o d before
    · simp only [Option.mem_toList, Option.map_eq_some_iff, Prod.mk.injEq] at after
      obtain ⟨_, -, rfl, -⟩ := after
      exact member

/-- In a tree that stays as it is a client is given the octets of the response from the front. -/
theorem output_isPrefix_octets (site : Site) {fs : FileSystem} (arrivals : List Arrival)
    (acceptances : List Acceptance) (peer : SocketAddress) (limits : Limits) (now : Nat)
    {occasions : List Occasion} (files : ∀ o ∈ occasions, o.world.files = fs) :
    let h := (start (.fresh arrivals acceptances) peer limits now).history site occasions
    ∀ o d, (o, d) ∈ h.responses → h.connection.stream.output <+: d.octets fs := by
  intro h o d begun
  have consistent : h.Consistent := history_consistent site arrivals acceptances peer limits now occasions
  have kept : FileKept site (start (.fresh arrivals acceptances) peer limits now) occasions := by
    intro before present after split began d begun handle length _
    have began_files := files began (split ▸ List.mem_append_left _ (history_began site _ before began d begun))
    have present_files := files present (split ▸ List.mem_append_right before List.mem_cons_self)
    rw [began_files, present_files]
  have front := (history_reads arrivals acceptances peer limits now kept o d begun).front
  rw [files o (history_began site _ occasions o d begun)] at front
  exact (consistent.output_isPrefix begun).trans ((List.prefix_append_right_inj _).mpr (front.take _))

/-- A response that a read makes the connection begin answers what is in the buffer: the head there, or the
lack of one. -/
theorem Gathers.readOnce_reply {site : Site} {world : World} {limit : Nat} {c : Connection} {d : Delivery}
    (h : c.Gathers limit) (reading : c.phase = .reading) (writing : (c.readOnce site world).phase = .writing d) :
    site.Reply world ((Head.read (c.readOnce site world).buffer).map Prod.fst) d := by
  obtain ⟨noEnd, -⟩ := not_or.mp (h.reading reading)
  unfold Connection.readOnce at writing ⊢
  split at writing
  · cases writing
  · next b bs next read =>
    rw [receive_eq site world (c := { c with stream := next }) (b :: bs) (not_not.mp noEnd)] at writing ⊢
    unfold received at writing ⊢
    dsimp only at writing ⊢
    split at writing
    · next i found =>
      obtain rfl := Phase.writing.inj writing
      dsimp only
      rw [Head.read_of_terminator found]
      have reply := dispatch_reply site world c.peer ((c.buffer ++ b :: bs).take i)
      cases parsed : Head.parse ((c.buffer ++ b :: bs).take i) with
      | error e | ok request => rwa [parsed] at reply
    · next notFound =>
      split at writing
      · next full =>
        obtain rfl := Phase.writing.inj writing
        rw [if_pos full, Head.read_of_no_terminator notFound]
        exact .refusal (.unread .incomplete)
      · cases reading.symm.trans writing
  · cases reading.symm.trans writing
  · cases reading.symm.trans writing
  · cases writing

/-- The response that an event makes the connection begin answers what is in the buffer then. -/
theorem Gathers.opens_reply {site : Site} {limit : Nat} {c : Connection} {o : Occasion} {d : Delivery}
    (h : c.Gathers limit) (opens : c.opens site o = some d) :
    site.Reply o.world ((Head.read (c.takeIn site o).buffer).map Prod.fst) d := by
  obtain ⟨reading, writing, -⟩ := opens_eq_some opens
  have all : (c.takeIn site o).Gathers limit ∧ ∀ d, (c.takeIn site o).phase = .writing d →
      site.Reply o.world ((Head.read (c.takeIn site o).buffer).map Prod.fst) d := by
    apply takeIn_invariant (P := fun t => t.Gathers limit ∧ ∀ d, t.phase = .writing d →
      site.Reply o.world ((Head.read t.buffer).map Prod.fst) d)
    · rcases checked_eq c o with same | same <;> rw [same]
      · exact ⟨h, fun d writing => nomatch reading.symm.trans writing⟩
      · exact ⟨.of_closed h.sameLimit rfl, nofun⟩
    · rintro t reading ⟨gathers, -⟩
      exact ⟨gathers.readOnce reading, fun d writing => gathers.readOnce_reply reading writing⟩
  exact all.2 d writing

theorem buffer_handle_of_takeIn (site : Site) (c : Connection) (o : Occasion) :
    (c.handle site o).buffer = (c.takeIn site o).buffer := by
  rw [handle_eq]
  split
  · exact (flush_limits _ _).2
  · rfl

/-- The buffer stays as it is once the connection has stopped reading. -/
theorem buffer_handle {site : Site} {c : Connection} {o : Occasion} (left : c.phase ≠ .reading) :
    (c.handle site o).buffer = c.buffer := by
  rw [buffer_handle_of_takeIn]
  rcases checked_eq c o with same | same
  · rw [takeIn_of_not_reading (by rwa [same]), same]
  · rw [takeIn_of_not_reading (by simp [same]), same]

/-- Whatever a run has begun to send answers what is in the buffer. -/
theorem history_answers (site : Site) (arrivals : List Arrival) (acceptances : List Acceptance)
    (peer : SocketAddress) (limits : Limits) (now : Nat) (occasions : List Occasion) :
    let h := (start (.fresh arrivals acceptances) peer limits now).history site occasions
    ∀ o d, (o, d) ∈ h.responses → site.Reply o.world ((Head.read h.connection.buffer).map Prod.fst) d := by
  apply history_prefixes (P := fun h => ∀ o d, (o, d) ∈ h.responses →
    site.Reply o.world ((Head.read h.connection.buffer).map Prod.fst) d)
  · exact nofun
  · intro before first after _ answers o d begun
    have consistent := history_consistent site arrivals acceptances peer limits now before
    have gathers := history_gathers site (.fresh arrivals acceptances) peer limits now before
    rw [History.next_connection]
    rcases List.mem_append.mp begun with earlier | now
    · rw [buffer_handle (consistent.left_of_begun earlier)]
      exact answers o d earlier
    · simp only [Option.mem_toList, Option.map_eq_some_iff, Prod.mk.injEq] at now
      obtain ⟨_, opened, rfl, rfl⟩ := now
      rw [buffer_handle_of_takeIn]
      exact gathers.opens_reply opened

/-- When a response counts as sent the client has a head and a body that fall apart at the first blank line.
The body is what the site gave, at the time when the response was begun, to the head in what the client had
sent: the page for its path, the content of the file that was opened for it, or the text of the status. The
head announces its length, and every order of the response's own headers gives the same fields. -/
theorem sent_framed {startup : FileSystem} {spelling : Bytes} {listingLimit : Nat} {site : Site}
    (served : Site.ofRoot startup spelling listingLimit = .ok site) {arrivals : List Arrival}
    {acceptances : List Acceptance} {peer : SocketAddress} {limits : Limits} {now : Nat}
    {occasions : List Occasion}
    (kept : FileKept site (start (.fresh arrivals acceptances) peer limits now) occasions) :
    let h := (start (.fresh arrivals acceptances) peer limits now).history site occasions
    let received := h.connection.stream.input
    h.connection.responseSent = true →
      received <+: arrivals.flatMap Arrival.brings ∧
      ∃ o d, (o, d) ∈ h.responses ∧ ∃ (response : Response) (body : Bytes),
        h.connection.stream.output = response.head o.world.date.inHead site.server ++ body ∧
        site.Content o.world ((Head.read received).map Prod.fst) response.status body ∧
        (∀ handle length, d.file = some (handle, length) →
          body = (o.world.files.data handle.number).content) ∧
        ∀ headers : Headers, headers.Perm response.headers →
          let reordered := { response with headers }
          (reordered.fields o.world.date.inHead site.server).Perm
              (response.fields o.world.date.inHead site.server) ∧
            Response.Framed (reordered.head o.world.date.inHead site.server ++ body) response.status
              (reordered.fields o.world.date.inHead site.server) body := by
  intro h received sent
  have consistent : h.Consistent := history_consistent site arrivals acceptances peer limits now occasions
  have fits : h.connection.Fits _ arrivals := history_fits site arrivals acceptances peer limits now occasions
  obtain ⟨o, d, begun, whole, output⟩ := consistent.sent_iff.mp sent
  have reads : h.Reads o d := history_reads arrivals acceptances peer limits now kept o d begun
  have reply := history_answers site arrivals acceptances peer limits now occasions o d begun
  rw [fits.held] at reply
  obtain ⟨response, type, body, octets, announced, typePlain, content, ofFile⟩ :=
    reply.sequence whole reads.front
  refine ⟨fits.remains.isPrefix, o, d, begun, response, body, output.trans octets, content, ofFile, ?_⟩
  intro headers perm
  exact Response.framed_of_announcing (Timestamp.plain_inHead _) (Site.plain_server served) typePlain
    announced perm

/-- A tree with one file, whose content could pass for the end of a head. -/
def oneFile : FileSystem where
  root := .directory {} [(utf8 "f", .file 0)]
  files := [{ content := utf8 "\r\n\r\n" }]

def oneFileSite : Site := { root := [], listingLimit := 1 }

/-- A client that asks for the file and cannot take anything at first. -/
def fileRequest : Connection :=
  start (.fresh [.octets (utf8 "GET /f HTTP/1.1\r\n\r\n")] [.failure .wouldBlock]) ⟨.v4 127 0 0 1, 80⟩ ⟨1, 0, 1⟩ 0

def asked : Occasion where
  world := { files := oneFile, clock := 0, date := { seconds := 0 } }
  readiness := { readable := true }

/-- The client can take the response, and the name of the file is gone. -/
def unlinked : Occasion where
  world := { files := { oneFile with root := .directory {} [] }, clock := 1, date := { seconds := 1 } }
  readiness := { writable := true }

theorem oneFile_resolve :
    oneFileSite.resolve oneFile (utf8 "/f") = .ok (.file [utf8 "f"] ⟨0, 0, []⟩ 4) := by
  have isText : Target.decode? (utf8 "/f") = some (utf8 "/f") :=
    Target.decode?_eq_some_iff.mpr ⟨by cbv, Utf8.isValid_iff.mp (by cbv), by decide⟩
  unfold Site.resolve Target.resolve
  rw [isText]
  cbv

/-- The request makes the connection begin the response; nothing of it can be written yet. -/
theorem fileRequest_begun : ∃ d, d.file = some (⟨0, 0, []⟩, 4) ∧
    (fileRequest.history oneFileSite [asked]).responses = [(asked, d)] ∧
    (fileRequest.history oneFileSite [asked]).connection.phase = .writing d ∧
    (fileRequest.history oneFileSite [asked]).connection.stream.acceptances = [] := by
  have found : Head.terminatorOffset? (utf8 "GET /f HTTP/1.1\r\n\r\n") = some 15 := by cbv
  have parsed : Head.parse ((utf8 "GET /f HTTP/1.1\r\n\r\n").take 15) =
      .ok ⟨.get, utf8 "/f", utf8 "HTTP/1.1", []⟩ := by cbv
  have fits : (utf8 "GET /f HTTP/1.1\r\n\r\n").length ≤ fileRequest.readSize := by decide
  have sound : fileRequest.checked asked = fileRequest := checked_of_sound rfl
  have taken : fileRequest.takeIn oneFileSite asked = (readHead oneFileSite asked.world fileRequest).1 := by
    rw [takeIn, sound]
    exact if_pos ⟨rfl, rfl⟩
  obtain ⟨writing, acceptances, -⟩ :=
    readHead_of_whole oneFileSite asked.world (c := fileRequest) rfl rfl fits found
  rw [dispatch_of_file fileRequest.peer parsed rfl oneFile_resolve] at writing
  rw [← taken] at writing acceptances
  obtain ⟨d, writing, isFile, isLeft⟩ : ∃ d, (fileRequest.takeIn oneFileSite asked).phase = .writing d ∧
      d.file = some (⟨0, 0, []⟩, 4) ∧ d.pending ≠ [] := ⟨_, writing, rfl, Response.head_ne_nil _ _ _⟩
  obtain ⟨next, flushed, takesAll⟩ := Delivery.flushPending_blocked isLeft acceptances
  have opens : fileRequest.opens oneFileSite asked = some d := by
    rw [Connection.opens, writing]
    rfl
  obtain ⟨connection, responses, -⟩ :=
    History.next_opens (h := { connection := fileRequest, phases := [fileRequest.phase] }) opens
  obtain ⟨stillWriting, stream⟩ := flush_blocked asked.world writing flushed
  rw [← connection] at stillWriting stream
  exact ⟨d, isFile, responses, stillWriting, (congrArg Stream.acceptances stream).trans takesAll⟩

/-- The rest goes out when the name of the file is gone, and the body is all that the file holds. -/
theorem sent_framed_after_unlink :
    let h := fileRequest.history oneFileSite [asked, unlinked]
    FileKept oneFileSite fileRequest [asked, unlinked] ∧ h.connection.responseSent = true ∧
      ∃ response : Response,
        h.connection.stream.output =
          response.head asked.world.date.inHead oneFileSite.server ++ utf8 "\r\n\r\n" ∧
        oneFileSite.Content asked.world ((Head.read h.connection.stream.input).map Prod.fst) response.status
          (utf8 "\r\n\r\n") ∧
        Response.Framed h.connection.stream.output response.status
          (response.fields asked.world.date.inHead oneFileSite.server) (utf8 "\r\n\r\n") := by
  intro h
  obtain ⟨d, isFile, responses, writing, takesAll⟩ := fileRequest_begun
  have served : Site.ofRoot oneFile (utf8 "/") 1 = .ok oneFileSite := by cbv
  have kept : FileKept oneFileSite fileRequest [asked, unlinked] := by
    intro before o after split began d' begun handle length isFile'
    cases before with
    | nil => cases begun
    | cons first before =>
        cases before with
        | nil =>
            obtain ⟨rfl, rfl, -⟩ : asked = first ∧ unlinked = o ∧ [] = after := by simpa using split
            rw [responses, List.mem_singleton] at begun
            cases begun
            cases isFile.symm.trans isFile'
            rfl
        | cons second before => simp at split
  have sent : (fileRequest.history oneFileSite [asked, unlinked]).connection.responseSent = true := by
    have sound := checked_of_sound (c := (fileRequest.history oneFileSite [asked]).connection)
      (o := unlinked) rfl
    have handled := handle_eq oneFileSite (fileRequest.history oneFileSite [asked]).connection unlinked
    rw [if_pos (by simp [mayWrite, unlinked]),
      takeIn_of_not_reading (by simp [sound, writing]), sound] at handled
    obtain ⟨progress, rest, next, sends, -, outcome⟩ := flush_writing unlinked.world writing
    have done_ : progress = .done := by
      refine sends.done_of_unhindered takesAll ?_
      intro handle remaining isFile'
      cases isFile.symm.trans isFile'
      exact ⟨rfl, by decide⟩
    subst done_
    exact (congrArg responseSent handled).trans outcome.2
  obtain ⟨-, o, d', begun, response, body, output, content, ofFile, framed⟩ := sent_framed served kept sent
  have stillOne : h.responses = [(asked, d)] :=
    (History.next_writing oneFileSite unlinked writing).1.trans responses
  have same : (o, d') = (asked, d) := List.mem_singleton.mp (stillOne ▸ begun)
  obtain ⟨rfl, rfl⟩ := Prod.mk.inj same
  obtain rfl : body = utf8 "\r\n\r\n" := ofFile _ _ isFile
  exact ⟨kept, sent, response, output, content, output ▸ (framed _ (.refl _)).2⟩

end Connection

end Docroot
