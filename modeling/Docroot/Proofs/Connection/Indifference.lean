import Docroot.Proofs.Connection.WholeResponse
import Docroot.Proofs.Message.RequestTarget

/-!
What an answer depends on. Of all that a client sends only the method and the path of its request count: the
query, the version, the header lines and whatever comes behind the head change nothing, and neither do the
pieces in which it comes.
-/
namespace Docroot

namespace History

/-- As long as the client takes what it is offered, the connection reads or has said all. -/
structure Prompt (fs : FileSystem) (h : History) : Prop where
  willing : h.connection.phase = .reading → h.connection.stream.Willing
  notWaiting : ∀ d, h.connection.phase ≠ .writing d
  whole : ∀ o d, (o, d) ∈ h.responses → h.connection.stream.output = d.octets fs

variable {site : Site} {fs : FileSystem} {h : History} {o : Occasion}

theorem prompt_of_opens {d : Delivery} (silent : h.Silent) (willing : h.connection.stream.Willing)
    (files : o.world.files = fs) (opens : h.connection.opens site o = some d) : (h.next site o).Prompt fs := by
  obtain ⟨-, writing, -⟩ := Connection.opens_eq_some opens
  obtain ⟨connection, responses, -⟩ := next_opens opens
  obtain ⟨output, -⟩ := Connection.takeIn_output site h.connection o
  obtain ⟨progress, rest, next, sends, stream, outcome⟩ := Connection.flush_writing o.world writing
  obtain ⟨_, reply⟩ := Connection.opens_reply opens
  have isDone : progress = .done := by
    refine sends.done_of_willing ?_ reply.readable
    rwa [Stream.Willing, Connection.takeIn_acceptances]
  rw [← connection] at stream outcome
  rw [isDone] at outcome
  refine ⟨?_, ?_, ?_⟩
  · intro reading
    cases reading.symm.trans outcome.1
  · intro rest writing
    cases writing.symm.trans outcome.1
  · intro began d' begun
    rw [responses, silent.responses, List.nil_append, List.mem_singleton] at begun
    cases begun
    rw [stream, sends.output_of_done isDone, output, silent.output, files, List.nil_append]

theorem prompt_next (consistent : h.Consistent) (files : o.world.files = fs) (prompt : h.Prompt fs) :
    (h.next site o).Prompt fs := by
  cases phase : h.connection.phase with
  | writing d => exact absurd phase (prompt.notWaiting d)
  | closed =>
      obtain ⟨connection, responses, -⟩ := next_closed site o phase
      exact ⟨connection ▸ prompt.willing, connection ▸ prompt.notWaiting, connection ▸ responses ▸ prompt.whole⟩
  | reading =>
      have silent := consistent.silent_of_reading phase
      have willing := prompt.willing phase
      cases taken : (h.connection.takeIn site o).phase with
      | writing d =>
          exact prompt_of_opens silent willing files (by rw [Connection.opens, phase, taken])
      | reading | closed =>
          have idle : ∀ d, (h.connection.takeIn site o).phase ≠ .writing d := by simp [taken]
          have handled : (h.next site o).connection = h.connection.takeIn site o :=
            Connection.handle_of_idle idle
          refine ⟨?_, handled ▸ idle, ?_⟩
          · intro _
            rwa [handled, Stream.Willing, Connection.takeIn_acceptances]
          · intro began d begun
            rw [(silent_next silent idle).responses] at begun
            cases begun

end History

namespace Connection

/-- What a client sends beside a method and a path, and how it comes and is taken. -/
structure Visit where
  query : Bytes
  version : Bytes
  /-- The octets of the header lines, if there are any. -/
  fields : Option Bytes
  behind : Bytes
  script : List Arrival
  ending : List Arrival
  acceptances : List Acceptance
  peer : SocketAddress
  now : Nat
  occasions : List Occasion

namespace Visit

def head (v : Visit) (method path : Bytes) : Bytes :=
  Head.withFields (Head.requestLine method (path ++ v.query) v.version) v.fields

def text (v : Visit) (method path : Bytes) : Bytes := v.head method path ++ (Head.terminator ++ v.behind)

def history (v : Visit) (site : Site) (limits : Limits) : History :=
  (start (.fresh (v.script ++ v.ending) v.acceptances) v.peer limits v.now).history site v.occasions

/-- The visit brings a head that there is room for and that ends at its first blank line, and goes on until the
connection reads no more or has read the whole text. The client takes some of whatever it is offered. -/
structure Completes (v : Visit) (site : Site) (fs : FileSystem) (limits : Limits) (method path : Bytes) :
    Prop where
  marked : ∀ b ∈ v.query.head?, b = 63 ∨ b = 35
  target : IsWord Head.maxTarget (path ++ v.query)
  version : IsWord Head.maxVersion v.version
  first : Head.terminatorOffset? (v.text method path) = some (v.head method path).length
  room : (v.head method path).length + Head.terminator.length ≤
    max limits.maxHeaderBytes Limits.minHeaderBytes
  delivers : Arrival.Delivers v.script (v.text method path)
  ends : ∀ a ∈ v.ending.head?, ¬ a.GoesOn
  willing : ∀ a ∈ v.acceptances, ∃ count, a = .upTo (count + 1)
  sound : ∀ o ∈ v.occasions, o.readiness.failed = false
  files : ∀ o ∈ v.occasions, o.world.files = fs
  settled : (v.history site limits).connection.phase ≠ .reading ∨
    (v.history site limits).connection.stream.input = v.text method path

variable {v : Visit} {site : Site} {fs : FileSystem} {limits : Limits} {method path : Bytes}

theorem Completes.prompt (h : v.Completes site fs limits method path) :
    (v.history site limits).Prompt fs := by
  have reached : (v.history site limits).Consistent ∧ (v.history site limits).Prompt fs := by
    apply history_invariant (P := fun h => h.Consistent ∧ h.Prompt fs)
    · exact ⟨.reading rfl ⟨rfl, rfl, rfl, rfl⟩, fun _ => h.willing, nofun, nofun⟩
    · rintro before o member ⟨consistent, prompt⟩
      exact ⟨History.consistent_next o consistent, History.prompt_next consistent (h.files o member) prompt⟩
  exact reached.2

/-- The client is given the whole answer to a request for the method and the path. -/
theorem Completes.output (h : v.Completes site fs limits method path)
    (isMethod : IsWord Head.maxMethod method) (isPath : IsTarget path) :
    ∃ o ∈ v.occasions, ∃ request : Request, request.method = .ofToken method ∧ request.path = path ∧
      (v.history site limits).connection.stream.output = (site.answer o.world request v.peer).1.octets fs := by
  let request : Request := ⟨.ofToken method, path ++ v.query, v.version, Head.headers (v.fields.getD [])⟩
  have parsed : Head.parse (v.head method path) = .ok request :=
    Head.parse_requestLine isMethod h.target h.version v.fields
  have decides : reaction site v.peer (max limits.maxHeaderBytes Limits.minHeaderBytes)
      ((v.text method path).take (max limits.maxHeaderBytes Limits.minHeaderBytes)) =
        some fun world => (site.answer world request v.peer).1 := by
    rw [reaction, Head.read_of_terminator (indexOf?_take h.first h.room), List.take_take,
      Nat.min_eq_left (Nat.le_of_add_right_le h.room), text, List.take_left, parsed]
    rfl
  have reacted := reacts_to_front h.delivers h.ends h.sound site v.acceptances v.peer limits v.now
  obtain ⟨o, member, begun, -, -⟩ := (reacted h.settled).1 _ decides
  refine ⟨o, member, request, rfl, isPath.stripQuery_append h.marked, ?_⟩
  exact h.prompt.whole o _ (begun ▸ List.mem_singleton_self _)

end Visit

/-- Two clients that ask for the same path by the same method are given the same octets but for the date,
whatever query, version, header lines and octets behind the head they send, and however these come. -/
theorem only_method_and_path_matter (site : Site) (fs : FileSystem) (limits : Limits) {method path : Bytes}
    (isMethod : IsWord Head.maxMethod method) (isPath : IsTarget path) {v w : Visit}
    (first : v.Completes site fs limits method path) (second : w.Completes site fs limits method path) :
    ∃ before behind : Bytes,
      (∃ o ∈ v.occasions, (v.history site limits).connection.stream.output =
        before ++ o.world.date.inHead ++ behind) ∧
      ∃ o ∈ w.occasions, (w.history site limits).connection.stream.output =
        before ++ o.world.date.inHead ++ behind := by
  obtain ⟨before, behind, around⟩ := site.answer_by_method_and_path fs (.ofToken method) path
  refine ⟨before, behind, ?_, ?_⟩
  · obtain ⟨o, member, request, sameMethod, samePath, output⟩ := first.output isMethod isPath
    exact ⟨o, member, output.trans (around _ _ _ (first.files o member) sameMethod samePath)⟩
  · obtain ⟨o, member, request, sameMethod, samePath, output⟩ := second.output isMethod isPath
    exact ⟨o, member, output.trans (around _ _ _ (second.files o member) sameMethod samePath)⟩

/-- A visit that asks for the one file, all at once. -/
def forFile (query version : Bytes) (fields : Option Bytes) (behind : Bytes) (acceptances : List Acceptance) :
    Visit where
  query := query
  version := version
  fields := fields
  behind := behind
  script := [.octets (Head.withFields (Head.requestLine (utf8 "GET") (utf8 "/f" ++ query) version) fields ++
    (Head.terminator ++ behind))]
  ending := []
  acceptances := acceptances
  peer := ⟨.v4 127 0 0 1, 80⟩
  now := 0
  occasions := [asked]

theorem forFile_completes {query version behind : Bytes} {fields : Option Bytes}
    {acceptances : List Acceptance} (marked : ∀ b ∈ query.head?, b = 63 ∨ b = 35)
    (target : IsWord Head.maxTarget (utf8 "/f" ++ query)) (isVersion : IsWord Head.maxVersion version)
    (willing : ∀ a ∈ acceptances, ∃ count, a = .upTo (count + 1))
    (first : Head.terminatorOffset? ((forFile query version fields behind acceptances).text
      (utf8 "GET") (utf8 "/f")) =
        some ((forFile query version fields behind acceptances).head (utf8 "GET") (utf8 "/f")).length)
    (short : ((forFile query version fields behind acceptances).text (utf8 "GET") (utf8 "/f")).length ≤ 1024) :
    (forFile query version fields behind acceptances).Completes oneFileSite oneFile ⟨1, 1024, 1⟩
      (utf8 "GET") (utf8 "/f") := by
  let v := forFile query version fields behind acceptances
  let c := start (.fresh v.script acceptances) v.peer ⟨1, 1024, 1⟩ 0
  have bound : (v.head (utf8 "GET") (utf8 "/f")).length + Head.terminator.length ≤ 1024 := by
    have parts : (v.text (utf8 "GET") (utf8 "/f")).length = _ := List.length_append
    rw [List.length_append, ← Nat.add_assoc] at parts
    have whole : (v.text (utf8 "GET") (utf8 "/f")).length ≤ 1024 := short
    omega
  have isSome : v.text (utf8 "GET") (utf8 "/f") ≠ [] :=
    List.append_ne_nil_of_right_ne_nil _ (List.cons_ne_nil _ _)
  have left : (c.takeIn oneFileSite asked).phase ≠ .reading := by
    have sound : c.checked asked = c := checked_of_sound rfl
    have taken : c.takeIn oneFileSite asked = (readHead oneFileSite asked.world c).1 := by
      rw [takeIn, sound]
      exact if_pos ⟨rfl, rfl⟩
    rw [taken, (readHead_of_whole oneFileSite asked.world (c := c) rfl rfl short first).1]
    intro stays
    cases stays
  exact {
    marked, target, willing, first
    version := isVersion
    room := bound
    delivers := ⟨List.forall_mem_singleton.mpr isSome, List.append_nil _⟩
    ends a isNext := absurd isNext (Option.not_mem_none a)
    sound := List.forall_mem_singleton.mpr rfl
    files := List.forall_mem_singleton.mpr rfl
    settled := .inl (handle_not_reading left) }

/-- Header lines that are no text, without a colon and without a name, given twice, and a second request. -/
def cluttered : Visit :=
  forFile (utf8 "?q=1") (utf8 "HTTP/1.1") (some (utf8 "a: b\r\nnone\r\n: x\r\na: " ++ [255, 254]))
    (utf8 "GET /g HTTP/1.1\r\n\r\n") [.upTo 1, .upTo 7]

def bare : Visit := forFile [] (utf8 "x") none [] []

theorem only_method_and_path_matter_for_file :
    cluttered.Completes oneFileSite oneFile ⟨1, 1024, 1⟩ (utf8 "GET") (utf8 "/f") ∧
      bare.Completes oneFileSite oneFile ⟨1, 1024, 1⟩ (utf8 "GET") (utf8 "/f") ∧
      (cluttered.history oneFileSite ⟨1, 1024, 1⟩).connection.stream.output =
        (bare.history oneFileSite ⟨1, 1024, 1⟩).connection.stream.output := by
  have isPath : IsTarget (utf8 "/f") := ⟨.of_ascii (by decide +kernel), by decide +kernel⟩
  have isVersion : IsWord Head.maxVersion (utf8 "x") :=
    ⟨.of_ascii (by decide +kernel), by decide +kernel, by decide +kernel, by decide +kernel⟩
  have isTarget : IsWord Head.maxTarget (utf8 "/f" ++ utf8 "?q=1") :=
    ⟨.of_ascii (by decide +kernel), by decide +kernel, by decide +kernel, by decide +kernel⟩
  have first : cluttered.Completes oneFileSite oneFile ⟨1, 1024, 1⟩ (utf8 "GET") (utf8 "/f") := by
    refine forFile_completes (by decide +kernel) isTarget Head.isWord_version ?_ ?_ ?_
    · simp
    · cbv
    · decide +kernel
  have second : bare.Completes oneFileSite oneFile ⟨1, 1024, 1⟩ (utf8 "GET") (utf8 "/f") := by
    have isTarget : IsWord Head.maxTarget (utf8 "/f") := isPath.isWord (by decide +kernel) (by decide +kernel)
    refine forFile_completes (by decide +kernel) isTarget isVersion ?_ ?_ ?_
    · simp
    · cbv
    · decide +kernel
  obtain ⟨before, behind, ⟨o, member, output⟩, ⟨o', member', output'⟩⟩ :=
    only_method_and_path_matter oneFileSite oneFile ⟨1, 1024, 1⟩ Head.isWord_get isPath first second
  obtain rfl : o = asked := List.mem_singleton.mp member
  obtain rfl : o' = asked := List.mem_singleton.mp member'
  exact ⟨first, second, output.trans output'.symm⟩

end Connection

end Docroot
