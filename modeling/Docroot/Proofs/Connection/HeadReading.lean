import Docroot.Proofs.Bytes
import Docroot.Proofs.Connection.OneResponse
import Docroot.Proofs.Message.HeadSearch
import Mathlib

/-!
What a connection does does not depend on how the octets come. Reads search for the end of the head piece by
piece, with an overlap, and stop at a limit; the outcome is that of one search in the front of the whole
text, cut at the limit.
-/
namespace Docroot

namespace Head

theorem parse_ne_incomplete (raw : Bytes) : parse raw ≠ .error .incomplete := by
  unfold parse
  split
  split
  · split
    · split <;> simp
    · simp
  · simp

theorem read_of_terminator {bs : Bytes} {i : Nat} (h : terminatorOffset? bs = some i) :
    read bs = (parse (bs.take i)).map fun request => (request, i + terminator.length) := by
  rw [read, h]

theorem read_of_no_terminator {bs : Bytes} (h : terminatorOffset? bs = none) :
    read bs = .error .incomplete := by
  rw [read, h]

end Head

namespace Connection

/-- What a connection answers to the front of what is sent to it, where it lets in `limit` octets; nothing
as long as there is room and no end of the head. -/
def reaction (site : Site) (peer : SocketAddress) (limit : Nat) (front : Bytes) :
    Option (World → Delivery) :=
  match Head.read front with
  | .ok (request, _) => some fun world => (site.answer world request peer).1
  | .error .incomplete =>
    if limit ≤ front.length then some fun world => site.deliver world (.error .badRequest) else none
  | .error _ => some fun world => site.deliver world (.error .badRequest)

section Reaction

variable {site : Site} {peer : SocketAddress} {limit : Nat} {front : Bytes}

/-- The end of a head in a beginning decides for everything that begins so. -/
theorem reaction_of_terminator {buffer : Bytes} {i : Nat} (begins : buffer <+: front)
    (found : Head.terminatorOffset? buffer = some i) :
    reaction site peer limit front =
      some fun world => (dispatch site world peer (buffer.take i)).1 := by
  obtain ⟨more, rfl⟩ := begins
  have bound : i ≤ buffer.length := (indexOf?_eq_some_iff.mp found).1
  have foundFirst : Head.terminatorOffset? (buffer ++ more) = some i := indexOf?_append found more
  rw [reaction, Head.read_of_terminator foundFirst, List.take_append_of_le_length bound]
  unfold dispatch
  cases parsed : Head.parse (buffer.take i) with
  | ok request => rfl
  | error e =>
      cases e with
      | incomplete => exact absurd parsed (Head.parse_ne_incomplete _)
      | _ => rfl

theorem reaction_of_full (noEnd : Head.terminatorOffset? front = none) (full : limit ≤ front.length) :
    reaction site peer limit front = some fun world => site.deliver world (.error .badRequest) := by
  rw [reaction, Head.read_of_no_terminator noEnd]
  exact if_pos full

theorem reaction_of_room (noEnd : Head.terminatorOffset? front = none) (room : front.length < limit) :
    reaction site peer limit front = none := by
  rw [reaction, Head.read_of_no_terminator noEnd]
  exact if_neg (Nat.not_le_of_lt room)

end Reaction

/-- The connection with octets that have been read, given where the head ends in all there are. -/
def received (site : Site) (world : World) (c : Connection) (bytes : Bytes) (headEnd : Option Nat) :
    Connection × List Event :=
  match headEnd with
  | some i =>
    let (delivery, requestLine, events) := dispatch site world c.peer ((c.buffer ++ bytes).take i)
    ({ c with buffer := c.buffer ++ bytes, phase := .writing delivery, requestLine }, events)
  | none =>
    if c.limits.maxHeaderBytes ≤ (c.buffer ++ bytes).length then
      ({ c with
          buffer := c.buffer ++ bytes
          phase := .writing (site.deliver world (.error .badRequest)) },
        [.headTooLarge c.peer c.limits.maxHeaderBytes])
    else ({ c with buffer := c.buffer ++ bytes }, [])

theorem receive_eq_endBehind (site : Site) (world : World) (c : Connection) (bytes : Bytes) :
    receive site world c bytes = received site world c bytes (Head.endBehind? c.buffer bytes) := by
  unfold receive Head.endBehind?
  dsimp only
  cases Head.terminatorOffset? ((c.buffer ++ bytes).drop (c.buffer.length - 3)) with
  | none => rfl
  | some offset => rfl

/-- The search after a read finds what a search through the whole buffer would find. -/
theorem receive_eq (site : Site) (world : World) {c : Connection} (bytes : Bytes)
    (noEnd : Head.terminatorOffset? c.buffer = none) :
    receive site world c bytes =
      received site world c bytes (Head.terminatorOffset? (c.buffer ++ bytes)) := by
  rw [receive_eq_endBehind, Head.endBehind?_eq noEnd]

/-- A head that comes in one piece is answered after one read. -/
theorem readHead_of_whole (site : Site) (world : World) {c : Connection} {bytes : Bytes}
    {rest : List Arrival} {i : Nat} (arrivals : c.stream.arrivals = .octets bytes :: rest)
    (empty : c.buffer = []) (fits : bytes.length ≤ c.readSize)
    (found : Head.terminatorOffset? bytes = some i) :
    (readHead site world c).1.phase = .writing (dispatch site world c.peer (bytes.take i)).1 ∧
      (readHead site world c).1.stream.acceptances = c.stream.acceptances ∧
      (readHead site world c).2 = (dispatch site world c.peer (bytes.take i)).2.2 := by
  obtain ⟨next, read, acceptances⟩ : ∃ next, c.stream.read c.readSize = (.ok bytes, next) ∧
      next.acceptances = c.stream.acceptances := by
    rw [Stream.read, arrivals]
    exact ⟨_, if_pos fits, rfl⟩
  have noEnd : Head.terminatorOffset? c.buffer = none := by rw [empty]; rfl
  have isSome : bytes ≠ [] := by
    rintro rfl
    cases found
  obtain ⟨b, bs, rfl⟩ := List.exists_cons_of_ne_nil isSome
  have answered := receive_eq site world (c := { c with stream := next }) (b :: bs) noEnd
  simp only [received, empty, List.nil_append, found] at answered
  have decided : ∀ d, Phase.writing d ≠ .reading := by
    intro d same
    cases same
  rw [readHead_eq, read]
  dsimp only
  rw [empty, answered, if_neg (decided _)]
  exact ⟨rfl, acceptances, rfl⟩

/-- A client that sends a head in one piece and takes all is given the whole of an answer without a file. -/
theorem output_of_whole (site : Site) (world : World) (peer : SocketAddress) (limits : Limits) (now : Nat)
    {bytes : Bytes} {i : Nat} (fits : bytes.length ≤ (start (.fresh [.octets bytes] []) peer limits now).readSize)
    (found : Head.terminatorOffset? bytes = some i)
    (noFile : (dispatch site world peer (bytes.take i)).1.file = none) :
    ((start (.fresh [.octets bytes] []) peer limits now).history site
        [⟨world, { readable := true }⟩]).connection.stream.output =
      (dispatch site world peer (bytes.take i)).1.pending := by
  let c := start (.fresh [.octets bytes] []) peer limits now
  let o : Occasion := ⟨world, { readable := true }⟩
  change (c.handle site o).stream.output = _
  have sound : c.checked o = c := checked_of_sound rfl
  have taken : c.takeIn site o = (readHead site world c).1 := by
    rw [takeIn, sound]
    exact if_pos ⟨rfl, rfl⟩
  obtain ⟨writing, acceptances, -⟩ := readHead_of_whole site world (c := c) rfl rfl fits found
  have empty := (takeIn_output site c o).1
  rw [← taken] at writing acceptances
  change (c.takeIn site o).phase = .writing (dispatch site world peer (bytes.take i)).1 at writing
  obtain ⟨progress, rest, next, sends, stream, -⟩ := flush_writing world writing
  have isDone : progress = .done := by
    refine sends.done_of_unhindered acceptances ?_
    intro handle remaining isFile
    rw [noFile] at isFile
    cases isFile
  subst isDone
  obtain ⟨took, output, -, all, length⟩ := sends.accounts
  have nothing : (dispatch site world peer (bytes.take i)).1.unreadFile = 0 := by
    rw [Delivery.unreadFile, noFile]
  have mayWrite : c.mayWrite o = true := by
    rw [Connection.mayWrite, sound]
    rfl
  rw [handle_eq, if_pos mayWrite, stream, output, empty, all,
    List.eq_nil_of_length_eq_zero (length.trans nothing), List.append_nil]
  rfl

/-- A client that asks for a listing in this way is given its page. -/
theorem output_of_listing (site : Site) (world : World) (peer : SocketAddress) (limits : Limits) (now : Nat)
    {bytes page : Bytes} {i : Nat} {request : Request} {directory : Location}
    (fits : bytes.length ≤ (start (.fresh [.octets bytes] []) peer limits now).readSize)
    (found : Head.terminatorOffset? bytes = some i) (parsed : Head.parse (bytes.take i) = .ok request)
    (isGet : request.method = .get) (resolved : site.resolve world.files request.path = .ok (.directory directory))
    (listed : site.list world.files directory request.path = .ok page) :
    ((start (.fresh [.octets bytes] []) peer limits now).history site
        [⟨world, { readable := true }⟩]).connection.stream.output =
      (Response.html page).head world.date.inHead site.server ++ page := by
  have answered := dispatch_of_directory site world peer parsed isGet resolved listed
  have noFile : (dispatch site world peer (bytes.take i)).1.file = none := by
    rw [answered]
    rfl
  rw [output_of_whole site world peer limits now fits found noFile, answered]
  rfl

/-- A connection that has read the beginning of a text and found no end of a head in it. The rest is to
come, and then what ends the reading. -/
structure Awaiting (peer : SocketAddress) (limit : Nat) (text : Bytes) (ending : List Arrival)
    (c : Connection) : Prop where
  toCome : ∃ script rest, c.stream.arrivals = script ++ ending ∧ Arrival.Delivers script rest ∧
    c.buffer ++ rest = text
  input : c.stream.input = c.buffer
  noEnd : Head.terminatorOffset? c.buffer = none
  sameLimit : c.limits.maxHeaderBytes = limit
  room : c.buffer.length < limit
  samePeer : c.peer = peer

/-- What reads lead to: they go on, they have found what is answered, or the text has ended too early. -/
inductive Reacted (site : Site) (world : World) (peer : SocketAddress) (limit : Nat) (text : Bytes)
    (ending : List Arrival) (c : Connection) : Prop
  | awaiting : c.phase = .reading → c.Awaiting peer limit text ending →
      Reacted site world peer limit text ending c
  | answering {answer : World → Delivery} : reaction site peer limit (text.take limit) = some answer →
      c.phase = .writing (answer world) → Reacted site world peer limit text ending c
  | ended : reaction site peer limit (text.take limit) = none → c.phase = .closed →
      c.stream.arrivals.length < ending.length → Reacted site world peer limit text ending c

section Reads

variable {site : Site} {world : World} {peer : SocketAddress} {limit : Nat} {text : Bytes}
  {ending : List Arrival} {c : Connection}

theorem Awaiting.front_eq (h : c.Awaiting peer limit text ending) {rest : Bytes}
    (toCome : c.buffer ++ rest = text) :
    text.take limit = c.buffer ++ rest.take (limit - c.buffer.length) := by
  rw [← toCome, List.take_append, List.take_of_length_le (Nat.le_of_lt h.room)]

theorem Awaiting.receive (h : c.Awaiting peer limit text ending) (reading : c.phase = .reading)
    {bytes rest : Bytes} {script : List Arrival} {next : Stream} (arrivals : next.arrivals = script ++ ending)
    (delivers : Arrival.Delivers script rest) (toCome : c.buffer ++ (bytes ++ rest) = text)
    (input : next.input = c.stream.input ++ bytes) (fits : bytes.length ≤ limit - c.buffer.length) :
    Reacted site world peer limit text ending
      (Connection.receive site world { c with stream := next } bytes).1 := by
  have begins : c.buffer ++ bytes <+: text.take limit := by
    rw [h.front_eq toCome, List.take_append, List.take_of_length_le fits, ← List.append_assoc]
    exact List.prefix_append _ _
  have length : (c.buffer ++ bytes).length ≤ limit := by
    have := h.room
    rw [List.length_append]
    omega
  rw [receive_eq site world bytes (c := { c with stream := next }) h.noEnd]
  unfold received
  dsimp only
  cases found : Head.terminatorOffset? (c.buffer ++ bytes) with
  | some i =>
      refine .answering (reaction_of_terminator begins found) ?_
      rw [← h.samePeer]
  | none =>
      dsimp only
      rw [h.sameLimit]
      by_cases full : limit ≤ (c.buffer ++ bytes).length
      · rw [if_pos full]
        have whole : c.buffer ++ bytes = text.take limit :=
          begins.eq_of_length_le (Nat.le_trans (List.length_take_le _ _) full)
        rw [whole] at found full
        exact .answering (reaction_of_full found full) rfl
      · rw [if_neg full]
        refine .awaiting reading ⟨⟨script, rest, arrivals, delivers, ?_⟩, ?_, found, h.sameLimit,
          Nat.lt_of_not_le full, h.samePeer⟩
        · rw [← toCome, List.append_assoc]
        · rw [input, h.input]

/-- A connection that waits for nothing but the end has all of the text, and the text decides nothing. -/
theorem Awaiting.undecided (h : c.Awaiting peer limit text ending) (whole : c.buffer = text) :
    reaction site peer limit (text.take limit) = none := by
  subst whole
  rw [List.take_of_length_le (Nat.le_of_lt h.room)]
  exact reaction_of_room h.noEnd h.room

/-- A read that brings nothing leaves the connection as it was. -/
theorem Awaiting.waits (h : c.Awaiting peer limit text ending) (reading : c.phase = .reading) {next : Stream}
    (toCome : ∃ script rest, next.arrivals = script ++ ending ∧ Arrival.Delivers script rest ∧
      c.buffer ++ rest = text) (input : next.input = c.stream.input) :
    Reacted site world peer limit text ending { c with stream := next } :=
  .awaiting reading ⟨toCome, input.trans h.input, h.noEnd, h.sameLimit, h.room, h.samePeer⟩

theorem Awaiting.readOnce_ending (h : c.Awaiting peer limit text ending) (reading : c.phase = .reading)
    (ends : ∀ a ∈ ending.head?, ¬ a.GoesOn) (arrivals : c.stream.arrivals = ending)
    (whole : c.buffer = text) : Reacted site world peer limit text ending (c.readOnce site world) := by
  have undecided : reaction site peer limit (text.take limit) = none := h.undecided whole
  cases ending with
  | nil =>
      rw [Connection.readOnce, Stream.read_nil arrivals]
      refine h.waits reading ⟨[], [], arrivals, ⟨by simp, rfl⟩, ?_⟩ (by simp [Stream.input, Stream.gained])
      rw [List.append_nil, whole]
  | cons last more =>
      have isLast := ends last rfl
      cases last with
      | octets bytes =>
          obtain rfl : bytes = [] := Decidable.byContradiction isLast
          rw [Connection.readOnce, Stream.read, arrivals]
          exact .ended undecided rfl (Nat.lt_succ_self _)
      | failure kind =>
          rw [Connection.readOnce, Stream.read_failure arrivals]
          cases kind with
          | wouldBlock => exact absurd (.inl rfl) isLast
          | interrupted => exact absurd (.inr rfl) isLast
          | _ => exact .ended undecided rfl (Nat.lt_succ_self _)

theorem Awaiting.readOnce_octets (h : c.Awaiting peer limit text ending) (reading : c.phase = .reading)
    {bytes : Bytes} {script : List Arrival} (arrivals : c.stream.arrivals = .octets bytes :: (script ++ ending))
    (isSome : bytes ≠ []) (later : ∀ a ∈ script, a.GoesOn)
    (toCome : c.buffer ++ (bytes ++ script.flatMap Arrival.brings) = text) :
    Reacted site world peer limit text ending (c.readOnce site world) := by
  obtain ⟨left, next, read, nextArrivals, nextDelivers, input⟩ := Stream.read_octets arrivals c.readSize
  have delivered : Arrival.Delivers (left ++ script)
      (bytes.drop c.readSize ++ script.flatMap Arrival.brings) := nextDelivers.append ⟨later, rfl⟩
  have parts : c.buffer ++ (bytes.take c.readSize ++
      (bytes.drop c.readSize ++ script.flatMap Arrival.brings)) = text := by
    rw [← List.append_assoc (bytes.take _), List.take_append_drop, toCome]
  have size : c.readSize = min (limit - c.buffer.length) readChunk := by
    rw [readSize, h.sameLimit]
  have fits : (bytes.take c.readSize).length ≤ limit - c.buffer.length := by
    rw [List.length_take, size]
    omega
  -- There is room for an octet, so that what is read is not taken for the end of the stream.
  have takesSome : bytes.take c.readSize ≠ [] := by
    have room := h.room
    have : 0 < bytes.length := List.length_pos_iff.mpr isSome
    rw [← List.length_pos_iff, List.length_take, size, readChunk]
    omega
  have received : Reacted site world peer limit text ending
      (Connection.receive site world { c with stream := next } (bytes.take c.readSize)).1 :=
    h.receive reading (by rw [nextArrivals, List.append_assoc]) delivered parts input fits
  obtain ⟨b, bs, same⟩ := List.exists_cons_of_ne_nil takesSome
  rw [same] at read received
  rw [Connection.readOnce, read]
  exact received

/-- One read keeps a connection waiting, or decides what it answers as the front of the text does. -/
theorem Awaiting.readOnce (h : c.Awaiting peer limit text ending) (reading : c.phase = .reading)
    (ends : ∀ a ∈ ending.head?, ¬ a.GoesOn) :
    Reacted site world peer limit text ending (c.readOnce site world) := by
  obtain ⟨script, rest, arrivals, delivers, toCome⟩ := h.toCome
  obtain rfl : script.flatMap Arrival.brings = rest := delivers.brings
  cases script with
  | nil => exact h.readOnce_ending reading ends arrivals (by rw [← toCome]; exact (List.append_nil _).symm)
  | cons first script =>
      obtain ⟨goesOn, later⟩ := List.forall_mem_cons.mp delivers.goesOn
      cases first with
      | octets bytes => exact h.readOnce_octets reading arrivals goesOn later toCome
      | failure kind =>
          rw [Connection.readOnce, Stream.read_failure arrivals]
          rcases goesOn with rfl | rfl
          all_goals
            apply h.waits reading
            · exact ⟨script, _, rfl, ⟨later, rfl⟩, toCome⟩
            · simp [Stream.input, Stream.gained]

theorem Awaiting.takeIn {o : Occasion} (h : c.Awaiting peer limit text ending)
    (reading : c.phase = .reading) (ends : ∀ a ∈ ending.head?, ¬ a.GoesOn)
    (sound : o.readiness.failed = false) :
    Reacted site o.world peer limit text ending (c.takeIn site o) := by
  apply takeIn_invariant
  · rw [checked_of_sound sound]
    exact .awaiting reading h
  · intro t stillReading reacted
    cases reacted with
    | awaiting _ waits => exact waits.readOnce stillReading ends
    | answering _ phase | ended _ phase => cases stillReading.symm.trans phase

end Reads

/-- What a run has come to: the connection still waits, it has begun to answer as the front of the text
decides, or the text has ended too early. -/
inductive Decided (site : Site) (peer : SocketAddress) (limit : Nat) (text : Bytes) (ending : List Arrival)
    (occasions : List Occasion) (h : History) : Prop
  | awaiting : h.connection.phase = .reading → h.connection.Awaiting peer limit text ending →
      h.responses = [] → Decided site peer limit text ending occasions h
  | answering {o : Occasion} {answer : World → Delivery} :
      reaction site peer limit (text.take limit) = some answer → o ∈ occasions →
      h.responses = [(o, answer o.world)] → h.connection.phase ≠ .reading →
      Decided site peer limit text ending occasions h
  | ended : reaction site peer limit (text.take limit) = none → h.connection.phase = .closed →
      h.connection.stream.arrivals.length < ending.length → h.responses = [] →
      Decided site peer limit text ending occasions h

section Runs

variable {site : Site} {peer : SocketAddress} {limit : Nat} {text : Bytes} {ending : List Arrival}
  {occasions : List Occasion} {h : History}

theorem handle_not_reading {c : Connection} {o : Occasion} (left : (c.takeIn site o).phase ≠ .reading) :
    (c.handle site o).phase ≠ .reading := by
  intro reading
  have := stage_handle site c o
  rw [reading] at this
  cases phase : (c.takeIn site o).phase with
  | reading => exact left phase
  | _ => simp [phase, Phase.stage] at this

theorem decided_next {o : Occasion} (member : o ∈ occasions) (ends : ∀ a ∈ ending.head?, ¬ a.GoesOn)
    (sound : o.readiness.failed = false) (decided : Decided site peer limit text ending occasions h) :
    Decided site peer limit text ending occasions (h.next site o) := by
  cases decided with
  | awaiting reading waits none_ =>
      cases (waits.takeIn reading ends sound : Reacted site o.world peer limit text ending _) with
      | awaiting stillReading stillWaits =>
          have idle : ∀ d, (h.connection.takeIn site o).phase ≠ .writing d := by simp [stillReading]
          have handled : (h.next site o).connection = h.connection.takeIn site o := handle_of_idle idle
          refine .awaiting (handled ▸ stillReading) (handled ▸ stillWaits) ?_
          rw [History.next_responses, none_, opens_of_idle idle]
          rfl
      | answering decides writing =>
          refine .answering decides member ?_ (handle_not_reading (by simp [writing]))
          rw [History.next_responses, none_, opens, reading, writing]
          rfl
      | ended undecided closed met =>
          have idle : ∀ d, (h.connection.takeIn site o).phase ≠ .writing d := by simp [closed]
          have handled : (h.next site o).connection = h.connection.takeIn site o := handle_of_idle idle
          refine .ended undecided (handled ▸ closed) (handled ▸ met) ?_
          rw [History.next_responses, none_, opens_of_idle idle]
          rfl
  | answering decides began begun left =>
      refine .answering decides began ?_ (handle_not_reading ?_)
      · rw [History.next_responses, opens_of_not_reading left, begun]
        rfl
      · have same : h.connection.checked o = h.connection := checked_of_sound sound
        rw [takeIn_of_not_reading (by rwa [same]), same]
        exact left
  | ended undecided closed met none_ =>
      obtain ⟨connection, responses, -⟩ := History.next_closed site o closed
      exact .ended undecided (connection ▸ closed) (connection ▸ met) (responses.trans none_)

end Runs

/-- Whatever the pieces and the waits in which a text comes, what has been answered once the reading is over
is what the front of the text decides, and the client is given no other octets. Where it decides nothing the
connection waits with the whole text for more, unless the stream has ended or failed: then it is closed. -/
theorem reacts_to_front {script ending : List Arrival} {text : Bytes} {occasions : List Occasion}
    (delivers : Arrival.Delivers script text) (ends : ∀ a ∈ ending.head?, ¬ a.GoesOn)
    (sound : ∀ o ∈ occasions, o.readiness.failed = false) (site : Site)
    (acceptances : List Acceptance) (peer : SocketAddress) (limits : Limits) (now : Nat) :
    let limit := max limits.maxHeaderBytes Limits.minHeaderBytes
    let h := (start (.fresh (script ++ ending) acceptances) peer limits now).history site occasions
    h.connection.phase ≠ .reading ∨ h.connection.stream.input = text →
      (∀ answer, reaction site peer limit (text.take limit) = some answer →
        ∃ o ∈ occasions, h.responses = [(o, answer o.world)] ∧ h.connection.phase ≠ .reading ∧
          h.connection.stream.output <+: (answer o.world).sequence h.loaded) ∧
      (reaction site peer limit (text.take limit) = none →
        h.responses = [] ∧ h.connection.stream.output = [] ∧
          if h.connection.stream.arrivals.length < ending.length then h.connection.phase = .closed
          else h.connection.phase = .reading ∧ h.connection.buffer = text ∧
            h.connection.step = .wait .readable) := by
  intro limit h settled
  have consistent : h.Consistent := history_consistent site (script ++ ending) acceptances peer limits now occasions
  have decided : Decided site peer limit text ending occasions h := by
    apply history_invariant
    · refine .awaiting rfl ⟨⟨script, text, rfl, delivers, rfl⟩, rfl, rfl, rfl, ?_, rfl⟩ rfl
      have positive : 0 < Limits.minHeaderBytes := by decide
      exact Nat.lt_of_lt_of_le positive (Nat.le_max_right _ _)
    · intro h o member decided
      exact decided_next member ends (sound o member) decided
  clear_value h
  cases decided with
  | awaiting reading waits none_ =>
      have whole : h.connection.buffer = text := by
        rw [← waits.input]
        exact settled.resolve_left (not_not_intro reading)
      obtain ⟨script, rest, arrivals, -, -⟩ := waits.toCome
      have notMet : ¬ h.connection.stream.arrivals.length < ending.length := by
        rw [arrivals, List.length_append]
        omega
      rw [waits.undecided whole]
      constructor
      · intro answer decides
        cases decides
      · rw [if_neg notMet]
        intro _
        exact ⟨none_, consistent.output_nil none_, reading, whole, by simp [step, interest, reading]⟩
  | @answering o answer decides member begun left =>
      rw [decides]
      constructor
      · intro answer' same
        cases same
        exact ⟨o, member, begun, left, consistent.output_isPrefix (begun ▸ List.mem_singleton_self _)⟩
      · intro undecided
        cases undecided
  | ended undecided closed met none_ =>
      rw [undecided]
      constructor
      · intro answer decides
        cases decides
      · rw [if_pos met]
        intro _
        exact ⟨none_, consistent.output_nil none_, closed⟩

/-- A request whose blank line comes in two pieces, with waits between them and more after it. -/
def inPieces : List Arrival :=
  [.octets (utf8 "PUT / HTTP/1.1\r\n\r"), .failure .interrupted, .failure .wouldBlock,
    .octets (utf8 "\nGET /")]

def emptySite : Site := { root := [], listingLimit := 1 }

def piecewise : Connection := start (.fresh (inPieces ++ [.octets []]) []) ⟨.v4 127 0 0 1, 80⟩ ⟨1, 0, 1⟩ 0

def arrival : Occasion where
  world := { files := { root := .directory {} [] }, clock := 0, date := { seconds := 0 } }
  readiness := { readable := true }

/-- The pieces are answered as the text is: the method is refused, and what follows is not looked at. -/
theorem reacts_to_front_in_pieces :
    Arrival.Delivers inPieces (utf8 "PUT / HTTP/1.1\r\n\r\nGET /") ∧
      (piecewise.history emptySite [arrival, arrival]).responses =
        [(arrival, emptySite.deliver arrival.world (.error .methodNotAllowed))] := by
  have delivers : Arrival.Delivers inPieces (utf8 "PUT / HTTP/1.1\r\n\r\nGET /") := ⟨by decide, by cbv⟩
  have twoEvents : ∀ c : Connection, (c.history emptySite [arrival, arrival]).connection =
      (c.handle emptySite arrival).handle emptySite arrival := fun _ => rfl
  have left : (piecewise.history emptySite [arrival, arrival]).connection.phase ≠ .reading := by
    rw [twoEvents]
    refine handle_not_reading ?_
    intro reading
    have stage : ((piecewise.handle emptySite arrival).takeIn emptySite arrival).phase.stage = 1 := by
      cbv
    rw [reading] at stage
    cases stage
  have sound : ∀ o ∈ [arrival, arrival], o.readiness.failed = false := by simp [arrival]
  have ends : ∀ a ∈ [Arrival.octets []].head?, ¬ a.GoesOn := by simp [Arrival.GoesOn]
  have decides : reaction emptySite ⟨.v4 127 0 0 1, 80⟩ (max 0 Limits.minHeaderBytes)
      ((utf8 "PUT / HTTP/1.1\r\n\r\nGET /").take (max 0 Limits.minHeaderBytes)) =
        some fun world => emptySite.deliver world (.error .methodNotAllowed) := by cbv
  have reacted := reacts_to_front delivers ends sound emptySite [] ⟨.v4 127 0 0 1, 80⟩ ⟨1, 0, 1⟩ 0
  obtain ⟨o, member, begun, -, -⟩ := (reacted (.inl left)).1 _ decides
  obtain rfl : o = arrival := by simpa using member
  exact ⟨delivers, begun⟩

end Connection

end Docroot
