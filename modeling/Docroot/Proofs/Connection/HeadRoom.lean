import Docroot.Proofs.Connection.Deadline

/-!
The room for a head. The buffer holds what has been read, and while the connection reads there is room for one more
octet. So a read is never offered too much or nothing at all, and one that brings nothing has met the end of the
stream.
-/
namespace Docroot

/-- The room that a read was given. -/
def Call.room? : Call → Option Nat
  | received room _ | notReceived room _ => some room
  | accepted .. | notAccepted .. => none

namespace Connection

/-- A read that came after others had room for an octet, and for no more than the buffer had and one read may ask
for. If it brought nothing, all that the script has before its end had been read. -/
def Sized (limit : Nat) (script : List Arrival) (earlier : List Call) (call : Call) : Prop :=
  let held := Stream.gainedIn earlier
  ∃ room, call.room? = some room ∧ held.length < limit ∧ 0 < room ∧ room ≤ min readChunk (limit - held.length) ∧
    (call = .received room [] →
      ∃ before after, script = before ++ .octets [] :: after ∧ before.flatMap Arrival.brings = held)

/-- The buffer of a connection keeps within its limit, and so did every read that has filled it. -/
structure Fits (limit : Nat) (script : List Arrival) (c : Connection) : Prop where
  gathers : c.Gathers limit
  held : c.buffer = c.stream.input
  fits : c.buffer.length ≤ limit
  remains : Arrival.Remains script c.stream.input c.stream.arrivals
  reads : ∀ later call earlier, c.stream.reads = later ++ call :: earlier → Sized limit script earlier call

theorem receive_buffer (site : Site) (world : World) (c : Connection) (bytes : Bytes) :
    (receive site world c bytes).1.buffer = c.buffer ++ bytes := by
  unfold receive
  dsimp only
  split
  · rfl
  · split <;> rfl

section Fits

variable {site : Site} {world : World} {limit : Nat} {script : List Arrival} {c : Connection} {o : Occasion}

theorem Gathers.room (h : c.Gathers limit) (reading : c.phase = .reading) : c.buffer.length < limit :=
  Nat.lt_of_not_le (not_or.mp (h.reading reading)).2

/-- The read that is made next has room for an octet. -/
theorem Fits.readSize (h : c.Fits limit script) (reading : c.phase = .reading) :
    0 < c.readSize ∧ c.readSize ≤ min readChunk (limit - c.buffer.length) := by
  have room := h.gathers.room reading
  have some : 0 < readChunk := by decide
  rw [Connection.readSize, h.gathers.sameLimit]
  omega

/-- What has brought nothing has met the end of the stream, and whatever stood before that has been read. -/
theorem Fits.ended (h : c.Fits limit script) (reading : c.phase = .reading) {next : Stream}
    (read : c.stream.read c.readSize = (.ok [], next)) :
    ∃ before after, script = before ++ .octets [] :: after ∧
      before.flatMap Arrival.brings = Stream.gainedIn c.stream.reads := by
  obtain ⟨rest, isNext⟩ := Stream.read_eq_nil read (h.readSize reading).1
  have remains := h.remains
  rw [isNext, Stream.input_eq] at remains
  obtain ⟨before, front, same, held, whole⟩ := remains.piece
  rw [whole rfl] at same held
  rw [List.append_nil] at held
  exact ⟨before, rest, same, held.symm⟩

/-- A read is one more of those that were offered what fits. -/
theorem Fits.read (h : c.Fits limit script) (reading : c.phase = .reading) {next : Stream}
    {result : Except ErrorKind Bytes} (read : c.stream.read c.readSize = (result, next)) :
    Arrival.Remains script next.input next.arrivals ∧
      ∀ later call earlier, next.reads = later ++ call :: earlier → Sized limit script earlier call := by
  refine ⟨Stream.remains_read h.remains read, ?_⟩
  obtain ⟨isSome, fits⟩ := h.readSize reading
  have room := h.gathers.room reading
  rw [h.held, Stream.input_eq] at fits room
  obtain ⟨call, made, sized⟩ : ∃ call, next.reads = call :: c.stream.reads ∧
      Sized limit script c.stream.reads call := by
    cases result with
    | ok bytes =>
        refine ⟨_, Stream.reads_of_read_ok read, c.readSize, rfl, room, isSome, fits, ?_⟩
        intro nothing
        cases nothing
        exact h.ended reading read
    | error kind => exact ⟨_, Stream.reads_of_read_error read, c.readSize, rfl, room, isSome, fits, nofun⟩
  intro later call' earlier same
  rw [made] at same
  cases later with
  | nil =>
      obtain ⟨rfl, rfl⟩ := List.cons.inj same
      exact sized
  | cons _ later => exact h.reads later call' earlier (List.cons.inj same).2

theorem Fits.readOnce (h : c.Fits limit script) (reading : c.phase = .reading) :
    (c.readOnce site world).Fits limit script := by
  have gathers : (c.readOnce site world).Gathers limit := h.gathers.readOnce reading
  unfold Connection.readOnce at gathers ⊢
  split at gathers
  · next next read =>
    obtain ⟨remains, reads⟩ := h.read reading read
    have input := (Stream.input_of_read_ok read).1
    rw [List.append_nil] at input
    exact ⟨gathers, h.held.trans input.symm, h.fits, remains, reads⟩
  · next b bs next read =>
    obtain ⟨remains, reads⟩ := h.read reading read
    obtain ⟨input, length⟩ := Stream.input_of_read_ok read
    obtain ⟨-, fits⟩ := h.readSize reading
    have within := h.fits
    refine ⟨gathers, ?_, ?_, ?_, ?_⟩
    · rw [receive_buffer, receive_stream, h.held, input]
    · rw [receive_buffer, List.length_append]
      change c.buffer.length + (b :: bs).length ≤ limit
      omega
    · rwa [receive_stream]
    · rwa [receive_stream]
  all_goals
    next next read =>
    obtain ⟨remains, reads⟩ := h.read reading read
    exact ⟨gathers, h.held.trans (Stream.input_of_read_error read).symm, h.fits, remains, reads⟩

theorem Fits.takeIn (h : c.Fits limit script) : (c.takeIn site o).Fits limit script := by
  apply takeIn_invariant (P := Fits limit script)
  · rcases checked_eq c o with same | same <;> rw [same]
    · exact h
    · exact ⟨.of_closed h.gathers.sameLimit rfl, h.held, h.fits, h.remains, h.reads⟩
  · intro t reading fits
    exact fits.readOnce reading

theorem Fits.handle (h : c.Fits limit script) : (c.handle site o).Fits limit script := by
  have gathers : (c.handle site o).Gathers limit := h.gathers.handle
  have taken : (c.takeIn site o).Fits limit script := h.takeIn
  cases phase : (c.takeIn site o).phase with
  | reading | closed => rwa [handle_of_idle (by simp [phase])]
  | writing d =>
      by_cases mayWrite : c.mayWrite o = true
      · rw [handle_eq, if_pos mayWrite] at gathers ⊢
        obtain ⟨progress, rest, next, sends, stream, -⟩ := flush_writing o.world phase
        obtain ⟨reads, arrivals⟩ := sends.reads
        have buffer := (flush_limits (c.takeIn site o) o.world).2
        have input : next.input = (c.takeIn site o).stream.input := by
          rw [Stream.input_eq, reads, ← Stream.input_eq]
        refine ⟨gathers, ?_, ?_, ?_, ?_⟩
        · rw [buffer, stream, input, taken.held]
        · rw [buffer]
          exact taken.fits
        · rw [stream, input, arrivals]
          exact taken.remains
        · rw [stream, reads]
          exact taken.reads
      · rwa [handle_eq, if_neg mayWrite]

theorem history_fits (site : Site) (arrivals : List Arrival) (acceptances : List Acceptance) (peer : SocketAddress)
    (limits : Limits) (now : Nat) (occasions : List Occasion) :
    ((start (.fresh arrivals acceptances) peer limits now).history site occasions).connection.Fits
      (max limits.maxHeaderBytes Limits.minHeaderBytes) arrivals := by
  apply history_invariant (P := fun h => h.connection.Fits _ _)
  · have untouched : Arrival.Remains arrivals ([].flatMap Arrival.brings) arrivals := .between rfl
    refine ⟨history_gathers site _ peer limits now [], rfl, Nat.zero_le _, untouched, ?_⟩
    intro later call earlier same
    cases later <;> cases same
  · intro h o _ fits
    exact fits.handle

end Fits

/-- Whatever a stream brings and whatever events there are: the buffer holds what has been read and no more than its
limit, and less than that while the connection reads. Every read came at a time when there was room in the buffer, and
was offered room for an octet at least and for no more than that; one that brought nothing has met the end of the
stream. -/
theorem buffer_never_overruns (site : Site) (arrivals : List Arrival) (acceptances : List Acceptance)
    (peer : SocketAddress) (limits : Limits) (now : Nat) (occasions : List Occasion) :
    let limit := max limits.maxHeaderBytes Limits.minHeaderBytes
    let c := ((start (.fresh arrivals acceptances) peer limits now).history site occasions).connection
    c.limits.maxHeaderBytes = limit ∧ c.buffer = c.stream.input ∧ c.buffer.length ≤ limit ∧
      (c.phase = .reading → c.buffer.length < limit) ∧
      ∀ later call earlier, c.stream.reads = later ++ call :: earlier →
        let held := Stream.gainedIn earlier
        ∃ room, call.room? = some room ∧ held.length < limit ∧ 0 < room ∧
          room ≤ min readChunk (limit - held.length) ∧
          (call = .received room [] →
            ∃ before after, arrivals = before ++ .octets [] :: after ∧ before.flatMap Arrival.brings = held) := by
  intro limit c
  have fits : c.Fits limit arrivals := history_fits site arrivals acceptances peer limits now occasions
  exact ⟨fits.gathers.sameLimit, fits.held, fits.fits, fits.gathers.room, fits.reads⟩

end Connection

end Docroot
