import Docroot.Proofs.Connection.Run

/-!
A connection waits only where its stream has run out. An event is told once, when a stream becomes ready, so
a connection that has left something unread, or room unused, would never be woken again. What it waits for is
therefore what the stream has refused last.
-/
namespace Docroot

namespace Stream

/-- The latest read found nothing that has arrived. -/
def IsDrained (s : Stream) : Prop := ∃ room, s.lastRead? = some (.notReceived room .wouldBlock)

/-- The latest write found no room. -/
def IsFull (s : Stream) : Prop := ∃ offered, s.lastWrite? = some (.notAccepted offered .wouldBlock)

end Stream

namespace Connection

/-- The stream has been used as far as it goes in the direction that the phase waits for. -/
def AtEdge (c : Connection) : Prop :=
  match c.phase with
  | .reading => c.stream.lastRead? = none ∨ c.stream.IsDrained
  | .writing _ => c.stream.IsFull
  | .closed => True

theorem atEdge_of_closed {c : Connection} (closed : c.phase = .closed) : c.AtEdge := by
  rw [AtEdge, closed]
  trivial

/-- Reads only come to an end in a connection that goes on reading when there is nothing more. -/
theorem readHead_isDrained {site : Site} {world : World} {c : Connection}
    (stays : (readHead site world c).1.phase = .reading) :
    (readHead site world c).1.stream.IsDrained := by
  fun_induction readHead site world c with
  | case1 => cases stays
  | case2 _ _ _ _ _ _ _ _ _ ih => exact ih stays
  | case3 c b bs stream read next events received leaves => exact absurd stays leaves
  | case4 c stream read => exact ⟨_, Stream.lastRead?_of_read_error read⟩
  | case5 _ _ _ ih => exact ih stays
  | case6 => cases stays

/-- A write leaves a response to be gone on with only where the stream has no room. -/
theorem flush_atEdge {c : Connection} {d : Delivery} (world : World) (writing : c.phase = .writing d) :
    (c.flush world).1.AtEdge := by
  obtain ⟨progress, rest, next, sends, stream, outcome⟩ := flush_writing world writing
  cases progress with
  | done | failed => exact atEdge_of_closed outcome.1
  | blocked =>
      rw [AtEdge, outcome.1, stream]
      exact sends.blocked rfl

theorem handle_atEdge (site : Site) {c : Connection} (o : Occasion) (edge : c.AtEdge) :
    (c.handle site o).AtEdge := by
  have checked : (c.checked o).AtEdge := by
    rcases checked_eq c o with same | same
    · rwa [same]
    · exact atEdge_of_closed (by rw [same])
  rw [handle_eq]
  cases phase : (c.takeIn site o).phase with
  | reading =>
      rw [flush_of_not_writing o.world (by simp [phase]), ite_self]
      unfold takeIn at phase ⊢
      split at phase
      · next reads =>
        rw [if_pos reads, AtEdge, phase]
        exact .inr (readHead_isDrained phase)
      · next idle => rwa [if_neg idle]
  | writing d =>
      split
      · exact flush_atEdge o.world phase
      · next mayNot =>
        -- Nothing is written, so the response was there before and has not been begun just now.
        have notReading : (c.checked o).phase ≠ .reading := by
          intro reading
          exact mayNot (by simp [mayWrite, reading])
        rwa [takeIn_of_not_reading notReading]
  | closed =>
      rw [flush_of_not_writing o.world (by simp [phase]), ite_self]
      exact atEdge_of_closed phase

theorem history_atEdge (site : Site) (arrivals : List Arrival) (acceptances : List Acceptance)
    (peer : SocketAddress) (limits : Limits) (now : Nat) (occasions : List Occasion) :
    ((start (.fresh arrivals acceptances) peer limits now).history site occasions).connection.AtEdge := by
  apply history_invariant (P := fun h => h.connection.AtEdge)
  · exact .inl rfl
  · intro h o _ edge
    exact handle_atEdge site o edge

/-- Whatever a stream brings and takes and whatever events there are: a connection that waits to read has not
read yet or has found nothing more when it last read, and one that waits to write has found no room when it
last wrote. -/
theorem waits_at_edge (site : Site) (arrivals : List Arrival) (acceptances : List Acceptance)
    (peer : SocketAddress) (limits : Limits) (now : Nat) (occasions : List Occasion) :
    let c := ((start (.fresh arrivals acceptances) peer limits now).history site occasions).connection
    (c.step = .wait .readable → c.stream.lastRead? = none ∨ c.stream.IsDrained) ∧
      (c.step = .wait .writable → c.stream.IsFull) := by
  intro c
  have edge : c.AtEdge := history_atEdge site arrivals acceptances peer limits now occasions
  unfold AtEdge at edge
  unfold step interest
  cases phase : c.phase with
  | reading =>
      rw [phase] at edge
      exact ⟨fun _ => edge, nofun⟩
  | writing d =>
      rw [phase] at edge
      exact ⟨nofun, fun _ => edge⟩
  | closed => exact ⟨nofun, nofun⟩

end Connection

end Docroot
