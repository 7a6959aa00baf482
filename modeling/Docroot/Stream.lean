import Docroot.IoError

/-!
A non-blocking stream between the server and one client. What the client and the network will do is
given in advance, by one script for reading and one for writing; what was done so far is kept call by
call, newest first, and the octets the client has been given are read off these calls.
-/
namespace Docroot

/-- What a read meets next. No octets stand for the end of the stream. -/
inductive Arrival where
  | octets (bytes : Bytes)
  | failure (kind : ErrorKind)
  deriving DecidableEq, Repr

/-- What a write meets next. -/
inductive Acceptance where
  /-- At most this many octets are taken. -/
  | upTo (count : Nat)
  | failure (kind : ErrorKind)
  deriving DecidableEq, Repr

/-- A call on a stream and its outcome. -/
inductive Call where
  /-- A read with room for so many octets gave these; none at the end of the stream. -/
  | received (room : Nat) (bytes : Bytes)
  | notReceived (room : Nat) (kind : ErrorKind)
  /-- A write of so many octets had these taken. -/
  | accepted (offered : Nat) (bytes : Bytes)
  | notAccepted (offered : Nat) (kind : ErrorKind)
  deriving DecidableEq, Repr

/-- A stream: what is to come, and what has been done. -/
structure Stream where
  arrivals : List Arrival := []
  acceptances : List Acceptance := []
  calls : List Call := []
  deriving DecidableEq, Repr

namespace Stream

/-- The octets a call handed over to the client. -/
def given : Call → Bytes
  | .accepted _ bytes => bytes
  | _ => []

/-- All octets handed over to the client, in order. -/
def output (s : Stream) : Bytes := s.calls.reverse.flatMap given

/-- The octets that wait to be read. -/
def unread (s : Stream) : Nat :=
  (s.arrivals.map fun a => match a with
    | .octets bytes => bytes.length
    | .failure _ => 0).foldr (· + ·) 0

/-- Octets and events that wait to be read. -/
def pendingReads (s : Stream) : Nat := s.unread + s.arrivals.length

/-- One read with room for `room` octets. An empty script would block; octets that do not fit stay. -/
def read (s : Stream) (room : Nat) : Except ErrorKind Bytes × Stream :=
  match s.arrivals with
  | [] => (.error .wouldBlock, { s with calls := .notReceived room .wouldBlock :: s.calls })
  | .failure kind :: rest =>
    (.error kind, { s with arrivals := rest, calls := .notReceived room kind :: s.calls })
  | .octets bytes :: rest =>
    if bytes.length ≤ room then
      (.ok bytes, { s with arrivals := rest, calls := .received room bytes :: s.calls })
    else
      (.ok (bytes.take room),
        { s with
          arrivals := .octets (bytes.drop room) :: rest
          calls := .received room (bytes.take room) :: s.calls })

/-- One write; the result counts the octets taken. An empty script takes everything. -/
def write (s : Stream) (bytes : Bytes) : Except ErrorKind Nat × Stream :=
  match s.acceptances with
  | [] => (.ok bytes.length, { s with calls := .accepted bytes.length bytes :: s.calls })
  | .upTo count :: rest =>
    let taken := bytes.take count
    (.ok taken.length,
      { s with acceptances := rest, calls := .accepted bytes.length taken :: s.calls })
  | .failure kind :: rest =>
    (.error kind,
      { s with acceptances := rest, calls := .notAccepted bytes.length kind :: s.calls })

theorem pendingReads_read_ok {s : Stream} {room : Nat} {bytes : Bytes}
    (h : (s.read room).1 = .ok bytes) (hne : bytes ≠ []) :
    (s.read room).2.pendingReads < s.pendingReads := by
  unfold read at h ⊢
  split at h
  · simp at h
  · simp at h
  · next b rest hs =>
    split at h
    · next hle => simp [hle, pendingReads, unread, hs]; omega
    · next hle =>
      have hroom : room ≠ 0 := by
        intro h0; subst h0; simp at h; exact hne h
      simp [hle, pendingReads, unread, hs]
      omega

/-- A read that fails, and not for want of octets, uses up an event. -/
theorem pendingReads_read_error {s : Stream} {room : Nat} {kind : ErrorKind}
    (h : (s.read room).1 = .error kind) (hk : kind ≠ .wouldBlock) :
    (s.read room).2.pendingReads < s.pendingReads := by
  unfold read at h ⊢
  split at h
  · simp at h; exact absurd h.symm hk
  · next k rest hs => simp [pendingReads, unread, hs]
  · split at h <;> simp at h

theorem write_ok_le {s : Stream} {bytes : Bytes} {n : Nat} (h : (s.write bytes).1 = .ok n) :
    n ≤ bytes.length ∧ (s.write bytes).2.acceptances.length ≤ s.acceptances.length := by
  unfold write at h ⊢
  split at h
  · next hs => simp at h; simp [hs, ← h]
  · next count rest hs =>
    cases h
    exact ⟨bytes.length_take_le' count, by simp [hs]⟩
  · simp at h

/-- A write that fails uses up an item of the script. -/
theorem write_error_lt {s : Stream} {bytes : Bytes} {kind : ErrorKind}
    (h : (s.write bytes).1 = .error kind) :
    (s.write bytes).2.acceptances.length < s.acceptances.length := by
  unfold write at h ⊢
  split at h
  · simp at h
  · simp at h
  · next hs => simp [hs]

end Stream

end Docroot
