import Docroot.FileSystem.Handle
import Docroot.Message.Response
import Docroot.Stream

/-!
A response on its way to a stream that may take only some of it, or nothing for now. A body in memory is
sent with the head. A file is sent chunk by chunk; the next chunk is read once the one before has been
taken altogether, and no more is sent than was announced.
-/
namespace Docroot

structure Delivery where
  /-- Octets ready to be written. -/
  pending : Bytes
  /-- The file to go on with, and how much of it is still to be read. -/
  file : Option (Handle × Nat)
  status : Status
  bodyLength : Nat
  /-- Octets taken so far, head included. -/
  sent : Nat
  deriving DecidableEq, Repr

/-- How an attempt to send ends. -/
inductive Progress where
  | done
  | blocked
  | failed (error : IoError)
  deriving DecidableEq, Repr

namespace Delivery

/-- A file is read in chunks of at most this size. -/
def chunkSize : Nat := 65536

/-- Sends a response with its body in memory. -/
def ofResponse (date server : Bytes) (response : Response) : Delivery where
  pending := response.head date server ++ response.body
  file := none
  status := response.status
  bodyLength := response.body.length
  sent := 0

/-- Sends the head of a response and then `len` octets of a file. -/
def ofFile (date server : Bytes) (response : Response) (handle : Handle) (len : Nat) : Delivery where
  pending := response.head date server
  file := some (handle, len)
  status := response.status
  bodyLength := len
  sent := 0

/-- Writes the pending octets; `none` once nothing is pending. -/
def flushPending (d : Delivery) (out : Stream) : Option Progress × Delivery × Stream :=
  if d.pending = [] then (none, d, out)
  else
    match _h : out.write d.pending with
    | (.ok 0, out) => (some (.failed .closedWhileWriting), d, out)
    | (.ok (n + 1), out) =>
      flushPending { d with pending := d.pending.drop (n + 1), sent := d.sent + (n + 1) } out
    | (.error .wouldBlock, out) => (some .blocked, d, out)
    | (.error .interrupted, out) => flushPending d out
    | (.error kind, out) => (some (.failed (.stream kind)), d, out)
termination_by d.pending.length + out.acceptances.length
decreasing_by
  · have := Stream.write_ok_le (congrArg Prod.fst _h)
    simp only [_h] at this
    simp only [List.length_drop]
    omega
  · have := Stream.write_error_lt (congrArg Prod.fst _h)
    simp only [_h] at this
    omega

/-- What a chunk is until it has been read. -/
def blank (count : Nat) : Bytes := List.replicate count 0

/-- Reads the next chunk when nothing is pending. The result is `none` if there is something to write
again. -/
def refill (fs : FileSystem) (d : Delivery) : Option Progress × Delivery :=
  match d.file with
  | none => (some .done, d)
  | some (_, 0) => (some .done, { d with file := none })
  | some (handle, remaining) =>
    let count := min remaining chunkSize
    match handle.read fs count with
    | (.ok [], handle) =>
      (some (.failed .fileShrank), { d with pending := blank count, file := some (handle, remaining) })
    | (.ok bytes, handle) =>
      (none, { d with pending := bytes, file := some (handle, remaining - bytes.length) })
    | (.error kind, handle) =>
      (some (.failed (.stream kind)),
        { d with pending := blank count, file := some (handle, remaining) })

/-- Octets of the file that are still to be read. -/
def unreadFile (d : Delivery) : Nat :=
  match d.file with
  | none => 0
  | some (_, remaining) => remaining

theorem flushPending_file (d : Delivery) (out : Stream) :
    (flushPending d out).2.1.file = d.file := by
  fun_induction flushPending d out <;> simp_all

theorem unreadFile_refill_lt {fs : FileSystem} {d : Delivery} (h : (refill fs d).1 = none) :
    (refill fs d).2.unreadFile < d.unreadFile := by
  unfold refill at h ⊢
  split at h
  · simp at h
  · simp at h
  · next handle remaining hne hfile =>
    have hpos : remaining ≠ 0 := hne
    simp only at h ⊢
    split at h
    · simp at h
    · next bytes handle' hbytes hread =>
      have : 0 < bytes.length := List.length_pos_iff.2 hbytes
      simp only [unreadFile, hfile]
      omega
    · simp at h

/-- Sends as much as the stream takes. -/
def send (fs : FileSystem) (d : Delivery) (out : Stream) : Progress × Delivery × Stream :=
  match _h : flushPending d out with
  | (some progress, d', out') => (progress, d', out')
  | (none, d', out') =>
    match _h' : refill fs d' with
    | (some progress, d'') => (progress, d'', out')
    | (none, d'') => send fs d'' out'
termination_by d.unreadFile
decreasing_by
  have h1 := flushPending_file d out
  have h2 := unreadFile_refill_lt (congrArg Prod.fst _h')
  rw [_h] at h1
  rw [_h'] at h2
  simp only [unreadFile] at h1 h2 ⊢
  rwa [h1] at h2

end Delivery

end Docroot
