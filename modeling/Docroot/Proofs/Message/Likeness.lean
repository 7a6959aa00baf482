import Docroot.Proofs.FileSystem.Likeness
import Docroot.Proofs.Message.Delivery

/-!
Responses of one length whose files are the same in two trees. Attempts to send them go the same way on streams
that meet the same.
-/
namespace Docroot.Delivery

/-- Equally much is left of the responses, and what is left of their files is the same. -/
structure Alike (fs fs' : FileSystem) (d d' : Delivery) : Prop where
  pending : d.pending.length = d'.pending.length
  file : Option.Rel (fun f f' => Handle.Alike fs fs' f.1 f'.1 ∧ f.2 = f'.2) d.file d'.file
  status : d.status = d'.status
  bodyLength : d.bodyLength = d'.bodyLength
  sent : d.sent = d'.sent

variable {fs fs' : FileSystem} {d d' : Delivery} {out out' : Stream}

theorem Alike.pending_nil_iff (alike : Alike fs fs' d d') : d.pending = [] ↔ d'.pending = [] := by
  rw [← List.length_eq_zero_iff, alike.pending, List.length_eq_zero_iff]

theorem Alike.flushPending (alike : Alike fs fs' d d') (streams : out.Alike out') {next : Stream}
    {progress : Option Progress} {rest : Delivery} (flushed : flushPending d out = (progress, rest, next)) :
    ∃ rest' next', Delivery.flushPending d' out' = (progress, rest', next') ∧ Alike fs fs' rest rest' ∧
      next.Alike next' := by
  fun_induction Delivery.flushPending d out generalizing d' out' with
  | case1 d out empty =>
      cases flushed
      rw [flushPending_eq, if_pos (alike.pending_nil_iff.mp empty)]
      exact ⟨_, _, rfl, alike, streams⟩
  | case2 d out isLeft _ written | case4 d out isLeft _ written =>
      cases flushed
      obtain ⟨next', written', nexts⟩ := streams.write alike.pending written
      rw [flushPending_eq, if_neg (mt alike.pending_nil_iff.mpr isLeft), written']
      exact ⟨_, _, rfl, alike, nexts⟩
  | case3 d out isLeft n _ written ih =>
      obtain ⟨next', written', nexts⟩ := streams.write alike.pending written
      rw [flushPending_eq, if_neg (mt alike.pending_nil_iff.mpr isLeft), written']
      refine ih ⟨?_, alike.file, alike.status, alike.bodyLength, congrArg (· + (n + 1)) alike.sent⟩ nexts flushed
      rw [List.length_drop, List.length_drop, alike.pending]
  | case5 d out isLeft _ written ih =>
      obtain ⟨next', written', nexts⟩ := streams.write alike.pending written
      rw [flushPending_eq, if_neg (mt alike.pending_nil_iff.mpr isLeft), written']
      exact ih alike nexts flushed
  | case6 d out isLeft kind _ notBlocked notInterrupted written =>
      cases flushed
      obtain ⟨next', written', nexts⟩ := streams.write alike.pending written
      rw [flushPending_eq, if_neg (mt alike.pending_nil_iff.mpr isLeft), written']
      cases kind with
      | wouldBlock => exact absurd rfl notBlocked
      | interrupted => exact absurd rfl notInterrupted
      | _ => exact ⟨_, _, rfl, alike, nexts⟩

theorem Alike.refill (alike : Alike fs fs' d d') {progress : Option Progress} {rest : Delivery}
    (refilled : refill fs d = (progress, rest)) :
    ∃ rest', Delivery.refill fs' d' = (progress, rest') ∧ Alike fs fs' rest rest' := by
  obtain ⟨pending, file, status, bodyLength, sent⟩ := d
  obtain ⟨pending', file', status', bodyLength', sent'⟩ := d'
  obtain ⟨length, same, rfl, rfl, rfl⟩ := alike
  cases same with
  | none =>
      cases refilled
      exact ⟨_, rfl, length, .none, rfl, rfl, rfl⟩
  | @some f f' same =>
      obtain ⟨handle, remaining⟩ := f
      obtain ⟨handle', _⟩ := f'
      obtain ⟨handles, rfl⟩ := same
      cases remaining with
      | zero =>
          cases refilled
          exact ⟨_, rfl, length, .none, rfl, rfl, rfl⟩
      | succ remaining =>
          obtain ⟨bytes, rest⟩ := handles.read (min (remaining + 1) chunkSize)
          simp only [Delivery.refill] at refilled ⊢
          generalize handle.read fs _ = given, handle'.read fs' _ = given' at bytes rest refilled
          obtain ⟨outcome, next⟩ := given
          obtain ⟨_, next'⟩ := given'
          obtain rfl : outcome = _ := bytes
          cases outcome with
          | error kind =>
              cases refilled
              exact ⟨_, rfl, rfl, .some ⟨rest, rfl⟩, rfl, rfl, rfl⟩
          | ok bytes =>
              cases bytes with
              | nil | cons =>
                  cases refilled
                  exact ⟨_, rfl, rfl, .some ⟨rest, rfl⟩, rfl, rfl, rfl⟩

/-- Attempts to send such responses end alike. -/
theorem Alike.send (alike : Alike fs fs' d d') (streams : out.Alike out') {next : Stream} {progress : Progress}
    {rest : Delivery} (sent : send fs d out = (progress, rest, next)) :
    ∃ rest' next', Delivery.send fs' d' out' = (progress, rest', next') ∧ Alike fs fs' rest rest' ∧
      next.Alike next' := by
  fun_induction Delivery.send fs d out generalizing d' out' with
  | case1 d out _ _ _ flushed =>
      cases sent
      obtain ⟨rest', next', flushed', rests⟩ := alike.flushPending streams flushed
      exact ⟨rest', next', send_stopped flushed', rests⟩
  | case2 d out written _ flushed _ _ refilled =>
      cases sent
      obtain ⟨written', next', flushed', writtens, nexts⟩ := alike.flushPending streams flushed
      obtain ⟨rest', refilled', rests⟩ := writtens.refill refilled
      exact ⟨rest', next', by rw [send_refill flushed', refilled'], rests, nexts⟩
  | case3 d out written _ flushed loaded refilled ih =>
      obtain ⟨written', next', flushed', writtens, nexts⟩ := alike.flushPending streams flushed
      obtain ⟨loaded', refilled', loadeds⟩ := writtens.refill refilled
      rw [send_refill flushed', refilled']
      exact ih loadeds nexts sent

end Docroot.Delivery
