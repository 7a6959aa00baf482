import Docroot.Proofs.Message.Delivery
import Docroot.Proofs.Message.Framing
import Mathlib.Data.List.Induction

/-!
Sending in parts. Attempts to send a response follow one another on one stream, each from where the one
before was blocked. However little the stream takes at a time and however little a read of the file gives,
the octets go out in their order, none twice and none left out, and the last attempt is done exactly when
all of them have gone.
-/
namespace Docroot

namespace Delivery

variable {fs : FileSystem} {d rest : Delivery} {out next : Stream} {bytes : Bytes} {progress : Progress}

section OneAttempt

theorem flushPending_waits (d : Delivery) (out : Stream) :
    out.waits = (flushPending d out).2.2.waits +
      if (flushPending d out).1 = some .blocked then 1 else 0 := by
  fun_induction flushPending d out with
  | case1 => rfl
  | case2 _ _ _ next written => simp [Stream.waits_write_ok written]
  | case3 _ _ _ n next written ih => rwa [Stream.waits_write_ok written]
  | case4 _ _ _ next refused => simp [Stream.waits_write_error refused]
  | case5 _ _ _ next refused ih => simpa [Stream.waits_write_error refused] using ih
  | case6 _ _ _ kind next notBlocked _ refused =>
      have same : kind ≠ .wouldBlock := notBlocked
      simp [Stream.waits_write_error refused, same]

/-- Each attempt that is blocked takes up one of the times at which the stream has no room. -/
theorem Sends.waits (h : Sends fs d out bytes progress rest next) :
    out.waits = next.waits + if progress = .blocked then 1 else 0 := by
  induction h with
  | @stopped d rest out next progress flushed =>
      have waits := flushPending_waits d out
      rw [flushed] at waits
      simpa using waits
  | @ended d written rest out next progress flushed refilled =>
      have waits := flushPending_waits d out
      have refill_ := refilled_of_refill refilled
      rw [flushed] at waits
      cases refill_ <;> simpa using waits
  | @again d written loaded rest out middle next bytes progress flushed refilled later ih =>
      have waits := flushPending_waits d out
      rw [flushed] at waits
      rw [← ih]
      simpa using waits

/-- How the latest write explains the end of an attempt that had something to write. -/
inductive EndedBy : Progress → Call → Prop
  | stopped {progress : Progress} {call : Call} : StoppedBy progress call → EndedBy progress call
  | written {progress : Progress} {offered : Nat} {bytes : Bytes} : bytes ≠ [] →
      progress ≠ .blocked → progress ≠ .failed .closedWhileWriting →
      EndedBy progress (.accepted offered bytes)

theorem flushPending_written (isLeft : d.pending ≠ []) (h : flushPending d out = (none, rest, next)) :
    ∃ offered bytes, bytes ≠ [] ∧ next.lastWrite? = some (.accepted offered bytes) := by
  fun_induction flushPending d out with
  | case1 d out empty => exact absurd empty isLeft
  | case2 | case4 | case6 => cases h
  | case3 d out _ n next' written ih =>
      by_cases empty : d.pending.drop (n + 1) = []
      · rw [flushPending, if_pos empty] at h
        cases h
        refine ⟨_, d.pending.take (n + 1), ?_, Stream.lastWrite?_of_write_ok written⟩
        simpa using isLeft
      · exact ih empty h
  | case5 d out _ next' refused ih => exact ih isLeft h

theorem Sends.endedBy (h : Sends fs d out bytes progress rest next) (isLeft : d.pending ≠ []) :
    ∃ call, next.lastWrite? = some call ∧ EndedBy progress call := by
  induction h with
  | stopped flushed =>
      obtain ⟨call, latest, stopped⟩ := flushPending_stoppedBy flushed
      exact ⟨call, latest, .stopped stopped⟩
  | @ended d written rest out next progress flushed refilled =>
      obtain ⟨offered, bytes, taken, latest⟩ := flushPending_written isLeft flushed
      have refill_ := refilled_of_refill refilled
      refine ⟨_, latest, .written taken ?_ ?_⟩ <;> cases refill_ <;> nofun
  | @again d written loaded rest out middle next bytes progress flushed refilled later ih =>
      have refill_ := refilled_of_refill refilled
      cases refill_ with
      | loaded _ _ isSome => exact ih isSome

theorem Sends.finished (h : Sends fs d out bytes progress rest next) (isDone : progress = .done) :
    rest.pending = [] ∧ rest.file = none := by
  induction h with
  | stopped flushed => exact absurd isDone (flushPending_some flushed).1
  | @ended d written rest out next progress flushed refilled =>
      have empty := (flushPending_eq_none_iff d out).mp (by rw [flushed])
      have refill_ := refilled_of_refill refilled
      rw [flushed] at empty
      rw [isDone] at refill_
      cases refill_ with
      | complete => exact ⟨empty, rfl⟩
  | again _ _ _ ih => exact ih isDone

/-- There is nothing to do for a response that has gone. -/
theorem send_finished (empty : d.pending = []) (noFile : d.file = none) (fs : FileSystem) (out : Stream) :
    send fs d out = (.done, d, out) ∧ loads fs d out = [] := by
  have flushed : flushPending d out = (none, d, out) := by rw [flushPending, if_pos empty]
  have refilled : refill fs d = (some .done, d) := by
    unfold refill
    split
    · rfl
    · next file => rw [noFile] at file; cases file
    · next file => rw [noFile] at file; cases file
  constructor
  · rw [send_refill flushed, refilled]
  · unfold loads
    split
    · rfl
    · next same =>
      rw [flushed] at same
      cases same
      split
      · rfl
      · next same => rw [refilled] at same; cases same

theorem Refilled.append_ahead (h : Refilled fs d none rest) : rest.pending ++ rest.ahead fs = d.ahead fs := by
  cases h with
  | loaded isFile read =>
      rw [Delivery.ahead, Delivery.ahead, isFile]
      exact (Handle.ahead_read read).symm

/-- A file is found to be too short only when all of it has been read and sent. -/
theorem Sends.shrank (h : Sends fs d out bytes progress rest next) (short : progress = .failed .fileShrank) :
    bytes = d.ahead fs ∧ d.file ≠ none ∧ next.output = out.output ++ (d.pending ++ bytes) := by
  induction h with
  | stopped flushed =>
      obtain ⟨call, -, stopped⟩ := flushPending_stoppedBy flushed
      rw [short] at stopped
      cases stopped
  | @ended d written rest out next progress flushed refilled =>
      obtain ⟨taken, output⟩ := flushPending_none flushed
      have refill_ := refilled_of_refill refilled
      rw [short] at refill_
      cases refill_ with
      | shrunk isFile positive read =>
          have nothing := Handle.ahead_of_read_nil (by rw [chunkSize]; omega) read
          refine ⟨?_, by simp [← taken.file, isFile], by rw [output, List.append_nil]⟩
          rw [← taken.ahead, Delivery.ahead, isFile]
          exact nothing.symm
  | @again d written loaded rest out middle next bytes progress flushed refilled later ih =>
      obtain ⟨taken, output⟩ := flushPending_none flushed
      have refill_ := refilled_of_refill refilled
      obtain ⟨all, -, outputLater⟩ := ih short
      refine ⟨?_, ?_, ?_⟩
      · rw [all, refill_.append_ahead, taken.ahead]
      · cases refill_ with
        | loaded isFile => simp [← taken.file, isFile]
      · rw [outputLater, output, List.append_assoc]

/-- No turn of the file's handle is a failure that lasts. -/
def Readable (d : Delivery) : Prop :=
  ∀ handle remaining, d.file = some (handle, remaining) → ∀ turn ∈ handle.turns, turn.GoesOn

/-- Where no read fails, an attempt that fails does so for the length of the file or for the stream. -/
theorem Sends.failed_of_readable (h : Sends fs d out bytes progress rest next) (readable : d.Readable) :
    rest.Readable ∧ ∀ e, progress = .failed e → e = .fileShrank ∨
      ∃ call, next.lastWrite? = some call ∧ StoppedBy progress call := by
  induction h with
  | stopped flushed =>
      obtain ⟨-, -, took, taken, -⟩ := flushPending_some flushed
      refine ⟨?_, fun e _ => .inr (flushPending_stoppedBy flushed)⟩
      rwa [Readable, taken.file]
  | @ended d written rest out next progress flushed refilled =>
      obtain ⟨taken, -⟩ := flushPending_none flushed
      have refill_ := refilled_of_refill refilled
      rw [Readable, ← taken.file] at readable
      cases refill_ with
      | complete => exact ⟨nofun, nofun⟩
      | shrunk isFile positive read =>
          obtain ⟨-, -, goesOn⟩ := Handle.readWith_goesOn fs _ _ (readable _ _ isFile)
          rw [← Handle.read, read] at goesOn
          refine ⟨?_, fun e same => .inl (Progress.failed.inj same).symm⟩
          rintro _ _ ⟨⟩
          exact goesOn
      | unreadable isFile positive read =>
          obtain ⟨_, given, -⟩ := Handle.readWith_goesOn fs _ _ (readable _ _ isFile)
          rw [← Handle.read, read] at given
          cases given
  | @again d written loaded rest out middle next bytes progress flushed refilled later ih =>
      obtain ⟨taken, -⟩ := flushPending_none flushed
      have refill_ := refilled_of_refill refilled
      rw [Readable, ← taken.file] at readable
      refine ih ?_
      cases refill_ with
      | loaded isFile read =>
          obtain ⟨-, -, goesOn⟩ := Handle.readWith_goesOn fs _ _ (readable _ _ isFile)
          rw [← Handle.read, read] at goesOn
          rintro _ _ ⟨⟩
          exact goesOn

end OneAttempt

end Delivery

/-- A response on its way, the stream it goes to, what has been read from its file so far, and how the latest
attempt to send it has ended. -/
structure Sending where
  delivery : Delivery
  stream : Stream
  loaded : Bytes := []
  result : Option Progress := none

namespace Sending

/-- One more attempt, with the files as they are then. A response that has failed is not taken up again. -/
def attempt (s : Sending) (fs : FileSystem) : Sending :=
  match s.result with
  | some (.failed _) => s
  | _ =>
    let (progress, delivery, stream) := s.delivery.send fs s.stream
    { delivery, stream, loaded := s.loaded ++ s.delivery.loads fs s.stream, result := some progress }

theorem attempt_of_failed {s : Sending} {e : IoError} (failed : s.result = some (.failed e))
    (fs : FileSystem) : s.attempt fs = s := by
  unfold attempt
  rw [failed]

theorem attempt_eq {s : Sending} (open_ : ∀ e, s.result ≠ some (.failed e)) (fs : FileSystem) :
    ∃ bytes progress rest next, Delivery.Sends fs s.delivery s.stream bytes progress rest next ∧
      s.attempt fs = ⟨rest, next, s.loaded ++ bytes, some progress⟩ := by
  refine ⟨_, _, _, _, Delivery.send_sends fs s.delivery s.stream, ?_⟩
  unfold attempt
  split
  · next e failed => exact absurd failed (open_ e)
  · rfl

/-- The response is still to be taken up: it has not been yet, or it was blocked. -/
def IsOpen (s : Sending) : Prop := s.result = none ∨ s.result = some .blocked

end Sending

/-- A response after an attempt for each of the file systems, one after the other. -/
def Delivery.attempts (d : Delivery) (out : Stream) (files : List FileSystem) : Sending :=
  files.foldl Sending.attempt { delivery := d, stream := out }

theorem Delivery.attempts_concat (d : Delivery) (out : Stream) (files : List FileSystem) (fs : FileSystem) :
    d.attempts out (files ++ [fs]) = (d.attempts out files).attempt fs := by
  simp [attempts]

namespace Sending

/-- What holds of the attempts to send `d` so far. Until the first of them everything is as in one that was
blocked. -/
structure Follows (d : Delivery) (s : Sending) : Prop where
  accounts : d.Accounts s.loaded s.stream.output s.delivery (s.result.getD .blocked)
  counted : s.delivery.sent = s.stream.output.length
  finished : s.result = some .done → s.delivery.pending = [] ∧ s.delivery.file = none
  latest : match s.result with
    | none => s.stream.lastWrite? = none
    | some progress => ∃ call, s.stream.lastWrite? = some call ∧ Delivery.EndedBy progress call

variable {d : Delivery} {s : Sending}

/-- After an attempt that is done another one does nothing and is done as well. -/
theorem Follows.attempt_of_done (follows : s.Follows d) (isDone : s.result = some .done)
    (fs : FileSystem) : s.attempt fs = s := by
  obtain ⟨empty, noFile⟩ := follows.finished isDone
  obtain ⟨sent, loads⟩ := Delivery.send_finished empty noFile fs s.stream
  rw [attempt, isDone]
  dsimp only
  rw [sent, loads, List.append_nil, ← isDone]

theorem Follows.attempt_cases (follows : s.Follows d) (fs : FileSystem) :
    (¬ s.IsOpen ∧ s.attempt fs = s) ∨
      (s.IsOpen ∧ ∃ bytes progress rest next,
        Delivery.Sends fs s.delivery s.stream bytes progress rest next ∧
          s.attempt fs = ⟨rest, next, s.loaded ++ bytes, some progress⟩) := by
  cases result : s.result with
  | none => exact .inr ⟨.inl result, attempt_eq (by simp [result]) fs⟩
  | some progress =>
      cases progress with
      | blocked => exact .inr ⟨.inr result, attempt_eq (by simp [result]) fs⟩
      | done => exact .inl ⟨by simp [IsOpen, result], follows.attempt_of_done result fs⟩
      | failed e => exact .inl ⟨by simp [IsOpen, result], attempt_of_failed result fs⟩

theorem Follows.accounts_of_open (follows : s.Follows d) (isOpen : s.IsOpen) :
    d.Accounts s.loaded s.stream.output s.delivery .blocked := by
  have accounts := follows.accounts
  rcases isOpen with result | result <;> rwa [result] at accounts

theorem Follows.attempt (follows : s.Follows d) (fs : FileSystem) : (s.attempt fs).Follows d := by
  rcases follows.attempt_cases fs with ⟨-, same⟩ | ⟨isOpen, bytes, progress, rest, next, sends, same⟩
  · rwa [same]
  · obtain ⟨account, isLeft, length⟩ := follows.accounts_of_open isOpen
    obtain ⟨took, output, sent, more⟩ := sends.accounts
    rw [same]
    refine ⟨?_, ?_, fun isDone => sends.finished (Option.some.inj isDone), sends.endedBy isLeft⟩
    · dsimp only [Option.getD_some]
      rw [output]
      exact Delivery.Accounts.trans account length more
    · dsimp only
      rw [sent, follows.counted, output, List.length_append]

end Sending

namespace Delivery

section Attempts

variable {d : Delivery} {out : Stream}

theorem attempts_follows (isLeft : d.pending ≠ []) (unsent : d.sent = 0) (arrivals : List Arrival)
    (acceptances : List Acceptance) (files : List FileSystem) :
    (d.attempts (.fresh arrivals acceptances) files).Follows d := by
  induction files using List.reverseRecOn with
  | nil => exact ⟨⟨(List.append_nil _).symm, isLeft, Nat.zero_add _⟩, unsent, nofun, rfl⟩
  | append_singleton files fs ih =>
      rw [attempts_concat]
      exact ih.attempt fs

/-- Attempts that have all been blocked have each met a time at which the stream had no room. -/
theorem attempts_waits (isLeft : d.pending ≠ []) (unsent : d.sent = 0) (arrivals : List Arrival)
    (acceptances : List Acceptance) (files : List FileSystem) :
    let s := d.attempts (.fresh arrivals acceptances) files
    s.IsOpen → (Stream.fresh arrivals acceptances).waits = s.stream.waits + files.length := by
  induction files using List.reverseRecOn with
  | nil => exact fun _ => rfl
  | append_singleton files fs ih =>
      have follows := attempts_follows isLeft unsent arrivals acceptances files
      rw [attempts_concat]
      dsimp only at ih ⊢
      generalize d.attempts (.fresh arrivals acceptances) files = s at ih follows ⊢
      intro isOpen
      rcases follows.attempt_cases fs with ⟨notOpen, same⟩ | ⟨wasOpen, _, progress, _, next, sends, same⟩
      · rw [same] at isOpen
        exact absurd isOpen notOpen
      · rw [same] at isOpen ⊢
        have blocked : progress = .blocked := by simpa [Sending.IsOpen] using isOpen
        have waits := sends.waits
        rw [if_pos blocked] at waits
        rw [ih wasOpen, waits, List.length_append, List.length_singleton]
        dsimp only
        omega

end Attempts

end Delivery

namespace Sending

/-- What holds of the attempts to send `d` so far while its file holds `content` from where reading starts. -/
structure Within (d : Delivery) (content : Bytes) (s : Sending) : Prop where
  front : s.loaded <+: content
  advanced : d.Advanced s.loaded s.delivery
  readable : d.Readable → s.delivery.Readable
  failed : d.Readable → ∀ e, s.result = some (.failed e) →
    (e = .fileShrank ∧ s.stream.output = d.pending ++ content) ∨
      ∃ call, s.stream.lastWrite? = some call ∧ Delivery.StoppedBy (.failed e) call

variable {d : Delivery} {s : Sending} {content : Bytes} {fs : FileSystem}

theorem Within.of_sends {bytes : Bytes} {progress : Progress} {rest : Delivery} {next : Stream}
    (within : s.Within d content) (holds : d.ahead fs = content)
    (account : s.stream.output ++ s.delivery.pending = d.pending ++ s.loaded)
    (sends : Delivery.Sends fs s.delivery s.stream bytes progress rest next) :
    Within d content ⟨rest, next, s.loaded ++ bytes, some progress⟩ := by
  have front := within.front
  obtain ⟨more, moved⟩ := sends.ahead
  rw [← holds] at front
  refine ⟨holds ▸ within.advanced.prefix_append front more, within.advanced.trans moved, ?_, ?_⟩
  · intro readable
    exact (sends.failed_of_readable (within.readable readable)).1
  intro readable e same
  obtain rfl : progress = .failed e := Option.some.inj same
  refine ((sends.failed_of_readable (within.readable readable)).2 e rfl).imp_left ?_
  rintro rfl
  obtain ⟨all, isFile, output⟩ := sends.shrank rfl
  refine ⟨rfl, ?_⟩
  rw [← holds, ← within.advanced.append_ahead front isFile, ← all]
  dsimp only
  rw [output, ← List.append_assoc, account, List.append_assoc]

theorem Within.attempt (within : s.Within d content) (follows : s.Follows d) (holds : d.ahead fs = content) :
    (s.attempt fs).Within d content := by
  rcases follows.attempt_cases fs with ⟨-, same⟩ | ⟨isOpen, _, _, _, _, sends, same⟩
  · rwa [same]
  · rw [same]
    exact within.of_sends holds (follows.accounts_of_open isOpen).1 sends

end Sending

theorem Delivery.attempts_within {d : Delivery} {content : Bytes} {files : List FileSystem}
    (isLeft : d.pending ≠ []) (unsent : d.sent = 0) (arrivals : List Arrival)
    (acceptances : List Acceptance) (holds : ∀ fs ∈ files, d.ahead fs = content) :
    (d.attempts (.fresh arrivals acceptances) files).Within d content := by
  induction files using List.reverseRecOn with
  | nil => exact ⟨List.nil_prefix, .of_file rfl, id, nofun⟩
  | append_singleton files fs ih =>
      rw [List.forall_mem_append] at holds
      have follows := attempts_follows isLeft unsent arrivals acceptances files
      rw [attempts_concat]
      exact (ih holds.1).attempt follows (holds.2 fs (List.mem_singleton_self fs))

namespace Sending

variable {d : Delivery} {s : Sending}

/-- Attempts to send the octets `whole` have sent some of them in their order. They are done when these are
gone and `complete` says that nothing is missing. -/
structure Resumed (s : Sending) (whole : Bytes) (complete : Prop) : Prop where
  inOrder : s.stream.output <+: whole
  counted : s.delivery.sent = s.stream.output.length
  done_iff : s.result = some .done ↔ s.stream.output = whole ∧ complete
  staysDone : s.result = some .done → ∀ fs, s.attempt fs = s
  nothingTaken_iff : s.result = some (.failed .closedWhileWriting) ↔
    ∃ offered, s.stream.lastWrite? = some (.accepted offered [])

theorem Follows.loaded_length_le (follows : s.Follows d) : s.loaded.length ≤ d.unreadFile := by
  have accounts := follows.accounts
  cases progress : s.result.getD .blocked with
  | done => rw [progress] at accounts; exact Nat.le_of_eq accounts.2
  | blocked => rw [progress] at accounts; have := accounts.2.2; omega
  | failed e => rw [progress] at accounts; exact accounts.2.1

theorem Follows.output_isPrefix (follows : s.Follows d) : s.stream.output <+: d.pending ++ s.loaded := by
  have accounts := follows.accounts
  cases progress : s.result.getD .blocked with
  | done => rw [progress] at accounts; exact accounts.1 ▸ List.prefix_rfl
  | blocked => rw [progress] at accounts; exact accounts.1 ▸ List.prefix_append _ _
  | failed e => rw [progress] at accounts; exact accounts.1

theorem Follows.done_iff (follows : s.Follows d) : s.result = some .done ↔
    s.stream.output = d.pending ++ s.loaded ∧ s.loaded.length = d.unreadFile := by
  have accounts := follows.accounts
  constructor
  · intro isDone
    rw [isDone] at accounts
    exact accounts
  · rintro ⟨all, length⟩
    cases progress : s.result.getD .blocked with
    | done =>
        rw [progress] at accounts
        cases result : s.result with
        | none => rw [result] at progress; cases progress
        | some p => rw [result] at progress; exact congrArg some progress
    | blocked =>
        rw [progress] at accounts
        rw [← accounts.1] at all
        exact absurd (List.self_eq_append_right.mp all) accounts.2.1
    | failed e =>
        rw [progress] at accounts
        exact absurd length (Nat.ne_of_lt (accounts.2.2 all))

theorem Follows.nothingTaken_iff (follows : s.Follows d) : s.result = some (.failed .closedWhileWriting) ↔
    ∃ offered, s.stream.lastWrite? = some (.accepted offered []) := by
  have latest := follows.latest
  constructor
  · intro failed
    rw [failed] at latest
    obtain ⟨call, same, ended⟩ := latest
    cases ended with
    | stopped stopped => cases stopped with | nothingTaken => exact ⟨_, same⟩
    | written _ _ notFailed => exact absurd rfl notFailed
  · rintro ⟨offered, same⟩
    cases result : s.result with
    | none => rw [result, same] at latest; cases latest
    | some progress =>
        rw [result] at latest
        obtain ⟨call, isLatest, ended⟩ := latest
        rw [same] at isLatest
        cases isLatest
        cases ended with
        | stopped stopped => cases stopped with | nothingTaken => rfl
        | written taken => exact absurd rfl taken

theorem Follows.resumed (follows : s.Follows d) :
    s.Resumed (d.sequence s.loaded) (s.loaded.length = d.unreadFile) := by
  have whole := Delivery.sequence_of_le follows.loaded_length_le
  refine ⟨?_, follows.counted, ?_, follows.attempt_of_done, follows.nothingTaken_iff⟩
  · rw [whole]
    exact follows.output_isPrefix
  · rw [whole]
    exact follows.done_iff

end Sending

namespace Delivery

/-- However the stream takes the octets, a response goes out in order over any number of attempts; the same
holds for a file, however its reads give its octets and whatever becomes of it, and no more than was announced
is sent. If the file ends too early, then attempts enough to outlast the stream's waits have sent all of it and
have failed for that, unless the stream has failed before. -/
theorem resumes_in_order (date server : Bytes) (response : Response) (arrivals : List Arrival)
    (acceptances : List Acceptance) (files : List FileSystem) :
    let out := Stream.fresh arrivals acceptances
    let head := response.head date server
    ((ofResponse date server response).attempts out files).Resumed (head ++ response.body) True ∧
      ∀ handle len,
        let s := (ofFile date server response handle len).attempts out files
        s.Resumed (head ++ s.loaded.take len) (s.loaded.length = len) ∧
          s.stream.output.length ≤ head.length + len ∧
          ∀ content : Bytes, (∀ fs ∈ files, handle.ahead fs = content) →
            s.loaded <+: content ∧
              (content.length < len → (∀ turn ∈ handle.turns, turn.GoesOn) → out.waits < files.length →
                (s.result = some (.failed .fileShrank) ∧ s.stream.output = head ++ content) ∨
                  ∃ e call, s.result = some (.failed e) ∧ s.stream.lastWrite? = some call ∧
                    StoppedBy (.failed e) call) := by
  intro out head
  have isLeft : head ≠ [] := Response.head_ne_nil date server response
  constructor
  · have follows := attempts_follows (d := ofResponse date server response)
      (List.append_ne_nil_of_left_ne_nil isLeft _) rfl arrivals acceptances files
    have nothing : (List.length _ = 0) = True := eq_true (Nat.le_zero.mp follows.loaded_length_le)
    exact sequence_ofResponse date server response _ ▸ nothing ▸ follows.resumed
  · intro handle len s
    have follows : s.Follows (ofFile date server response handle len) :=
      attempts_follows isLeft rfl arrivals acceptances files
    have resumed : s.Resumed (head ++ s.loaded.take len) (s.loaded.length = len) := follows.resumed
    refine ⟨resumed, ?_, ?_⟩
    · have := resumed.inOrder.length_le
      rw [List.length_append, List.length_take] at this
      omega
    intro content holds
    have within : s.Within (ofFile date server response handle len) content :=
      attempts_within isLeft rfl arrivals acceptances holds
    refine ⟨within.front, ?_⟩
    intro short goesOn outlasts
    have readable : (ofFile date server response handle len).Readable := by
      rintro _ _ ⟨⟩
      exact goesOn
    have waits : s.IsOpen → out.waits = s.stream.waits + files.length :=
      attempts_waits isLeft rfl arrivals acceptances files
    -- There are more attempts than waits, so the last of them was not blocked.
    cases result : s.result with
    | none => have := waits (.inl result); omega
    | some progress =>
        cases progress with
        | blocked => have := waits (.inr result); omega
        | done =>
            have := within.front.length_le
            have := (resumed.done_iff.mp result).2
            omega
        | failed e =>
            refine (within.failed readable e result).imp ?_ ?_
            · rintro ⟨rfl, output⟩
              exact ⟨rfl, output⟩
            · rintro ⟨call, latest, stopped⟩
              exact ⟨e, call, rfl, latest, stopped⟩

end Delivery

end Docroot
