import Docroot.Message.Delivery
import Docroot.Proofs.FileSystem.Handle
import Docroot.Proofs.Stream

/-!
What an attempt to send does, octet by octet. Whatever the stream takes comes off the front of what is left
of the response: the octets that are ready, then those read from the file. An attempt that ends well has
handed over all of it; one that is blocked leaves the rest to the next one.
-/
namespace Docroot.Delivery

/-- `took` was taken off the front of what was ready to be written. -/
structure Took (d : Delivery) (took : Bytes) (rest : Delivery) : Prop where
  pending : d.pending = took ++ rest.pending
  others : rest = { d with pending := rest.pending, sent := d.sent + took.length }

theorem Took.refl (d : Delivery) : d.Took [] d := ⟨rfl, rfl⟩

theorem Took.cons {d rest : Delivery} {n : Nat} {took : Bytes} (bound : n ≤ d.pending.length)
    (h : ({ d with pending := d.pending.drop n, sent := d.sent + n } : Delivery).Took took rest) :
    d.Took (d.pending.take n ++ took) rest where
  pending := by
    rw [List.append_assoc, ← h.pending]
    exact (List.take_append_drop n d.pending).symm
  others := by
    rw [h.others]
    simp [Nat.min_eq_left bound, Nat.add_assoc]

theorem Took.sent {d rest : Delivery} {took : Bytes} (h : d.Took took rest) :
    rest.sent = d.sent + took.length := by rw [h.others]

theorem Took.file {d rest : Delivery} {took : Bytes} (h : d.Took took rest) : rest.file = d.file := by
  rw [h.others]

theorem Took.unreadFile {d rest : Delivery} {took : Bytes} (h : d.Took took rest) :
    rest.unreadFile = d.unreadFile := by rw [h.others]; rfl

/-- One write of what is ready, and what it leaves to be done. -/
theorem flushPending_eq (d : Delivery) (out : Stream) :
    flushPending d out =
      if d.pending = [] then (none, d, out)
      else
        match out.write d.pending with
        | (.ok 0, out) => (some (.failed .closedWhileWriting), d, out)
        | (.ok (n + 1), out) =>
          flushPending { d with pending := d.pending.drop (n + 1), sent := d.sent + (n + 1) } out
        | (.error .wouldBlock, out) => (some .blocked, d, out)
        | (.error .interrupted, out) => flushPending d out
        | (.error kind, out) => (some (.failed (.stream kind)), d, out) := by
  rw [flushPending]
  split
  · rfl
  · split
    · next written => rw [written]
    · next written => rw [written]
    · next written => rw [written]
    · next written => rw [written]
    · next kind next notBlocked notInterrupted written =>
      rw [written]
      cases kind with
      | wouldBlock => exact absurd rfl notBlocked
      | interrupted => exact absurd rfl notInterrupted
      | _ => rfl

theorem flushPending_took (d : Delivery) (out : Stream) :
    ∃ took, d.Took took (flushPending d out).2.1 ∧
      (flushPending d out).2.2.output = out.output ++ took := by
  fun_induction flushPending d out with
  | case1 d out => exact ⟨[], Took.refl d, (List.append_nil _).symm⟩
  | case2 d out _ next written =>
      obtain ⟨-, output⟩ := Stream.write_ok written
      exact ⟨[], Took.refl d, by rw [output, List.take_zero]⟩
  | case3 d out _ n next written ih =>
      obtain ⟨bound, output⟩ := Stream.write_ok written
      obtain ⟨took, rest, later⟩ := ih
      exact ⟨_, Took.cons bound rest, by rw [later, output, List.append_assoc]⟩
  | case4 d out _ next refused | case6 d out _ _ next _ _ refused =>
      exact ⟨[], Took.refl d, by rw [Stream.write_error refused, List.append_nil]⟩
  | case5 d out _ next refused ih =>
      rw [Stream.write_error refused] at ih
      exact ih

/-- Writing reads nothing from the stream. -/
theorem flushPending_reads (d : Delivery) (out : Stream) :
    (flushPending d out).2.2.reads = out.reads ∧ (flushPending d out).2.2.arrivals = out.arrivals := by
  have write : ∀ {out next : Stream} {bytes : Bytes} {result : Except ErrorKind Nat},
      out.write bytes = (result, next) → next.reads = out.reads ∧ next.arrivals = out.arrivals := by
    intro out next bytes result written
    have kept := Stream.reads_write out bytes
    rwa [written] at kept
  fun_induction flushPending d out with
  | case1 => exact ⟨rfl, rfl⟩
  | case2 _ _ _ _ written | case4 _ _ _ _ written | case6 _ _ _ _ _ _ _ written => exact write written
  | case3 _ _ _ _ _ written ih | case5 _ _ _ _ written ih =>
      obtain ⟨reads, arrivals⟩ := write written
      exact ⟨ih.1.trans reads, ih.2.trans arrivals⟩

/-- Writing goes on until nothing is ready any more, or stops short of that for a reason. -/
theorem flushPending_eq_none_iff (d : Delivery) (out : Stream) :
    (flushPending d out).1 = none ↔ (flushPending d out).2.1.pending = [] := by
  fun_induction flushPending d out <;> simp_all

theorem flushPending_ne_done (d : Delivery) (out : Stream) :
    (flushPending d out).1 ≠ some .done := by
  fun_induction flushPending d out <;> simp_all

theorem flushPending_none {d rest : Delivery} {out next : Stream}
    (h : flushPending d out = (none, rest, next)) :
    d.Took d.pending rest ∧ next.output = out.output ++ d.pending := by
  obtain ⟨took, taken, output⟩ := flushPending_took d out
  have empty := (flushPending_eq_none_iff d out).mp
  rw [h] at taken output empty
  have pending : d.pending = took ++ rest.pending := taken.pending
  have all : took = d.pending := by rw [pending, show rest.pending = [] from empty rfl, List.append_nil]
  exact ⟨all ▸ taken, all ▸ output⟩

theorem flushPending_some {d rest : Delivery} {out next : Stream} {progress : Progress}
    (h : flushPending d out = (some progress, rest, next)) :
    progress ≠ .done ∧ rest.pending ≠ [] ∧
      ∃ took, d.Took took rest ∧ next.output = out.output ++ took := by
  have took := flushPending_took d out
  have left := mt (flushPending_eq_none_iff d out).mpr
  have notDone := flushPending_ne_done d out
  rw [h] at took left notDone
  exact ⟨fun same => notDone (congrArg some same), left (by simp), took⟩

/-- How the latest write explains that an attempt to send has stopped while it was writing. -/
inductive StoppedBy : Progress → Call → Prop
  | noRoom {offered : Nat} : StoppedBy .blocked (.notAccepted offered .wouldBlock)
  | nothingTaken {offered : Nat} : StoppedBy (.failed .closedWhileWriting) (.accepted offered [])
  | broken {offered : Nat} {kind : ErrorKind} : kind ≠ .wouldBlock → kind ≠ .interrupted →
      StoppedBy (.failed (.stream kind)) (.notAccepted offered kind)

theorem flushPending_stoppedBy {d rest : Delivery} {out next : Stream} {progress : Progress}
    (h : flushPending d out = (some progress, rest, next)) :
    ∃ call, next.lastWrite? = some call ∧ StoppedBy progress call := by
  fun_induction flushPending d out with
  | case1 => cases h
  | case2 d out _ next written =>
      cases h
      exact ⟨_, Stream.lastWrite?_of_write_ok written, .nothingTaken⟩
  | case3 _ _ _ _ _ _ ih => exact ih h
  | case4 d out _ next refused =>
      cases h
      exact ⟨_, Stream.lastWrite?_of_write_error refused, .noRoom⟩
  | case5 _ _ _ _ _ ih => exact ih h
  | case6 d out _ kind next notBlocked notInterrupted refused =>
      cases h
      exact ⟨_, Stream.lastWrite?_of_write_error refused, .broken notBlocked notInterrupted⟩

/-- The octets that an attempt to send reads from the file. -/
def loads (fs : FileSystem) (d : Delivery) (out : Stream) : Bytes :=
  match _h : flushPending d out with
  | (some _, _, _) => []
  | (none, d', out') =>
    match _h' : refill fs d' with
    | (some _, _) => []
    | (none, d'') => d''.pending ++ loads fs d'' out'
termination_by d.unreadFile
decreasing_by
  have h1 := flushPending_file d out
  have h2 := unreadFile_refill_lt (congrArg Prod.fst _h')
  rw [_h] at h1
  rw [_h'] at h2
  simp only [unreadFile] at h1 h2 ⊢
  rwa [h1] at h2

/-- What a refill can do with a delivery of which nothing is ready. -/
inductive Refilled (fs : FileSystem) (d : Delivery) : Option Progress → Delivery → Prop
  | complete : d.unreadFile = 0 → Refilled fs d (some .done) { d with file := none }
  | loaded {handle next : Handle} {remaining : Nat} {bytes : Bytes} :
      d.file = some (handle, remaining) →
      handle.read fs (min remaining chunkSize) = (.ok bytes, next) → bytes ≠ [] →
      Refilled fs d none { d with pending := bytes, file := some (next, remaining - bytes.length) }
  | shrunk {handle next : Handle} {remaining : Nat} :
      d.file = some (handle, remaining) → 0 < remaining →
      handle.read fs (min remaining chunkSize) = (.ok [], next) →
      Refilled fs d (some (.failed .fileShrank))
        { d with pending := blank (min remaining chunkSize), file := some (next, remaining) }
  | unreadable {handle next : Handle} {remaining : Nat} {kind : ErrorKind} :
      d.file = some (handle, remaining) → 0 < remaining →
      handle.read fs (min remaining chunkSize) = (.error kind, next) →
      Refilled fs d (some (.failed (.stream kind)))
        { d with pending := blank (min remaining chunkSize), file := some (next, remaining) }

theorem refill_refilled (fs : FileSystem) (d : Delivery) :
    Refilled fs d (refill fs d).1 (refill fs d).2 := by
  unfold refill
  split
  · next noFile =>
    have same : d = { d with file := none } := by rw [← noFile]
    rw [same]
    exact .complete rfl
  · next handle noneLeft => exact .complete (by simp [unreadFile, noneLeft])
  · next handle remaining isLeft file =>
    have positive : 0 < remaining := Nat.pos_of_ne_zero isLeft
    dsimp only
    split
    · next next_ read => exact .shrunk file positive read
    · next bytes next_ isSome read => exact .loaded file read isSome
    · next kind next_ read => exact .unreadable file positive read

theorem refilled_of_refill {fs : FileSystem} {d rest : Delivery} {result : Option Progress}
    (refilled : refill fs d = (result, rest)) : Refilled fs d result rest := by
  have way := refill_refilled fs d
  rwa [refilled] at way

theorem Refilled.loaded_length {fs : FileSystem} {d rest : Delivery} (h : Refilled fs d none rest) :
    rest.pending.length + rest.unreadFile = d.unreadFile ∧ rest.sent = d.sent := by
  cases h with
  | @loaded handle next remaining bytes file read isSome =>
      have bound := Handle.read_length (congrArg Prod.fst read)
      refine ⟨?_, rfl⟩
      simp only [unreadFile, file]
      omega

/-- How an attempt to send goes: it writes what is ready, then reads the next chunk and starts again. The
octets are those it reads from the file. -/
inductive Sends (fs : FileSystem) :
    Delivery → Stream → Bytes → Progress → Delivery → Stream → Prop
  | stopped {d rest : Delivery} {out next : Stream} {progress : Progress} :
      flushPending d out = (some progress, rest, next) → Sends fs d out [] progress rest next
  | ended {d written rest : Delivery} {out next : Stream} {progress : Progress} :
      flushPending d out = (none, written, next) → refill fs written = (some progress, rest) →
      Sends fs d out [] progress rest next
  | again {d written loaded rest : Delivery} {out middle next : Stream} {bytes : Bytes}
      {progress : Progress} :
      flushPending d out = (none, written, middle) → refill fs written = (none, loaded) →
      Sends fs loaded middle bytes progress rest next →
      Sends fs d out (loaded.pending ++ bytes) progress rest next

/-- An attempt is only blocked where the stream has just refused a write for now. -/
theorem Sends.blocked {fs : FileSystem} {d rest : Delivery} {out next : Stream} {bytes : Bytes}
    {progress : Progress} (h : Sends fs d out bytes progress rest next) (blocked : progress = .blocked) :
    ∃ offered, next.lastWrite? = some (.notAccepted offered .wouldBlock) := by
  induction h with
  | stopped flushed =>
      obtain ⟨call, latest, stopped⟩ := flushPending_stoppedBy flushed
      subst blocked
      cases stopped with
      | noRoom => exact ⟨_, latest⟩
  | @ended d written rest out next progress flushed refilled =>
      have refill_ := refilled_of_refill refilled
      rw [blocked] at refill_
      cases refill_
  | again _ _ _ ih => exact ih blocked

theorem Sends.reads {fs : FileSystem} {d rest : Delivery} {out next : Stream} {bytes : Bytes}
    {progress : Progress} (h : Sends fs d out bytes progress rest next) :
    next.reads = out.reads ∧ next.arrivals = out.arrivals := by
  have flush : ∀ {d rest : Delivery} {out next : Stream} {progress : Option Progress},
      flushPending d out = (progress, rest, next) → next.reads = out.reads ∧ next.arrivals = out.arrivals := by
    intro d rest out next progress flushed
    have kept := flushPending_reads d out
    rwa [flushed] at kept
  induction h with
  | stopped flushed | ended flushed => exact flush flushed
  | again flushed _ _ ih =>
      obtain ⟨reads, arrivals⟩ := flush flushed
      exact ⟨ih.1.trans reads, ih.2.trans arrivals⟩

theorem send_stopped {fs : FileSystem} {d rest : Delivery} {out next : Stream} {progress : Progress}
    (flushed : flushPending d out = (some progress, rest, next)) : send fs d out = (progress, rest, next) := by
  rw [send]
  split
  · next same => rw [flushed] at same; cases same; rfl
  · next same => rw [flushed] at same; cases same

theorem send_refill {fs : FileSystem} {d written : Delivery} {out next : Stream}
    (flushed : flushPending d out = (none, written, next)) :
    send fs d out =
      match refill fs written with
      | (some progress, rest) => (progress, rest, next)
      | (none, loaded) => send fs loaded next := by
  rw [send]
  split
  · next same => rw [flushed] at same; cases same
  · next same =>
    rw [flushed] at same
    cases same
    split <;> next refilled => rw [refilled]

theorem send_sends (fs : FileSystem) (d : Delivery) (out : Stream) :
    Sends fs d out (loads fs d out) (send fs d out).1 (send fs d out).2.1 (send fs d out).2.2 := by
  fun_induction loads fs d out with
  | case1 d out progress rest next flushed =>
      rw [send_stopped flushed]
      exact .stopped flushed
  | case2 d out written next flushed progress rest refilled =>
      rw [send_refill flushed, refilled]
      exact .ended flushed refilled
  | case3 d out written middle flushed loaded refilled ih =>
      rw [send_refill flushed, refilled]
      exact .again flushed refilled ih

/-- All octets of a response of which nothing has been sent: those that are ready, then what is read from
its file, cut at the length that was announced. -/
def sequence (d : Delivery) (loaded : Bytes) : Bytes := d.pending ++ loaded.take d.unreadFile

theorem sequence_of_le {d : Delivery} {loaded : Bytes} (h : loaded.length ≤ d.unreadFile) :
    d.sequence loaded = d.pending ++ loaded := by
  rw [sequence, List.take_of_length_le h]

theorem sequence_ofResponse (date server : Bytes) (response : Response) (loaded : Bytes) :
    (ofResponse date server response).sequence loaded = response.head date server ++ response.body :=
  List.append_nil _

theorem sequence_ofFile (date server : Bytes) (response : Response) (handle : Handle) (len : Nat)
    (loaded : Bytes) :
    (ofFile date server response handle len).sequence loaded =
      response.head date server ++ loaded.take len := rfl

/-- What an attempt to send has to show for the octets it read and those that were taken, by the way it
ended. -/
def Accounts (d : Delivery) (loaded took : Bytes) (rest : Delivery) : Progress → Prop
  | .done => took = d.pending ++ loaded ∧ loaded.length = d.unreadFile
  | .blocked => took ++ rest.pending = d.pending ++ loaded ∧ rest.pending ≠ [] ∧
      loaded.length + rest.unreadFile = d.unreadFile
  | .failed _ => took <+: d.pending ++ loaded ∧ loaded.length ≤ d.unreadFile ∧
      (took = d.pending ++ loaded → loaded.length < d.unreadFile)

/-- What is not sent in an attempt that stops while it writes is still ready to be sent. -/
theorem Took.accounts {d rest : Delivery} {took : Bytes} {progress : Progress} (h : d.Took took rest)
    (left : rest.pending ≠ []) (notDone : progress ≠ .done) : d.Accounts [] took rest progress := by
  have file : rest.unreadFile = d.unreadFile := by rw [h.others]; rfl
  have pending := h.pending
  cases progress with
  | done => exact absurd rfl notDone
  | blocked => exact ⟨by rw [List.append_nil, pending], left, by simp [file]⟩
  | failed e =>
      refine ⟨?_, Nat.zero_le _, ?_⟩
      · rw [List.append_nil, pending]
        exact List.prefix_append took rest.pending
      · intro all
        rw [List.append_nil, pending] at all
        exact absurd (List.self_eq_append_right.mp all) left

/-- What an attempt takes and reads adds to what was taken and read before it. -/
theorem Accounts.trans {d middle rest : Delivery} {loaded bytes before took : Bytes} {progress : Progress}
    (account : before ++ middle.pending = d.pending ++ loaded)
    (length : loaded.length + middle.unreadFile = d.unreadFile)
    (h : middle.Accounts bytes took rest progress) :
    d.Accounts (loaded ++ bytes) (before ++ took) rest progress := by
  have same : before ++ (middle.pending ++ bytes) = d.pending ++ (loaded ++ bytes) := by
    rw [← List.append_assoc, account, List.append_assoc]
  cases progress with
  | done =>
      obtain ⟨taken, complete⟩ := h
      exact ⟨by rw [taken, same], by rw [List.length_append]; omega⟩
  | blocked =>
      obtain ⟨taken, left, complete⟩ := h
      exact ⟨by rw [List.append_assoc, taken, same], left, by rw [List.length_append]; omega⟩
  | failed e =>
      obtain ⟨taken, bound, short⟩ := h
      refine ⟨?_, by rw [List.length_append]; omega, ?_⟩
      · rw [← same]
        exact (List.prefix_append_right_inj _).mpr taken
      · intro all
        rw [← same] at all
        have := short (List.append_cancel_left all)
        rw [List.length_append]
        omega

theorem Sends.accounts {fs : FileSystem} {d rest : Delivery} {out next : Stream} {bytes : Bytes}
    {progress : Progress} (h : Sends fs d out bytes progress rest next) :
    ∃ took, next.output = out.output ++ took ∧ rest.sent = d.sent + took.length ∧
      d.Accounts bytes took rest progress := by
  induction h with
  | stopped flushed =>
      obtain ⟨notDone, left, took, taken, output⟩ := flushPending_some flushed
      exact ⟨took, output, taken.sent, taken.accounts left notDone⟩
  | @ended d written rest out next progress flushed refilled =>
      obtain ⟨taken, output⟩ := flushPending_none flushed
      have refill_ := refilled_of_refill refilled
      refine ⟨d.pending, output, ?_, ?_⟩
      · cases refill_ <;> exact taken.sent
      · cases refill_ with
        | complete noneLeft =>
            exact ⟨(List.append_nil _).symm, by rw [← taken.unreadFile, noneLeft]; rfl⟩
        | shrunk isFile positive read | unreadable isFile positive read =>
            have unread : 0 < d.unreadFile := by
              rw [← taken.unreadFile]
              simpa only [unreadFile, isFile] using positive
            exact ⟨List.prefix_append _ _, Nat.zero_le _, fun _ => unread⟩
  | @again d written loaded rest out middle next bytes progress flushed refilled later ih =>
      obtain ⟨taken, output⟩ := flushPending_none flushed
      have refill_ := refilled_of_refill refilled
      obtain ⟨length, same⟩ := refill_.loaded_length
      obtain ⟨took, outputLater, sentLater, accounts⟩ := ih
      refine ⟨d.pending ++ took, ?_, ?_, accounts.trans rfl (length.trans taken.unreadFile)⟩
      · rw [outputLater, output, List.append_assoc]
      · rw [sentLater, same, taken.sent, List.length_append, Nat.add_assoc]

/-- What is left of the file of a response, from where its reading stands. -/
def ahead (fs : FileSystem) (d : Delivery) : Bytes :=
  match d.file with
  | none => []
  | some (handle, _) => handle.ahead fs

/-- If the reading of the file goes on, it has moved on by the length of what was read. -/
def Advanced (d : Delivery) (loaded : Bytes) (rest : Delivery) : Prop :=
  ∀ handle remaining, rest.file = some (handle, remaining) →
    ∃ first announced, d.file = some (first, announced) ∧ handle.number = first.number ∧
      handle.offset = first.offset + loaded.length

theorem Advanced.of_file {d rest : Delivery} (same : rest.file = d.file) : d.Advanced [] rest :=
  fun handle remaining isFile => ⟨handle, remaining, same ▸ isFile, rfl, rfl⟩

theorem Advanced.trans {d middle rest : Delivery} {first later : Bytes} (h : d.Advanced first middle)
    (h' : middle.Advanced later rest) : d.Advanced (first ++ later) rest := by
  intro handle remaining isFile
  obtain ⟨handle', remaining', isFile', number', offset'⟩ := h' handle remaining isFile
  obtain ⟨start, announced, began, number, offset⟩ := h handle' remaining' isFile'
  refine ⟨start, announced, began, number'.trans number, ?_⟩
  rw [offset', offset, List.length_append, Nat.add_assoc]

/-- What is left of a file comes right after what was read of it. -/
theorem Advanced.append_ahead {fs : FileSystem} {d rest : Delivery} {first : Bytes}
    (h : d.Advanced first rest) (hFirst : first <+: d.ahead fs) (isFile : rest.file ≠ none) :
    first ++ rest.ahead fs = d.ahead fs := by
  obtain ⟨file, isFile⟩ := Option.ne_none_iff_exists'.mp isFile
  obtain ⟨start, announced, began, number, offset⟩ := h file.1 file.2 isFile
  have goesOn : rest.ahead fs = (d.ahead fs).drop first.length := by
    simp only [ahead, isFile, began, Handle.ahead, number, offset, List.drop_drop]
  obtain ⟨more, split⟩ := hFirst
  rw [goesOn, ← split, List.drop_left]

/-- What is read after some beginning of a file goes on from there. -/
theorem Advanced.prefix_append {fs : FileSystem} {d rest : Delivery} {first later : Bytes}
    (h : d.Advanced first rest) (hFirst : first <+: d.ahead fs) (hLater : later <+: rest.ahead fs) :
    first ++ later <+: d.ahead fs := by
  cases isFile : rest.file with
  | none =>
      have nothing : later = [] := by
        rw [ahead, isFile] at hLater
        exact List.prefix_nil.mp hLater
      rwa [nothing, List.append_nil]
  | some file =>
      rw [← h.append_ahead hFirst (by simp [isFile])]
      exact (List.prefix_append_right_inj first).mpr hLater

theorem Refilled.ahead {fs : FileSystem} {d rest : Delivery} (h : Refilled fs d none rest) :
    rest.pending <+: d.ahead fs ∧ d.Advanced rest.pending rest := by
  cases h with
  | loaded isFile read =>
      obtain ⟨front, number, offset⟩ := Handle.read_ok read
      refine ⟨by rwa [Delivery.ahead, isFile], ?_⟩
      rintro _ _ ⟨⟩
      exact ⟨_, _, isFile, number, offset⟩

theorem Refilled.advanced {fs : FileSystem} {d rest : Delivery} {progress : Progress}
    (h : Refilled fs d (some progress) rest) : d.Advanced [] rest := by
  cases h with
  | complete => exact nofun
  | shrunk isFile _ read =>
      obtain ⟨-, number, offset⟩ := Handle.read_ok read
      rintro _ _ ⟨⟩
      exact ⟨_, _, isFile, number, offset⟩
  | unreadable isFile _ read =>
      obtain ⟨number, offset⟩ := Handle.read_error read
      rintro _ _ ⟨⟩
      exact ⟨_, _, isFile, number, offset⟩

theorem Took.ahead {fs : FileSystem} {d rest : Delivery} {took : Bytes} (h : d.Took took rest) :
    rest.ahead fs = d.ahead fs := by
  rw [Delivery.ahead, h.file, Delivery.ahead]

/-- What an attempt to send reads is the next part of the file. -/
theorem Sends.ahead {fs : FileSystem} {d rest : Delivery} {out next : Stream} {bytes : Bytes}
    {progress : Progress} (h : Sends fs d out bytes progress rest next) :
    bytes <+: d.ahead fs ∧ d.Advanced bytes rest := by
  induction h with
  | stopped flushed =>
      obtain ⟨-, -, took, taken, -⟩ := flushPending_some flushed
      exact ⟨List.nil_prefix, .of_file taken.file⟩
  | @ended d written rest out next progress flushed refilled =>
      obtain ⟨taken, -⟩ := flushPending_none flushed
      have refill_ := refilled_of_refill refilled
      exact ⟨List.nil_prefix, (Advanced.of_file taken.file).trans refill_.advanced⟩
  | @again d written loaded rest out middle next bytes progress flushed refilled later ih =>
      obtain ⟨taken, -⟩ := flushPending_none flushed
      have refill_ := refilled_of_refill refilled
      obtain ⟨front, moved⟩ := refill_.ahead
      obtain ⟨goesOn, moved'⟩ := ih
      rw [taken.ahead] at front
      have moved : d.Advanced loaded.pending loaded := (Advanced.of_file taken.file).trans moved
      exact ⟨moved.prefix_append front goesOn, moved.trans moved'⟩

/-- All octets of a response, with its file as it is now. -/
def octets (fs : FileSystem) (d : Delivery) : Bytes := d.pending ++ (d.ahead fs).take d.unreadFile

theorem Sends.output_of_done {fs : FileSystem} {d rest : Delivery} {out next : Stream} {bytes : Bytes}
    {progress : Progress} (h : Sends fs d out bytes progress rest next) (isDone : progress = .done) :
    next.output = out.output ++ d.octets fs := by
  obtain ⟨took, output, -, accounts⟩ := h.accounts
  rw [isDone] at accounts
  obtain ⟨all, length⟩ := accounts
  rw [output, all, octets, ← length, ← List.prefix_iff_eq_take.mp h.ahead.1]

theorem flushPending_blocked {d : Delivery} {out : Stream} {rest : List Acceptance} (isLeft : d.pending ≠ [])
    (blocks : out.acceptances = .failure .wouldBlock :: rest) :
    ∃ next, flushPending d out = (some .blocked, d, next) ∧ next.acceptances = rest := by
  obtain ⟨next, refused, left⟩ : ∃ next, out.write d.pending = (.error .wouldBlock, next) ∧
      next.acceptances = rest := by
    rw [Stream.write, blocks]
    exact ⟨_, rfl, rfl⟩
  exact ⟨next, by rw [flushPending_eq, if_neg isLeft, refused], left⟩

theorem flushPending_willing {d : Delivery} {out : Stream} (willing : out.Willing) :
    (flushPending d out).1 = none ∧ (flushPending d out).2.2.Willing := by
  fun_induction flushPending d out with
  | case1 => exact ⟨rfl, willing⟩
  | case2 d out isLeft next written =>
      obtain ⟨n, _, taken, -⟩ := willing.write isLeft
      rw [written] at taken
      cases taken
  | case3 d out isLeft n next written ih =>
      obtain ⟨_, _, taken, goesOn⟩ := willing.write isLeft
      rw [written] at taken
      cases taken
      exact ih goesOn
  | case4 d out isLeft next refused | case5 d out isLeft next refused | case6 d out isLeft kind next _ _ refused =>
      obtain ⟨n, _, taken, -⟩ := willing.write isLeft
      rw [refused] at taken
      cases taken

/-- Where neither the stream nor the file hinders it, one attempt sends the whole response. -/
theorem Sends.done_of_willing {fs : FileSystem} {d rest : Delivery} {out next : Stream} {bytes : Bytes}
    {progress : Progress} (h : Sends fs d out bytes progress rest next) (willing : out.Willing)
    (readable : ∀ handle remaining, d.file = some (handle, remaining) →
      handle.turns = [] ∧ remaining ≤ (handle.ahead fs).length) : progress = .done := by
  induction h with
  | @stopped d rest out next progress flushed =>
      have goesOn := (flushPending_willing (d := d) willing).1
      rw [flushed] at goesOn
      cases goesOn
  | @ended d written rest out next progress flushed refilled =>
      obtain ⟨taken, -⟩ := flushPending_none flushed
      have refill_ := refilled_of_refill refilled
      rw [← taken.file] at readable
      cases refill_ with
      | complete => rfl
      | @shrunk handle _ remaining isFile positive read =>
          obtain ⟨noTurns, enough⟩ := readable _ _ isFile
          rw [Handle.read_unhindered noTurns] at read
          have empty : ((handle.ahead fs).take (min remaining chunkSize)).length = 0 :=
            congrArg List.length (Except.ok.inj (Prod.mk.inj read).1)
          rw [List.length_take, chunkSize] at empty
          omega
      | unreadable isFile positive read =>
          rw [Handle.read_unhindered (readable _ _ isFile).1] at read
          cases read
  | @again d written loaded rest out middle next bytes progress flushed refilled later ih =>
      obtain ⟨taken, -⟩ := flushPending_none flushed
      have takesOn := (flushPending_willing (d := d) willing).2
      have refill_ := refilled_of_refill refilled
      rw [flushed] at takesOn
      rw [← taken.file] at readable
      refine ih takesOn ?_
      cases refill_ with
      | @loaded handle _ remaining _ isFile read =>
          obtain ⟨noTurns, enough⟩ := readable _ _ isFile
          rw [Handle.read_unhindered noTurns] at read
          cases read
          rintro _ _ ⟨⟩
          refine ⟨rfl, ?_⟩
          simp only [Handle.ahead, List.length_drop] at enough ⊢
          omega

theorem Sends.done_of_unhindered {fs : FileSystem} {d rest : Delivery} {out next : Stream} {bytes : Bytes}
    {progress : Progress} (h : Sends fs d out bytes progress rest next) (takesAll : out.acceptances = [])
    (readable : ∀ handle remaining, d.file = some (handle, remaining) →
      handle.turns = [] ∧ remaining ≤ (handle.ahead fs).length) : progress = .done :=
  h.done_of_willing (.of_nil takesAll) readable

end Docroot.Delivery
