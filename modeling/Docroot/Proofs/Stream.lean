import Docroot.Stream

/-!
What calls on a stream do to its journal. Reads hand nothing to the client; a write hands over the front of
what it offers, as far as it is taken. What has been read is read off the same journal. A script delivers a
text when it brings its octets in order and nothing in it ends the reading.
-/
namespace Docroot

namespace Arrival

def brings : Arrival → Bytes
  | .octets bytes => bytes
  | .failure _ => []

/-- A read that meets the arrival is followed by others. -/
def GoesOn : Arrival → Prop
  | .octets bytes => bytes ≠ []
  | .failure kind => kind = .wouldBlock ∨ kind = .interrupted

instance : (a : Arrival) → Decidable a.GoesOn
  | .octets bytes => inferInstanceAs (Decidable (bytes ≠ []))
  | .failure kind => inferInstanceAs (Decidable (kind = .wouldBlock ∨ kind = .interrupted))

/-- A way in which the octets of `text` come, in pieces and with waits between them. -/
structure Delivers (script : List Arrival) (text : Bytes) : Prop where
  goesOn : ∀ a ∈ script, a.GoesOn
  brings : script.flatMap Arrival.brings = text

theorem Delivers.append {first later : List Arrival} {front rest : Bytes} (hFirst : Delivers first front)
    (hLater : Delivers later rest) : Delivers (first ++ later) (front ++ rest) := by
  constructor
  · intro a member
    rcases List.mem_append.mp member with inFirst | inLater
    · exact hFirst.goesOn a inFirst
    · exact hLater.goesOn a inLater
  · rw [List.flatMap_append, hFirst.brings, hLater.brings]

/-- The octets that reads can bring before the stream ends or fails. -/
def readable (arrivals : List Arrival) : Bytes := (arrivals.takeWhile fun a => a.GoesOn).flatMap brings

theorem readable_cons {a : Arrival} (goesOn : a.GoesOn) (rest : List Arrival) :
    readable (a :: rest) = a.brings ++ readable rest := by
  rw [readable, List.takeWhile_cons_of_pos (by simpa using goesOn), List.flatMap_cons, readable]

theorem Delivers.readable_append {script : List Arrival} {text : Bytes} (delivers : Delivers script text)
    (rest : List Arrival) : readable (script ++ rest) = text ++ readable rest := by
  rw [readable, List.takeWhile_append_of_pos (by simpa using delivers.goesOn), List.flatMap_append,
    delivers.brings, readable]

/-- What is still to come of a script, once these octets have been read. Of the piece that is next the front may be gone. -/
inductive Remains (script : List Arrival) : Bytes → List Arrival → Prop where
  | between {before rest : List Arrival} (same : script = before ++ rest) :
      Remains script (before.flatMap brings) rest
  | within {before rest : List Arrival} {front back : Bytes}
      (same : script = before ++ .octets (front ++ back) :: rest) (isSome : back ≠ []) :
      Remains script (before.flatMap brings ++ front) (.octets back :: rest)

namespace Remains

variable {script rest : List Arrival} {held bytes front back : Bytes}

theorem piece (h : Remains script held (.octets bytes :: rest)) :
    ∃ before front, script = before ++ .octets (front ++ bytes) :: rest ∧
      held = before.flatMap brings ++ front ∧ (bytes = [] → front = []) := by
  cases h with
  | @between before _ same => exact ⟨before, [], same, (List.append_nil _).symm, fun _ => rfl⟩
  | @within before _ front _ same isSome => exact ⟨before, front, same, rfl, fun empty => absurd empty isSome⟩

theorem failure {kind : ErrorKind} (h : Remains script held (.failure kind :: rest)) : Remains script held rest := by
  cases h with
  | @between before _ same =>
      have passed : (before ++ [Arrival.failure kind]).flatMap brings = before.flatMap brings := by
        rw [List.flatMap_append]
        exact List.append_nil _
      exact passed ▸ .between (by rw [same, List.append_assoc]; rfl)

theorem whole (h : Remains script held (.octets bytes :: rest)) : Remains script (held ++ bytes) rest := by
  obtain ⟨before, front, same, rfl, -⟩ := h.piece
  have passed : (before ++ [Arrival.octets (front ++ bytes)]).flatMap brings =
      before.flatMap brings ++ front ++ bytes := by
    rw [List.flatMap_append, List.flatMap_singleton, brings, List.append_assoc]
  exact passed ▸ .between (by rw [same, List.append_assoc]; rfl)

theorem part (h : Remains script held (.octets (front ++ back) :: rest)) (isSome : back ≠ []) :
    Remains script (held ++ front) (.octets back :: rest) := by
  obtain ⟨before, gone, same, rfl, -⟩ := h.piece
  rw [List.append_assoc]
  exact .within (by rw [same, List.append_assoc]) isSome

/-- What has been read is the front of what the script brings. -/
theorem isPrefix (h : Remains script held rest) : held <+: script.flatMap brings := by
  cases h with
  | between same =>
      rw [same, List.flatMap_append]
      exact List.prefix_append _ _
  | @within before rest front back same =>
      refine ⟨back ++ rest.flatMap brings, ?_⟩
      rw [same, List.flatMap_append, List.flatMap_cons, brings]
      simp only [List.append_assoc]

end Remains

end Arrival

namespace Call

def isRead : Call → Bool
  | received .. | notReceived .. => true
  | accepted .. | notAccepted .. => false

def isWrite (call : Call) : Bool := !call.isRead

end Call

namespace Stream

def gained : Call → Bytes
  | .received _ bytes => bytes
  | _ => []

/-- All octets that have been read, in order. -/
def input (s : Stream) : Bytes := s.calls.reverse.flatMap gained

def fresh (arrivals : List Arrival) (acceptances : List Acceptance) : Stream :=
  { arrivals, acceptances }

theorem output_read (s : Stream) (room : Nat) : (s.read room).2.output = s.output := by
  unfold read
  split
  · simp [output, given]
  · simp [output, given]
  · split <;> simp [output, given]

theorem acceptances_read (s : Stream) (room : Nat) : (s.read room).2.acceptances = s.acceptances := by
  unfold read
  split
  · rfl
  · rfl
  · split <;> rfl

theorem read_nil {s : Stream} (h : s.arrivals = []) (room : Nat) :
    s.read room =
      (.error .wouldBlock, { s with calls := .notReceived room .wouldBlock :: s.calls }) := by
  simp [read, h]

theorem read_failure {s : Stream} {kind : ErrorKind} {rest : List Arrival}
    (h : s.arrivals = .failure kind :: rest) (room : Nat) :
    s.read room =
      (.error kind, { s with arrivals := rest, calls := .notReceived room kind :: s.calls }) := by
  simp [read, h]

/-- A read of octets takes as many as there is room for and leaves the others to come. -/
theorem read_octets {s : Stream} {bytes : Bytes} {rest : List Arrival}
    (h : s.arrivals = .octets bytes :: rest) (room : Nat) :
    ∃ left next, s.read room = (.ok (bytes.take room), next) ∧ next.arrivals = left ++ rest ∧
      Arrival.Delivers left (bytes.drop room) ∧ next.input = s.input ++ bytes.take room := by
  simp only [read, h]
  split
  · next fits =>
    rw [List.take_of_length_le fits, List.drop_of_length_le fits]
    exact ⟨[], _, rfl, rfl, ⟨nofun, rfl⟩, by simp [input, gained]⟩
  · next exceeds =>
    refine ⟨[.octets (bytes.drop room)], _, rfl, rfl, ⟨?_, by simp [Arrival.brings]⟩,
      by simp [input, gained]⟩
    intro a member
    rw [List.mem_singleton.mp member]
    exact mt List.drop_eq_nil_iff.mp exceeds

/-- What is read was to come first. -/
theorem readable_of_read {s next : Stream} {room : Nat} {bytes : Bytes} (read : s.read room = (.ok bytes, next))
    (isSome : bytes ≠ []) : Arrival.readable s.arrivals = bytes ++ Arrival.readable next.arrivals := by
  cases isNext : s.arrivals with
  | nil =>
      rw [read_nil isNext] at read
      cases read
  | cons first rest =>
      cases first with
      | failure kind =>
          rw [read_failure isNext] at read
          cases read
      | octets whole =>
          obtain ⟨left, _, read', arrivals, delivers, -⟩ := read_octets isNext room
          cases read.symm.trans read'
          have goesOn : (Arrival.octets whole).GoesOn := by
            rintro rfl
            exact isSome List.take_nil
          rw [arrivals, delivers.readable_append, Arrival.readable_cons goesOn, Arrival.brings,
            ← List.append_assoc, List.take_append_drop]

/-- A read that fails without ending the stream brings nothing. -/
theorem readable_of_read_error {s next : Stream} {room : Nat} {kind : ErrorKind}
    (read : s.read room = (.error kind, next)) (goesOn : kind = .wouldBlock ∨ kind = .interrupted) :
    Arrival.readable s.arrivals = Arrival.readable next.arrivals := by
  cases isNext : s.arrivals with
  | nil =>
      rw [read_nil isNext] at read
      cases read
      rw [isNext]
  | cons first rest =>
      cases first with
      | failure kind' =>
          rw [read_failure isNext] at read
          cases read
          exact Arrival.readable_cons (a := .failure kind) goesOn rest
      | octets whole =>
          obtain ⟨_, _, read', -⟩ := read_octets isNext room
          cases read.symm.trans read'

theorem write_ok {s next : Stream} {bytes : Bytes} {n : Nat} (h : s.write bytes = (.ok n, next)) :
    n ≤ bytes.length ∧ next.output = s.output ++ bytes.take n := by
  unfold write at h
  split at h
  · cases h
    simp [output, given]
  · next count _ _ =>
    cases h
    refine ⟨List.length_take_le' count bytes, ?_⟩
    rw [← List.prefix_iff_eq_take.mp (List.take_prefix count bytes)]
    simp [output, given]
  · cases h

/-- No write is refused, and each that offers something has some of it taken. -/
def Willing (s : Stream) : Prop := ∀ a ∈ s.acceptances, ∃ count, a = .upTo (count + 1)

theorem Willing.of_nil {s : Stream} (takesAll : s.acceptances = []) : s.Willing := by
  rw [Willing, takesAll]
  exact nofun

theorem Willing.write {s : Stream} (willing : s.Willing) {bytes : Bytes} (isSome : bytes ≠ []) :
    ∃ n next, s.write bytes = (.ok (n + 1), next) ∧ next.Willing := by
  obtain ⟨b, bs, rfl⟩ := List.exists_cons_of_ne_nil isSome
  unfold Stream.write
  split
  · exact ⟨_, _, rfl, willing⟩
  · next count rest isNext =>
    rw [Willing, isNext] at willing
    obtain ⟨_, first⟩ := willing _ List.mem_cons_self
    cases first
    exact ⟨_, _, rfl, fun a member => willing a (List.mem_cons_of_mem _ member)⟩
  · next kind rest isNext =>
    rw [Willing, isNext] at willing
    obtain ⟨_, first⟩ := willing _ List.mem_cons_self
    cases first

theorem write_error {s next : Stream} {bytes : Bytes} {kind : ErrorKind}
    (h : s.write bytes = (.error kind, next)) : next.output = s.output := by
  unfold write at h
  split at h
  · cases h
  · cases h
  · cases h
    simp [output, given]

section Alike

/-- Streams that will meet the same, and over which equally much has been given. -/
structure Alike (s s' : Stream) : Prop where
  arrivals : s.arrivals = s'.arrivals
  acceptances : s.acceptances = s'.acceptances
  output : s.output.length = s'.output.length

variable {s s' : Stream}

theorem Alike.refl (s : Stream) : s.Alike s := ⟨rfl, rfl, rfl⟩

theorem Alike.read (alike : s.Alike s') {room : Nat} {result : Except ErrorKind Bytes} {next : Stream}
    (read : s.read room = (result, next)) : ∃ next', s'.read room = (result, next') ∧ next.Alike next' := by
  have same : (s'.read room).1 = (s.read room).1 ∧
      (s.read room).2.arrivals = (s'.read room).2.arrivals := by
    unfold Stream.read
    rw [alike.arrivals]
    split
    · exact ⟨rfl, rfl⟩
    · exact ⟨rfl, rfl⟩
    · split <;> exact ⟨rfl, rfl⟩
  have acceptances : (s.read room).2.acceptances = (s'.read room).2.acceptances := by
    rw [acceptances_read, acceptances_read, alike.acceptances]
  have output : (s.read room).2.output.length = (s'.read room).2.output.length := by
    rw [output_read, output_read, alike.output]
  rw [read] at same acceptances output
  exact ⟨(s'.read room).2, Prod.ext same.1 rfl, same.2, acceptances, output⟩

/-- Writes that offer equally much have equally much taken. -/
theorem Alike.write (alike : s.Alike s') {bytes bytes' : Bytes} (length : bytes.length = bytes'.length)
    {result : Except ErrorKind Nat} {next : Stream} (written : s.write bytes = (result, next)) :
    ∃ next', s'.write bytes' = (result, next') ∧ next.Alike next' := by
  obtain ⟨arrivals, acceptances, output⟩ := alike
  unfold Stream.write at written ⊢
  rw [← acceptances]
  split at written
  all_goals cases written
  · refine ⟨_, congrArg (Prod.mk · _) (congrArg Except.ok length.symm), arrivals, rfl, ?_⟩
    simpa [Stream.output, given, length] using output
  · refine ⟨_, congrArg (Prod.mk · _) (congrArg Except.ok ?_), arrivals, rfl, ?_⟩
    · simp [List.length_take, length]
    · simpa [Stream.output, given, List.length_take, length] using output
  · refine ⟨_, rfl, arrivals, rfl, ?_⟩
    simpa [Stream.output, given] using output

end Alike

section Latest

/-- The latest read, if there was one. -/
def lastRead? (s : Stream) : Option Call := s.calls.find? Call.isRead

/-- The latest write, if there was one. -/
def lastWrite? (s : Stream) : Option Call := s.calls.find? Call.isWrite

variable {s next : Stream} {bytes : Bytes} {kind : ErrorKind}

theorem lastRead?_of_read_error {room : Nat} (h : s.read room = (.error kind, next)) :
    next.lastRead? = some (.notReceived room kind) := by
  unfold read at h
  split at h
  · cases h; rfl
  · cases h; rfl
  · split at h <;> cases h

theorem lastWrite?_of_write_ok {n : Nat} (h : s.write bytes = (.ok n, next)) :
    next.lastWrite? = some (.accepted bytes.length (bytes.take n)) := by
  unfold write at h
  split at h
  · cases h
    simp [lastWrite?, Call.isWrite, Call.isRead]
  · next count _ _ =>
    cases h
    rw [← List.prefix_iff_eq_take.mp (List.take_prefix count bytes)]
    rfl
  · cases h

theorem lastWrite?_of_write_error (h : s.write bytes = (.error kind, next)) :
    next.lastWrite? = some (.notAccepted bytes.length kind) := by
  unfold write at h
  split at h
  · cases h
  · cases h
  · cases h; rfl

end Latest

section Reads

/-- The octets that some calls have read, the latest call first. -/
def gainedIn (calls : List Call) : Bytes := calls.reverse.flatMap gained

/-- The reads that have been made, the latest first. -/
def reads (s : Stream) : List Call := s.calls.filter Call.isRead

theorem gainedIn_cons (call : Call) (calls : List Call) :
    gainedIn (call :: calls) = gainedIn calls ++ gained call := by
  rw [gainedIn, List.reverse_cons, List.flatMap_append, List.flatMap_singleton, gainedIn]

theorem input_cons (arrivals : List Arrival) (acceptances : List Acceptance) (call : Call) (calls : List Call) :
    input ⟨arrivals, acceptances, call :: calls⟩ = input ⟨arrivals, acceptances, calls⟩ ++ gained call :=
  gainedIn_cons call calls

theorem input_eq (s : Stream) : s.input = gainedIn s.reads := by
  have writes : ∀ calls : List Call, gainedIn calls = gainedIn (calls.filter Call.isRead) := by
    intro calls
    induction calls with
    | nil => rfl
    | cons call calls ih =>
        cases call with
        | received | notReceived =>
            rw [List.filter_cons_of_pos rfl, gainedIn_cons, gainedIn_cons, ih]
        | accepted | notAccepted =>
            rw [List.filter_cons_of_neg (by simp [Call.isRead]), gainedIn_cons, ih]
            exact List.append_nil _
  exact writes s.calls

variable {s next : Stream} {room : Nat} {bytes : Bytes} {kind : ErrorKind}

theorem reads_of_read_ok (h : s.read room = (.ok bytes, next)) : next.reads = .received room bytes :: s.reads := by
  unfold read at h
  split at h
  · cases h
  · cases h
  · split at h <;> cases h <;> rfl

theorem reads_of_read_error (h : s.read room = (.error kind, next)) :
    next.reads = .notReceived room kind :: s.reads := by
  unfold read at h
  split at h
  · cases h; rfl
  · cases h; rfl
  · split at h <;> cases h

theorem input_of_read_ok (h : s.read room = (.ok bytes, next)) :
    next.input = s.input ++ bytes ∧ bytes.length ≤ room := by
  refine ⟨?_, ?_⟩
  · rw [input_eq, reads_of_read_ok h, gainedIn_cons, ← input_eq]
    rfl
  · unfold read at h
    split at h
    · cases h
    · cases h
    · split at h
      · next fits => cases h; exact fits
      · cases h; exact List.length_take_le _ _

theorem input_of_read_error (h : s.read room = (.error kind, next)) : next.input = s.input := by
  rw [input_eq, reads_of_read_error h, gainedIn_cons, ← input_eq]
  exact List.append_nil _

/-- A write leaves alone what has been read and what is to come. -/
theorem reads_write (s : Stream) (bytes : Bytes) :
    (s.write bytes).2.reads = s.reads ∧ (s.write bytes).2.arrivals = s.arrivals := by
  unfold write
  split <;> exact ⟨rfl, rfl⟩

/-- Nothing that is to come is passed over by a read. -/
theorem remains_read {script : List Arrival} {result : Except ErrorKind Bytes}
    (remains : Arrival.Remains script s.input s.arrivals) (read : s.read room = (result, next)) :
    Arrival.Remains script next.input next.arrivals := by
  cases isNext : s.arrivals with
  | nil =>
      rw [isNext] at remains
      rw [read_nil isNext] at read
      cases read
      rw [input_cons, isNext]
      exact (List.append_nil _).symm ▸ remains
  | cons first rest =>
      rw [isNext] at remains
      cases first with
      | failure kind =>
          rw [read_failure isNext] at read
          cases read
          rw [input_cons]
          exact (List.append_nil _).symm ▸ remains.failure
      | octets bytes =>
          simp only [Stream.read, isNext] at read
          split at read
          · cases read
            rw [input_cons]
            exact remains.whole
          · next exceeds =>
            cases read
            rw [input_cons]
            rw [← List.take_append_drop room bytes] at remains
            exact remains.part (mt List.drop_eq_nil_iff.mp exceeds)

/-- With room for an octet a read brings none only at the end of the stream. -/
theorem read_eq_nil (h : s.read room = (.ok [], next)) (isSome : 0 < room) :
    ∃ rest, s.arrivals = .octets [] :: rest := by
  unfold read at h
  split at h
  · cases h
  · cases h
  · next bytes rest isNext =>
    split at h
    · cases h
      exact ⟨rest, isNext⟩
    · next exceeds =>
      have taken : bytes.take room = [] := Except.ok.inj (congrArg Prod.fst h)
      rcases List.take_eq_nil_iff.mp taken with noRoom | empty
      · omega
      · simp [empty] at exceeds

end Reads

section Waits

/-- How often the stream will have no room for a write. -/
def waits (s : Stream) : Nat := s.acceptances.count (.failure .wouldBlock)

theorem waits_write_ok {s next : Stream} {bytes : Bytes} {n : Nat} (h : s.write bytes = (.ok n, next)) :
    s.waits = next.waits := by
  unfold write at h
  split at h
  · cases h; rfl
  · next count rest isNext =>
    cases h
    rw [waits, isNext, List.count_cons_of_ne (by simp)]
    rfl
  · cases h

/-- Having no room for a write is over with that write. -/
theorem waits_write_error {s next : Stream} {bytes : Bytes} {kind : ErrorKind}
    (h : s.write bytes = (.error kind, next)) :
    s.waits = next.waits + if kind = .wouldBlock then 1 else 0 := by
  unfold write at h
  split at h
  · cases h
  · cases h
  · next rest isNext =>
    cases h
    rw [waits, isNext, List.count_cons]
    simp [waits]

end Waits

end Stream

end Docroot
