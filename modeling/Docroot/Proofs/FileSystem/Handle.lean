import Docroot.FileSystem.Handle

/-!
Reads of an open file. Each gives a beginning of what is left of the file and moves on by its length; a
file that has just been opened is read from its front.
-/
namespace Docroot

/-- A read that meets the turn gives something, or is tried again. -/
def Turn.GoesOn : Turn → Prop
  | .short _ => True
  | .failure kind => kind = .interrupted

namespace Handle

variable {fs : FileSystem} {handle next : Handle} {want : Nat}

theorem read_fresh (fs : FileSystem) (number want : Nat) :
    ((⟨number, 0, []⟩ : Handle).read fs want).1 = .ok ((fs.data number).content.take want) := rfl

theorem openAt_ok {location : Location} (opened : openAt fs location = .ok handle) :
    ∃ number, fs.at? location = some (.file number) ∧ handle = ⟨number, 0, []⟩ := by
  unfold openAt at opened
  split at opened
  · next number found =>
    split at opened
    · cases opened; exact ⟨number, found, rfl⟩
    · cases opened
  · split at opened <;> cases opened
  · cases opened
  · cases opened

/-- What is left of the file to be read. -/
def ahead (fs : FileSystem) (handle : Handle) : Bytes := (fs.data handle.number).content.drop handle.offset

/-- Without a plan for its reads a handle gives all there is. -/
theorem read_unhindered (noTurns : handle.turns = []) (fs : FileSystem) (want : Nat) :
    handle.read fs want = (.ok ((handle.ahead fs).take want),
      { handle with offset := handle.offset + ((handle.ahead fs).take want).length, turns := [] }) := by
  rw [read, noTurns]
  rfl

theorem readWith_ok {turns : List Turn} {bytes : Bytes}
    (h : readWith fs handle want turns = (.ok bytes, next)) :
    bytes <+: handle.ahead fs ∧ next.number = handle.number ∧ next.offset = handle.offset + bytes.length := by
  fun_induction readWith fs handle want turns with
  | case1 =>
      cases h
      exact ⟨List.take_prefix _ _, rfl, rfl⟩
  | case2 =>
      cases h
      exact ⟨List.take_prefix _ _, rfl, rfl⟩
  | case3 _ ih => exact ih h
  | case4 => cases h

theorem read_ok {bytes : Bytes} (h : handle.read fs want = (.ok bytes, next)) :
    bytes <+: handle.ahead fs ∧ next.number = handle.number ∧ next.offset = handle.offset + bytes.length :=
  readWith_ok h

/-- A read takes its octets off the front of what is left. -/
theorem ahead_read {bytes : Bytes} (h : handle.read fs want = (.ok bytes, next)) :
    handle.ahead fs = bytes ++ next.ahead fs := by
  obtain ⟨⟨more, front⟩, number, offset⟩ := read_ok h
  rw [ahead] at front
  rw [ahead, ahead, number, offset, ← List.drop_drop, ← front, List.drop_left]

/-- Only at the end of the file does a read that has room give nothing. -/
theorem ahead_of_read_nil (room : 0 < want) (h : handle.read fs want = (.ok [], next)) :
    handle.ahead fs = [] := by
  rw [read] at h
  generalize handle.turns = turns at h
  fun_induction readWith fs handle want turns with
  | case1 =>
      have given : (handle.ahead fs).take want = [] := Except.ok.inj (congrArg Prod.fst h)
      exact (List.take_eq_nil_iff.mp given).resolve_left (Nat.ne_of_gt room)
  | case2 count _ =>
      have given : (handle.ahead fs).take (min want (count + 1)) = [] :=
        Except.ok.inj (congrArg Prod.fst h)
      exact (List.take_eq_nil_iff.mp given).resolve_left (by omega)
  | case3 _ ih => exact ih h
  | case4 => cases h

theorem readWith_error {turns : List Turn} {kind : ErrorKind}
    (h : readWith fs handle want turns = (.error kind, next)) :
    next.number = handle.number ∧ next.offset = handle.offset := by
  fun_induction readWith fs handle want turns with
  | case1 => cases h
  | case2 => cases h
  | case3 _ ih => exact ih h
  | case4 =>
      cases h
      exact ⟨rfl, rfl⟩

/-- Where no turn of a handle is a failure that lasts, no read fails, and that stays so. -/
theorem readWith_goesOn {turns : List Turn} (fs : FileSystem) (handle : Handle) (want : Nat)
    (goesOn : ∀ turn ∈ turns, turn.GoesOn) :
    ∃ bytes, (readWith fs handle want turns).1 = .ok bytes ∧
      ∀ turn ∈ (readWith fs handle want turns).2.turns, turn.GoesOn := by
  fun_induction readWith fs handle want turns with
  | case1 =>
      refine ⟨_, rfl, ?_⟩
      intro turn member
      cases member
  | case2 => exact ⟨_, rfl, (List.forall_mem_cons.mp goesOn).2⟩
  | case3 _ ih => exact ih (List.forall_mem_cons.mp goesOn).2
  | case4 kind _ lasts => exact absurd (List.forall_mem_cons.mp goesOn).1 lasts

theorem read_error {kind : ErrorKind} (h : handle.read fs want = (.error kind, next)) :
    next.number = handle.number ∧ next.offset = handle.offset := readWith_error h

end Handle

end Docroot
