import Docroot.Message.Head
import Docroot.Proofs.Bytes

/-!
The search for the end of a head in octets that come in pieces. Each piece is searched together with no more than the
three octets before it, and what is found is what a search through all that has come would find.
-/
namespace Docroot.Head

variable {before piece : Bytes} {pieces rest : List Bytes} {offset : Nat}

/-- Where the head ends, sought in a piece and the last three octets before it. -/
def endBehind? (before piece : Bytes) : Option Nat :=
  let searchFrom := before.length - 3
  (terminatorOffset? ((before ++ piece).drop searchFrom)).map (searchFrom + ·)

theorem endBehind?_le (found : endBehind? before piece = some offset) : offset ≤ (before ++ piece).length := by
  obtain ⟨later, isThere, rfl⟩ := Option.map_eq_some_iff.mp found
  have bound := (indexOf?_eq_some_iff.mp isThere).1
  rw [List.length_drop] at bound
  rw [List.length_append] at bound ⊢
  omega

theorem endBehind?_eq (noEnd : terminatorOffset? before = none) (piece : Bytes) :
    endBehind? before piece = terminatorOffset? (before ++ piece) :=
  (indexOf?_append_of_none noEnd piece (Nat.le_refl _)).symm

/-- Searches one piece after the other. Gives where the head ends, and the pieces that were not looked at. -/
def endInPieces? (before : Bytes) : List Bytes → Option (Nat × List Bytes)
  | [] => none
  | piece :: rest =>
    match endBehind? before piece with
    | some offset => some (offset, rest)
    | none => endInPieces? (before ++ piece) rest

theorem endInPieces?_of_some (noEnd : terminatorOffset? before = none)
    (found : terminatorOffset? (before ++ piece) = some offset) (rest : List Bytes) :
    endInPieces? before (piece :: rest) = some (offset, rest) := by
  rw [endInPieces?, endBehind?_eq noEnd, found]

theorem endInPieces?_of_none (noEnd : terminatorOffset? before = none)
    (noneYet : terminatorOffset? (before ++ piece) = none) (rest : List Bytes) :
    endInPieces? before (piece :: rest) = endInPieces? (before ++ piece) rest := by
  rw [endInPieces?, endBehind?_eq noEnd, noneYet]

theorem endInPieces?_eq_none_iff (noEnd : terminatorOffset? before = none) :
    endInPieces? before pieces = none ↔ terminatorOffset? (before ++ pieces.flatten) = none := by
  induction pieces generalizing before with
  | nil =>
      rw [List.flatten_nil, List.append_nil]
      exact ⟨fun _ => noEnd, fun _ => rfl⟩
  | cons piece rest ih =>
      rw [List.flatten_cons, ← List.append_assoc]
      cases found : terminatorOffset? (before ++ piece) with
      | none =>
          rw [endInPieces?_of_none noEnd found]
          exact ih found
      | some offset =>
          have foundFirst : terminatorOffset? (before ++ piece ++ rest.flatten) = some offset := indexOf?_append found _
          rw [endInPieces?_of_some noEnd found, foundFirst]
          exact iff_of_false nofun nofun

/-- A piece with `rest` behind it is the first of all, or it stands among the others. -/
theorem exists_split_cons_iff {P : List Bytes → Bytes → Prop} :
    (∃ earlier last, piece :: pieces = earlier ++ last :: rest ∧ P earlier last) ↔
      (pieces = rest ∧ P [] piece) ∨
        ∃ earlier last, pieces = earlier ++ last :: rest ∧ P (piece :: earlier) last := by
  constructor
  · rintro ⟨earlier, last, parts, holds⟩
    cases earlier with
    | nil =>
        obtain ⟨rfl, rfl⟩ := List.cons.inj parts
        exact .inl ⟨rfl, holds⟩
    | cons first earlier =>
        obtain ⟨rfl, rfl⟩ := List.cons.inj parts
        exact .inr ⟨earlier, last, rfl, holds⟩
  · rintro (⟨rfl, holds⟩ | ⟨earlier, last, rfl, holds⟩)
    · exact ⟨[], piece, rfl, holds⟩
    · exact ⟨piece :: earlier, last, rfl, holds⟩

/-- The search ends with the piece in which the first blank line is completed. -/
theorem endInPieces?_eq_some_iff (noEnd : terminatorOffset? before = none) :
    endInPieces? before pieces = some (offset, rest) ↔
      terminatorOffset? (before ++ pieces.flatten) = some offset ∧
        ∃ earlier last, pieces = earlier ++ last :: rest ∧
          (before ++ earlier.flatten).length < offset + terminator.length ∧
          offset + terminator.length ≤ (before ++ earlier.flatten ++ last).length := by
  induction pieces generalizing before with
  | nil =>
      refine iff_of_false nofun ?_
      rintro ⟨-, earlier, last, parts, -⟩
      simp at parts
  | cons piece more ih =>
      rw [exists_split_cons_iff, List.flatten_nil, List.append_nil]
      simp only [List.flatten_cons, ← List.append_assoc]
      cases found : terminatorOffset? (before ++ piece) with
      | none =>
          rw [endInPieces?_of_none noEnd found, ih found]
          refine and_congr_right ?_
          intro foundLater
          have behind := indexOf?_ends_behind found foundLater
          have notHere : ¬ (more = rest ∧ before.length < offset + terminator.length ∧
              offset + terminator.length ≤ (before ++ piece).length) := by
            rintro ⟨-, -, enough⟩
            exact absurd enough (Nat.not_le_of_lt behind)
          exact (or_iff_right notHere).symm
      | some first =>
          have foundFirst : terminatorOffset? (before ++ piece ++ more.flatten) = some first := indexOf?_append found _
          rw [endInPieces?_of_some noEnd found, foundFirst]
          constructor
          · intro same
            cases same
            exact ⟨rfl, .inl ⟨rfl, indexOf?_ends_behind noEnd found, indexOf?_fits found⟩⟩
          · rintro ⟨same, ⟨rfl, -, -⟩ | ⟨earlier, last, -, short, -⟩⟩
            · cases same
              rfl
            · -- Later pieces would begin behind the end that the first one completes.
              cases same
              have fits := indexOf?_fits found
              rw [List.length_append] at short
              omega

end Docroot.Head
