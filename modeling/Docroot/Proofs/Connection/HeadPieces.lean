import Docroot.Proofs.Connection.HeadReading

/-!
A head that comes in pieces. A connection searches each piece that it receives with an overlap of three octets; it
answers with the piece that completes the first blank line, and its answer is to what stands before that line.
-/
namespace Docroot.Connection

/-- Receives one piece after the other for as long as the connection reads. Gives also the pieces that are left. -/
def receiveEach (site : Site) (world : World) (c : Connection) : List Bytes → Connection × List Bytes
  | [] => (c, [])
  | piece :: rest =>
    let next := (receive site world c piece).1
    if next.phase = .reading then receiveEach site world next rest else (next, rest)

/-- A connection that has room for all the pieces makes the search in pieces, and answers where that ends. -/
theorem receiveEach_search (site : Site) (world : World) {c : Connection} (pieces : List Bytes)
    (reading : c.phase = .reading) (room : (c.buffer ++ pieces.flatten).length < c.limits.maxHeaderBytes) :
    match Head.endInPieces? c.buffer pieces with
    | some (offset, rest) =>
      (receiveEach site world c pieces).1.phase =
          .writing (dispatch site world c.peer ((c.buffer ++ pieces.flatten).take offset)).1 ∧
        (receiveEach site world c pieces).2 = rest
    | none => receiveEach site world c pieces = ({ c with buffer := c.buffer ++ pieces.flatten }, []) := by
  induction pieces generalizing c with
  | nil =>
      rw [List.flatten_nil, List.append_nil]
      rfl
  | cons piece rest ih =>
      rw [List.flatten_cons, ← List.append_assoc] at room ⊢
      rw [Head.endInPieces?, receiveEach, receive_eq_endBehind]
      cases found : Head.endBehind? c.buffer piece with
      | some offset =>
          dsimp only
          rw [List.take_append_of_le_length (Head.endBehind?_le found)]
          exact ⟨rfl, rfl⟩
      | none =>
          have short : (c.buffer ++ piece).length < c.limits.maxHeaderBytes := by
            rw [List.length_append] at room
            omega
          have goesOn : received site world c piece none = ({ c with buffer := c.buffer ++ piece }, []) :=
            if_neg (Nat.not_le_of_lt short)
          rw [goesOn]
          dsimp only
          rw [if_pos reading]
          exact ih (c := { c with buffer := c.buffer ++ piece }) reading room

/-- Behind octets that hold no blank line, a search that starts three octets before their end finds what a search
from the front finds. A search that goes on in this way from piece to piece finds the first blank line of the
whole, with the piece that completes it; and it is the search of a connection that receives the pieces. -/
theorem overlapped_search :
    (∀ before piece : Bytes, ¬ Head.terminator <:+: before →
      (∀ offset, Head.terminatorOffset? ((before ++ piece).drop (before.length - 3)) = some offset ↔
        Head.terminatorOffset? (before ++ piece) = some (before.length - 3 + offset)) ∧
      (Head.terminatorOffset? ((before ++ piece).drop (before.length - 3)) = none ↔
        Head.terminatorOffset? (before ++ piece) = none)) ∧
    (∀ pieces : List Bytes,
      (∀ offset rest, Head.endInPieces? [] pieces = some (offset, rest) ↔
        Head.terminatorOffset? pieces.flatten = some offset ∧
          ∃ earlier last, pieces = earlier ++ last :: rest ∧
            earlier.flatten.length < offset + Head.terminator.length ∧
            offset + Head.terminator.length ≤ (earlier.flatten ++ last).length) ∧
      (Head.endInPieces? [] pieces = none ↔ Head.terminatorOffset? pieces.flatten = none)) ∧
    ∀ (site : Site) (world : World) (c : Connection) (pieces : List Bytes), c.phase = .reading → c.buffer = [] →
      pieces.flatten.length < c.limits.maxHeaderBytes →
      (∀ offset rest, Head.endInPieces? [] pieces = some (offset, rest) →
        (receiveEach site world c pieces).1.phase =
            .writing (dispatch site world c.peer (pieces.flatten.take offset)).1 ∧
          (receiveEach site world c pieces).2 = rest) ∧
      (Head.endInPieces? [] pieces = none →
        receiveEach site world c pieces = ({ c with buffer := pieces.flatten }, [])) := by
  refine ⟨?_, ?_, ?_⟩
  · intro before piece noBlank
    have noEnd : Head.terminatorOffset? before = none := indexOf?_eq_none_iff_not_inside.mpr noBlank
    rw [← Head.endBehind?_eq noEnd piece, Head.endBehind?]
    refine ⟨?_, Option.map_eq_none_iff.symm⟩
    intro offset
    rw [Option.map_eq_some_iff]
    constructor
    · intro found
      exact ⟨offset, found, rfl⟩
    · rintro ⟨later, found, same⟩
      rwa [← Nat.add_left_cancel same]
  · intro pieces
    have noEnd : Head.terminatorOffset? [] = none := rfl
    refine ⟨?_, Head.endInPieces?_eq_none_iff noEnd⟩
    intro offset rest
    exact Head.endInPieces?_eq_some_iff noEnd
  · intro site world c pieces reading empty room
    have search := receiveEach_search site world pieces reading
    rw [empty, List.nil_append] at search
    refine ⟨?_, ?_⟩
    · intro offset rest found
      rw [found] at search
      exact search room
    · intro notFound
      rw [notFound] at search
      exact search room

/-- A blank line over three pieces, with a line end before it that comes to nothing, and a second one behind. -/
def brokenUp : List Bytes := [[65, 13, 10, 66, 13], [10, 13], [10, 67, 13, 10, 13, 10], [68]]

theorem overlapped_search_broken_up :
    ¬ Head.terminator <:+: [65, 13, 10, 66, 13, 10, 13] ∧
      (Head.terminatorOffset? [13, 10, 13, 10, 67, 13, 10, 13, 10] = some 0 ↔
        Head.terminatorOffset? [65, 13, 10, 66, 13, 10, 13, 10, 67, 13, 10, 13, 10] = some 4) ∧
      Head.endInPieces? [] brokenUp = some (4, [[68]]) ∧
      (receiveEach emptySite arrival.world piecewise brokenUp).1.phase =
        .writing (dispatch emptySite arrival.world ⟨.v4 127 0 0 1, 80⟩ [65, 13, 10, 66]).1 ∧
      (receiveEach emptySite arrival.world piecewise brokenUp).2 = [[68]] := by
  have noBlank : ¬ Head.terminator <:+: [65, 13, 10, 66, 13, 10, 13] := by decide
  have found : Head.endInPieces? [] brokenUp = some (4, [[68]]) :=
    ((overlapped_search.2.1 brokenUp).1 4 [[68]]).mpr
      ⟨by decide, [[65, 13, 10, 66, 13], [10, 13]], [10, 67, 13, 10, 13, 10], rfl, by decide, by decide⟩
  have room : brokenUp.flatten.length < piecewise.limits.maxHeaderBytes := by decide
  exact ⟨noBlank, (overlapped_search.1 [65, 13, 10, 66, 13, 10, 13] [10, 67, 13, 10, 13, 10] noBlank).1 0, found,
    (overlapped_search.2.2 emptySite arrival.world piecewise brokenUp rfl rfl room).1 4 [[68]] found⟩

end Docroot.Connection
