import Docroot.Bytes

/-!
A text under construction with a limit on its size. A write that would pass the limit is refused as a
whole and changes nothing.
-/
namespace Docroot

/-- A text of at most `limit` octets that grows at its end. -/
structure BoundedText where
  limit : Nat
  /-- What was written, newest first. -/
  written : List Bytes := []
  size : Nat := 0
  size_eq : size = written.flatten.length := by simp

namespace BoundedText

def text (b : BoundedText) : Bytes := b.written.reverse.flatten

/-- The text with `piece` at its end; `none` where it does not fit. -/
def write (b : BoundedText) (piece : Bytes) : Option BoundedText :=
  if b.limit < b.size + piece.length then none
  else some
    { b with
      written := piece :: b.written
      size := b.size + piece.length
      size_eq := by simp [b.size_eq, Nat.add_comm] }

/-- Writes one piece after the other and stops at the first that is refused; the flag tells whether all
went in. -/
def writeAll (b : BoundedText) : List Bytes → Bool × BoundedText
  | [] => (true, b)
  | piece :: rest =>
    match b.write piece with
    | some b => b.writeAll rest
    | none => (false, b)

end BoundedText

end Docroot
