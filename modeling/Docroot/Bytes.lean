/-!
Octet strings, the form in which requests, responses, file names and pages travel. Splitting,
searching and ASCII case are defined here on lists, so that facts about them are facts about lists.
-/
namespace Docroot

/-- Octets as they stand on the wire, in file names and in files. -/
abbrev Bytes := List UInt8

def utf8 (text : String) : Bytes := text.toList.flatMap String.utf8EncodeChar

/-- The pieces of a list between the elements that satisfy `p`; there is always at least one. -/
def splitWhere {α : Type} (p : α → Bool) (l : List α) : List (List α) :=
  l.foldr
    (fun a pieces =>
      if p a then [] :: pieces
      else match pieces with
        | [] => [[a]]
        | piece :: rest => (a :: piece) :: rest)
    [[]]

/-- Offset of the first occurrence of `pat` at or after the front of `l`, counted from `i`. -/
def indexFrom {α : Type} [BEq α] (pat : List α) (i : Nat) (l : List α) : Option Nat :=
  if pat.isPrefixOf l then some i
  else match l with
    | [] => none
    | _ :: rest => indexFrom pat (i + 1) rest

def indexOf? {α : Type} [BEq α] (pat l : List α) : Option Nat := indexFrom pat 0 l

/-- What stands before and after the first occurrence of `pat`. -/
def breakAt? {α : Type} [BEq α] (pat l : List α) : Option (List α × List α) :=
  (indexOf? pat l).map fun i => (l.take i, l.drop (i + pat.length))

/-- A list without its longest tail of elements that satisfy `p`. -/
def dropTailWhile {α : Type} (p : α → Bool) (l : List α) : List α :=
  (l.reverse.dropWhile p).reverse

theorem breakAt?_length {α : Type} [BEq α] {pat l before after : List α}
    (h : breakAt? pat l = some (before, after)) (hp : 0 < pat.length) (hl : l ≠ []) :
    after.length < l.length := by
  simp only [breakAt?, Option.map_eq_some_iff, Prod.mk.injEq] at h
  obtain ⟨i, -, -, rfl⟩ := h
  have : 0 < l.length := List.length_pos_iff.2 hl
  simp only [List.length_drop]
  omega

namespace Bytes

/-- An ASCII capital becomes its small letter; every other octet stays. -/
def lowerOctet (b : UInt8) : UInt8 := if 65 ≤ b ∧ b ≤ 90 then b + 32 else b

def lower (bs : Bytes) : Bytes := bs.map lowerOctet

/-- Equality up to ASCII case. -/
def sameIgnoringCase (a b : Bytes) : Bool := a.lower == b.lower

/-- The blanks that separate the words of a request line: space, tab, line feed, form feed and
carriage return. -/
def isBlank (b : UInt8) : Bool := b == 32 || b == 9 || b == 10 || b == 12 || b == 13

/-- The longest runs without blanks. -/
def words (bs : Bytes) : List Bytes := (splitWhere isBlank bs).filter (!·.isEmpty)

def crlf : Bytes := [13, 10]

/-- The order of octet strings: by first difference, and a shorter beginning first. -/
def ordered (a b : Bytes) : Bool := decide (a ≤ b)

end Bytes

end Docroot
