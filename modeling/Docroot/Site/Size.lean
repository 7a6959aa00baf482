import Docroot.Bytes

/-!
Sizes for the eye: whole bytes below 1024, tenths of a KB below 1048576, tenths of a MB from there on.
A length is first brought to 53 significant binary digits, then rounded to a tenth; both times a tie
goes to the even neighbour.
-/
namespace Docroot.Size

/-- The whole number nearest to `num / den`; a tie goes to the even one. -/
def nearest (num den : Nat) : Nat :=
  let q := num / den
  let r := num % den
  if 2 * r < den then q
  else if den < 2 * r then q + 1
  else if q % 2 = 0 then q
  else q + 1

/-- The number nearest to `n` that has at most 53 significant binary digits. -/
def significant (n : Nat) : Nat :=
  let unit := 1 <<< (n.log2 + 1 - 53)
  nearest n unit * unit

def kilo : Nat := 1024
def mega : Nat := 1024 * 1024

/-- Tenths of `unit` in a length. -/
def tenths (len unit : Nat) : Nat := nearest (significant len * 10) unit

/-- A number of tenths with its decimal point. -/
def tenthsText (n : Nat) : String := toString (n / 10) ++ "." ++ toString (n % 10)

def text (len : Nat) : Bytes :=
  if len < kilo then utf8 (toString len ++ " B")
  else if len < mega then utf8 (tenthsText (tenths len kilo) ++ " KB")
  else utf8 (tenthsText (tenths len mega) ++ " MB")

end Docroot.Size
