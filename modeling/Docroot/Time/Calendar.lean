import Docroot.Bytes

/-!
Instants and their calendar dates in the Gregorian calendar, carried on both ways without end. Two formats are
written: the time of an entry in a listing, and the date of a response. Both are in universal time: the zone of
a listing is the one the server runs in, which is taken to be that. The time of an entry stands for itself in
the years from -262143 to 262142; beyond them there is no text for a time, and so no page with its row.
-/
namespace Docroot

/-- An instant: `seconds` after the epoch, which may be negative, and `nanos` after that. -/
structure Timestamp where
  seconds : Int
  nanos : Nat := 0
  deriving DecidableEq, Repr

structure Date where
  year : Int
  month : Nat
  day : Nat
  deriving DecidableEq, Repr

namespace Date

/-- Days from 1 March of year 0 to the epoch. -/
def epochOffset : Int := 719468

/-- The date `days` after the epoch. Years are counted from March, so that the leap day is the last of
its year, and in cycles of 400 years, which all have the same length. -/
def ofDays (days : Int) : Date :=
  let shifted := days + epochOffset
  let cycle := shifted / 146097
  let inCycle := (shifted % 146097).toNat
  let year := (inCycle - inCycle / 1460 + inCycle / 36524 - inCycle / 146096) / 365
  let inYear := inCycle - (365 * year + year / 4 - year / 100)
  let fromMarch := (5 * inYear + 2) / 153
  let day := inYear - (153 * fromMarch + 2) / 5 + 1
  if fromMarch < 10 then ⟨cycle * 400 + year, fromMarch + 3, day⟩
  else ⟨cycle * 400 + year + 1, fromMarch - 9, day⟩

/-- The day of the week `days` after the epoch, which was a Thursday; Sunday is 0. -/
def weekday (days : Int) : Nat := ((days + 4) % 7).toNat

end Date

/-- A number with zeros in front, at least `width` digits wide. -/
def padded (width n : Nat) : String :=
  let digits := toString n
  String.ofList (List.replicate (width - digits.length) '0') ++ digits

namespace Timestamp

def wholeSeconds (t : Timestamp) : Int := t.seconds + (t.nanos / 1000000000 : Nat)

def days (t : Timestamp) : Int := t.wholeSeconds / 86400

def inDay (t : Timestamp) : Nat := (t.wholeSeconds % 86400).toNat

def clock (t : Timestamp) : String :=
  padded 2 (t.inDay / 3600) ++ ":" ++ padded 2 (t.inDay / 60 % 60) ++ ":" ++ padded 2 (t.inDay % 60)

/-- A year: four digits, with a sign in front where that is not enough. -/
def yearText (year : Int) : String :=
  if year < 0 then "-" ++ padded 4 year.natAbs
  else if 9999 < year then "+" ++ padded 4 year.natAbs
  else padded 4 year.natAbs

/-- Date and time as listings show them, to a server whose zone is universal time; for instants in the years
from -262143 to 262142. -/
def listed (t : Timestamp) : Bytes :=
  let date := Date.ofDays t.days
  utf8 (yearText date.year ++ "-" ++ padded 2 date.month ++ "-" ++ padded 2 date.day ++ " " ++ t.clock)

def dayNames : List String := ["Sun", "Mon", "Tue", "Wed", "Thu", "Fri", "Sat"]

def monthNames : List String :=
  ["Jan", "Feb", "Mar", "Apr", "May", "Jun", "Jul", "Aug", "Sep", "Oct", "Nov", "Dec"]

/-- Date and time as a message head states them. -/
def inHead (t : Timestamp) : Bytes :=
  let date := Date.ofDays t.days
  utf8 (dayNames.getD (Date.weekday t.days) "" ++ ", " ++ padded 2 date.day ++ " "
    ++ monthNames.getD (date.month - 1) "" ++ " " ++ yearText date.year ++ " " ++ t.clock ++ " GMT")

end Timestamp

end Docroot
