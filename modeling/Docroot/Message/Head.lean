import Docroot.Text.Blank
import Docroot.Text.Utf8
import Docroot.Message.Request

/-!
Reading a request head. The head ends at the first blank line; its first line must be UTF-8 and hold
three words within their limits; header lines are for information only, so one that cannot be read is
skipped and octets that are no text are replaced.
-/
namespace Docroot

inductive HeadError where
  /-- The request line is not UTF-8 or has fewer than three words. -/
  | malformed
  /-- A word of the request line is longer than its limit. -/
  | tokenTooLong
  /-- There is no blank line yet. -/
  | incomplete
  deriving DecidableEq, Repr

def HeadError.message : HeadError → String
  | .malformed => "malformed request line"
  | .tokenTooLong => "request line token too long"
  | .incomplete => "incomplete request head"

namespace Head

/-- The longest method accepted, in octets. -/
def maxMethod : Nat := 15
def maxTarget : Nat := 1023
def maxVersion : Nat := 15

/-- A blank line: the end of a head. -/
def terminator : Bytes := [13, 10, 13, 10]

def terminatorOffset? (bs : Bytes) : Option Nat := indexOf? terminator bs

/-- The lines of a text before the first empty one. -/
def leadingLines (text : List Char) : List (List Char) :=
  match text with
  | [] => []
  | c :: rest =>
    match _h : breakAt? ['\r', '\n'] (c :: rest) with
    | none => [c :: rest]
    | some (line, after) => if line.isEmpty then [] else line :: leadingLines after
termination_by text.length
decreasing_by exact breakAt?_length _h (by decide) (by simp)

/-- The name and value in a header line: what stands before and after the first colon, without blanks at
the ends. -/
def field? (line : List Char) : Option (Bytes × Bytes) :=
  (breakAt? [':'] line).map fun (name, value) =>
    (Utf8.encode (Text.trim name), Utf8.encode (Text.trim value))

/-- The headers in the octets after the request line. -/
def headers (bs : Bytes) : Headers :=
  .ofList ((leadingLines (Utf8.decodeLossy bs)).filterMap field?)

/-- The request line of a head, and what comes after its line end. -/
def cut (raw : Bytes) : Bytes × Bytes := (breakAt? Bytes.crlf raw).getD (raw, [])

/-- Reads a head whose end has been found already; its terminator may be missing. -/
def parse (raw : Bytes) : Except HeadError Request :=
  let (line, rest) := cut raw
  if Utf8.isValid line then
    match Bytes.words line with
    | method :: target :: version :: _ =>
      if maxMethod < method.length ∨ maxTarget < target.length ∨ maxVersion < version.length then
        .error .tokenTooLong
      else .ok ⟨.ofToken method, target, version, headers rest⟩
    | _ => .error .malformed
  else .error .malformed

/-- Reads the head at the front of `bs`; the number counts its octets, terminator included. -/
def read (bs : Bytes) : Except HeadError (Request × Nat) :=
  match terminatorOffset? bs with
  | none => .error .incomplete
  | some i => (parse (bs.take i)).map fun request => (request, i + terminator.length)

end Head

end Docroot
