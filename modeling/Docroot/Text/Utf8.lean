import Docroot.Bytes

/-!
UTF-8. `scalars` reads an octet string from the left: each item is a decoded character, or `none`
for a maximal ill-formed piece, the longest beginning of a well-formed sequence that does not go on.
Strict and lossy decoding are two readings of that list.
-/
namespace Docroot.Utf8

def encode (cs : List Char) : Bytes := cs.flatMap String.utf8EncodeChar

/-- An octet `10xxxxxx`. -/
def isContinuation (b : UInt8) : Bool := 0x80 ≤ b && b ≤ 0xBF

/-- The octets that may follow the first octet `b` of a sequence of three or four: the ranges shut out
over-long forms, surrogates and what lies past the last code point. -/
def secondRange (b : UInt8) : UInt8 × UInt8 :=
  if b = 0xE0 then (0xA0, 0xBF)
  else if b = 0xED then (0x80, 0x9F)
  else if b = 0xF0 then (0x90, 0xBF)
  else if b = 0xF4 then (0x80, 0x8F)
  else (0x80, 0xBF)

/-- Whether `c` may stand second after `b`. -/
def maySecond (b c : UInt8) : Bool := (secondRange b).1 ≤ c && c ≤ (secondRange b).2

def low (b : UInt8) : Nat := b.toNat % 64

/-- One item at the front of `b :: rest` and the octets after it. -/
def next (b : UInt8) (rest : Bytes) : Option Char × Bytes :=
  if b < 0x80 then (some (Char.ofNat b.toNat), rest)
  else if 0xC2 ≤ b && b ≤ 0xDF then
    match rest with
    | c :: rest' =>
      if isContinuation c then (some (Char.ofNat (b.toNat % 32 * 64 + low c)), rest')
      else (none, rest)
    | [] => (none, rest)
  else if 0xE0 ≤ b && b ≤ 0xEF then
    match rest with
    | c :: rest' =>
      if maySecond b c then
        match rest' with
        | d :: rest'' =>
          if isContinuation d then
            (some (Char.ofNat ((b.toNat % 16 * 64 + low c) * 64 + low d)), rest'')
          else (none, rest')
        | [] => (none, rest')
      else (none, rest)
    | [] => (none, rest)
  else if 0xF0 ≤ b && b ≤ 0xF4 then
    match rest with
    | c :: rest' =>
      if maySecond b c then
        match rest' with
        | d :: rest'' =>
          if isContinuation d then
            match rest'' with
            | e :: rest''' =>
              if isContinuation e then
                (some (Char.ofNat (((b.toNat % 8 * 64 + low c) * 64 + low d) * 64 + low e)), rest''')
              else (none, rest'')
            | [] => (none, rest'')
          else (none, rest')
        | [] => (none, rest')
      else (none, rest)
    | [] => (none, rest)
  else (none, rest)

theorem next_length (b : UInt8) (rest : Bytes) : (next b rest).2.length ≤ rest.length := by
  unfold next
  repeat' split
  all_goals simp
  all_goals omega

/-- The items of `bs`, put in front of `done`, which is kept in reverse. -/
def scalarsOnto (done : List (Option Char)) (bs : Bytes) : List (Option Char) :=
  match bs with
  | [] => done.reverse
  | b :: rest => scalarsOnto ((next b rest).1 :: done) (next b rest).2
termination_by bs.length
decreasing_by
  have := next_length b rest
  simp only [List.length_cons]
  omega

/-- The items of an octet string, from left to right. -/
def scalars (bs : Bytes) : List (Option Char) := scalarsOnto [] bs

/-- The text of well-formed octets; `none` if any piece is ill-formed. -/
def decode? (bs : Bytes) : Option (List Char) :=
  let items := scalars bs
  if items.all Option.isSome then some (items.filterMap id) else none

def isValid (bs : Bytes) : Bool := (decode? bs).isSome

/-- The sign put in place of what cannot be decoded. -/
def replacement : Char := Char.ofNat 0xFFFD

/-- The text of any octets, with one replacement sign for each maximal ill-formed piece. -/
def decodeLossy (bs : Bytes) : List Char := (scalars bs).map (·.getD replacement)

/-- Octets made well-formed in the same way. -/
def repair (bs : Bytes) : Bytes := encode (decodeLossy bs)

end Docroot.Utf8
