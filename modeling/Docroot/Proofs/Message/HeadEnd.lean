import Docroot.Proofs.Message.RequestLine

/-!
Where a head ends. The lines of a text end before the first empty one or with the text, so a head is read the same
whether its blank line is there or not, and whatever comes behind that.
-/
namespace Docroot.Head

/-- A line end in a text. -/
def lineEnd : List Char := ['\r', '\n']

theorem decodeLossy_crlf (before after : Bytes) :
    Utf8.decodeLossy (before ++ (Bytes.crlf ++ after)) =
      Utf8.decodeLossy before ++ (lineEnd ++ Utf8.decodeLossy after) := by
  rw [Bytes.crlf, List.cons_append, Utf8.decodeLossy_around_ascii (by decide),
    Utf8.decodeLossy_ascii_cons (by decide), List.cons_append, Utf8.decodeLossy_ascii_cons (by decide)]
  rfl

theorem leadingLines_of_break {text line after : List Char} (h : breakAt? lineEnd text = some (line, after)) :
    leadingLines text = if line.isEmpty then [] else line :: leadingLines after := by
  fun_cases leadingLines text with
  | case1 => cases h
  | case2 c rest none => exact absurd (none.symm.trans h) (Option.some_ne_none _).symm
  | case3 c rest line' after' found isEmpty =>
      obtain ⟨rfl, rfl⟩ := Prod.mk.inj (Option.some.inj (found.symm.trans h))
      rw [if_pos isEmpty]
  | case4 c rest line' after' found isSome =>
      obtain ⟨rfl, rfl⟩ := Prod.mk.inj (Option.some.inj (found.symm.trans h))
      rw [if_neg isSome]

theorem leadingLines_of_none {text : List Char} (h : breakAt? lineEnd text = none) (isSome : text ≠ []) :
    leadingLines text = [text] := by
  fun_cases leadingLines text with
  | case1 => exact absurd rfl isSome
  | case2 => rfl
  | case3 c rest line after found | case4 c rest line after found =>
      exact absurd (found.symm.trans h) (Option.some_ne_none _)

theorem leadingLines_lineEnd (more : List Char) : leadingLines (lineEnd ++ more) = [] := by
  have broken : breakAt? lineEnd ([] ++ (lineEnd ++ more)) = some ([], more) :=
    breakAt?_append (indexOf?_append_right _ _)
  exact leadingLines_of_break broken

/-- The lines before the first empty one are there whatever follows it, and the end of the text is as good as an
empty line. -/
theorem leadingLines_append (text more : List Char) :
    leadingLines (text ++ (lineEnd ++ (lineEnd ++ more))) = leadingLines text := by
  induction size : text.length using Nat.strongRecOn generalizing text with
  | ind n ih =>
      obtain rfl | isSome := eq_or_ne text []
      · rw [List.nil_append, leadingLines_lineEnd, leadingLines]
      · cases broken : breakAt? lineEnd text with
        | none =>
            have ended : breakAt? lineEnd (text ++ (lineEnd ++ (lineEnd ++ more))) = some (text, lineEnd ++ more) :=
              breakAt?_pair (by decide) (breakAt?_eq_none_iff.mp broken) _
            rw [leadingLines_of_break ended, leadingLines_lineEnd, leadingLines_of_none broken isSome, if_neg]
            simpa using isSome
        | some parts =>
            obtain ⟨line, after⟩ := parts
            have shorter := breakAt?_length broken (by decide) isSome
            rw [leadingLines_of_break (breakAt?_append_of_some broken _), leadingLines_of_break broken,
              ih _ (size ▸ shorter) _ rfl]

/-- Headers end at a blank line, or where the octets end. -/
theorem headers_append (bs more : Bytes) : headers (bs ++ (terminator ++ more)) = headers bs := by
  have text : Utf8.decodeLossy (bs ++ (terminator ++ more)) =
      Utf8.decodeLossy bs ++ (lineEnd ++ (lineEnd ++ Utf8.decodeLossy more)) := by
    have blank : bs ++ (terminator ++ more) = bs ++ (Bytes.crlf ++ ([] ++ (Bytes.crlf ++ more))) := rfl
    rw [blank, decodeLossy_crlf, decodeLossy_crlf, Utf8.decodeLossy_nil, List.nil_append]
  rw [headers, text, leadingLines_append, headers]

theorem headers_crlf (more : Bytes) : headers (Bytes.crlf ++ more) = headers [] := by
  have text := decodeLossy_crlf [] more
  rw [Utf8.decodeLossy_nil, List.nil_append, List.nil_append] at text
  rw [headers, headers, text, leadingLines_lineEnd, Utf8.decodeLossy_nil, leadingLines]

theorem parse_congr {raw other : Bytes} (line : (cut raw).1 = (cut other).1)
    (fields : headers (cut raw).2 = headers (cut other).2) : parse raw = parse other := by
  simp only [parse, line, fields]

/-- A blank line behind a head, and whatever comes behind that, make no difference to how it is read. -/
theorem parse_append (front more : Bytes) : parse (front ++ (terminator ++ more)) = parse front := by
  cases broken : breakAt? Bytes.crlf front with
  | some parts =>
      obtain ⟨line, rest⟩ := parts
      have whole := breakAt?_append_of_some broken (terminator ++ more)
      refine parse_congr ?_ ?_
      · rw [cut, cut, whole, broken]
        rfl
      · rw [cut, cut, whole, broken]
        exact headers_append rest more
  | none =>
      have whole : breakAt? Bytes.crlf (front ++ (terminator ++ more)) = some (front, Bytes.crlf ++ more) :=
        breakAt?_pair (by decide) (breakAt?_eq_none_iff.mp broken) _
      refine parse_congr ?_ ?_
      · rw [cut, cut, whole, broken]
        rfl
      · rw [cut, cut, whole, broken]
        exact headers_crlf more

/-- As long as the first blank line is not there altogether there is none. -/
theorem read_take {octets : Bytes} {offset count : Nat}
    (first : ∀ earlier < offset, ¬ terminator <+: octets.drop earlier) (early : count < offset + 4) :
    read (octets.take count) = .error .incomplete := by
  have none : terminatorOffset? (octets.take count) = none := by
    refine indexOf?_eq_none_iff.mpr ?_
    intro i _ found
    have fits : 4 ≤ ((octets.take count).drop i).length := found.length_le
    rw [List.length_drop, List.length_take] at fits
    rw [List.drop_take] at found
    exact first i (by omega) (found.trans (List.take_prefix _ _))
  rw [read, none]

/-- A head that ends at the first blank line is read the same with that line and without it, whatever comes behind; and
before the line has come altogether the head is not read at all. -/
theorem head_stable (octets more : Bytes) (offset : Nat) (blank : terminator <+: octets.drop offset)
    (first : ∀ earlier < offset, ¬ terminator <+: octets.drop earlier) :
    parse (octets ++ more) = parse (octets.take (offset + 4)) ∧
      parse (octets.take (offset + 4)) = parse (octets.take offset) ∧
      read (octets ++ more) = (parse (octets.take offset)).map (fun request => (request, offset + 4)) ∧
      ∀ count < offset + 4, read (octets.take count) = .error .incomplete := by
  have bound : offset ≤ octets.length := by
    have fits : 4 ≤ (octets.drop offset).length := blank.length_le
    rw [List.length_drop] at fits
    omega
  have found : terminatorOffset? octets = some offset := indexOf?_eq_some_iff.mpr ⟨bound, blank, first⟩
  obtain ⟨rest, behind⟩ := blank
  have whole : octets.take offset ++ (terminator ++ rest) = octets := by
    rw [behind, List.take_append_drop]
  have withBlank : octets.take (offset + 4) = octets.take offset ++ (terminator ++ []) := by
    rw [List.take_add, ← behind]
    rfl
  have parsed : parse (octets ++ more) = parse (octets.take offset) := by
    rw [← parse_append (octets.take offset) (rest ++ more), ← List.append_assoc terminator,
      ← List.append_assoc, whole]
  have parsedBlank : parse (octets.take (offset + 4)) = parse (octets.take offset) := by
    rw [withBlank, parse_append]
  refine ⟨parsed.trans parsedBlank.symm, parsedBlank, ?_, fun count early => read_take first early⟩
  have foundFirst : terminatorOffset? (octets ++ more) = some offset := indexOf?_append found more
  rw [read, foundFirst]
  dsimp only
  rw [List.take_append_of_le_length bound]
  rfl

/-- `GET / v` and a header whose value breaks off in the middle of a character, with a carriage return before the
blank line. -/
theorem head_stable_broken_off :
    let octets : Bytes := [71, 69, 84, 32, 47, 32, 118, 13, 10, 65, 58, 0xE2, 0x82, 13] ++ terminator ++ [66]
    terminator <+: octets.drop 14 ∧ (∀ earlier < 14, ¬ terminator <+: octets.drop earlier) ∧
      parse (octets ++ terminator) = parse (octets.take 18) ∧ parse (octets.take 18) = parse (octets.take 14) ∧
      read (octets ++ terminator) = (parse (octets.take 14)).map (fun request => (request, 18)) ∧
      ∀ count < 18, read (octets.take count) = .error .incomplete := by
  intro octets
  have blank : terminator <+: octets.drop 14 := by decide
  have first : ∀ earlier < 14, ¬ terminator <+: octets.drop earlier := by decide
  exact ⟨blank, first, head_stable octets terminator 14 blank first⟩

end Docroot.Head
