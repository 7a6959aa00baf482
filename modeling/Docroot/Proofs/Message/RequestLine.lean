import Docroot.Message.Head
import Docroot.Proofs.Bytes
import Docroot.Proofs.Text.Utf8
import Mathlib

/-!
Request lines. The first three words of the first line are read as method, target and version, whatever lines come
after it.
-/
namespace Docroot

/-- Text of one word that keeps to a limit. -/
structure IsWord (limit : Nat) (word : Bytes) : Prop where
  text : Utf8.WellFormed word
  solid : ∀ b ∈ word, Bytes.isBlank b = false
  isSome : word ≠ []
  short : word.length ≤ limit

theorem IsWord.no_return {limit : Nat} {word : Bytes} (h : IsWord limit word) : 13 ∉ word :=
  fun inside => absurd (h.solid 13 inside) (by decide)

namespace Bytes

/-- The words of a line, each with the blanks before it. -/
inductive Worded : Bytes → List Bytes → Prop where
  | blank {gap : Bytes} (blanks : ∀ b ∈ gap, isBlank b = true) : Worded gap []
  | cons {gap word rest : Bytes} {words : List Bytes} (blanks : ∀ b ∈ gap, isBlank b = true)
      (solid : ∀ b ∈ word, isBlank b = false) (isSome : word ≠ []) (ends : ∀ b ∈ rest.head?, isBlank b = true)
      (more : Worded rest words) : Worded (gap ++ (word ++ rest)) (word :: words)

section Words

variable {gap word rest line : Bytes} {ws : List Bytes}

theorem words_blank_cons {b : UInt8} (blank : isBlank b = true) (rest : Bytes) : words (b :: rest) = words rest := by
  have split : splitWhere isBlank ([] ++ b :: rest) = [] :: splitWhere isBlank rest :=
    splitWhere_append_cons rest nofun blank
  rw [List.nil_append] at split
  rw [words, split]
  rfl

theorem words_blanks_append (blanks : ∀ b ∈ gap, isBlank b = true) (rest : Bytes) :
    words (gap ++ rest) = words rest := by
  induction gap with
  | nil => rfl
  | cons b gap ih =>
      obtain ⟨first, others⟩ := List.forall_mem_cons.mp blanks
      rw [List.cons_append, words_blank_cons first, ih others]

theorem words_append (solid : ∀ b ∈ word, isBlank b = false) (isSome : word ≠ [])
    (ends : ∀ b ∈ rest.head?, isBlank b = true) : words (word ++ rest) = word :: words rest := by
  cases rest with
  | nil =>
      rw [List.append_nil, words, splitWhere_of_clean solid]
      simp [isSome, words, splitWhere]
  | cons b rest =>
      have blank := ends b rfl
      rw [words_blank_cons blank, words, splitWhere_append_cons _ solid blank]
      simp [isSome, words]

theorem Worded.words_eq (worded : Worded line ws) : words line = ws := by
  induction worded with
  | @blank gap blanks =>
      have all := words_blanks_append blanks []
      rwa [List.append_nil] at all
  | cons blanks solid isSome ends _ ih => rw [words_blanks_append blanks, words_append solid isSome ends, ih]

/-- A line may start with its first word. -/
theorem Worded.front (solid : ∀ b ∈ word, isBlank b = false) (isSome : word ≠ [])
    (ends : ∀ b ∈ rest.head?, isBlank b = true) (more : Worded rest ws) : Worded (word ++ rest) (word :: ws) := by
  have noGap : ∀ b ∈ ([] : Bytes), isBlank b = true := nofun
  exact .cons noGap solid isSome ends more

/-- A blank before a line belongs to the gap before its first word. -/
theorem Worded.blank_cons {b : UInt8} (worded : Worded line ws) (blank : isBlank b = true) : Worded (b :: line) ws := by
  cases worded with
  | blank blanks => exact .blank (List.forall_mem_cons.mpr ⟨blank, blanks⟩)
  | cons blanks solid isSome ends more =>
      exact .cons (List.forall_mem_cons.mpr ⟨blank, blanks⟩) solid isSome ends more

/-- Any other octet before a line lengthens its first word or is a word before a gap. -/
theorem Worded.solid_cons {b : UInt8} (worded : Worded line ws) (solidFirst : isBlank b = false) :
    ∃ ws', Worded (b :: line) ws' := by
  have alone : ∀ c ∈ [b], isBlank c = false := by simpa using solidFirst
  by_cases ends : ∀ c ∈ line.head?, isBlank c = true
  · exact ⟨_, Worded.front alone (by simp) ends worded⟩
  · cases worded with
    | blank blanks => exact absurd (fun c isHead => blanks c (List.mem_of_mem_head? isHead)) ends
    | @cons gap word rest words blanks solid isSome ends' more =>
        obtain _ | ⟨c, gap⟩ := gap
        · exact ⟨_, Worded.front (List.forall_mem_cons.mpr ⟨solidFirst, solid⟩) (List.cons_ne_nil b word)
            ends' more⟩
        · have first := blanks c List.mem_cons_self
          simp [first] at ends

theorem worded_words (line : Bytes) : Worded line (words line) := by
  obtain ⟨ws, worded⟩ : ∃ ws, Worded line ws := by
    induction line with
    | nil => exact ⟨[], .blank nofun⟩
    | cons b line ih =>
        obtain ⟨ws, worded⟩ := ih
        cases isBlank? : isBlank b with
        | true => exact ⟨ws, worded.blank_cons isBlank?⟩
        | false => exact worded.solid_cons isBlank?
  rwa [worded.words_eq]

end Words

end Bytes

/-- A line of text that starts with three words. -/
structure IsRequestLine (line method target version : Bytes) : Prop where
  text : ∃ cs, line = Utf8.encode cs
  words : ∃ more, Bytes.Worded line (method :: target :: version :: more)

theorem IsRequestLine.unique {line method target version method' target' version' : Bytes}
    (h : IsRequestLine line method target version) (h' : IsRequestLine line method' target' version') :
    method' = method ∧ target' = target ∧ version' = version := by
  obtain ⟨more, worded⟩ := h.words
  obtain ⟨more', worded'⟩ := h'.words
  have same := worded'.words_eq.symm.trans worded.words_eq
  simp only [List.cons.injEq] at same
  exact ⟨same.1, same.2.1, same.2.2.1⟩

/-- Blanks between two words. -/
structure IsGap (gap : Bytes) : Prop where
  blanks : ∀ b ∈ gap, Bytes.isBlank b = true
  isSome : gap ≠ []

theorem IsGap.ends {gap : Bytes} (h : IsGap gap) (rest : Bytes) :
    ∀ b ∈ (gap ++ rest).head?, Bytes.isBlank b = true := by
  obtain ⟨b, gap, rfl⟩ := List.exists_cons_of_ne_nil h.isSome
  intro c isHead
  cases isHead
  exact h.blanks b List.mem_cons_self

namespace Head

/-- The words of a request line keep to their limits. -/
def Fits (method target version : Bytes) : Prop :=
  method.length ≤ maxMethod ∧ target.length ≤ maxTarget ∧ version.length ≤ maxVersion

def requestLine (method target version : Bytes) : Bytes := method ++ 32 :: (target ++ 32 :: version)

/-- A request line, and behind its end the octets of the header lines if there are any. -/
def withFields (line : Bytes) : Option Bytes → Bytes
  | none => line
  | some fields => line ++ (Bytes.crlf ++ fields)

section RequestLine

variable {method target version : Bytes}

/-- Three words with gaps between them are the words of their line. -/
theorem worded_line {gap gap' : Bytes} (isMethod : IsWord maxMethod method) (isTarget : IsWord maxTarget target)
    (isVersion : IsWord maxVersion version) (isGap : IsGap gap) (isGap' : IsGap gap') :
    Bytes.Worded (method ++ (gap ++ (target ++ (gap' ++ version)))) [method, target, version] := by
  have last : Bytes.Worded (gap' ++ (version ++ [])) [version] :=
    .cons isGap'.blanks isVersion.solid isVersion.isSome nofun (.blank nofun)
  rw [List.append_nil] at last
  have later := Bytes.Worded.cons isGap.blanks isTarget.solid isTarget.isSome (isGap'.ends version) last
  exact .front isMethod.solid isMethod.isSome (isGap.ends _) later

theorem requestLine_text (isMethod : IsWord maxMethod method) (isTarget : IsWord maxTarget target)
    (isVersion : IsWord maxVersion version) : Utf8.WellFormed (requestLine method target version) :=
  isMethod.text.append (.ascii_cons (by decide) (isTarget.text.append (.ascii_cons (by decide) isVersion.text)))

theorem requestLine_one_line (isMethod : IsWord maxMethod method) (isTarget : IsWord maxTarget target)
    (isVersion : IsWord maxVersion version) : 13 ∉ requestLine method target version := by
  simp [requestLine, isMethod.no_return, isTarget.no_return, isVersion.no_return]

theorem cut_line {line : Bytes} (oneLine : indexOf? Bytes.crlf line = none) (rest : Bytes) :
    cut (line ++ (Bytes.crlf ++ rest)) = (line, rest) := by
  have broken : breakAt? Bytes.crlf (line ++ (Bytes.crlf ++ rest)) = some (line, rest) :=
    breakAt?_pair (by decide) oneLine rest
  rw [cut, broken]
  rfl

theorem cut_withFields {line : Bytes} (oneLine : indexOf? Bytes.crlf line = none) (fields : Option Bytes) :
    cut (withFields line fields) = (line, fields.getD []) := by
  cases fields with
  | none =>
      rw [withFields, cut, breakAt?, oneLine]
      rfl
  | some fields => exact cut_line oneLine fields

section Verdict

variable {raw : Bytes}

theorem parse_of_fits (isLine : IsRequestLine (cut raw).1 method target version) (fits : Fits method target version) :
    parse raw = .ok ⟨.ofToken method, target, version, headers (cut raw).2⟩ := by
  obtain ⟨more, worded⟩ := isLine.words
  have limits : ¬ (maxMethod < method.length ∨ maxTarget < target.length ∨ maxVersion < version.length) := by
    obtain ⟨short, short', short''⟩ := fits
    omega
  unfold parse
  dsimp only
  rw [if_pos (Utf8.isValid_iff.mpr (Utf8.wellFormed_iff.mpr isLine.text)), worded.words_eq]
  exact if_neg limits

theorem parse_of_too_long (isLine : IsRequestLine (cut raw).1 method target version)
    (long : ¬ Fits method target version) : parse raw = .error .tokenTooLong := by
  obtain ⟨more, worded⟩ := isLine.words
  have limits : maxMethod < method.length ∨ maxTarget < target.length ∨ maxVersion < version.length := by
    unfold Fits at long
    omega
  unfold parse
  dsimp only
  rw [if_pos (Utf8.isValid_iff.mpr (Utf8.wellFormed_iff.mpr isLine.text)), worded.words_eq]
  exact if_pos limits

theorem parse_of_unreadable (unreadable : ¬ ∃ method target version, IsRequestLine (cut raw).1 method target version) :
    parse raw = .error .malformed := by
  unfold parse
  dsimp only
  split
  · next text =>
    split
    · next method target version more words =>
      have worded := Bytes.worded_words (cut raw).1
      rw [words] at worded
      have isText := Utf8.wellFormed_iff.mp (Utf8.isValid_iff.mp text)
      exact absurd ⟨method, target, version, isText, more, worded⟩ unreadable
    · rfl
  · rfl

/-- The first line alone decides whether a head is accepted, and if not, why. -/
theorem parse_verdict (raw : Bytes) :
    ((∃ request, parse raw = .ok request) ↔
        ∃ method target version, IsRequestLine (cut raw).1 method target version ∧ Fits method target version) ∧
      (parse raw = .error .malformed ↔ ¬ ∃ method target version, IsRequestLine (cut raw).1 method target version) ∧
      (parse raw = .error .tokenTooLong ↔
        ∃ method target version, IsRequestLine (cut raw).1 method target version ∧ ¬ Fits method target version) := by
  by_cases readable : ∃ method target version, IsRequestLine (cut raw).1 method target version
  · obtain ⟨method, target, version, isLine⟩ := readable
    by_cases fits : Fits method target version
    · rw [parse_of_fits isLine fits]
      refine ⟨⟨fun _ => ⟨_, _, _, isLine, fits⟩, fun _ => ⟨_, rfl⟩⟩, ⟨nofun, ?_⟩, ⟨nofun, ?_⟩⟩
      · intro unreadable
        exact absurd ⟨_, _, _, isLine⟩ unreadable
      · rintro ⟨_, _, _, isLine', long⟩
        obtain ⟨rfl, rfl, rfl⟩ := isLine.unique isLine'
        exact absurd fits long
    · rw [parse_of_too_long isLine fits]
      refine ⟨⟨nofun, ?_⟩, ⟨nofun, ?_⟩, ⟨fun _ => ⟨_, _, _, isLine, fits⟩, fun _ => rfl⟩⟩
      · rintro ⟨_, _, _, isLine', short⟩
        obtain ⟨rfl, rfl, rfl⟩ := isLine.unique isLine'
        exact absurd short fits
      · intro unreadable
        exact absurd ⟨_, _, _, isLine⟩ unreadable
  · rw [parse_of_unreadable readable]
    refine ⟨⟨nofun, ?_⟩, ⟨fun _ => readable, fun _ => rfl⟩, ⟨nofun, ?_⟩⟩
    · rintro ⟨_, _, _, isLine, -⟩
      exact absurd ⟨_, _, _, isLine⟩ readable
    · rintro ⟨_, _, _, isLine, -⟩
      exact absurd ⟨_, _, _, isLine⟩ readable

end Verdict

/-- Three words within their limits are what a request is read as; the lines behind them are its headers. -/
theorem parse_of_isWord {raw line rest : Bytes} (isMethod : IsWord maxMethod method)
    (isTarget : IsWord maxTarget target) (isVersion : IsWord maxVersion version) (parts : cut raw = (line, rest))
    (text : Utf8.WellFormed line) (worded : Bytes.Worded line [method, target, version]) :
    parse raw = .ok ⟨.ofToken method, target, version, headers rest⟩ := by
  have isLine : IsRequestLine (cut raw).1 method target version := by
    rw [parts]
    exact ⟨Utf8.wellFormed_iff.mp text, [], worded⟩
  rw [parse_of_fits isLine ⟨isMethod.short, isTarget.short, isVersion.short⟩, parts]

theorem parse_requestLine (isMethod : IsWord maxMethod method) (isTarget : IsWord maxTarget target)
    (isVersion : IsWord maxVersion version) (fields : Option Bytes) :
    parse (withFields (requestLine method target version) fields) =
      .ok ⟨.ofToken method, target, version, headers (fields.getD [])⟩ := by
  have space : IsGap [32] := ⟨List.forall_mem_singleton.mpr rfl, List.cons_ne_nil 32 []⟩
  have oneLine : indexOf? Bytes.crlf (requestLine method target version) = none :=
    indexOf?_eq_none_of_not_mem (requestLine_one_line isMethod isTarget isVersion) _
  have parts := cut_withFields oneLine fields
  have worded : Bytes.Worded (requestLine method target version) [method, target, version] :=
    worded_line isMethod isTarget isVersion space space
  have text := requestLine_text isMethod isTarget isVersion
  exact parse_of_isWord isMethod isTarget isVersion parts text worded

end RequestLine

end Head

end Docroot
