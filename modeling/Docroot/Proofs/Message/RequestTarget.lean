import Docroot.Proofs.Message.Framing
import Docroot.Proofs.Message.RequestLine

/-!
Request targets. The path of a request that was read is text of one word without a query; and whatever is
such a text is read back from a request line that holds it.
-/
namespace Docroot

/-- Text that can stand as the target of a request and is all path. -/
structure IsTarget (target : Bytes) : Prop where
  text : Utf8.WellFormed target
  plain : ∀ b ∈ target, Bytes.isBlank b = false ∧ b ≠ 63 ∧ b ≠ 35

namespace IsTarget

variable {target front behind : Bytes}

theorem append (first : IsTarget front) (second : IsTarget behind) : IsTarget (front ++ behind) where
  text := first.text.append second.text
  plain b member := (List.mem_append.mp member).elim (first.plain b) (second.plain b)

theorem slash : IsTarget [47] := ⟨.ascii_cons (by decide) .nil, List.forall_mem_singleton.mpr (by decide)⟩

/-- What is added behind a mark does not belong to the path. -/
theorem stripQuery_append (h : IsTarget target) {query : Bytes} (marked : ∀ b ∈ query.head?, b = 63 ∨ b = 35) :
    stripQuery (target ++ query) = target := by
  have passed : ∀ b ∈ target, (b != 63 && b != 35) = true := by
    intro b member
    obtain ⟨-, notQuery, notFragment⟩ := h.plain b member
    simp [notQuery, notFragment]
  rw [stripQuery, List.takeWhile_append_of_pos passed]
  cases query with
  | nil => exact List.append_nil _
  | cons b more =>
      have stops : (b != 63 && b != 35) = false := by
        rcases marked b rfl with rfl | rfl <;> rfl
      rw [List.takeWhile_cons, stops]
      exact List.append_nil _

theorem stripQuery_eq (h : IsTarget target) : stripQuery target = target := by
  have same : stripQuery (target ++ []) = target := h.stripQuery_append nofun
  rwa [List.append_nil] at same

theorem isWord (h : IsTarget target) (ne_nil : target ≠ []) (short : target.length ≤ Head.maxTarget) :
    IsWord Head.maxTarget target where
  text := h.text
  solid b member := (h.plain b member).1
  isSome := ne_nil
  short := short

end IsTarget

namespace Bytes

theorem isBlank_ascii {b : UInt8} (blank : isBlank b = true) : b.toNat < 0x80 := by
  revert b
  decide +kernel

theorem text_of_mem_words {line word : Bytes} (text : Utf8.WellFormed line) (member : word ∈ words line) :
    Utf8.WellFormed word :=
  forall_mem_splitWhere (fun _ _ _ blank whole => whole.around_ascii (isBlank_ascii blank)) text word
    (List.mem_filter.mp member).1

theorem no_blank_of_mem_words {line word : Bytes} (member : word ∈ words line) :
    ∀ b ∈ word, isBlank b = false := not_mem_splitWhere (List.mem_filter.mp member).1

end Bytes

/-- The path of a target is text if the target is. -/
theorem text_stripQuery {target : Bytes} (text : Utf8.WellFormed target) :
    Utf8.WellFormed (stripQuery target) := by
  have whole : stripQuery target ++ target.dropWhile _ = target := List.takeWhile_append_dropWhile
  have mark := List.head?_dropWhile_not (fun b : UInt8 => b != 63 && b != 35) target
  generalize target.dropWhile (fun b => b != 63 && b != 35) = later at whole mark
  rw [← whole] at text
  cases later with
  | nil => rwa [List.append_nil] at text
  | cons b more =>
      have ascii : b.toNat < 0x80 := by
        simp only [List.head?_cons, Bool.and_eq_false_iff, bne_eq_false_iff_eq] at mark
        rcases mark with rfl | rfl <;> decide
      exact (text.around_ascii ascii).1

namespace Head

theorem parse_ok {raw : Bytes} {request : Request} (parsed : parse raw = .ok request) :
    ∃ line, Utf8.isValid line = true ∧ request.target ∈ Bytes.words line := by
  obtain ⟨method, target, version, isLine, fits⟩ := (parse_verdict raw).1.mp ⟨request, parsed⟩
  rw [parse_of_fits isLine fits] at parsed
  cases parsed
  obtain ⟨more, worded⟩ := isLine.words
  refine ⟨_, Utf8.isValid_iff.mpr (Utf8.wellFormed_iff.mpr isLine.text), ?_⟩
  rw [worded.words_eq]
  exact List.mem_cons_of_mem _ List.mem_cons_self

theorem isTarget_path {raw : Bytes} {request : Request} (parsed : parse raw = .ok request) :
    IsTarget request.path := by
  obtain ⟨line, valid, member⟩ := parse_ok parsed
  refine ⟨text_stripQuery (Bytes.text_of_mem_words (Utf8.isValid_iff.mp valid) member), ?_⟩
  intro b inPath
  have mark := List.mem_takeWhile_imp inPath
  have inTarget : b ∈ request.target := (List.takeWhile_prefix _).subset inPath
  simp only [Bool.and_eq_true, bne_iff_ne] at mark
  exact ⟨Bytes.no_blank_of_mem_words member b inTarget, mark⟩

/-- The line of a request for a target. -/
def lineFor (target : Bytes) : Bytes := utf8 "GET " ++ target ++ utf8 " HTTP/1.1"

theorem lineFor_eq (target : Bytes) : lineFor target = requestLine (utf8 "GET") target (utf8 "HTTP/1.1") := by
  have first : utf8 "GET " = utf8 "GET" ++ [32] := by decide +kernel
  have last : utf8 " HTTP/1.1" = 32 :: utf8 "HTTP/1.1" := by decide +kernel
  rw [lineFor, first, last, requestLine, List.append_assoc, List.append_assoc, List.singleton_append]

theorem isWord_get : IsWord maxMethod (utf8 "GET") :=
  ⟨.of_ascii (by decide +kernel), by decide +kernel, by decide +kernel, by decide +kernel⟩

theorem isWord_version : IsWord maxVersion (utf8 "HTTP/1.1") :=
  ⟨.of_ascii (by decide +kernel), by decide +kernel, by decide +kernel, by decide +kernel⟩

section LineFor

variable {target : Bytes}

theorem parse_lineFor (isTarget : IsTarget target) (ne_nil : target ≠ []) (short : target.length ≤ maxTarget) :
    parse (lineFor target) = .ok ⟨.get, target, utf8 "HTTP/1.1", headers []⟩ := by
  have parsed := parse_requestLine isWord_get (isTarget.isWord ne_nil short) isWord_version none
  rwa [withFields, ← lineFor_eq, Method.ofToken, if_pos rfl] at parsed

/-- A request for a target is read as such. -/
theorem read_lineFor (isTarget : IsTarget target) (ne_nil : target ≠ []) (short : target.length ≤ maxTarget) :
    read (lineFor target ++ terminator) =
      .ok (⟨.get, target, utf8 "HTTP/1.1", headers []⟩, (lineFor target).length + terminator.length) := by
  have noReturn : 13 ∉ lineFor target := by
    rw [lineFor_eq]
    exact requestLine_one_line isWord_get (isTarget.isWord ne_nil short) isWord_version
  have ends := terminatorOffset?_line (indexOf?_eq_none_of_not_mem noReturn _) []
  rw [List.append_nil] at ends
  rw [read, ends]
  dsimp only
  rw [List.take_left, parse_lineFor isTarget ne_nil short]
  rfl

end LineFor

end Head

end Docroot
