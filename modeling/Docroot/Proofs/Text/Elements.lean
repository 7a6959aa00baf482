import Docroot.Proofs.Bytes
import Docroot.Proofs.Text.Markup
import Mathlib

/-!
The elements that a reader of a page finds, each by its tag and the text it starts with. A tag is cut at its quotes,
so that one with a value is cut in three, the value between the other two; a value that held a quote itself would
show as more pieces. A page in parts is read part by part, where no tag reaches over the end of a part.
-/
namespace Docroot.Markup

/-- An element where it opens: the pieces of its tag between the quotes, and the text behind the tag. What
references stand for is in their place. -/
structure Element where
  tag : List Bytes
  text : Bytes
  deriving DecidableEq, Repr

/-- The element whose tag goes on behind its `<`. -/
def element (rest : Bytes) : Element where
  tag := (splitWhere (· == 34) (rest.takeWhile (· != 62))).map unescape
  text := unescape (((rest.dropWhile (· != 62)).drop 1).takeWhile (· != 60))

/-- The elements of a page in the order in which they open. A tag that closes one is passed over. -/
def elements : Bytes → List Element
  | [] => []
  | b :: rest => if b = 60 ∧ rest.head? ≠ some 47 then element rest :: elements rest else elements rest

def tags (bs : Bytes) : List (List Bytes) := (elements bs).map Element.tag

/-- All brackets of a page, one after the other. -/
def brackets (bs : Bytes) : Bytes := bs.filter fun b => b == 60 || b == 62

theorem brackets_append (a b : Bytes) : brackets (a ++ b) = brackets a ++ brackets b := List.filter_append a b

theorem TagFree.brackets {bs : Bytes} (free : TagFree bs) : brackets bs = [] := by
  refine List.filter_eq_nil_iff.mpr fun b member => ?_
  obtain ⟨noStart, noEnd⟩ := free b member
  simp [noStart, noEnd]

section Element

variable {tag text : Bytes}

theorem element_eq (inTag : 62 ∉ tag) (noTag : 60 ∉ text) (rest : Bytes) :
    element (tag ++ 62 :: (text ++ 60 :: rest)) =
      ⟨(splitWhere (· == 34) tag).map unescape, unescape text⟩ := by
  have passed : ∀ b ∈ tag, (b != 62) = true := fun b member => bne_iff_ne.mpr fun is => inTag (is ▸ member)
  have read : ∀ b ∈ text, (b != 60) = true := fun b member => bne_iff_ne.mpr fun is => noTag (is ▸ member)
  unfold element
  rw [List.takeWhile_append_of_pos passed, List.dropWhile_append_of_pos passed]
  simp [List.takeWhile_append_of_pos read]

theorem takeWhile_append_stop {p : UInt8 → Bool} {b : UInt8} (stops : p b = false) (front rest : Bytes) :
    (front ++ b :: rest).takeWhile p = front.takeWhile p := by
  induction front with
  | nil => exact List.takeWhile_cons_of_neg (by simp [stops])
  | cons a front ih => rw [List.cons_append, List.takeWhile_cons, List.takeWhile_cons, ih]

/-- Nothing behind the next tag belongs to an element. -/
theorem element_append (ends : 62 ∈ tag) (rest : Bytes) : element (tag ++ 60 :: rest) = element tag := by
  obtain ⟨name, behind, rfl, inName⟩ := List.eq_append_cons_of_mem ends
  have passed : ∀ b ∈ name, (b != 62) = true := fun b member => bne_iff_ne.mpr fun is => inName (is ▸ member)
  unfold element
  rw [List.append_assoc, List.takeWhile_append_of_pos passed, List.takeWhile_append_of_pos passed,
    List.dropWhile_append_of_pos passed, List.dropWhile_append_of_pos passed]
  simp [takeWhile_append_stop]

/-- A tag that has ended is read the same whatever is behind it. -/
theorem tag_append (ends : 62 ∈ tag) (rest : Bytes) : (element (tag ++ rest)).tag = (element tag).tag := by
  obtain ⟨name, behind, rfl, inName⟩ := List.eq_append_cons_of_mem ends
  rw [List.append_assoc, List.cons_append, element, element, takeWhile_append_stop (by decide),
    takeWhile_append_stop (by decide)]

end Element

theorem elements_of_no_tag {a : Bytes} (noTag : 60 ∉ a) (rest : Bytes) : elements (a ++ rest) = elements rest := by
  induction a with
  | nil => rfl
  | cons b a ih =>
      obtain ⟨other, others⟩ := not_or.mp (mt List.mem_cons.mpr noTag)
      rw [List.cons_append, elements, if_neg fun opens => other opens.1.symm, ih others]

/-- A tag that closes an element opens none. -/
theorem elements_closing {a : Bytes} (noTag : 60 ∉ a) (rest : Bytes) :
    elements (60 :: 47 :: (a ++ rest)) = elements rest := by
  rw [elements, if_neg fun opens => opens.2 rfl, elements, if_neg fun opens => absurd opens.1 (by decide),
    elements_of_no_tag noTag]

theorem elements_tag {tag text : Bytes} (inTag : TagFree tag) (opens : tag.head? ≠ some 47) (ne_nil : tag ≠ [])
    (noTag : 60 ∉ text) (rest : Bytes) :
    elements (60 :: (tag ++ 62 :: (text ++ 60 :: rest))) =
      ⟨(splitWhere (· == 34) tag).map unescape, unescape text⟩ :: elements (60 :: rest) := by
  have first : (tag ++ 62 :: (text ++ 60 :: rest)).head? = tag.head? := List.head?_append_of_ne_nil _ ne_nil
  have passed : 60 ∉ tag ++ 62 :: text := by simp [inTag.no_start, noTag]
  have others := elements_of_no_tag passed (60 :: rest)
  rw [List.append_assoc, List.cons_append] at others
  rw [elements, if_pos ⟨rfl, first ▸ opens⟩, element_eq inTag.no_end noTag, others]

/-- A text that can stand at the front of a tag that opens an element. -/
structure IsTagName (name : Bytes) : Prop where
  ne_nil : name ≠ []
  opens : name.head? ≠ some 47
  plain : Unmarked name

theorem isTagName_iff {name : Bytes} : IsTagName name ↔ name ≠ [] ∧ name.head? ≠ some 47 ∧ Unmarked name :=
  ⟨fun h => ⟨h.ne_nil, h.opens, h.plain⟩, fun ⟨ne_nil, opens, plain⟩ => ⟨ne_nil, opens, plain⟩⟩

instance (name : Bytes) : Decidable (IsTagName name) := decidable_of_iff' _ isTagName_iff

section Tags

variable {name value text : Bytes}

theorem not_quote {bs : Bytes} (noQuote : 34 ∉ bs) : ∀ b ∈ bs, (b == 34) = false :=
  fun _ member => beq_eq_false_iff_ne.mpr fun is => noQuote (is ▸ member)

theorem elements_plain (isName : IsTagName name) (noTag : 60 ∉ text) (rest : Bytes) :
    elements (60 :: (name ++ 62 :: (text ++ 60 :: rest))) = ⟨[name], unescape text⟩ :: elements (60 :: rest) := by
  rw [elements_tag isName.plain.tagFree isName.opens isName.ne_nil noTag,
    splitWhere_of_clean (not_quote isName.plain.no_quote), List.map_singleton, isName.plain.unescape]

/-- A value without quotes is read whole. -/
theorem elements_valued (isName : IsTagName name) (inValue : TagFree value) (noQuote : 34 ∉ value)
    (noTag : 60 ∉ text) (rest : Bytes) :
    elements (60 :: (name ++ 34 :: (value ++ 34 :: 62 :: (text ++ 60 :: rest)))) =
      ⟨[name, unescape value, []], unescape text⟩ :: elements (60 :: rest) := by
  have quote : TagFree [34] := by decide
  have inTag : TagFree (name ++ 34 :: (value ++ [34])) :=
    isName.plain.tagFree.append (quote.append (inValue.append quote))
  have opens : (name ++ 34 :: (value ++ [34])).head? ≠ some 47 :=
    List.head?_append_of_ne_nil _ isName.ne_nil ▸ isName.opens
  have read := elements_tag inTag opens (List.append_ne_nil_of_left_ne_nil isName.ne_nil _) noTag rest
  rw [splitWhere_append_cons _ (not_quote isName.plain.no_quote) rfl,
    splitWhere_append_cons _ (not_quote noQuote) rfl] at read
  simpa [isName.plain.unescape, splitWhere, unescape] using read

/-- The same for an element that another one opens in at once. -/
theorem elements_valued_nil (isName : IsTagName name) (inValue : TagFree value) (noQuote : 34 ∉ value)
    (rest : Bytes) :
    elements (60 :: (name ++ 34 :: (value ++ 34 :: 62 :: 60 :: rest))) =
      ⟨[name, unescape value, []], []⟩ :: elements (60 :: rest) := by
  have read := elements_valued isName inValue noQuote List.not_mem_nil rest
  rwa [List.nil_append, unescape] at read

end Tags

/-- Every tag that opens in these octets ends in them. -/
def closed : Bytes → Bool
  | [] => true
  | b :: rest => (b != 60 || rest.contains 62) && closed rest

theorem closed_append {a b : Bytes} (first : closed a = true) (second : closed b = true) :
    closed (a ++ b) = true := by
  induction a with
  | nil => exact second
  | cons x a ih =>
      rw [closed, Bool.and_eq_true, Bool.or_eq_true, List.contains_iff_mem] at first
      rw [List.cons_append, closed, Bool.and_eq_true, Bool.or_eq_true, List.contains_iff_mem]
      exact ⟨first.1.imp_right (List.mem_append_left b), ih first.2⟩

/-- A page is read part by part, as far as what is read of an element does not go on in the next part. -/
theorem map_elements_append {α : Type} {f : Element → α} {a b : Bytes} (isClosed : closed a = true)
    (same : ∀ tag, 62 ∈ tag → f (element (tag ++ b)) = f (element tag)) :
    (elements (a ++ b)).map f = (elements a).map f ++ (elements b).map f := by
  induction a with
  | nil => rfl
  | cons x a ih =>
      rw [closed, Bool.and_eq_true, Bool.or_eq_true, List.contains_iff_mem, bne_iff_ne] at isClosed
      obtain ⟨ends, others⟩ := isClosed
      rw [List.cons_append, elements, elements]
      by_cases opens : x = 60
      · have ends : 62 ∈ a := ends.resolve_left (not_not.mpr opens)
        rw [List.head?_append_of_ne_nil _ (List.ne_nil_of_mem ends)]
        split
        · rw [List.map_cons, List.map_cons, same a ends, ih others, List.cons_append]
        · exact ih others
      · rw [if_neg fun is => opens is.1, if_neg fun is => opens is.1, ih others]

theorem elements_append {a : Bytes} (isClosed : closed a = true) (rest : Bytes) :
    elements (a ++ 60 :: rest) = elements a ++ elements (60 :: rest) := by
  have read := map_elements_append (f := id) isClosed fun _ ends => element_append ends rest
  rwa [List.map_id, List.map_id, List.map_id] at read

theorem tags_append {a : Bytes} (isClosed : closed a = true) (b : Bytes) : tags (a ++ b) = tags a ++ tags b :=
  map_elements_append isClosed fun _ ends => tag_append ends b

/-- A tag is read as a name, or as a name with one value. -/
def quoted : List Bytes → Bool
  | [_] => true
  | [_, _, []] => true
  | _ => false

/-- Every tag that opens ends, and has one value at most. -/
def WellTagged (bs : Bytes) : Prop := closed bs = true ∧ ∀ tag ∈ tags bs, quoted tag = true

instance (bs : Bytes) : Decidable (WellTagged bs) :=
  inferInstanceAs (Decidable (closed bs = true ∧ ∀ tag ∈ tags bs, quoted tag = true))

theorem WellTagged.append {a b : Bytes} (first : WellTagged a) (second : WellTagged b) : WellTagged (a ++ b) := by
  refine ⟨closed_append first.1 second.1, ?_⟩
  rw [tags_append first.1]
  intro tag member
  exact (List.mem_append.mp member).elim (first.2 tag) (second.2 tag)

end Docroot.Markup
