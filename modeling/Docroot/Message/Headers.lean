import Docroot.Bytes

/-!
Header fields: a list of names and values in the order of first arrival, in which a later value for a
name takes the place of the earlier one. Names are stored as they came; `find?` compares them up to
ASCII case. Fields are kept in a table that gives them back in an order of its own, so a search that meets
several fields of one name takes whichever comes first there.
-/
namespace Docroot

/-- Named values in the order in which the names first came. -/
abbrev Headers := List (Bytes × Bytes)

namespace Headers

/-- Gives `name` the value `value`, in its old place if it has one. -/
def set (name value : Bytes) : Headers → Headers
  | [] => [(name, value)]
  | field :: rest =>
    if field.1 = name then (name, value) :: rest else field :: set name value rest

def ofList (fields : List (Bytes × Bytes)) : Headers :=
  fields.foldl (fun headers field => headers.set field.1 field.2) []

/-- The value stored under exactly this name. -/
def get? (headers : Headers) (name : Bytes) : Option Bytes :=
  (List.find? (fun field => field.1 == name) headers).map Prod.snd

/-- The fields whose name is `name` up to ASCII case. -/
def named (headers : Headers) (name : Bytes) : Headers :=
  List.filter (fun field => Bytes.sameIgnoringCase field.1 name) headers

/-- The order in which tables of headers give their fields back: every field once, but which comes first is
a matter of chance. -/
structure Order where
  arrange : Headers → Headers
  perm : ∀ headers, (arrange headers).Perm headers

/-- Fields come back as they arrived. -/
def Order.arrival : Order := ⟨id, fun _ => .refl _⟩

/-- The value of the first field, in an order, whose name is `name` up to ASCII case. -/
def find? (headers : Headers) (order : Order) (name : Bytes) : Option Bytes :=
  (((order.arrange headers).named name).head?).map Prod.snd

def names (headers : Headers) : List Bytes := List.map Prod.fst headers

theorem names_set (name value : Bytes) (headers : Headers) :
    (headers.set name value).names =
      if name ∈ headers.names then headers.names else headers.names ++ [name] := by
  induction headers with
  | nil => simp [set, names]
  | cons field rest ih =>
    simp only [names] at ih
    by_cases h : field.1 = name
    · simp [set, names, h]
    · have h' : name ≠ field.1 := fun e => h e.symm
      by_cases hm : name ∈ List.map Prod.fst rest <;> simp_all [set, names]

theorem nodup_set (name value : Bytes) {headers : Headers} (h : headers.names.Nodup) :
    (headers.set name value).names.Nodup := by
  rw [names_set]
  split
  · exact h
  · next hn =>
    rw [List.nodup_append]
    exact ⟨h, by simp, fun a ha b hb => by simp at hb; subst hb; exact fun e => hn (e ▸ ha)⟩

theorem get?_set_self (name value : Bytes) (headers : Headers) :
    (headers.set name value).get? name = some value := by
  induction headers with
  | nil => simp [set, get?]
  | cons field rest ih =>
    by_cases h : field.1 = name
    · simp [set, get?, h]
    · simp only [get?] at ih
      simp [set, get?, h, ih]

theorem get?_set_ne {name other : Bytes} (value : Bytes) (headers : Headers) (hne : other ≠ name) :
    (headers.set name value).get? other = headers.get? other := by
  induction headers with
  | nil => simp [set, get?, Ne.symm hne]
  | cons field rest ih =>
    simp only [get?] at ih
    by_cases h : field.1 = name
    · subst h
      simp [set, get?, Ne.symm hne]
    · by_cases ho : field.1 = other <;> simp [set, get?, h, ho, hne, ih]

end Headers

end Docroot
