import Mathlib.Data.List.Infix
import Mathlib.Data.Rat.Defs

/-!
# JSON documents, as Python sees them

What `json.loads` returns, and what Python's `in`, `[]`, `for` and `bool` do with it.  They do not
look at the type first: `in` is about the keys of an object, the items of an array and the
substrings of a string, and only on the rest is it an error.  `none` is a `TypeError` or a
`KeyError`.

`sortKeys` is what a document looks like after it was written with sorted keys and read again.  It
makes no difference to a look-up (`getItem_sortKeys`), as long as no object has a key twice.
-/

set_option autoImplicit false

/-- A JSON document.  The value of a `float` is missing when it is not a number or not finite. -/
inductive Json
  | null
  | bool (b : Bool)
  | int (n : ℤ)
  | float (value : Option ℚ)
  | str (s : String)
  | arr (items : List Json)
  | obj (fields : List (String × Json))

namespace Json

/-- `j.get(key)`, which only an object has. -/
def get? : Json → String → Option (Option Json)
  | obj fields, key => some (fields.lookup key)
  | _, _ => none

/-- `j[key]`, for a text. -/
def getItem : Json → String → Option Json
  | obj fields, key => fields.lookup key
  | _, _ => none

def isStr (key : String) : Json → Bool
  | str s => s == key
  | _ => false

/-- `key in j`, for a text. -/
def contains : Json → String → Option Bool
  | obj fields, key => some (fields.lookup key).isSome
  | arr items, key => some (items.any (isStr key))
  | str s, key => some (decide (key.toList <:+: s.toList))
  | _, _ => none

/-- What `for item in j` goes through. -/
def iter : Json → Option (List Json)
  | obj fields => some (fields.map fun field ↦ str field.1)
  | arr items => some items
  | str s => some (s.toList.map fun c ↦ str c.toString)
  | _ => none

/-- `bool(j)`. -/
def truthy : Json → Bool
  | null => false
  | bool b => b
  | int n => n != 0
  | float value => value != some 0
  | str s => s != ""
  | arr items => !items.isEmpty
  | obj fields => !fields.isEmpty

/-- `j == n`: the truth values are the numbers 0 and 1, and a float may be an integer. -/
def eqInt (n : ℤ) : Json → Bool
  | bool b => (if b then 1 else 0) == n
  | int m => m == n
  | float value => value == some (n : ℚ)
  | _ => false

/-! ## Look-ups -/

/-- Fields that are made from a list by different keys are found again. -/
theorem lookup_map_of_nodup {α β : Type*} {key : α → String} {f : α → β} {l : List α} {a : α}
    (h : (l.map key).Nodup) (ha : a ∈ l) :
    (l.map fun a ↦ (key a, f a)).lookup (key a) = some (f a) := by
  induction l with
  | nil => cases ha
  | cons b rest ih =>
    rw [List.map_cons, List.nodup_cons] at h
    rw [List.map_cons, List.lookup_cons]
    rcases List.mem_cons.mp ha with rfl | ha
    · rw [beq_self_eq_true]
    · have hne : key a ≠ key b := fun heq ↦ h.1 (heq ▸ List.mem_map_of_mem ha)
      rw [beq_false_of_ne hne]
      exact ih h.2 ha

/-! ## Sorted keys -/

/-- Fields in the order of their keys. -/
def insertKey (field : String × Json) : List (String × Json) → List (String × Json)
  | [] => [field]
  | other :: rest =>
    if field.1 ≤ other.1 then field :: other :: rest else other :: insertKey field rest

mutual

/-- The document with the keys of every object sorted. -/
def sortKeys : Json → Json
  | arr items => arr (sortItems items)
  | obj fields => obj (sortFields fields)
  | null => null
  | bool b => bool b
  | int n => int n
  | float value => float value
  | str s => str s

def sortItems : List Json → List Json
  | [] => []
  | item :: items => sortKeys item :: sortItems items

def sortFields : List (String × Json) → List (String × Json)
  | [] => []
  | (key, value) :: fields => insertKey (key, sortKeys value) (sortFields fields)

end

section

variable {field : String × Json} {fields : List (String × Json)} {items : List Json} {key : String}

theorem mem_insertKey {other : String × Json} :
    other ∈ insertKey field fields ↔ other = field ∨ other ∈ fields := by
  induction fields with
  | nil => simp [insertKey]
  | cons first rest ih =>
    rw [insertKey]
    split
    · exact List.mem_cons
    · rw [List.mem_cons, ih, List.mem_cons]
      tauto

/-- Where a new key is inserted makes no difference to a look-up. -/
theorem lookup_insertKey (hnew : field.1 ∉ fields.map Prod.fst) :
    (insertKey field fields).lookup key = (field :: fields).lookup key := by
  induction fields with
  | nil => rfl
  | cons first rest ih =>
    rw [insertKey]
    split
    · rfl
    · rw [List.map_cons, List.mem_cons, not_or] at hnew
      rw [List.lookup_cons, ih hnew.2, List.lookup_cons, List.lookup_cons, List.lookup_cons]
      by_cases hfirst : key = first.1
      · have hfield : (key == field.1) = false := beq_false_of_ne (hfirst ▸ Ne.symm hnew.1)
        rw [hfield]
      · rw [beq_false_of_ne hfirst]

theorem mem_keys_sortFields :
    key ∈ (sortFields fields).map Prod.fst ↔ key ∈ fields.map Prod.fst := by
  induction fields with
  | nil => rw [sortFields]
  | cons field rest ih =>
    rw [sortFields, List.map_cons, List.mem_cons, ← ih]
    simp only [List.mem_map, mem_insertKey]
    constructor
    · rintro ⟨other, rfl | hother, rfl⟩
      · exact .inl rfl
      · exact .inr ⟨other, hother, rfl⟩
    · rintro (rfl | ⟨other, hother, rfl⟩)
      · exact ⟨_, .inl rfl, rfl⟩
      · exact ⟨other, .inr hother, rfl⟩

theorem lookup_sortFields (h : (fields.map Prod.fst).Nodup) :
    (sortFields fields).lookup key = (fields.lookup key).map sortKeys := by
  induction fields with
  | nil => rw [sortFields]; rfl
  | cons field rest ih =>
    rw [List.map_cons, List.nodup_cons] at h
    have hnew : (field.1, sortKeys field.2).1 ∉ (sortFields rest).map Prod.fst :=
      fun hmem ↦ h.1 (mem_keys_sortFields.mp hmem)
    rw [sortFields, lookup_insertKey hnew, List.lookup_cons, ih h.2, List.lookup_cons]
    split <;> rfl

/-- **A look-up in a document with sorted keys.** -/
theorem getItem_sortKeys (h : (fields.map Prod.fst).Nodup) :
    (sortKeys (obj fields)).getItem key = (fields.lookup key).map sortKeys := by
  rw [sortKeys]
  exact lookup_sortFields h

theorem contains_sortKeys (h : (fields.map Prod.fst).Nodup) :
    (sortKeys (obj fields)).contains key = some (fields.lookup key).isSome := by
  rw [sortKeys, contains, lookup_sortFields h, Option.isSome_map]

theorem get?_sortKeys (h : (fields.map Prod.fst).Nodup) :
    (sortKeys (obj fields)).get? key = some ((fields.lookup key).map sortKeys) := by
  rw [sortKeys, get?, lookup_sortFields h]

theorem sortItems_eq_map : sortItems items = items.map sortKeys := by
  induction items with
  | nil => rw [sortItems]; rfl
  | cons item rest ih => rw [sortItems, ih]; rfl

theorem iter_sortKeys : (sortKeys (arr items)).iter = some (items.map sortKeys) := by
  rw [sortKeys, iter, sortItems_eq_map]

end

end Json
