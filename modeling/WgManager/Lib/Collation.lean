import Mathlib.Data.List.Pairwise

/-!
# How a database compares texts

A column of texts has a collation, and with most collations `=` is not equality: texts that differ
in case, or in an accent, are the same to the database, in a `WHERE` as in a unique index.  Which
texts it takes for the same depends on the server and on its settings, so a `Collation` is any
equivalence, and what is proved over an arbitrary one is true of every database.

`Collation.Unique` is what a unique index keeps of its column.  `Collation.Separates` says that the
database takes a text for no other of a list; on such texts it is as good as one that compares them
character by character (`Collation.binary`).
-/

set_option autoImplicit false

/-- How a database compares texts. -/
structure Collation where
  /-- The database takes the texts for the same. -/
  same : String → String → Bool
  refl : ∀ a, same a a = true
  symm : ∀ {a b}, same a b = true → same b a = true
  trans : ∀ {a b c}, same a b = true → same b c = true → same a c = true

namespace Collation

/-- Texts are compared by their keys, as by their forms in lower case. -/
def ofKey {κ : Type} [DecidableEq κ] (key : String → κ) : Collation where
  same a b := key a == key b
  refl _ := beq_self_eq_true _
  symm h := beq_iff_eq.mpr (beq_iff_eq.mp h).symm
  trans h h' := beq_iff_eq.mpr ((beq_iff_eq.mp h).trans (beq_iff_eq.mp h'))

/-- Texts are compared as they are. -/
def binary : Collation := ofKey id

/-- The database takes the text for none of the others. -/
def Separates (coll : Collation) (text : String) (others : List String) : Prop :=
  ∀ other ∈ others, coll.same other text = true → other = text

instance (coll : Collation) (text : String) (others : List String) :
    Decidable (coll.Separates text others) :=
  inferInstanceAs (Decidable (∀ other ∈ others, _))

/-- No two of the texts are the same to the database, as in a column with a unique index. -/
def Unique (coll : Collation) (texts : List String) : Prop :=
  texts.Pairwise fun a b ↦ coll.same a b = false

instance (coll : Collation) (texts : List String) : Decidable (coll.Unique texts) :=
  inferInstanceAs (Decidable (List.Pairwise _ _))

variable {coll : Collation} {a b text : String} {others texts : List String}

theorem same_comm (coll : Collation) (a b : String) : coll.same a b = coll.same b a :=
  Bool.eq_iff_iff.mpr ⟨coll.symm, coll.symm⟩

/-- Texts that a database tells apart are different. -/
theorem ne_of_not_same (h : coll.same a b = false) : a ≠ b := by
  rintro rfl
  rw [coll.refl] at h
  cases h

/-- A third text is the same as both of two that are the same, or as none. -/
theorem same_congr (h : coll.same a b = true) (text : String) :
    coll.same text a = coll.same text b :=
  Bool.eq_iff_iff.mpr ⟨fun ha ↦ coll.trans ha h, fun hb ↦ coll.trans hb (coll.symm h)⟩

/-- The rows of a table are told apart by a column with a unique index. -/
theorem Unique.eq_of_same {α : Type} {column : α → String} {rows : List α}
    (h : coll.Unique (rows.map column)) {r s : α} (hr : r ∈ rows) (hs : s ∈ rows)
    (hsame : coll.same (column r) (column s) = true) : r = s := by
  by_contra hne
  have : Std.Symm fun r s : α ↦ coll.same (column r) (column s) = false :=
    ⟨fun r s h ↦ by rwa [same_comm]⟩
  have hother := (List.pairwise_map.mp h).forall hr hs hne
  rw [hsame] at hother
  cases hother

/-- What the index lets in. -/
theorem unique_append_singleton : coll.Unique (texts ++ [text]) ↔
    coll.Unique texts ∧ ∀ other ∈ texts, coll.same other text = false := by
  rw [Unique, Unique, List.pairwise_append]
  simp

theorem separates_binary (text : String) (others : List String) : binary.Separates text others :=
  fun _ _ h ↦ beq_iff_eq.mp h

end Collation
