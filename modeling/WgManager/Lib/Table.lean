import Mathlib.Data.List.Nodup
import Mathlib.Data.List.Dedup

/-!
# Tables with a primary key

A `Table α` is the content of a database table: a list of rows no two of which have the same
primary key.  The key is a natural number, read off a row by `Keyed.pk`, and the list stands in
the order in which a query without an `ORDER BY` would walk it.

`Table.get` is the lookup by primary key, `Table.select` a `SELECT … WHERE`, and the four ways of
changing a table — `insert`, `modify`, `filter` and `delete` — keep the key unique, so that the
uniqueness never has to be carried as a side condition.  `Table.get_insert`, `get_modify` and
`get_delete` are all a proof about looked-up rows needs; `Table.mem_rows_iff` passes between
looking a row up and finding it in the list.
-/

set_option autoImplicit false

/-- Rows that carry a primary key. -/
class Keyed (α : Type*) where
  /-- The primary key of a row. -/
  pk : α → ℕ

/-- A table: rows with pairwise different primary keys. -/
structure Table (α : Type*) [Keyed α] where
  /-- The rows, in storage order. -/
  rows : List α
  /-- No two rows have the same key. -/
  nodup : (rows.map Keyed.pk).Nodup

namespace Table

variable {α : Type*} [Keyed α]

open Keyed

/-- The table without rows. -/
def empty : Table α := ⟨[], List.nodup_nil⟩

/-- The table with one row. -/
def singleton (r : α) : Table α := ⟨[r], List.nodup_singleton _⟩

/-- The row with primary key `k`. -/
def get (t : Table α) (k : ℕ) : Option α := t.rows.find? fun r ↦ pk r == k

/-- The rows that satisfy `p`, in storage order. -/
def select (t : Table α) (p : α → Bool) : List α := t.rows.filter p

/-- Add a row at the end; a row whose key is taken is not added. -/
def insert (t : Table α) (r : α) : Table α :=
  if h : pk r ∈ t.rows.map pk then t
  else ⟨t.rows ++ [r], by
    rw [List.map_append, List.map_singleton, List.nodup_append]
    refine ⟨t.nodup, List.nodup_singleton _, ?_⟩
    rintro a ha b hb rfl
    exact h (List.mem_singleton.mp hb ▸ ha)⟩

/-- Keep the rows that satisfy `p`. -/
def filter (t : Table α) (p : α → Bool) : Table α :=
  ⟨t.rows.filter p, t.nodup.sublist (List.filter_sublist.map pk)⟩

/-- Remove the row with key `k`. -/
def delete (t : Table α) (k : ℕ) : Table α := t.filter fun r ↦ pk r != k

/-- Change the row with key `k`; the new row has to keep the key. -/
def modify (t : Table α) (k : ℕ) (f : α → α) (hf : ∀ r, pk (f r) = pk r := by intro _; rfl) :
    Table α :=
  ⟨t.rows.map fun r ↦ if pk r = k then f r else r, by
    have hmap : (t.rows.map fun r ↦ if pk r = k then f r else r).map pk = t.rows.map pk := by
      rw [List.map_map]
      refine List.map_congr_left fun r _ ↦ ?_
      simp only [Function.comp_apply]
      split
      · exact hf r
      · rfl
    rw [hmap]
    exact t.nodup⟩

/-! ## Looking rows up -/

theorem pk_of_get {t : Table α} {k : ℕ} {r : α} (h : t.get k = some r) : pk r = k := by
  simpa using List.find?_some h

theorem mem_of_get {t : Table α} {k : ℕ} {r : α} (h : t.get k = some r) : r ∈ t.rows :=
  List.mem_of_find?_eq_some h

/-- Two rows of a table with the same key are the same row. -/
theorem eq_of_pk_eq {t : Table α} {r s : α} (hr : r ∈ t.rows) (hs : s ∈ t.rows)
    (h : pk r = pk s) : r = s :=
  List.inj_on_of_nodup_map t.nodup hr hs h

theorem mem_rows_iff {t : Table α} {r : α} : r ∈ t.rows ↔ t.get (pk r) = some r := by
  refine ⟨fun hr ↦ ?_, mem_of_get⟩
  cases hg : t.get (pk r) with
  | none => exact absurd (List.find?_eq_none.mp hg r hr) (by simp)
  | some s => rw [eq_of_pk_eq (mem_of_get hg) hr (pk_of_get hg)]

theorem get_eq_some_iff {t : Table α} {k : ℕ} {r : α} :
    t.get k = some r ↔ r ∈ t.rows ∧ pk r = k := by
  refine ⟨fun h ↦ ⟨mem_of_get h, pk_of_get h⟩, ?_⟩
  rintro ⟨hr, rfl⟩
  exact mem_rows_iff.mp hr

theorem get_eq_none_iff {t : Table α} {k : ℕ} : t.get k = none ↔ ∀ r ∈ t.rows, pk r ≠ k := by
  rw [get, List.find?_eq_none]
  simp

@[simp] theorem get_empty (k : ℕ) : (empty : Table α).get k = none := rfl

/-- A filtered table finds a row when the table finds it and it passes the filter. -/
theorem get_filter (t : Table α) (p : α → Bool) (k : ℕ) :
    (t.filter p).get k = (t.get k).filter p := by
  apply Option.ext
  intro r
  rw [get_eq_some_iff, Option.filter_eq_some_iff, get_eq_some_iff]
  simp only [filter, List.mem_filter]
  tauto

@[simp] theorem get_delete (t : Table α) (k j : ℕ) :
    (t.delete k).get j = if j = k then none else t.get j := by
  rw [delete, get_filter]
  split
  · next h =>
    subst h
    rw [Option.filter_eq_none_iff]
    intro r hr
    simp [pk_of_get hr]
  · next h =>
    cases hg : t.get j with
    | none => rfl
    | some r => simp [Option.filter_some, pk_of_get hg, h]

@[simp] theorem get_modify (t : Table α) (k j : ℕ) (f : α → α) (hf : ∀ r, pk (f r) = pk r) :
    (t.modify k f hf).get j = if j = k then (t.get j).map f else t.get j := by
  apply Option.ext
  intro r
  have hmem : ∀ s ∈ t.rows, pk (if pk s = k then f s else s) = pk s := by
    intro s _
    split
    · exact hf s
    · rfl
  rw [get_eq_some_iff]
  constructor
  · rintro ⟨hr, rfl⟩
    obtain ⟨s, hs, rfl⟩ := List.mem_map.mp hr
    rw [hmem s hs, mem_rows_iff.mp hs]
    by_cases hk : pk s = k <;> simp [hk]
  · intro h
    split at h
    · next hjk =>
      subst hjk
      obtain ⟨s, hs, rfl⟩ := Option.map_eq_some_iff.mp h
      refine ⟨List.mem_map.mpr ⟨s, mem_of_get hs, by simp [pk_of_get hs]⟩, ?_⟩
      rw [hf, pk_of_get hs]
    · next hjk =>
      refine ⟨List.mem_map.mpr ⟨r, mem_of_get h, ?_⟩, pk_of_get h⟩
      rw [if_neg (by rw [pk_of_get h]; exact hjk)]

/-- A change that changes no row. -/
theorem modify_eq_self {t : Table α} {k : ℕ} {f : α → α} {hf : ∀ r, pk (f r) = pk r}
    (h : ∀ r, f r = r) : t.modify k f hf = t := by
  obtain ⟨rows, nodup⟩ := t
  rw [modify, mk.injEq]
  simp [h]

theorem rows_insert {t : Table α} {r : α} (h : t.get (pk r) = none) :
    (t.insert r).rows = t.rows ++ [r] := by
  have hfree : pk r ∉ t.rows.map pk := by
    rw [List.mem_map]
    rintro ⟨s, hs, hpk⟩
    exact get_eq_none_iff.mp h s hs hpk
  rw [insert, dif_neg hfree]

/-- A row whose key is taken is not added. -/
theorem insert_of_get {t : Table α} {r s : α} (h : t.get (pk r) = some s) : t.insert r = t := by
  have htaken : pk r ∈ t.rows.map pk := List.mem_map.mpr ⟨s, mem_of_get h, pk_of_get h⟩
  rw [insert, dif_pos htaken]

/-- A row with a new key is found under its key, and nothing else changes. -/
theorem get_insert {t : Table α} {r : α} (h : t.get (pk r) = none) (k : ℕ) :
    (t.insert r).get k = if k = pk r then some r else t.get k := by
  rw [get, rows_insert h, List.find?_append, ← get]
  split
  · next hk => subst hk; simp [h]
  · next hk =>
    have hne : (pk r == k) = false := by simpa using Ne.symm hk
    cases t.get k <;> simp [hne]

theorem get_insert_self {t : Table α} {r : α} (h : t.get (pk r) = none) :
    (t.insert r).get (pk r) = some r := by
  rw [get_insert h, if_pos rfl]

theorem get_insert_of_ne {t : Table α} {r : α} {k : ℕ} (h : t.get (pk r) = none) (hk : k ≠ pk r) :
    (t.insert r).get k = t.get k := by
  rw [get_insert h, if_neg hk]

/-- A row that is found after an insertion was there before, or is the new one. -/
theorem get_insert_cases {t : Table α} {r s : α} {k : ℕ} (h : (t.insert r).get k = some s) :
    t.get k = some s ∨ k = pk r ∧ s = r := by
  cases hfree : t.get (pk r) with
  | none =>
    rw [get_insert hfree] at h
    split at h
    · next hk => cases h; exact .inr ⟨hk, rfl⟩
    · exact .inl h
  | some r₀ =>
    rw [insert_of_get hfree] at h
    exact .inl h

/-- A row that is there stays when another one is added. -/
theorem get_insert_of_get {t : Table α} {r s : α} {k : ℕ} (h : t.get k = some s) :
    (t.insert r).get k = some s := by
  cases hfree : t.get (pk r) with
  | none =>
    rw [get_insert hfree, if_neg, h]
    rintro rfl
    rw [hfree] at h
    cases h
  | some r₀ => rw [insert_of_get hfree, h]

theorem mem_insert {t : Table α} {r s : α} (h : s ∈ (t.insert r).rows) : s ∈ t.rows ∨ s = r := by
  rcases get_insert_cases (mem_rows_iff.mp h) with hold | ⟨-, rfl⟩
  · exact .inl (mem_of_get hold)
  · exact .inr rfl

theorem mem_modify {t : Table α} {k : ℕ} {f : α → α} (hf : ∀ r, pk (f r) = pk r) {s : α}
    (h : s ∈ (t.modify k f hf).rows) :
    (s ∈ t.rows ∧ pk s ≠ k) ∨ ∃ r ∈ t.rows, pk r = k ∧ s = f r := by
  obtain ⟨r, hr, rfl⟩ := List.mem_map.mp h
  by_cases hk : pk r = k
  · exact .inr ⟨r, hr, hk, if_pos hk⟩
  · rw [if_neg hk]
    exact .inl ⟨hr, hk⟩

/-! ## Comparing two states of a table -/

/-- The row is changed or deleted on the way from `t` to `t'`. -/
def Touched (t t' : Table α) (r : α) : Prop := r ∈ t.rows ∧ t'.get (pk r) ≠ some r

/-- The row is created on the way from `t` to `t'`. -/
def Created (t t' : Table α) (r : α) : Prop := t.get (pk r) = none ∧ r ∈ t'.rows

section

variable {t t' : Table α} {r : α}

theorem not_touched_self : ¬Touched t t r := by
  rintro ⟨hr, hne⟩
  exact hne (mem_rows_iff.mp hr)

theorem not_created_self : ¬Created t t r := by
  rintro ⟨hnone, hr⟩
  rw [mem_rows_iff.mp hr] at hnone
  cases hnone

/-- A row that a modification touches is the one it is about. -/
theorem get_of_touched_modify {k : ℕ} {f : α → α} {hf : ∀ r, pk (f r) = pk r}
    (h : Touched t (t.modify k f hf) r) : t.get k = some r := by
  obtain ⟨hr, hne⟩ := h
  rw [mem_rows_iff] at hr
  rw [get_modify] at hne
  split at hne
  · next hk => rw [← hk, hr]
  · exact absurd hr hne

theorem not_created_modify {k : ℕ} {f : α → α} {hf : ∀ r, pk (f r) = pk r} :
    ¬Created t (t.modify k f hf) r := by
  rintro ⟨hnone, hr⟩
  rw [mem_rows_iff, get_modify, hnone] at hr
  split at hr <;> cases hr

theorem not_touched_insert {new : α} : ¬Touched t (t.insert new) r := by
  rintro ⟨hr, hne⟩
  rw [mem_rows_iff] at hr
  cases hfree : t.get (pk new) with
  | none =>
    rw [get_insert hfree] at hne
    split at hne
    · next hk =>
      rw [hk, hfree] at hr
      cases hr
    · exact hne hr
  | some r₀ =>
    rw [insert_of_get hfree] at hne
    exact hne hr

theorem eq_of_created_insert {new : α} (h : Created t (t.insert new) r) : r = new := by
  obtain ⟨hnone, hr⟩ := h
  rcases get_insert_cases (mem_rows_iff.mp hr) with hold | ⟨-, rfl⟩
  · rw [hnone] at hold
    cases hold
  · rfl

theorem touched_filter_iff {p : α → Bool} :
    Touched t (t.filter p) r ↔ r ∈ t.rows ∧ p r = false := by
  rw [Touched, and_congr_right_iff]
  intro hr
  rw [get_filter, mem_rows_iff.mp hr, Option.filter_some]
  cases p r <;> simp

theorem not_created_filter {p : α → Bool} : ¬Created t (t.filter p) r := by
  rintro ⟨hnone, hr⟩
  rw [mem_rows_iff, get_filter, hnone] at hr
  cases hr

/-- A modification leaves all rows as they are when it does so with the one it is about. -/
theorem forall_get_modify_iff {k : ℕ} {f : α → α} {hf : ∀ r, pk (f r) = pk r} :
    (∀ j, t.get j = (t.modify k f hf).get j) ↔ ∀ r, t.get k = some r → f r = r := by
  constructor
  · intro h r hr
    have hk := h k
    rw [get_modify, if_pos rfl, hr, Option.map_some, Option.some.injEq] at hk
    exact hk.symm
  · intro h j
    rw [get_modify]
    split
    · next hj =>
      subst hj
      cases hr : t.get j with
      | none => rfl
      | some r => rw [Option.map_some, h r hr]
    · rfl

/-- A deletion leaves all rows as they are when there is nothing to delete. -/
theorem forall_get_delete_iff {k : ℕ} : (∀ j, t.get j = (t.delete k).get j) ↔ t.get k = none := by
  constructor
  · intro h
    rw [h k, get_delete, if_pos rfl]
  · intro h j
    rw [get_delete]
    split
    · next hj => rw [hj, h]
    · rfl

end

end Table
