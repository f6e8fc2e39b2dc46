import Mathlib.Data.List.Sort

/-!
# Pages of an ordered query

A query with an `ORDER BY` gives its rows in some order that the clause allows.  Rows of which
neither comes before the other may stand in either order, and in another one in the next query;
that is why `OrderBy` arranges the rows of each query anew.  When the clause tells any two rows
apart there is one order only (`OrderBy.arrange_eq`), and pages that are cut out of it one after
another make up the whole result (`flatMap_page`).
-/

set_option autoImplicit false

namespace Paging

variable {α : Type*}

/-- `LIMIT limit OFFSET offset`. -/
def page (limit offset : ℕ) (rows : List α) : List α := (rows.drop offset).take limit

theorem flatMap_page (limit : ℕ) (rows : List α) (n : ℕ) :
    (List.range n).flatMap (fun k ↦ page limit (k * limit) rows) = rows.take (n * limit) := by
  induction n with
  | zero => rw [Nat.zero_mul, List.take_zero, List.range_zero, List.flatMap_nil]
  | succ n ih =>
    rw [List.range_succ, List.flatMap_append, ih, List.flatMap_singleton, page, Nat.succ_mul,
      List.take_add]

/-- How a database carries out `ORDER BY`: in each query, no row stands after one that it comes
before. -/
structure OrderBy (before : α → α → Prop) where
  arrange : ℕ → List α → List α
  perm : ∀ query rows, (arrange query rows).Perm rows
  sorted : ∀ query rows, (arrange query rows).Pairwise fun a b ↦ ¬before b a

/-- Of two rows one comes before the other. -/
def TellsApart (before : α → α → Prop) (rows : List α) : Prop :=
  ∀ a ∈ rows, ∀ b ∈ rows, ¬before a b → ¬before b a → a = b

namespace OrderBy

variable {before : α → α → Prop} (sql : OrderBy before) {rows others : List α}

/-- Rows in an order that the clause allows are in the order of every query. -/
theorem arrange_eq (query : ℕ) (h : TellsApart before rows) (hperm : others.Perm rows)
    (hsorted : others.Pairwise fun a b ↦ ¬before b a) : sql.arrange query rows = others := by
  refine List.Perm.eq_of_pairwise (fun a b ha hb hab hba ↦ ?_) (sql.sorted query rows) hsorted
    ((sql.perm query rows).trans hperm.symm)
  exact h a ((sql.perm query rows).mem_iff.mp ha) b (hperm.mem_iff.mp hb) hba hab

end OrderBy

end Paging
