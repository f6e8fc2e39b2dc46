import Mathlib.Data.List.Perm.Basic
import Mathlib.Data.List.Infix

/-!
# Putting concurrent work into an order

A piece of work `i` is a function `f · i` on states, and a list of them, carried out one after the
other from `s₀`, is a fold.  A state is `Passed` by an order when it is one of the states that the
fold goes through.

To show that concurrent work could have been done in some order one builds that order up as the work
finishes.  Work that has an effect goes to the end (`Passed.append`).  Work that had none can be put
at any state in which it has none: nothing that comes later notices (`exists_insert`).  This is what
places work that has looked at an old state, found nothing to do there, and ends long after.
-/

set_option autoImplicit false

namespace Schedule

variable {σ ι : Type*} {f : σ → ι → σ} {s₀ s : σ} {order : List ι} {i : ι}

/-- The order goes through the state `s`. -/
def Passed (f : σ → ι → σ) (s₀ : σ) (order : List ι) (s : σ) : Prop :=
  ∃ pre, pre <+: order ∧ pre.foldl f s₀ = s

theorem passed_self : Passed f s₀ order (order.foldl f s₀) :=
  ⟨order, List.prefix_rfl, rfl⟩

theorem Passed.append (h : Passed f s₀ order s) (i : ι) : Passed f s₀ (order ++ [i]) s := by
  obtain ⟨pre, hpre, hs⟩ := h
  exact ⟨pre, hpre.trans (List.prefix_append _ _), hs⟩

/-- From a state that was passed, some part of the work leads to the end. -/
theorem Passed.exists_rest (h : Passed f s₀ order s) :
    ∃ rest : List ι, rest.foldl f s = order.foldl f s₀ := by
  obtain ⟨pre, ⟨rest, rfl⟩, rfl⟩ := h
  exact ⟨rest, (List.foldl_append).symm⟩

/-- **Work without effect fits in.**  Work that does nothing in a state the order goes through can
be added to the order there: the end and all states on the way stay the same. -/
theorem exists_insert (h : Passed f s₀ order s) (hi : f s i = s) :
    ∃ order', order'.Perm (i :: order) ∧ order'.foldl f s₀ = order.foldl f s₀ ∧
      ∀ s', Passed f s₀ order s' → Passed f s₀ order' s' := by
  obtain ⟨pre, ⟨rest, rfl⟩, rfl⟩ := h
  refine ⟨pre ++ i :: rest, List.perm_middle, ?_, ?_⟩
  · rw [List.foldl_append, List.foldl_cons, hi, List.foldl_append]
  · rintro s' ⟨pre', hpre', rfl⟩
    rcases List.prefix_or_prefix_of_prefix hpre' (List.prefix_append pre rest) with hle | ⟨q, rfl⟩
    · exact ⟨pre', hle.trans (List.prefix_append _ _), rfl⟩
    · -- past the new work: it goes into the prefix as well
      have hq : q <+: rest := (List.prefix_append_right_inj pre).mp hpre'
      refine ⟨pre ++ i :: q, ?_, ?_⟩
      · rw [List.prefix_append_right_inj, List.cons_prefix_cons]
        exact ⟨rfl, hq⟩
      · rw [List.foldl_append, List.foldl_cons, hi, List.foldl_append]

end Schedule
