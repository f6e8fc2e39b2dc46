import WgManager.Lib.Interleave

/-!
# What is done exactly once

Something falls due, from then on one process has it in hand, and in the end it is done.  `Once`
says where matters stand: it is not due, or one process has it in hand, or it has been done once.

`once_step` is the rule: a step leaves all this as it is, or it makes the thing due and its process
takes it in hand, or the process that has it in hand does it.
-/

set_option autoImplicit false

namespace Config

variable {γ π α : Type*} {f : ℕ → γ → Option π → α → Option (γ × Option π)} {done : γ → ℕ}
  {due : γ → Prop} {holds : π → Prop} {c c' : Config γ π} {e : ℕ × α}

/-- Nothing has been done that is not due, and what is due is in the hands of one process or has
been done once. -/
inductive Once (done : γ → ℕ) (due : γ → Prop) (holds : π → Prop) (c : Config γ π) : Prop
  | idle (hdue : ¬due c.shared) (hdone : done c.shared = 0)
      (hnone : ∀ j q, c.proc j = some q → ¬holds q)
  | pending (i : ℕ) (hdue : due c.shared) (hdone : done c.shared = 0)
      (hheld : ∃ q ∈ c.proc i, holds q) (halone : ∀ j q, j ≠ i → c.proc j = some q → ¬holds q)
  | finished (hdue : due c.shared) (hdone : done c.shared = 1)
      (hnone : ∀ j q, c.proc j = some q → ¬holds q)

/-- What a step of a process can do about it. -/
inductive OnceMove (done : γ → ℕ) (due : γ → Prop) (holds : π → Prop) (g : γ) (p : Option π)
    (g' : γ)
    (p' : Option π) : Prop
  | quiet (hdone : done g' = done g) (hdue : due g' ↔ due g)
      (hheld : (∃ q ∈ p', holds q) ↔ ∃ q ∈ p, holds q)
  | begins (hdone : done g' = done g) (hbefore : ¬due g) (hdue : due g') (hheld : ∃ q ∈ p', holds q)
  | discharges (hdone : done g' = done g + 1) (hdue : due g' ↔ due g) (hbefore : ∃ q ∈ p, holds q)
      (hheld : ¬∃ q ∈ p', holds q)

/-- The processes that do not move hold what they held. -/
theorem not_holds_update {p' : Option π} {i : ℕ} (hown : ¬∃ q ∈ p', holds q)
    (hothers : ∀ j q, j ≠ i → c.proc j = some q → ¬holds q) {j : ℕ} {q : π}
    (hq : Function.update c.proc i p' j = some q) : ¬holds q := by
  by_cases hj : j = i
  · subst hj
    rw [Function.update_self] at hq
    exact fun hholds ↦ hown ⟨q, hq, hholds⟩
  · rw [Function.update_of_ne hj] at hq
    exact hothers j q hj hq

/-- **The rule for what is done once.** -/
theorem once_step (hc : Once done due holds c) (h : step f c e = some c')
    (move : ∀ g' p', f e.1 c.shared (c.proc e.1) e.2 = some (g', p') →
      OnceMove done due holds c.shared (c.proc e.1) g' p') : Once done due holds c' := by
  obtain ⟨g', p', hf, rfl⟩ := step_eq_some.mp h
  have hmove := move g' p' hf
  rcases hc with ⟨hdue, hdone, hnone⟩ | ⟨i, hdue, hdone, ⟨q, hq, hholds⟩, halone⟩ |
    ⟨hdue, hdone, hnone⟩
  · have hfree : ¬∃ q ∈ c.proc e.1, holds q := fun ⟨q, hq, hholds⟩ ↦ hnone e.1 q hq hholds
    rcases hmove with ⟨hdone', hdue', hheld⟩ | ⟨hdone', -, hdue', hheld⟩ | ⟨-, -, hbefore, -⟩
    · refine .idle (fun h ↦ hdue (hdue'.mp h)) (hdone'.trans hdone) fun j q hq ↦ ?_
      exact not_holds_update (fun h ↦ hfree (hheld.mp h)) (fun j q _ hq ↦ hnone j q hq) hq
    · refine .pending e.1 hdue' (hdone'.trans hdone) ?_ ?_
      · simp only [Function.update_self]
        exact hheld
      · intro j q hj hq
        simp only [Function.update_of_ne hj] at hq
        exact hnone j q hq
    · exact absurd hbefore hfree
  · by_cases hi : i = e.1
    · subst hi
      rcases hmove with ⟨hdone', hdue', hheld⟩ | ⟨-, hbefore, -, -⟩ | ⟨hdone', hdue', -, hheld⟩
      · refine .pending e.1 (hdue'.mpr hdue) (hdone'.trans hdone) ?_ ?_
        · simp only [Function.update_self]
          exact hheld.mpr ⟨q, hq, hholds⟩
        · intro j p hj hp
          simp only [Function.update_of_ne hj] at hp
          exact halone j p hj hp
      · exact absurd hdue hbefore
      · refine .finished (hdue'.mpr hdue) (by rw [hdone', hdone]) fun j p hp ↦ ?_
        exact not_holds_update hheld halone hp
    · have hfree : ¬∃ p ∈ c.proc e.1, holds p := fun ⟨p, hp, hp'⟩ ↦
        halone e.1 p (Ne.symm hi) hp hp'
      rcases hmove with ⟨hdone', hdue', hheld⟩ | ⟨-, hbefore, -, -⟩ | ⟨-, -, hbefore, -⟩
      · refine .pending i (hdue'.mpr hdue) (hdone'.trans hdone) ?_ ?_
        · simp only [Function.update_of_ne hi]
          exact ⟨q, hq, hholds⟩
        · intro j p hj hp
          by_cases hje : j = e.1
          · subst hje
            simp only [Function.update_self] at hp
            exact fun hp' ↦ hfree (hheld.mp ⟨p, hp, hp'⟩)
          · simp only [Function.update_of_ne hje] at hp
            exact halone j p hj hp
      · exact absurd hdue hbefore
      · exact absurd hbefore hfree
  · have hfree : ¬∃ q ∈ c.proc e.1, holds q := fun ⟨q, hq, hholds⟩ ↦ hnone e.1 q hq hholds
    rcases hmove with ⟨hdone', hdue', hheld⟩ | ⟨-, hbefore, -, -⟩ | ⟨-, -, hbefore, -⟩
    · refine .finished (hdue'.mpr hdue) (hdone'.trans hdone) fun j q hq ↦ ?_
      exact not_holds_update (fun h ↦ hfree (hheld.mp h)) (fun j q _ hq ↦ hnone j q hq) hq
    · exact absurd hdue hbefore
    · exact absurd hbefore hfree

end Config
