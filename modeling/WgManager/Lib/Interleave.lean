import Mathlib.Logic.Function.Basic
import Mathlib.Data.List.Basic

/-!
# Runs, and processes that interleave over a shared state

A system is given by a partial step function `step : σ → α → Option σ`: in a state, an action
either is impossible or leads to exactly one state.  Everything that is not determined — which
process moves, whether a call fails, what a lock wait answers — is part of the action, so a list
of actions is one interleaving, and `Run.run` replays it.

Two rules carry almost every proof about such a system.

* `Run.run_invariant` — an invariant that every step preserves holds at the end of every run.  It
  is stated for runs all of whose steps meet a condition `ok`, because the interesting statement is
  often "this holds along every run in which *that* never happens"; `Run.Meets` says so, and
  `Run.run_invariant'` is the unconditional case.
* `Config.inv_step` — when the system is a family of processes over one shared state, an invariant
  splits into one assertion `I` on the shared state and one local assertion `J` for each process,
  and a step has to be looked at twice only: once for the process that takes it, and once for what
  it does to the assertion of a process that does not.

A third rule is about conservation: something that has to be *somewhere* — on a queue, say, or in
the hands of some process — is `Config.Held`, and `Config.held_step` reduces "a step does not lose
it" to the process that moves.

Nothing here knows what the processes do.
-/

set_option autoImplicit false

/-! ## Runs of a partial step function -/

namespace Run

variable {σ α : Type*} (step : σ → α → Option σ)

/-- The state a list of actions leads to, if each of them is possible in its turn. -/
def run : σ → List α → Option σ
  | s, [] => some s
  | s, a :: as => (step s a).bind fun s' ↦ run s' as

@[simp] theorem run_nil (s : σ) : run step s [] = some s := rfl

theorem run_cons_eq_some {s t : σ} {a : α} {as : List α} :
    run step s (a :: as) = some t ↔ ∃ s', step s a = some s' ∧ run step s' as = some t := by
  rw [run, Option.bind_eq_some_iff]

theorem run_append_eq_some {s t : σ} {as bs : List α} :
    run step s (as ++ bs) = some t ↔ ∃ m, run step s as = some m ∧ run step m bs = some t := by
  induction as generalizing s with
  | nil => simp
  | cons a as ih =>
    simp only [List.cons_append, run_cons_eq_some, ih]
    constructor
    · rintro ⟨s', hs, m, hm, ht⟩
      exact ⟨m, ⟨s', hs, hm⟩, ht⟩
    · rintro ⟨m, ⟨s', hs, hm⟩, ht⟩
      exact ⟨s', hs, m, hm, ht⟩

/-- Every step of the run that `as` describes is taken in a state in which `ok` allows it. -/
def Meets (ok : σ → α → Prop) : σ → List α → Prop
  | _, [] => True
  | s, a :: as => ok s a ∧ ∀ s', step s a = some s' → Meets ok s' as

instance decidableMeets (ok : σ → α → Prop) [∀ s a, Decidable (ok s a)] :
    ∀ s as, Decidable (Meets step ok s as)
  | _, [] => isTrue trivial
  | s, a :: as =>
    have : ∀ s', Decidable (Meets step ok s' as) := fun s' ↦ decidableMeets ok s' as
    inferInstanceAs (Decidable (ok s a ∧ ∀ s' ∈ step s a, Meets step ok s' as))

variable {step}

/-- **The invariant rule**, for runs whose steps all meet `ok`. -/
theorem run_invariant {ok : σ → α → Prop} {I : σ → Prop}
    (hstep : ∀ s a s', I s → ok s a → step s a = some s' → I s') {s t : σ} {as : List α}
    (hs : I s) (hok : Meets step ok s as) (h : run step s as = some t) : I t := by
  induction as generalizing s with
  | nil => cases h; exact hs
  | cons a as ih =>
    obtain ⟨s', hs', ht⟩ := (run_cons_eq_some step).mp h
    exact ih (hstep s a s' hs hok.1 hs') (hok.2 s' hs') ht

theorem Meets.and {ok ok' : σ → α → Prop} {s : σ} {as : List α} (h : Meets step ok s as)
    (h' : Meets step ok' s as) : Meets step (fun s a ↦ ok s a ∧ ok' s a) s as := by
  induction as generalizing s with
  | nil => trivial
  | cons a as ih => exact ⟨⟨h.1, h'.1⟩, fun s' hs' ↦ ih (h.2 s' hs') (h'.2 s' hs')⟩

theorem Meets.mono {ok ok' : σ → α → Prop} (hle : ∀ s a, ok s a → ok' s a) {s : σ} {as : List α}
    (h : Meets step ok s as) : Meets step ok' s as := by
  induction as generalizing s with
  | nil => trivial
  | cons a as ih => exact ⟨hle s a h.1, fun s' hs' ↦ ih (h.2 s' hs')⟩

/-- What is left of a run meets what the whole run meets. -/
theorem Meets.of_append {ok : σ → α → Prop} {s t : σ} {as bs : List α}
    (h : Meets step ok s (as ++ bs)) (hrun : run step s as = some t) : Meets step ok t bs := by
  induction as generalizing s with
  | nil => cases hrun; exact h
  | cons a as ih =>
    obtain ⟨s', hs', ht⟩ := (run_cons_eq_some step).mp hrun
    exact ih (h.2 s' hs') ht

theorem Meets.left_of_append {ok : σ → α → Prop} {s : σ} {as bs : List α}
    (h : Meets step ok s (as ++ bs)) : Meets step ok s as := by
  induction as generalizing s with
  | nil => trivial
  | cons a as ih => exact ⟨h.1, fun s' hs' ↦ ih (h.2 s' hs')⟩

theorem meets_true (s : σ) (as : List α) : Meets step (fun _ _ ↦ True) s as := by
  induction as generalizing s with
  | nil => trivial
  | cons a as ih => exact ⟨trivial, fun s' _ ↦ ih s'⟩

/-- The invariant rule for all runs. -/
theorem run_invariant' {I : σ → Prop} (hstep : ∀ s a s', I s → step s a = some s' → I s')
    {s t : σ} {as : List α} (hs : I s) (h : run step s as = some t) : I t :=
  run_invariant (fun s a s' hI _ ↦ hstep s a s' hI) hs (meets_true s as) h

end Run

/-! ## Processes over a shared state -/

/-- A state of a system of processes: what they share, and the local state of each.  `none` stands
for a process that has not started or is gone. -/
structure Config (γ π : Type*) where
  /-- What all processes see. -/
  shared : γ
  /-- The local state of each process. -/
  proc : ℕ → Option π

namespace Config

variable {γ π α : Type*} (f : ℕ → γ → Option π → α → Option (γ × Option π))

/-- Process `e.1` takes action `e.2`: it may change the shared state and its own local state, and
nothing else. -/
def step (c : Config γ π) (e : ℕ × α) : Option (Config γ π) :=
  (f e.1 c.shared (c.proc e.1) e.2).map fun r ↦ ⟨r.1, Function.update c.proc e.1 r.2⟩

variable {f}

theorem step_eq_some {c c' : Config γ π} {e : ℕ × α} :
    step f c e = some c' ↔ ∃ g' p', f e.1 c.shared (c.proc e.1) e.2 = some (g', p') ∧
      c' = ⟨g', Function.update c.proc e.1 p'⟩ := by
  rw [step, Option.map_eq_some_iff]
  constructor
  · rintro ⟨⟨g', p'⟩, hf, rfl⟩
    exact ⟨g', p', hf, rfl⟩
  · rintro ⟨g', p', hf, rfl⟩
    exact ⟨(g', p'), hf, rfl⟩

/-- A process that takes no step is as it was. -/
theorem proc_of_run {c c' : Config γ π} {es : List (ℕ × α)} (h : Run.run (step f) c es = some c')
    {i : ℕ} (hi : i ∉ es.map Prod.fst) : c'.proc i = c.proc i := by
  induction es generalizing c with
  | nil => cases h; rfl
  | cons e es ih =>
    obtain ⟨c₁, h₁, hrun⟩ := (Run.run_cons_eq_some _).mp h
    rw [List.map_cons, List.mem_cons, not_or] at hi
    obtain ⟨g', p', -, rfl⟩ := step_eq_some.mp h₁
    rw [ih hrun hi.2]
    exact Function.update_of_ne hi.1 _ _

/-- **The rule for termination.**  When every step of a process makes its rank smaller, the process
takes no more steps than its rank. -/
theorem count_le_rank {K : Config γ π → Prop} {rank : Option π → ℕ}
    (hstep : ∀ c e c', K c → step f c e = some c' → K c' ∧ rank (c'.proc e.1) < rank (c.proc e.1))
    {c c' : Config γ π} {es : List (ℕ × α)} (hc : K c) (h : Run.run (step f) c es = some c')
    (i : ℕ) : (es.map Prod.fst).count i ≤ rank (c.proc i) := by
  induction es generalizing c with
  | nil => exact Nat.zero_le _
  | cons e es ih =>
    obtain ⟨c₁, h₁, hrun⟩ := (Run.run_cons_eq_some _).mp h
    obtain ⟨hc₁, hrank⟩ := hstep c e c₁ hc h₁
    have hrest := ih hc₁ hrun
    rw [List.map_cons, List.count_cons]
    by_cases hi : e.1 = i
    · subst hi
      simp only [beq_self_eq_true, if_true]
      omega
    · obtain ⟨g', p', -, rfl⟩ := step_eq_some.mp h₁
      simpa [hi, Function.update_of_ne (Ne.symm hi)] using hrest

/-- An invariant in two parts: `I` of the shared state, and `J` of each running process. -/
structure Inv (I : γ → Prop) (J : ℕ → γ → π → Prop) (c : Config γ π) : Prop where
  /-- The shared part. -/
  shared : I c.shared
  /-- The part of each process. -/
  proc : ∀ i q, c.proc i = some q → J i c.shared q

/-- **The rule for interleaved processes.**  The process that moves has to keep the shared part and
its own, and the assertions of all other processes have to survive its step. -/
theorem inv_step {I : γ → Prop} {J : ℕ → γ → π → Prop} {c c' : Config γ π} {e : ℕ × α}
    (hc : Inv I J c) (h : step f c e = some c')
    (move : ∀ g' p', f e.1 c.shared (c.proc e.1) e.2 = some (g', p') →
      I g' ∧ (∀ q, p' = some q → J e.1 g' q) ∧
        ∀ j q, j ≠ e.1 → J j c.shared q → J j g' q) : Inv I J c' := by
  obtain ⟨g', p', hf, rfl⟩ := step_eq_some.mp h
  obtain ⟨hshared, hown, hother⟩ := move g' p' hf
  refine ⟨hshared, fun j q hq ↦ ?_⟩
  by_cases hj : j = e.1
  · subst hj
    exact hown q (by simpa using hq)
  · exact hother j q hj (hc.proc j q (by simpa [Function.update_of_ne hj] using hq))

/-- The shared state satisfies `Q`, or some process satisfies `P`. -/
def Held (Q : γ → Prop) (P : π → Prop) (c : Config γ π) : Prop :=
  Q c.shared ∨ ∃ i q, c.proc i = some q ∧ P q

/-- **The rule for conservation.**  What is held stays held, or a step reaches `X`, when the process
that moves does not lose it on the way: what it or the shared state had before, it or the shared
state has afterwards. -/
theorem held_step {Q : γ → Prop} {P : π → Prop} {X : γ → Prop} {c c' : Config γ π}
    {e : ℕ × α} (hc : Held Q P c) (h : step f c e = some c')
    (move : ∀ g' p', f e.1 c.shared (c.proc e.1) e.2 = some (g', p') →
      (Q c.shared ∨ ∃ q, c.proc e.1 = some q ∧ P q) →
      Q g' ∨ (∃ q, p' = some q ∧ P q) ∨ X g') :
    Held Q P c' ∨ X c'.shared := by
  obtain ⟨g', p', hf, rfl⟩ := step_eq_some.mp h
  have hmove (hown : Q c.shared ∨ ∃ q, c.proc e.1 = some q ∧ P q) :
      Held Q P ⟨g', Function.update c.proc e.1 p'⟩ ∨ X g' := by
    rcases move g' p' hf hown with hQ | ⟨q, hq, hP⟩ | hX
    · exact .inl (.inl hQ)
    · exact .inl (.inr ⟨e.1, q, by simpa using hq, hP⟩)
    · exact .inr hX
  rcases hc with hQ | ⟨i, q, hq, hP⟩
  · exact hmove (.inl hQ)
  · by_cases hi : i = e.1
    · subst hi
      exact hmove (.inr ⟨q, hq, hP⟩)
    · exact .inl (.inr ⟨i, q, by simpa [Function.update_of_ne hi] using hq, hP⟩)

end Config
