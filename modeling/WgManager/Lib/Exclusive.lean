import WgManager.Lib.Interleave
import Mathlib.Data.Option.Basic

/-!
# Reading first and writing later, one at a time

Processes that look at a part of the shared state, and later write to it what is right only if that
part is still as they saw it.  Nothing makes them look again, so two of them that overlap write on
top of each other; but if none of them begins to rely on what it has seen while another one does,
what each of them saw is what it finds.

`view` is the part they look at, and `holds` says what a process has seen of it and still relies on.
`Exclusive` is the invariant, and `exclusive_step` is the rule that keeps it: the part is changed
only by a process that relies on it, and a process begins to rely on it only when it is `Alone`.

What makes a process alone is often a lock.  `Locked` says that whoever has a lock is on record as
its holder, and `locked_step` keeps it through steps that take free locks and give back their own
(`LockMove`); so next to a lock that is free nobody has it.
-/

set_option autoImplicit false

namespace Config

variable {γ π α κ : Type*} {f : ℕ → γ → Option π → α → Option (γ × Option π)}
  {view : γ → κ} {holds : π → Option κ} {c c' : Config γ π} {e : ℕ × α} {i : ℕ} {q : π} {v : κ}

/-- No process other than `i` relies on what it has seen. -/
def Alone (holds : π → Option κ) (c : Config γ π) (i : ℕ) : Prop :=
  ∀ j q, j ≠ i → c.proc j = some q → holds q = none

/-- Whoever relies on what it has seen is alone with that, and has seen what is there. -/
def Exclusive (view : γ → κ) (holds : π → Option κ) (c : Config γ π) : Prop :=
  ∀ i q v, c.proc i = some q → holds q = some v → v = view c.shared ∧ Alone holds c i

theorem exclusive_of_idle (h : ∀ i q, c.proc i = some q → holds q = none) :
    Exclusive view holds c := by
  intro i q v hq hv
  rw [h i q hq] at hv
  cases hv

/-- Next to a process that relies on what it has seen, nobody else does. -/
theorem Exclusive.eq_of_holds (hc : Exclusive view holds c) (hq : c.proc i = some q)
    (hv : holds q = some v) {j : ℕ} {p : π} {w : κ} (hp : c.proc j = some p)
    (hw : holds p = some w) : j = i := by
  by_contra hne
  have hnone := (hc i q v hq hv).2 j p hne hp
  rw [hw] at hnone
  cases hnone

/-- **The rule for reading first and writing later.**  The part is changed only by a process that
relies on it, and what a process relies on afterwards is what is there then: either it has relied on
it before, or it begins to and is alone. -/
theorem exclusive_step (hc : Exclusive view holds c) (h : step f c e = some c')
    (change : ∀ g' p', f e.1 c.shared (c.proc e.1) e.2 = some (g', p') →
      view g' = view c.shared ∨ ∃ q v, c.proc e.1 = some q ∧ holds q = some v)
    (own : ∀ g' q' v, f e.1 c.shared (c.proc e.1) e.2 = some (g', some q') → holds q' = some v →
      v = view g' ∧ ((∃ q w, c.proc e.1 = some q ∧ holds q = some w) ∨ Alone holds c e.1)) :
    Exclusive view holds c' := by
  obtain ⟨g', p', hf, rfl⟩ := step_eq_some.mp h
  intro i q v hq hv
  by_cases hi : i = e.1
  · subst hi
    simp only [Function.update_self] at hq
    subst hq
    obtain ⟨hview, hbefore⟩ := own g' q v hf hv
    refine ⟨hview, fun j p hj hp ↦ ?_⟩
    simp only [Function.update_of_ne hj] at hp
    rcases hbefore with ⟨q₀, w, hq₀, hw⟩ | halone
    · exact (hc e.1 q₀ w hq₀ hw).2 j p hj hp
    · exact halone j p hj hp
  · simp only [Function.update_of_ne hi] at hq
    obtain ⟨hview, halone⟩ := hc i q v hq hv
    -- the process that moves relies on nothing, because `i` does
    have hidle : ∀ q₀ w, c.proc e.1 = some q₀ → holds q₀ ≠ some w := fun q₀ w hq₀ hw ↦
      hi (hc.eq_of_holds hq₀ hw hq hv)
    refine ⟨?_, fun j p hj hp ↦ ?_⟩
    · rcases change g' p' hf with hsame | ⟨q₀, w, hq₀, hw⟩
      · rw [hsame]
        exact hview
      · exact absurd hw (hidle q₀ w hq₀)
    · by_cases hje : j = e.1
      · subst hje
        simp only [Function.update_self] at hp
        subst hp
        by_contra hholds
        obtain ⟨w, hw⟩ := Option.ne_none_iff_exists'.mp hholds
        rcases (own g' p w hf hw).2 with ⟨q₀, w₀, hq₀, hw₀⟩ | halone'
        · exact hidle q₀ w₀ hq₀ hw₀
        · have hnone := halone' i q hi hq
          rw [hv] at hnone
          cases hnone
      · simp only [Function.update_of_ne hje] at hp
        exact halone j p hj hp

/-! ## Locks -/

/-- What process `i`, which has the lock `has`, may do to the record of the holders: it takes a free
lock, or gives back its own. -/
inductive LockMove (i : ℕ) (rows : ℕ → Option ℕ) (has : Option ℕ) :
    (ℕ → Option ℕ) → Option ℕ → Prop
  | keep : LockMove i rows has rows has
  | idle : LockMove i rows has rows none
  | take {k : ℕ} (free : rows k = none) :
      LockMove i rows has (Function.update rows k (some i)) (some k)
  | release {k : ℕ} (own : has = some k) :
      LockMove i rows has (Function.update rows k none) none

section

variable {rows rows' : ℕ → Option ℕ} {has has' : Option ℕ} {k : ℕ}

/-- What the process has afterwards is on record. -/
theorem LockMove.own (h : LockMove i rows has rows' has')
    (hhas : ∀ k, has = some k → rows k = some i) (hk : has' = some k) : rows' k = some i := by
  cases h with
  | keep => exact hhas k hk
  | idle => cases hk
  | take free =>
    cases hk
    exact Function.update_self ..
  | release own => cases hk

/-- The locks of others stay as they are. -/
theorem LockMove.other (h : LockMove i rows has rows' has')
    (hhas : ∀ k, has = some k → rows k = some i) {j : ℕ} (hj : j ≠ i) (hk : rows k = some j) :
    rows' k = some j := by
  cases h with
  | keep | idle => exact hk
  | take free =>
    rw [Function.update_of_ne, hk]
    rintro rfl
    rw [hk] at free
    cases free
  | release own =>
    rw [Function.update_of_ne, hk]
    rintro rfl
    rw [hhas k own, Option.some.injEq] at hk
    exact hj hk.symm

end

/-- Whoever has a lock is on record as its holder. -/
def Locked (holder : γ → ℕ → Option ℕ) (lock : π → Option ℕ) (c : Config γ π) : Prop :=
  ∀ i k, (c.proc i).bind lock = some k → holder c.shared k = some i

section

variable {holder : γ → ℕ → Option ℕ} {lock : π → Option ℕ} {k : ℕ}

theorem locked_of_idle (h : ∀ i q, c.proc i = some q → lock q = none) : Locked holder lock c := by
  intro i k hk
  obtain ⟨q, hq, hlock⟩ := Option.bind_eq_some_iff.mp hk
  rw [h i q hq] at hlock
  cases hlock

/-- Nobody has a lock that is free. -/
theorem Locked.ne_of_free (hc : Locked holder lock c) (hfree : holder c.shared k = none)
    (hq : c.proc i = some q) : lock q ≠ some k := by
  intro hlock
  rw [hc i k (by rw [hq, Option.bind_some, hlock])] at hfree
  cases hfree

/-- **The rule for locks.** -/
theorem locked_step (hc : Locked holder lock c) (h : step f c e = some c')
    (move : ∀ g' p', f e.1 c.shared (c.proc e.1) e.2 = some (g', p') →
      LockMove e.1 (holder c.shared) ((c.proc e.1).bind lock) (holder g') (p'.bind lock)) :
    Locked holder lock c' := by
  obtain ⟨g', p', hf, rfl⟩ := step_eq_some.mp h
  have hmove := move g' p' hf
  intro i k hk
  by_cases hi : i = e.1
  · subst hi
    simp only [Function.update_self] at hk
    exact hmove.own (hc e.1) hk
  · simp only [Function.update_of_ne hi] at hk
    exact hmove.other (hc e.1) hi (hc i k hk)

end

end Config
