import Mathlib.Order.Defs.Unbundled
import Mathlib.Data.List.Infix

/-!
# Commands that change a state and may fail on the way

A command is a program in `EStateM`: it changes a state step by step, and when it fails the state is
what it has made of it so far.  `Command.transaction` takes that back: it runs a command and, when
this fails, returns to the state it has begun with.

Two things are worth saying about a command, and both are put together along its binds.

* `Atomic` — when it fails, the state is as it was.  A transaction is atomic, whatever is in it, and
  what comes before it has to be `ReadOnly`.
* `Within R` — when it completes, `R` holds of the state before and the state after.
-/

set_option autoImplicit false

namespace Command

variable {ε σ α β : Type} {c : EStateM ε σ α} {f : α → EStateM ε σ β}

/-- The state after a command, completed or not. -/
def state : EStateM.Result ε σ α → σ
  | .ok _ s => s
  | .error _ s => s

/-- The command in a transaction: it completes, or it leaves the state as it was. -/
def transaction (c : EStateM ε σ α) : EStateM ε σ α := fun s ↦
  match c s with
  | .ok a s' => .ok a s'
  | .error e _ => .error e s

/-- The command looks at the state only. -/
def ReadOnly (c : EStateM ε σ α) : Prop := ∀ s, state (c s) = s

/-- The command leaves the state as it was when it fails. -/
def Atomic (c : EStateM ε σ α) : Prop := ∀ s e s', c s = .error e s' → s' = s

/-- The command goes from a state to one that `R` allows when it completes. -/
def Within (R : σ → σ → Prop) (c : EStateM ε σ α) : Prop := ∀ s a s', c s = .ok a s' → R s s'

theorem bind_eq_ok {s s' : σ} {b : β} : (c >>= f) s = .ok b s' ↔
    ∃ a s₁, c s = .ok a s₁ ∧ f a s₁ = .ok b s' := by
  change (EStateM.bind c f) s = _ ↔ _
  rw [EStateM.bind]
  cases hc : c s with
  | ok a s₁ => exact ⟨fun h ↦ ⟨a, s₁, rfl, h⟩, by rintro ⟨_, _, ⟨⟩, h⟩; exact h⟩
  | error e s₁ => exact ⟨fun h ↦ (nomatch h), by rintro ⟨_, _, ⟨⟩, _⟩⟩

theorem bind_eq_error {s s' : σ} {e : ε} : (c >>= f) s = .error e s' ↔
    c s = .error e s' ∨ ∃ a s₁, c s = .ok a s₁ ∧ f a s₁ = .error e s' := by
  change (EStateM.bind c f) s = _ ↔ _
  rw [EStateM.bind]
  cases hc : c s with
  | ok a s₁ =>
    refine ⟨fun h ↦ .inr ⟨a, s₁, rfl, h⟩, ?_⟩
    rintro (⟨⟨⟩⟩ | ⟨_, _, ⟨⟩, h⟩)
    exact h
  | error e s₁ =>
    refine ⟨fun h ↦ .inl (by simpa using h), ?_⟩
    rintro (h | ⟨_, _, ⟨⟩, _⟩)
    simpa using h

theorem readOnly_pure (a : α) : ReadOnly (pure a : EStateM ε σ α) := fun _ ↦ rfl

theorem readOnly_throw (e : ε) : ReadOnly (throw e : EStateM ε σ α) := fun _ ↦ rfl

theorem readOnly_get : ReadOnly (get : EStateM ε σ σ) := fun _ ↦ rfl

theorem ReadOnly.state_of_ok (h : ReadOnly c) {s s' : σ} {a : α} (hc : c s = .ok a s') :
    s' = s := by
  have hs := h s
  rwa [hc] at hs

theorem ReadOnly.atomic (h : ReadOnly c) : Atomic c := by
  intro s e s' hc
  have hs := h s
  rwa [hc] at hs

theorem ReadOnly.bind (hc : ReadOnly c) (hf : ∀ a, ReadOnly (f a)) : ReadOnly (c >>= f) := by
  intro s
  cases h : (c >>= f) s with
  | ok b s' =>
    obtain ⟨a, s₁, h₁, h₂⟩ := bind_eq_ok.mp h
    exact ((hf a).state_of_ok h₂).trans (hc.state_of_ok h₁)
  | error e s' =>
    rcases bind_eq_error.mp h with h₁ | ⟨a, s₁, h₁, h₂⟩
    · exact hc.atomic s e s' h₁
    · exact ((hf a).atomic s₁ e s' h₂).trans (hc.state_of_ok h₁)

/-- What is read first does no harm. -/
theorem ReadOnly.bind_atomic (hc : ReadOnly c) (hf : ∀ a, Atomic (f a)) : Atomic (c >>= f) := by
  intro s e s' h
  rcases bind_eq_error.mp h with h₁ | ⟨a, s₁, h₁, h₂⟩
  · exact hc.atomic s e s' h₁
  · exact (hf a s₁ e s' h₂).trans (hc.state_of_ok h₁)

/-- What cannot fail does none afterwards. -/
theorem Atomic.bind_pure (hc : Atomic c) (g : α → β) :
    Atomic (c >>= fun a ↦ (pure (g a) : EStateM ε σ β)) := by
  intro s e s' h
  rcases bind_eq_error.mp h with h₁ | ⟨a, s₁, -, h₂⟩
  · exact hc s e s' h₁
  · cases h₂

/-- **A transaction is atomic.** -/
theorem atomic_transaction (c : EStateM ε σ α) : Atomic (transaction c) := by
  intro s e s' h
  rw [transaction] at h
  split at h
  · cases h
  · cases h
    rfl

theorem transaction_eq_ok {s s' : σ} {a : α} : transaction c s = .ok a s' ↔ c s = .ok a s' := by
  rw [transaction]
  split
  · rename_i h
    rw [h]
  · rename_i h
    rw [h]
    exact ⟨fun h ↦ (nomatch h), fun h ↦ (nomatch h)⟩

section

variable {R : σ → σ → Prop}

theorem within_pure [Std.Refl R] (a : α) : Within R (pure a : EStateM ε σ α) := by
  rintro s _ _ ⟨⟩
  exact refl s

theorem ReadOnly.within [Std.Refl R] (h : ReadOnly c) : Within R c := by
  intro s a s' hc
  rw [h.state_of_ok hc]
  exact refl s

theorem Within.bind [IsTrans σ R] (hc : Within R c) (hf : ∀ a, Within R (f a)) :
    Within R (c >>= f) := by
  intro s b s' h
  obtain ⟨a, s₁, h₁, h₂⟩ := bind_eq_ok.mp h
  exact IsTrans.trans s s₁ s' (hc s a s₁ h₁) (hf a s₁ b s' h₂)

theorem Within.transaction (h : Within R c) : Within R (Command.transaction c) :=
  fun s a s' hc ↦ h s a s' (transaction_eq_ok.mp hc)

end

end Command
