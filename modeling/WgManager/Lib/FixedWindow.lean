import Mathlib.Data.Int.Notation
import Mathlib.Data.List.Basic
import Mathlib.Data.Option.Basic
import Mathlib.Order.Lattice

/-!
# Fixed-window counters

A limiter counts events per key in windows of a fixed length.  The first event opens a window, the
following ones are counted in it, and once its end is reached the count starts again.  `hit` counts
an event and `peek` does not.

A `Limiter` is any implementation: a state, what a call answers and leaves behind, and the window
that is open for a key at a time.  The laws it carries say that it does with its windows what
`Call.after` and `Call.answer` say.  They fix all answers, so two limiters that begin without
windows answer alike (`answers_eq`), and they say when windows open and how long they last
(`windowLaw`).

The keys are arbitrary, and so is the clock; a length is a whole number of its units.
-/

set_option autoImplicit false

namespace FixedWindow

/-- A window: how many events it has seen, and when it ends.  An event has opened it. -/
structure Window (τ : Type*) where
  count : ℕ
  resetAt : τ
  count_pos : 0 < count
  deriving DecidableEq

/-- The outcome of a call.  `allowed` is whether a counted event is within the limit, or whether
another one would be. -/
structure Decision where
  allowed : Bool
  count : ℕ
  retryAfter : ℤ
  deriving DecidableEq

inductive Kind
  | hit
  | peek
  deriving DecidableEq

/-- A call: what is to be done, for which key, with which limit and length of a window, and when. -/
structure Call (κ τ : Type*) where
  kind : Kind
  key : κ
  limit : ℤ
  length : ℤ
  now : τ

section

variable {κ τ : Type*} [LinearOrder τ]

/-- The window, if it has not ended. -/
def current (w : Option (Window τ)) (now : τ) : Option (Window τ) :=
  w.filter fun w ↦ now < w.resetAt

theorem current_eq_some_iff {w : Option (Window τ)} {now : τ} {w' : Window τ} :
    current w now = some w' ↔ w = some w' ∧ now < w'.resetAt := by
  rw [current, Option.filter_eq_some_iff, decide_eq_true_iff]

theorem current_some_of_lt {w : Window τ} {now : τ} (h : now < w.resetAt) :
    current (some w) now = some w := current_eq_some_iff.mpr ⟨rfl, h⟩

@[simp] theorem current_none (now : τ) : current (none : Option (Window τ)) now = none := rfl

/-- What has ended stays so. -/
theorem current_current {w : Option (Window τ)} {now later : τ} (h : now ≤ later) :
    current (current w now) later = current w later := by
  apply Option.ext
  intro w'
  rw [current_eq_some_iff, current_eq_some_iff, current_eq_some_iff]
  constructor
  · rintro ⟨⟨hw, -⟩, hlater⟩
    exact ⟨hw, hlater⟩
  · rintro ⟨hw, hlater⟩
    exact ⟨⟨hw, lt_of_le_of_lt h hlater⟩, hlater⟩

variable [Add τ] [IntCast τ]

/-- The window in which an event is counted: the one that is open, or a new one. -/
def next (w : Option (Window τ)) (now : τ) (length : ℤ) : Window τ :=
  match w with
  | none => ⟨1, now + (length : τ), Nat.one_pos⟩
  | some w => ⟨w.count + 1, w.resetAt, Nat.succ_pos _⟩

/-- The answer to an event that is counted in the window. -/
def hitAnswer (limit : ℤ) (w : Window τ) : Bool × ℕ := (w.count ≤ limit, w.count)

/-- The answer to a look at the window. -/
def peekAnswer (limit : ℤ) (w : Option (Window τ)) : Bool × ℕ :=
  match w with
  | none => (true, 0)
  | some w => (w.count < limit, w.count)

namespace Call

/-- The window that is open after the call. -/
def after (c : Call κ τ) (w : Option (Window τ)) : Option (Window τ) :=
  match c.kind with
  | .hit => current (some (next w c.now c.length)) c.now
  | .peek => w

/-- What the call answers: whether it is allowed, and the count. -/
def answer (c : Call κ τ) (w : Option (Window τ)) : Bool × ℕ :=
  match c.kind with
  | .hit => hitAnswer c.limit (next w c.now c.length)
  | .peek => peekAnswer c.limit w

/-- The call is an event of the key. -/
def Hits (c : Call κ τ) (key : κ) : Prop := c.kind = .hit ∧ c.key = key

instance [DecidableEq κ] (c : Call κ τ) (key : κ) : Decidable (c.Hits key) :=
  inferInstanceAs (Decidable (c.kind = .hit ∧ c.key = key))

end Call

end

/-- What a decision says apart from the time to wait. -/
def Decision.answer (d : Decision) : Bool × ℕ := (d.allowed, d.count)

/-- An implementation. -/
structure Limiter (σ κ τ : Type*) [DecidableEq κ] [LinearOrder τ] [Add τ] [IntCast τ] where
  /-- A call, in a state. -/
  call : σ → Call κ τ → Decision × σ
  /-- The window of a key that is open at a time. -/
  openWindow : σ → τ → κ → Option (Window τ)
  /-- Time does nothing but end windows. -/
  openWindow_later : ∀ {s now later key}, now ≤ later →
    openWindow s later key = current (openWindow s now key) later
  /-- What is decided depends on the window that is open. -/
  decision : Call κ τ → Option (Window τ) → Decision
  call_fst : ∀ s c, (call s c).1 = decision c (openWindow s c.now c.key)
  answer_decision : ∀ c w, (decision c w).answer = c.answer w
  openWindow_call : ∀ s c key, openWindow (call s c).2 c.now key =
    if key = c.key then c.after (openWindow s c.now c.key) else openWindow s c.now key

/-- The times of the calls do not decrease. -/
def InOrder {κ τ : Type*} [LinearOrder τ] (calls : List (Call κ τ)) : Prop :=
  calls.Pairwise fun c d ↦ c.now ≤ d.now

theorem inOrder_append_singleton {κ τ : Type*} [LinearOrder τ] {calls : List (Call κ τ)}
    {d : Call κ τ} (h : InOrder (calls ++ [d])) : InOrder calls ∧ ∀ e ∈ calls, e.now ≤ d.now := by
  obtain ⟨hcalls, -, hlast⟩ := List.pairwise_append.mp h
  exact ⟨hcalls, fun e he ↦ hlast e he d (List.mem_singleton_self d)⟩

/-- How many of the calls are events of the key. -/
def hitCount {κ τ : Type*} [DecidableEq κ] (key : κ) (calls : List (Call κ τ)) : ℕ :=
  calls.countP fun c ↦ c.Hits key

theorem hitCount_cons {κ τ : Type*} [DecidableEq κ] (key : κ) (c : Call κ τ)
    (calls : List (Call κ τ)) :
    hitCount key (c :: calls) = hitCount key calls + if c.Hits key then 1 else 0 := by
  simp [hitCount, List.countP_cons]

namespace Limiter

variable {σ ρ κ τ : Type*} [DecidableEq κ] [LinearOrder τ] [Add τ] [IntCast τ]

/-- The state after some calls. -/
def after (L : Limiter σ κ τ) (s : σ) : List (Call κ τ) → σ
  | [] => s
  | c :: calls => L.after (L.call s c).2 calls

/-- The decisions on a sequence of calls. -/
def decisions (L : Limiter σ κ τ) (s : σ) : List (Call κ τ) → List Decision
  | [] => []
  | c :: calls => (L.call s c).1 :: L.decisions (L.call s c).2 calls

theorem answer_call (L : Limiter σ κ τ) (s : σ) (c : Call κ τ) :
    (L.call s c).1.answer = c.answer (L.openWindow s c.now c.key) := by
  rw [L.call_fst, L.answer_decision]

theorem after_append (L : Limiter σ κ τ) (s : σ) (before calls : List (Call κ τ)) :
    L.after s (before ++ calls) = L.after (L.after s before) calls := by
  induction before generalizing s with
  | nil => rfl
  | cons c before ih => exact ih _

/-- **Two limiters that have the same windows answer alike.** -/
theorem answers_eq (L : Limiter σ κ τ) (M : Limiter ρ κ τ) {s : σ} {m : ρ} {calls : List (Call κ τ)}
    (hcalls : InOrder calls)
    (hsame : ∀ c ∈ calls, ∀ key, L.openWindow s c.now key = M.openWindow m c.now key) :
    (L.decisions s calls).map Decision.answer = (M.decisions m calls).map Decision.answer := by
  induction calls generalizing s m with
  | nil => rfl
  | cons c calls ih =>
    obtain ⟨hlater, hrest⟩ := List.pairwise_cons.mp hcalls
    have hnow := hsame c List.mem_cons_self
    have hanswer : (L.call s c).1.answer = (M.call m c).1.answer := by
      rw [L.answer_call, M.answer_call, hnow]
    -- the windows agree right after the call, and so at every later time
    have hcall : ∀ key, L.openWindow (L.call s c).2 c.now key =
        M.openWindow (M.call m c).2 c.now key := by
      intro key
      rw [L.openWindow_call, M.openWindow_call, hnow, hnow]
    rw [decisions, decisions, List.map_cons, List.map_cons, hanswer, ih hrest]
    intro d hd key
    rw [L.openWindow_later (hlater d hd), M.openWindow_later (hlater d hd), hcall]

/-! ## When windows open, and how long they last -/

variable {L : Limiter σ κ τ} {s : σ} {c d : Call κ τ} {calls : List (Call κ τ)}

/-- A call that is no event of a key does nothing to its window but let it end. -/
theorem openWindow_of_not_hits {key : κ} {now : τ} (h : ¬c.Hits key) (hnow : now ≤ c.now) :
    L.openWindow (L.call s c).2 c.now key = current (L.openWindow s now key) c.now := by
  rw [L.openWindow_call, ← L.openWindow_later hnow]
  split
  · next hkey =>
    rw [Call.after]
    split
    · next hkind => exact absurd ⟨hkind, hkey.symm⟩ h
    · rw [hkey]
  · rfl

theorem openWindow_of_hits {key : κ} (h : c.Hits key) :
    L.openWindow (L.call s c).2 c.now key =
      current (some (next (L.openWindow s c.now key) c.now c.length)) c.now := by
  obtain ⟨hkind, rfl⟩ := h
  rw [L.openWindow_call, if_pos rfl, Call.after, hkind]

/-- The count that a call answers, when there is no window. -/
theorem count_of_none (h : L.openWindow s d.now d.key = none) :
    (L.call s d).1.count = if d.kind = .hit then 1 else 0 := by
  have hanswer := congrArg Prod.snd (L.answer_call s d)
  rw [h, Call.answer] at hanswer
  rw [show (L.call s d).1.count = _ from hanswer]
  cases d.kind <;> rfl

theorem count_of_some {w : Window τ} (h : L.openWindow s d.now d.key = some w) :
    (L.call s d).1.count = w.count + if d.kind = .hit then 1 else 0 := by
  have hanswer := congrArg Prod.snd (L.answer_call s d)
  rw [h, Call.answer] at hanswer
  rw [show (L.call s d).1.count = _ from hanswer]
  cases d.kind <;> rfl

/-- Without an event there is no window. -/
theorem openWindow_of_no_hit {key : κ} {now : τ} (hnone : ∀ t, L.openWindow s t key = none)
    (hcalls : InOrder calls) (hnow : ∀ e ∈ calls, e.now ≤ now) (hno : ∀ e ∈ calls, ¬e.Hits key) :
    L.openWindow (L.after s calls) now key = none := by
  have hstart : ∀ t, (∀ e ∈ calls, t ≤ e.now) → t ≤ now → L.openWindow s t key = none →
      L.openWindow (L.after s calls) now key = none := by
    clear hnone
    induction calls generalizing s with
    | nil =>
      intro t _ ht h
      rw [after, L.openWindow_later ht, h, current_none]
    | cons e calls ih =>
      intro t hle _ h
      obtain ⟨hlater, hrest⟩ := List.pairwise_cons.mp hcalls
      refine ih hrest (fun f hf ↦ hnow f (List.mem_cons_of_mem e hf))
        (fun f hf ↦ hno f (List.mem_cons_of_mem e hf)) e.now hlater (hnow e List.mem_cons_self) ?_
      rw [openWindow_of_not_hits (hno e List.mem_cons_self) (hle e List.mem_cons_self), h,
        current_none]
  cases calls with
  | nil => exact hnone now
  | cons e calls =>
    refine hstart e.now ?_ (hnow e List.mem_cons_self) (hnone e.now)
    intro f hf
    rcases List.mem_cons.mp hf with rfl | hf
    · exact le_refl _
    · exact (List.pairwise_cons.mp hcalls).1 f hf

/-- While the end of a window is not reached it stays open, and counts the events of its key. -/
theorem openWindow_in_window {key : κ} {t now : τ} {w : Window τ}
    (hopen : L.openWindow s t key = some w) (hcalls : InOrder calls)
    (hfrom : ∀ e ∈ calls, t ≤ e.now) (hto : ∀ e ∈ calls, e.now ≤ now) (ht : t ≤ now)
    (hend : now < w.resetAt) :
    ∃ v, L.openWindow (L.after s calls) now key = some v ∧
      v.count = w.count + hitCount key calls ∧ v.resetAt = w.resetAt := by
  induction calls generalizing s t w with
  | nil =>
    refine ⟨w, ?_, rfl, rfl⟩
    rw [after, L.openWindow_later ht, hopen]
    exact current_some_of_lt hend
  | cons e calls ih =>
    obtain ⟨hlater, hrest⟩ := List.pairwise_cons.mp hcalls
    have hte := hfrom e List.mem_cons_self
    have hen := hto e List.mem_cons_self
    have hto' : ∀ f ∈ calls, f.now ≤ now := fun f hf ↦ hto f (List.mem_cons_of_mem e hf)
    have hew : e.now < w.resetAt := lt_of_le_of_lt hen hend
    rw [hitCount_cons, after]
    by_cases hhits : e.Hits key
    · have hcall : L.openWindow (L.call s e).2 e.now key =
          some ⟨w.count + 1, w.resetAt, Nat.succ_pos _⟩ := by
        rw [openWindow_of_hits hhits, L.openWindow_later hte, hopen, current_some_of_lt hew]
        exact current_some_of_lt hew
      obtain ⟨v, hv, hcount, hreset⟩ := ih hcall hrest hlater hto' hen hend
      refine ⟨v, hv, ?_, hreset⟩
      rw [hcount, if_pos hhits, Nat.add_right_comm, Nat.add_assoc]
    · have hcall : L.openWindow (L.call s e).2 e.now key = some w := by
        rw [openWindow_of_not_hits hhits hte, hopen, current_some_of_lt hew]
      obtain ⟨v, hv, hcount, hreset⟩ := ih hcall hrest hlater hto' hen hend
      refine ⟨v, hv, ?_, hreset⟩
      rw [hcount, if_neg hhits, Nat.add_zero]

/-- No event before the end of a window moves the end, so that the window is over once it is
reached. -/
theorem openWindow_after_window {key : κ} {t now r : τ} {w : Option (Window τ)}
    (hopen : L.openWindow s t key = w) (hend : ∀ v ∈ w, v.resetAt = r) (hlive : t < r → w.isSome)
    (hcalls : InOrder calls) (hfrom : ∀ e ∈ calls, t ≤ e.now) (hto : ∀ e ∈ calls, e.now ≤ now)
    (ht : t ≤ now) (hr : r ≤ now) (hbefore : ∀ e ∈ calls, e.Hits key → e.now < r) :
    L.openWindow (L.after s calls) now key = none := by
  induction calls generalizing s t w with
  | nil =>
    rw [after, L.openWindow_later ht, hopen, current, Option.filter_eq_none_iff]
    intro v hv
    rw [decide_eq_true_iff, hend v hv]
    exact not_lt_of_ge hr
  | cons e calls ih =>
    obtain ⟨hlater, hrest⟩ := List.pairwise_cons.mp hcalls
    have hte := hfrom e List.mem_cons_self
    refine ih rfl ?_ ?_ hrest hlater (fun f hf ↦ hto f (List.mem_cons_of_mem e hf))
      (hto e List.mem_cons_self) fun f hf ↦ hbefore f (List.mem_cons_of_mem e hf)
    · intro v hv
      by_cases hhits : e.Hits key
      · -- the event finds the window open
        have her := hbefore e List.mem_cons_self hhits
        obtain ⟨u, rfl⟩ := Option.isSome_iff_exists.mp (hlive (lt_of_le_of_lt hte her))
        have hu : u.resetAt = r := hend u rfl
        rw [openWindow_of_hits hhits, L.openWindow_later hte, hopen,
          current_some_of_lt (w := u) (hu ▸ her), Option.mem_def, current_eq_some_iff] at hv
        rw [← Option.some.inj hv.1]
        exact hu
      · rw [openWindow_of_not_hits hhits hte, hopen, Option.mem_def, current_eq_some_iff] at hv
        exact hend v hv.1
    · intro her
      obtain ⟨u, rfl⟩ := Option.isSome_iff_exists.mp (hlive (lt_of_le_of_lt hte her))
      have hu : u.resetAt = r := hend u rfl
      by_cases hhits : e.Hits key
      · rw [openWindow_of_hits hhits, L.openWindow_later hte, hopen,
          current_some_of_lt (w := u) (hu ▸ her)]
        exact Option.isSome_of_eq_some (current_some_of_lt (show e.now < u.resetAt from hu ▸ her))
      · rw [openWindow_of_not_hits hhits hte, hopen, current_some_of_lt (hu ▸ her)]
        rfl

/-- When the windows of a limiter open and end: an event that finds no window opens one of the
length it asks for, and the events until its end are counted in it and do not move the end. -/
structure WindowLaw (L : Limiter σ κ τ) (s : σ) : Prop where
  /-- The first event of a key opens a window. -/
  first : ∀ calls d, InOrder (calls ++ [d]) → (∀ e ∈ calls, ¬e.Hits d.key) →
    (L.call (L.after s calls) d).1.count = if d.kind = .hit then 1 else 0
  /-- Until it ends, all events are counted in the window that `c` has opened. -/
  during : ∀ before c between d, InOrder (before ++ c :: between ++ [d]) → c.Hits d.key →
    (L.call (L.after s before) c).1.count = 1 → d.now < c.now + (c.length : τ) →
    (L.call (L.after s (before ++ c :: between)) d).1.count =
      1 + hitCount d.key between + if d.kind = .hit then 1 else 0
  /-- Once it has ended, the next event opens another one. -/
  again : ∀ before c between d, InOrder (before ++ c :: between ++ [d]) → c.Hits d.key →
    (L.call (L.after s before) c).1.count = 1 → c.now + (c.length : τ) ≤ d.now →
    (∀ e ∈ between, e.Hits d.key → e.now < c.now + (c.length : τ)) →
    (L.call (L.after s (before ++ c :: between)) d).1.count = if d.kind = .hit then 1 else 0

/-- An event that is counted as the first has found no window. -/
theorem openWindow_of_count_one (hkind : c.kind = .hit) (h : (L.call s c).1.count = 1) :
    L.openWindow s c.now c.key = none := by
  cases hopen : L.openWindow s c.now c.key with
  | none => rfl
  | some w =>
    rw [count_of_some hopen, if_pos hkind] at h
    have hpos := w.count_pos
    omega

/-- **The windows of every limiter** that begins without any. -/
theorem windowLaw (hnone : ∀ now key, L.openWindow s now key = none) : WindowLaw L s where
  first := by
    intro calls d hin hno
    obtain ⟨hcalls, hle⟩ := inOrder_append_singleton hin
    exact count_of_none (openWindow_of_no_hit (fun t ↦ hnone t d.key) hcalls hle hno)
  during := by
    intro before c between d hin hc hone hd
    obtain ⟨hcalls, hle⟩ := inOrder_append_singleton hin
    obtain ⟨-, hrest, -⟩ := List.pairwise_append.mp hcalls
    obtain ⟨hlater, hbetween⟩ := List.pairwise_cons.mp hrest
    obtain ⟨hkind, hkey⟩ := hc
    have hcd : c.now ≤ d.now := hle c (List.mem_append_right _ List.mem_cons_self)
    have hopened : L.openWindow (L.call (L.after s before) c).2 c.now d.key =
        some ⟨1, c.now + (c.length : τ), Nat.one_pos⟩ := by
      rw [openWindow_of_hits ⟨hkind, hkey⟩, ← hkey, openWindow_of_count_one hkind hone]
      exact current_some_of_lt (lt_of_le_of_lt hcd hd)
    obtain ⟨v, hv, hcount, -⟩ := openWindow_in_window hopened hbetween hlater
      (fun e he ↦ hle e (List.mem_append_right _ (List.mem_cons_of_mem c he))) hcd hd
    rw [L.after_append, after, count_of_some hv, hcount]
  again := by
    intro before c between d hin hc hone hd hbefore
    obtain ⟨hcalls, hle⟩ := inOrder_append_singleton hin
    obtain ⟨-, hrest, -⟩ := List.pairwise_append.mp hcalls
    obtain ⟨hlater, hbetween⟩ := List.pairwise_cons.mp hrest
    obtain ⟨hkind, hkey⟩ := hc
    have hopened : L.openWindow (L.call (L.after s before) c).2 c.now d.key =
        current (some ⟨1, c.now + (c.length : τ), Nat.one_pos⟩) c.now := by
      rw [openWindow_of_hits ⟨hkind, hkey⟩, ← hkey, openWindow_of_count_one hkind hone]
      rfl
    rw [L.after_append, after]
    refine count_of_none (openWindow_after_window hopened ?_ ?_ hbetween hlater ?_ ?_ hd hbefore)
    · intro v hv
      rw [Option.mem_def, current_eq_some_iff] at hv
      rw [← Option.some.inj hv.1]
    · intro hlt
      exact Option.isSome_of_eq_some (current_some_of_lt hlt)
    · intro e he
      exact hle e (List.mem_append_right _ (List.mem_cons_of_mem c he))
    · exact hle c (List.mem_append_right _ List.mem_cons_self)

end Limiter

end FixedWindow
