import Mathlib.Algebra.Order.Round
import Mathlib.Tactic.Linarith
import WgManager.RateLimit

/-!
# How long to wait

A refused caller is told in `retry_after` how long to wait: "whole seconds until the window resets
(at least 1 while a window is open, 0 if there's no window yet)".  `MemoryLimiter` rounds the time
that is left.  `RedisLimiter` is given the time that is left already rounded, by `TTL`, and takes a
zero for a key without an expiry: in the last half second of a window it answers with the length of
a whole one (`retry_after_tells_the_time`, `retry_after_near_the_end`).
-/

set_option autoImplicit false

namespace WgManager

open FixedWindow

/-- At least a second, and the time that is left give or take a second. -/
def Near (retryAfter : ℤ) (left : ℚ) : Prop := 1 ≤ retryAfter ∧ |(retryAfter : ℚ) - left| ≤ 1

/-- What `retry_after` has to say about a call: how much is left of the window that is open, and for
a look at a key without a window, nothing. -/
structure TellsTime {σ : Type*} (L : Limiter σ String ℚ) (s : σ) (c : LimiterCall) : Prop where
  near : ∀ w, L.openWindow (L.call s c).2 c.now c.key = some w →
    Near (L.call s c).1.retryAfter (w.resetAt - c.now)
  zero : c.kind = .peek → L.openWindow s c.now c.key = none → (L.call s c).1.retryAfter = 0

/-! ## Rounding -/

theorem abs_pyRound_sub_le (x : ℚ) : |(pyRound x : ℚ) - x| ≤ 1 / 2 := by
  have hlow := Int.floor_le x
  rw [pyRound, abs_le]
  split
  · constructor <;> linarith
  · split
    · have hhigh := Int.lt_floor_add_one x
      push_cast
      constructor <;> linarith
    · split
      · constructor <;> linarith
      · push_cast
        constructor <;> linarith

/-- A second is near enough to what is rounded to less. -/
theorem abs_max_one_sub_le {n : ℤ} {x : ℚ} (hx : 0 < x) (h : |(n : ℚ) - x| ≤ 1 / 2) :
    |((max 1 n : ℤ) : ℚ) - x| ≤ 1 := by
  rw [abs_le] at h ⊢
  rcases le_total n 1 with hle | hge
  · have hcast : (n : ℚ) ≤ 1 := by exact_mod_cast hle
    rw [max_eq_left hle]
    push_cast
    constructor <;> linarith
  · rw [max_eq_right hge]
    constructor <;> linarith

/-- What `MemoryLimiter` answers while a window is open. -/
theorem memory_retryAfter {resetAt now : ℚ} (h : now < resetAt) :
    Near (MemoryLimiter.retryAfter resetAt now) (resetAt - now) :=
  ⟨le_max_left _ _, abs_max_one_sub_le (sub_pos.mpr h) (abs_pyRound_sub_le _)⟩

/-- What `RedisLimiter` answers while a window is open: the truth, unless the `TTL` is zero and the
window that is asked for is longer than a second. -/
theorem redis_retryAfter_iff {resetAt now : ℚ} {window : ℤ} (h : now < resetAt)
    (hwindow : 0 < window) :
    Near (RedisLimiter.retryAfter ⌊resetAt - now + 1 / 2⌋ window) (resetAt - now) ↔
      (resetAt - now < 1 / 2 → window = 1) := by
  have hleft : 0 < resetAt - now := sub_pos.mpr h
  generalize resetAt - now = left at hleft
  rw [RedisLimiter.retryAfter, Near]
  by_cases hshort : left < 1 / 2
  · have httl : ⌊left + 1 / 2⌋ = 0 := by
      rw [Int.floor_eq_zero_iff, Set.mem_Ico]
      constructor <;> linarith
    rw [httl, if_neg (lt_irrefl 0), abs_le]
    constructor
    · rintro ⟨-, -, hhigh⟩ -
      have hlt : (window : ℚ) < 2 := by linarith
      have hlt' : window < 2 := by exact_mod_cast hlt
      omega
    · intro hone
      rw [hone hshort, Int.cast_one]
      refine ⟨le_rfl, ?_, ?_⟩ <;> linarith
  · have hlow := Int.floor_le (left + 1 / 2)
    have hhigh := Int.lt_floor_add_one (left + 1 / 2)
    have hpos : 0 < ⌊left + 1 / 2⌋ := by
      rw [Int.floor_pos]
      linarith
    rw [if_pos hpos]
    refine iff_of_true ⟨le_max_left _ _, abs_max_one_sub_le hleft ?_⟩ fun hlt ↦ absurd hlt hshort
    rw [abs_le]
    constructor <;> linarith

/-! ## Calls -/

section

variable {σ : Type*} {L : Limiter σ String ℚ} {s : σ} {c : LimiterCall} {w : Window ℚ}

theorem lt_resetAt_of_open {now : ℚ} {key : String} (h : L.openWindow s now key = some w) :
    now < w.resetAt := by
  rw [L.openWindow_later le_rfl, current_eq_some_iff] at h
  exact h.2

/-- The window in which an event is counted is open afterwards. -/
theorem openWindow_of_hit (hkind : c.kind = .hit) (hwindow : 0 < c.length) :
    c.now < (next (L.openWindow s c.now c.key) c.now c.length).resetAt ∧
      L.openWindow (L.call s c).2 c.now c.key =
        some (next (L.openWindow s c.now c.key) c.now c.length) := by
  have hlt : c.now < (next (L.openWindow s c.now c.key) c.now c.length).resetAt := by
    cases hopen : L.openWindow s c.now c.key with
    | none =>
      have hcast : (0 : ℚ) < c.length := by exact_mod_cast hwindow
      show c.now < c.now + (c.length : ℚ)
      linarith
    | some w =>
      show c.now < w.resetAt
      exact lt_resetAt_of_open hopen
  refine ⟨hlt, ?_⟩
  rw [L.openWindow_call, if_pos rfl, Call.after, hkind]
  exact current_some_of_lt hlt

/-- A look leaves the window as it is. -/
theorem openWindow_of_peek (hkind : c.kind = .peek) :
    L.openWindow (L.call s c).2 c.now c.key = L.openWindow s c.now c.key := by
  rw [L.openWindow_call, if_pos rfl, Call.after, hkind]

theorem tellsTime_hit_iff (hkind : c.kind = .hit) (hwindow : 0 < c.length) :
    TellsTime L s c ↔ Near (L.decision c (L.openWindow s c.now c.key)).retryAfter
      ((next (L.openWindow s c.now c.key) c.now c.length).resetAt - c.now) := by
  have hopen := (openWindow_of_hit (L := L) (s := s) hkind hwindow).2
  rw [← L.call_fst]
  constructor
  · intro h
    exact h.near _ hopen
  · intro h
    refine ⟨fun w hw ↦ ?_, fun hpeek ↦ ?_⟩
    · rw [hopen, Option.some.injEq] at hw
      exact hw ▸ h
    · rw [hkind] at hpeek
      cases hpeek

theorem tellsTime_peek_iff (hkind : c.kind = .peek) :
    TellsTime L s c ↔
      (L.openWindow s c.now c.key = none → (L.decision c none).retryAfter = 0) ∧
      ∀ w, L.openWindow s c.now c.key = some w →
        Near (L.decision c (some w)).retryAfter (w.resetAt - c.now) := by
  have hopen := openWindow_of_peek (L := L) (s := s) hkind
  have hcall := L.call_fst s c
  constructor
  · intro h
    refine ⟨fun hnone ↦ ?_, fun w hw ↦ ?_⟩
    · rw [← hnone, ← hcall]
      exact h.zero hkind hnone
    · rw [← hw, ← hcall]
      exact h.near w (hopen.trans hw)
  · rintro ⟨hzero, hnear⟩
    refine ⟨fun w hw ↦ ?_, fun _ hnone ↦ ?_⟩
    · rw [hopen] at hw
      rw [hcall, hw]
      exact hnear w hw
    · rw [hcall, hnone]
      exact hzero hnone

end

/-- **`MemoryLimiter` tells the time.** -/
theorem memory_tellsTime (windows : MemoryLimiter.Windows) {c : LimiterCall}
    (hwindow : 0 < c.length) : TellsTime MemoryLimiter.limiter windows c := by
  cases hkind : c.kind with
  | hit =>
    rw [tellsTime_hit_iff hkind hwindow]
    have hlt := (openWindow_of_hit (L := MemoryLimiter.limiter) (s := windows) hkind hwindow).1
    show Near (MemoryLimiter.decision c _).retryAfter _
    simp only [MemoryLimiter.decision, hkind]
    exact memory_retryAfter hlt
  | peek =>
    rw [tellsTime_peek_iff hkind]
    refine ⟨fun _ ↦ ?_, fun w hw ↦ ?_⟩
    · show (MemoryLimiter.decision c none).retryAfter = 0
      simp only [MemoryLimiter.decision, hkind]
    · show Near (MemoryLimiter.decision c (some w)).retryAfter _
      simp only [MemoryLimiter.decision, hkind]
      exact memory_retryAfter (lt_resetAt_of_open hw)

/-- **`RedisLimiter` tells the time**, unless the call finds a window with less than half a second
left and asks for one of more than a second. -/
theorem redis_tellsTime_iff (s : RedisLimiter.State) {c : LimiterCall} (hwindow : 0 < c.length) :
    TellsTime RedisLimiter.limiter s c ↔
      ∀ w, RedisLimiter.openWindow s c.now c.key = some w → w.resetAt - c.now < 1 / 2 →
        c.length = 1 := by
  have hopens : RedisLimiter.limiter.openWindow s c.now c.key =
      RedisLimiter.openWindow s c.now c.key := rfl
  cases hkind : c.kind with
  | hit =>
    rw [tellsTime_hit_iff hkind hwindow]
    have hlt := (openWindow_of_hit (L := RedisLimiter.limiter) (s := s) hkind hwindow).1
    rw [hopens] at hlt ⊢
    show Near (RedisLimiter.decision c _).retryAfter _ ↔ _
    simp only [RedisLimiter.decision, hkind, current_some_of_lt hlt, RedisLimiter.secondsLeft]
    rw [redis_retryAfter_iff hlt hwindow]
    cases RedisLimiter.openWindow s c.now c.key with
    | none =>
      -- a new window is at least a second long
      refine iff_of_true (fun hshort ↦ ?_) (by simp)
      have hcast : (1 : ℚ) ≤ c.length := by exact_mod_cast hwindow
      have hshort' : c.now + (c.length : ℚ) - c.now < 1 / 2 := hshort
      linarith
    | some v => simp [next]
  | peek =>
    rw [tellsTime_peek_iff hkind, hopens]
    show (_ → (RedisLimiter.decision c none).retryAfter = 0) ∧
      (∀ w, _ → Near (RedisLimiter.decision c (some w)).retryAfter _) ↔ _
    simp only [RedisLimiter.decision, hkind, RedisLimiter.secondsLeft, implies_true, true_and]
    refine forall_congr' fun w ↦ imp_congr_right fun hw ↦ ?_
    exact redis_retryAfter_iff (lt_resetAt_of_open (L := RedisLimiter.limiter) hw) hwindow

/-- **When `retry_after` tells the time.**  After any calls at any times, and for any call with a
window of at least a second: in memory always, in Redis exactly when the call does not find a window
with less than half a second left, or asks for a window of one second. -/
theorem retry_after_tells_the_time (store : Redis)
    (hstore : ∀ key, store (RedisLimiter.keyPrefix ++ key) = none) (calls : List LimiterCall)
    (c : LimiterCall) (hwindow : 0 < c.length) :
    TellsTime MemoryLimiter.limiter (MemoryLimiter.limiter.after (fun _ ↦ none) calls) c ∧
    (TellsTime RedisLimiter.limiter
        (RedisLimiter.limiter.after (RedisLimiter.fresh store hstore) calls) c ↔
      ∀ w, RedisLimiter.openWindow
          (RedisLimiter.limiter.after (RedisLimiter.fresh store hstore) calls) c.now c.key =
            some w →
        w.resetAt - c.now < 1 / 2 → c.length = 1) :=
  ⟨memory_tellsTime _ hwindow, redis_tellsTime_iff _ hwindow⟩

/-- One failure of an address at the time 0, which opens a window of a minute. -/
def oneFailure : LimiterCall := ⟨.hit, "enroll-fail:192.0.2.1", 5, 60, 0⟩

/-- The address is looked up. -/
def lookAt (now : ℚ) : LimiterCall := ⟨.peek, "enroll-fail:192.0.2.1", 5, 60, now⟩

/-- Redis without keys. -/
def emptyRedis : RedisLimiter.State := RedisLimiter.fresh (fun _ ↦ none) fun _ ↦ rfl

theorem openWindow_oneFailure :
    RedisLimiter.openWindow (RedisLimiter.limiter.after emptyRedis [oneFailure]) 30
      (lookAt 30).key = some ⟨1, 60, Nat.one_pos⟩ := by
  decide +kernel

/-- Half a minute after the failure, both tell that half a minute is left. -/
theorem retry_after_tells_the_time_halfway :
    TellsTime MemoryLimiter.limiter (MemoryLimiter.limiter.after (fun _ ↦ none) [oneFailure])
      (lookAt 30) ∧
    TellsTime RedisLimiter.limiter (RedisLimiter.limiter.after emptyRedis [oneFailure])
      (lookAt 30) := by
  obtain ⟨hmemory, hredis⟩ :=
    retry_after_tells_the_time (fun _ ↦ none) (fun _ ↦ rfl) [oneFailure] (lookAt 30) (by decide)
  refine ⟨hmemory, hredis.mpr fun w hw hshort ↦ ?_⟩
  have hw' := hw.symm.trans openWindow_oneFailure
  rw [Option.some.injEq] at hw'
  rw [hw', lookAt] at hshort
  norm_num at hshort

/-- Two fifths of a second before the end of the window, Redis tells to wait for a whole minute. -/
theorem retry_after_near_the_end :
    (RedisLimiter.limiter.call (RedisLimiter.limiter.after emptyRedis [oneFailure])
      (lookAt (298 / 5))).1.retryAfter = 60 ∧
    ¬TellsTime RedisLimiter.limiter (RedisLimiter.limiter.after emptyRedis [oneFailure])
      (lookAt (298 / 5)) := by
  refine ⟨by decide +kernel, fun h ↦ ?_⟩
  have hopen : RedisLimiter.openWindow (RedisLimiter.limiter.after emptyRedis [oneFailure])
      (298 / 5) (lookAt (298 / 5)).key = some ⟨1, 60, Nat.one_pos⟩ := by
    decide +kernel
  have hone := (redis_tellsTime_iff _ (by decide)).mp h _ hopen (by rw [lookAt]; norm_num)
  exact absurd hone (by decide)

end WgManager
