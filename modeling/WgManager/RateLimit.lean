import Mathlib.Data.Rat.Floor
import WgManager.Lib.FixedWindow

/-!
# The rate limiter

`ratelimit.py`: fixed windows in memory, and the same in Redis.  `MemoryLimiter` keeps the time at
which a window ends and deletes an entry when it comes across one that has ended; `RedisLimiter`
increments a key and leaves the end to the expiry that the first increment sets.

Both are limiters in the sense of `FixedWindow.Limiter`, so they give the same answers
(`limiters_are_interchangeable`).  A call happens at one time: the clock stands still while the lock
is held, and a transaction of Redis is atomic.  Times are rational numbers: the floating-point
arithmetic on them is taken as exact, so that an instant within a rounding error of the end of a
window may come out on the other side.
-/

set_option autoImplicit false

namespace WgManager

open FixedWindow

/-- `round(x)`: to the nearest integer, and to the even one of two. -/
def pyRound (x : ℚ) : ℤ :=
  if x - ⌊x⌋ < 1 / 2 then ⌊x⌋
  else if 1 / 2 < x - ⌊x⌋ then ⌊x⌋ + 1
  else if ⌊x⌋ % 2 = 0 then ⌊x⌋ else ⌊x⌋ + 1

/-- A call of `hit` or `peek`. -/
abbrev LimiterCall := Call String ℚ

/-! ## In memory -/

namespace MemoryLimiter

/-- `_windows`. -/
abbrev Windows := String → Option (Window ℚ)

/-- `_current`: an entry that has ended is deleted. -/
def currentEntry (windows : Windows) (key : String) (now : ℚ) : Option (Window ℚ) × Windows :=
  match windows key with
  | none => (none, windows)
  | some entry =>
    if entry.resetAt ≤ now then (none, Function.update windows key none) else (some entry, windows)

/-- `_retry_after`. -/
def retryAfter (resetAt now : ℚ) : ℤ := max 1 (pyRound (resetAt - now))

/-- `MemoryLimiter.hit`. -/
def hit (windows : Windows) (key : String) (limit window : ℤ) (now : ℚ) : Decision × Windows :=
  let (entry, windows) := currentEntry windows key now
  let (seen, resetAt) := (entry.map fun e ↦ (e.count, e.resetAt)).getD (0, now + (window : ℚ))
  let count := seen + 1
  (⟨count ≤ limit, count, retryAfter resetAt now⟩,
    Function.update windows key (some ⟨count, resetAt, Nat.succ_pos seen⟩))

/-- `MemoryLimiter.peek`. -/
def peek (windows : Windows) (key : String) (limit : ℤ) (now : ℚ) : Decision × Windows :=
  match currentEntry windows key now with
  | (none, windows) => (⟨true, 0, 0⟩, windows)
  | (some entry, windows) =>
    (⟨entry.count < limit, entry.count, retryAfter entry.resetAt now⟩, windows)

def call (windows : Windows) (c : LimiterCall) : Decision × Windows :=
  match c.kind with
  | .hit => hit windows c.key c.limit c.length c.now
  | .peek => peek windows c.key c.limit c.now

/-- The entry that `_current` finds is the window that is open, and no other is touched. -/
theorem currentEntry_spec (windows : Windows) (key : String) (now : ℚ) :
    (currentEntry windows key now).1 = current (windows key) now ∧
      ∀ k, current ((currentEntry windows key now).2 k) now = current (windows k) now := by
  rw [currentEntry]
  split
  · next hkey => exact ⟨by rw [hkey]; rfl, fun _ ↦ rfl⟩
  · next entry hkey =>
    split
    · next hended =>
      have hnone : current (windows key) now = none := by
        rw [hkey, current, Option.filter_eq_none_iff]
        rintro _ ⟨⟩
        simpa using hended
      refine ⟨hnone.symm, fun k ↦ ?_⟩
      dsimp only
      rw [Function.update_apply]
      split
      · next hk => rw [hk, hnone, current_none]
      · rfl
    · next hlive =>
      refine ⟨?_, fun _ ↦ rfl⟩
      rw [hkey, current_some_of_lt (lt_of_not_ge hlive)]

/-- What is decided about a call when a window is open, or none. -/
def decision (c : LimiterCall) (w : Option (Window ℚ)) : Decision :=
  match c.kind with
  | .hit =>
    let w := next w c.now c.length
    ⟨w.count ≤ c.limit, w.count, retryAfter w.resetAt c.now⟩
  | .peek =>
    match w with
    | none => ⟨true, 0, 0⟩
    | some w => ⟨w.count < c.limit, w.count, retryAfter w.resetAt c.now⟩

/-- `hit` counts the event in the window that is open, or in a new one. -/
theorem hit_spec (windows : Windows) (key : String) (limit window : ℤ) (now : ℚ) :
    (hit windows key limit window now).1 =
        decision ⟨.hit, key, limit, window, now⟩ (current (windows key) now) ∧
      ∀ k, current ((hit windows key limit window now).2 k) now =
        if k = key then current (some (next (current (windows key) now) now window)) now
        else current (windows k) now := by
  obtain ⟨hentry, hothers⟩ := currentEntry_spec windows key now
  rw [hit]
  generalize currentEntry windows key now = found at hentry hothers
  obtain ⟨entry, windows'⟩ := found
  dsimp only at hentry hothers ⊢
  rw [← hentry]
  have hnext : (⟨((entry.map fun e ↦ (e.count, e.resetAt)).getD (0, now + (window : ℚ))).1 + 1,
      ((entry.map fun e ↦ (e.count, e.resetAt)).getD (0, now + (window : ℚ))).2, Nat.succ_pos _⟩ :
      Window ℚ) = next entry now window := by
    cases entry <;> rfl
  refine ⟨?_, fun k ↦ ?_⟩
  · cases entry <;> rfl
  · rw [Function.update_apply, hnext]
    split
    · rfl
    · exact hothers k

/-- `peek` leaves the windows that are open. -/
theorem peek_spec (windows : Windows) (key : String) (limit window : ℤ) (now : ℚ) :
    (peek windows key limit now).1 =
        decision ⟨.peek, key, limit, window, now⟩ (current (windows key) now) ∧
      ∀ k, current ((peek windows key limit now).2 k) now = current (windows k) now := by
  obtain ⟨hentry, hothers⟩ := currentEntry_spec windows key now
  rw [peek]
  generalize currentEntry windows key now = found at hentry hothers
  obtain ⟨entry, windows'⟩ := found
  dsimp only at hentry hothers ⊢
  rw [← hentry]
  cases entry with
  | none => exact ⟨rfl, hothers⟩
  | some entry => exact ⟨rfl, hothers⟩

/-- The limiter in memory. -/
def limiter : Limiter Windows String ℚ where
  call := call
  openWindow := fun windows now key ↦ current (windows key) now
  openWindow_later := fun h ↦ (current_current h).symm
  decision := decision
  call_fst := by
    rintro windows ⟨kind, key, limit, window, now⟩
    cases kind with
    | hit => exact (hit_spec windows key limit window now).1
    | peek => exact (peek_spec windows key limit window now).1
  answer_decision := by
    rintro ⟨kind, key, limit, window, now⟩ w
    cases kind with
    | hit => rfl
    | peek => cases w <;> rfl
  openWindow_call := by
    intro windows c key
    rw [call, Call.after]
    cases c.kind with
    | hit => exact (hit_spec windows c.key c.limit c.length c.now).2 key
    | peek =>
      dsimp only
      rw [(peek_spec windows c.key c.limit c.length c.now).2 key]
      split
      · next hkey => rw [hkey]
      · rfl

end MemoryLimiter

/-! ## In Redis -/

/-- A key of Redis that holds a number, with the time at which it disappears, if any. -/
structure RedisEntry where
  value : ℕ
  expiresAt : Option ℚ
  deriving DecidableEq

/-- The window that an entry stands for. -/
def RedisEntry.window : RedisEntry → Option (Window ℚ)
  | ⟨n + 1, some t⟩ => some ⟨n + 1, t, Nat.succ_pos n⟩
  | _ => none

/-- The entry that stands for a window. -/
def RedisEntry.ofWindow (w : Window ℚ) : RedisEntry := ⟨w.count, some w.resetAt⟩

theorem RedisEntry.window_ofWindow (w : Window ℚ) : (RedisEntry.ofWindow w).window = some w := by
  obtain ⟨count, resetAt, hpos⟩ := w
  obtain ⟨n, rfl⟩ := Nat.exists_eq_succ_of_ne_zero hpos.ne'
  rfl

/-- The keys of Redis. -/
abbrev Redis := String → Option RedisEntry

namespace Redis

variable (store : Redis) (k : String) (now : ℚ)

/-- The key, unless its time has come. -/
def find : Option RedisEntry := (store k).filter fun e ↦ e.expiresAt.all fun t ↦ now < t

/-- `INCR`. -/
def incr : ℕ × Redis :=
  match find store k now with
  | none => (1, Function.update store k (some ⟨1, none⟩))
  | some e => (e.value + 1, Function.update store k (some ⟨e.value + 1, e.expiresAt⟩))

/-- `EXPIRE … NX`: a key that has a time keeps it; a time that is not in the future deletes the
key. -/
def expireNx (seconds : ℤ) : Redis :=
  match find store k now with
  | none => store
  | some e =>
    if e.expiresAt.isSome then store
    else if seconds ≤ 0 then Function.update store k none
    else Function.update store k (some ⟨e.value, some (now + (seconds : ℚ))⟩)

/-- `TTL`, in seconds rounded to the nearest. -/
def ttl : ℤ :=
  match find store k now with
  | none => -2
  | some e =>
    match e.expiresAt with
    | none => -1
    | some t => ⌊t - now + 1 / 2⌋

end Redis

namespace RedisLimiter

/-- `_KEY_PREFIX`. -/
def keyPrefix : String := "wgm:rl:"

/-- `max(1, int(ttl)) if ttl > 0 else window`. -/
def retryAfter (ttl window : ℤ) : ℤ := if 0 < ttl then max 1 ttl else window

/-- `RedisLimiter.hit`. -/
def hit (store : Redis) (key : String) (limit window : ℤ) (now : ℚ) : Decision × Redis :=
  let k := keyPrefix ++ key
  let (count, store) := Redis.incr store k now
  let store := Redis.expireNx store k now window
  let ttl := Redis.ttl store k now
  (⟨count ≤ limit, count, retryAfter ttl window⟩, store)

/-- `RedisLimiter.peek`. -/
def peek (store : Redis) (key : String) (limit window : ℤ) (now : ℚ) : Decision :=
  let k := keyPrefix ++ key
  let raw := (Redis.find store k now).map RedisEntry.value
  let ttl := Redis.ttl store k now
  let count := raw.getD 0
  if count = 0 then ⟨true, 0, 0⟩
  else ⟨count < limit, count, retryAfter ttl window⟩

/-- The entries under the prefix are those of the limiter: each has been incremented, and has a time
at which it disappears. -/
structure State where
  store : Redis
  expiring : ∀ key e, store (keyPrefix ++ key) = some e → 0 < e.value ∧ e.expiresAt.isSome

/-- The window of a key that is open. -/
def openWindow (s : State) (now : ℚ) (key : String) : Option (Window ℚ) :=
  current ((s.store (keyPrefix ++ key)).bind RedisEntry.window) now

/-- An entry is there as long as its window is open. -/
theorem find_eq (s : State) (key : String) (now : ℚ) :
    Redis.find s.store (keyPrefix ++ key) now =
      (openWindow s now key).map RedisEntry.ofWindow := by
  rw [Redis.find, openWindow]
  cases hk : s.store (keyPrefix ++ key) with
  | none => rfl
  | some e =>
    obtain ⟨hpos, hexpires⟩ := s.expiring key e hk
    obtain ⟨value, expiresAt⟩ := e
    obtain ⟨t, rfl⟩ := Option.isSome_iff_exists.mp hexpires
    obtain ⟨n, rfl⟩ := Nat.exists_eq_succ_of_ne_zero hpos.ne'
    by_cases hlive : now < t
    · simp [RedisEntry.window, RedisEntry.ofWindow, current, Option.filter, hlive]
    · simp [RedisEntry.window, current, Option.filter, hlive]

/-- The seconds that are left of a window. -/
def secondsLeft (w : Option (Window ℚ)) (now : ℚ) : ℤ :=
  match w with
  | none => -2
  | some w => ⌊w.resetAt - now + 1 / 2⌋

theorem ttl_of_find {store : Redis} {k : String} {now : ℚ} {w : Option (Window ℚ)}
    (h : Redis.find store k now = w.map RedisEntry.ofWindow) :
    Redis.ttl store k now = secondsLeft w now := by
  rw [Redis.ttl, h]
  cases w <;> rfl

/-- What is decided about a call when a window is open, or none. -/
def decision (c : LimiterCall) (w : Option (Window ℚ)) : Decision :=
  match c.kind with
  | .hit =>
    let w := next w c.now c.length
    ⟨w.count ≤ c.limit, w.count,
      retryAfter (secondsLeft (current (some w) c.now) c.now) c.length⟩
  | .peek =>
    match w with
    | none => ⟨true, 0, 0⟩
    | some w => ⟨w.count < c.limit, w.count, retryAfter (secondsLeft (some w) c.now) c.length⟩

/-- An entry that stands for a window that is open is found. -/
theorem find_update (store : Redis) (k : String) (now : ℚ) (w : Option (Window ℚ)) :
    Redis.find (Function.update store k ((current w now).map RedisEntry.ofWindow)) k now =
      (current w now).map RedisEntry.ofWindow := by
  rw [Redis.find, Function.update_self]
  cases hw : current w now with
  | none => rfl
  | some v =>
    have hlive : now < v.resetAt := (current_eq_some_iff.mp hw).2
    rw [Option.map_some, Option.filter_some, if_pos]
    simpa [RedisEntry.ofWindow] using hlive

/-- `INCR` and `EXPIRE … NX` count the event in the window that is open, or in a new one; a window
that would end at once is not kept. -/
theorem incr_expireNx (s : State) (key : String) (window : ℤ) (now : ℚ) :
    (Redis.incr s.store (keyPrefix ++ key) now).1 = (next (openWindow s now key) now window).count ∧
      Redis.expireNx (Redis.incr s.store (keyPrefix ++ key) now).2 (keyPrefix ++ key) now window =
        Function.update s.store (keyPrefix ++ key)
          ((current (some (next (openWindow s now key) now window)) now).map
            RedisEntry.ofWindow) := by
  have hfound := find_eq s key now
  cases hopen : openWindow s now key with
  | none =>
    rw [hopen, Option.map_none] at hfound
    have hincr : Redis.incr s.store (keyPrefix ++ key) now =
        (1, Function.update s.store (keyPrefix ++ key) (some ⟨1, none⟩)) := by
      rw [Redis.incr, hfound]
    have hwritten : Redis.find (Function.update s.store (keyPrefix ++ key) (some ⟨1, none⟩))
        (keyPrefix ++ key) now = some ⟨1, none⟩ := by
      rw [Redis.find, Function.update_self]
      rfl
    rw [hincr]
    refine ⟨rfl, ?_⟩
    rw [Redis.expireNx, hwritten]
    dsimp only
    rw [if_neg (by decide), Function.update_idem, Function.update_idem, next]
    split
    · next hle =>
      have hended : ¬now < now + (window : ℚ) := by
        have hcast : (window : ℚ) ≤ 0 := by exact_mod_cast hle
        linarith
      rw [current, Option.filter_some, if_neg (by simpa using hended)]
      rfl
    · next hgt =>
      have hlive : now < now + (window : ℚ) := by
        have hcast : (0 : ℚ) < window := by exact_mod_cast lt_of_not_ge hgt
        linarith
      rw [current_some_of_lt hlive]
      rfl
  | some v =>
    have hlive : now < v.resetAt := (current_eq_some_iff.mp hopen).2
    have hcounted : current (some (next (some v) now window)) now =
        some (next (some v) now window) :=
      current_some_of_lt hlive
    rw [hopen, Option.map_some] at hfound
    have hincr : Redis.incr s.store (keyPrefix ++ key) now =
        (v.count + 1, Function.update s.store (keyPrefix ++ key)
          ((current (some (next (some v) now window)) now).map RedisEntry.ofWindow)) := by
      rw [Redis.incr, hfound, hcounted]
      rfl
    rw [hincr]
    refine ⟨rfl, ?_⟩
    dsimp only
    -- the entry has its time, and keeps it
    rw [Redis.expireNx, find_update, hcounted]
    rfl

theorem hit_eq (s : State) (key : String) (limit window : ℤ) (now : ℚ) :
    (hit s.store key limit window now).1 =
        decision ⟨.hit, key, limit, window, now⟩ (openWindow s now key) ∧
      (hit s.store key limit window now).2 = Function.update s.store (keyPrefix ++ key)
        ((current (some (next (openWindow s now key) now window)) now).map
          RedisEntry.ofWindow) := by
  obtain ⟨hcount, hstore⟩ := incr_expireNx s key window now
  have httl := ttl_of_find (find_update s.store (keyPrefix ++ key) now
    (some (next (openWindow s now key) now window)))
  rw [hit]
  generalize Redis.incr s.store (keyPrefix ++ key) now = incremented at hcount hstore
  obtain ⟨count, store⟩ := incremented
  dsimp only at hcount hstore ⊢
  refine ⟨?_, hstore⟩
  rw [hstore, httl, hcount]
  rfl

/-- `GET` shows the count of the window that is open. -/
theorem peek_eq (s : State) (key : String) (limit window : ℤ) (now : ℚ) :
    peek s.store key limit window now =
      decision ⟨.peek, key, limit, window, now⟩ (openWindow s now key) := by
  rw [peek, ttl_of_find (find_eq s key now), find_eq]
  cases openWindow s now key with
  | none => rfl
  | some w =>
    show (if w.count = 0 then Decision.mk true 0 0 else ⟨w.count < limit, w.count, _⟩) = _
    rw [if_neg w.count_pos.ne']
    rfl

theorem expiring_hit (s : State) (key : String) (limit window : ℤ) (now : ℚ) (k : String)
    (e : RedisEntry) (he : (hit s.store key limit window now).2 (keyPrefix ++ k) = some e) :
    0 < e.value ∧ e.expiresAt.isSome := by
  rw [(hit_eq s key limit window now).2, Function.update_apply] at he
  split at he
  · obtain ⟨w, -, rfl⟩ := Option.map_eq_some_iff.mp he
    exact ⟨w.count_pos, rfl⟩
  · exact s.expiring k e he

def call (s : State) (c : LimiterCall) : Decision × State :=
  match c.kind with
  | .hit =>
    ((hit s.store c.key c.limit c.length c.now).1,
      ⟨(hit s.store c.key c.limit c.length c.now).2, expiring_hit s c.key c.limit c.length c.now⟩)
  | .peek => (peek s.store c.key c.limit c.length c.now, s)

/-- The limiter in Redis. -/
def limiter : Limiter State String ℚ where
  call := call
  openWindow := openWindow
  openWindow_later := fun h ↦ (current_current h).symm
  decision := decision
  call_fst := by
    rintro s ⟨kind, key, limit, window, now⟩
    cases kind with
    | hit => exact (hit_eq s key limit window now).1
    | peek => exact peek_eq s key limit window now
  answer_decision := by
    rintro ⟨kind, key, limit, window, now⟩ w
    cases kind with
    | hit => rfl
    | peek => cases w <;> rfl
  openWindow_call := by
    intro s c key
    rw [call, Call.after]
    cases c.kind with
    | hit =>
      rw [openWindow]
      dsimp only
      rw [(hit_eq s c.key c.limit c.length c.now).2, Function.update_apply]
      split
      · next hkey =>
        rw [if_pos ((String.append_right_inj _).mp hkey)]
        generalize next (openWindow s c.now c.key) c.now c.length = w
        have hread : ((current (some w) c.now).map RedisEntry.ofWindow).bind RedisEntry.window =
            current (some w) c.now := by
          cases current (some w) c.now with
          | none => rfl
          | some v => exact RedisEntry.window_ofWindow v
        rw [hread, current_current le_rfl]
      · next hkey =>
        rw [if_neg fun h ↦ hkey (by rw [h])]
        rfl
    | peek =>
      dsimp only
      split
      · next hkey => rw [hkey]
      · rfl

theorem expiring_of_none {store : Redis} (h : ∀ key, store (keyPrefix ++ key) = none) (key : String)
    (e : RedisEntry) (he : store (keyPrefix ++ key) = some e) :
    0 < e.value ∧ e.expiresAt.isSome := by
  rw [h key] at he
  cases he

/-- Nothing under the prefix. -/
def fresh (store : Redis) (h : ∀ key, store (keyPrefix ++ key) = none) : State :=
  ⟨store, expiring_of_none h⟩

theorem openWindow_fresh {store : Redis} {h : ∀ key, store (keyPrefix ++ key) = none} (now : ℚ)
    (key : String) : openWindow (fresh store h) now key = none := by
  show current ((store (keyPrefix ++ key)).bind RedisEntry.window) now = none
  rw [h key]
  rfl

end RedisLimiter

/-! ## One and the other -/

/-- **The two limiters are interchangeable.**  On every sequence of calls at times that do not
decrease, they say the same, whatever else Redis holds; and in both, an event opens the window of
its key when none is open, and no later one moves the end. -/
theorem limiters_are_interchangeable (store : Redis)
    (hstore : ∀ key, store (RedisLimiter.keyPrefix ++ key) = none) :
    (∀ calls, InOrder calls →
      (MemoryLimiter.limiter.decisions (fun _ ↦ none) calls).map Decision.answer =
        (RedisLimiter.limiter.decisions (RedisLimiter.fresh store hstore) calls).map
          Decision.answer) ∧
    MemoryLimiter.limiter.WindowLaw (fun _ ↦ none) ∧
    RedisLimiter.limiter.WindowLaw (RedisLimiter.fresh store hstore) := by
  have hmemory : ∀ now key, MemoryLimiter.limiter.openWindow (fun _ ↦ none) now key = none :=
    fun _ _ ↦ rfl
  have hredis : ∀ now key,
      RedisLimiter.limiter.openWindow (RedisLimiter.fresh store hstore) now key =
      none := RedisLimiter.openWindow_fresh
  refine ⟨?_, Limiter.windowLaw hmemory, Limiter.windowLaw hredis⟩
  intro calls hcalls
  refine Limiter.answers_eq _ _ hcalls fun c _ key ↦ ?_
  rw [hmemory, hredis]

/-- Two events of an address within a window of ten seconds, and one at the moment it ends. -/
def boundaryCalls : List LimiterCall :=
  [⟨.hit, "enroll-req:192.0.2.1", 1, 10, 0⟩, ⟨.hit, "enroll-req:192.0.2.1", 1, 10, 9⟩,
    ⟨.hit, "enroll-req:192.0.2.1", 1, 10, 10⟩]

/-- The second event is over the limit, and the third opens another window. -/
theorem limiters_are_interchangeable_boundary :
    (RedisLimiter.limiter.decisions (RedisLimiter.fresh (fun _ ↦ none) fun _ ↦ rfl)
      boundaryCalls).map Decision.answer = [(true, 1), (false, 2), (true, 1)] := by
  have hcalls : InOrder boundaryCalls := by
    rw [InOrder, boundaryCalls]
    norm_num
  rw [← (limiters_are_interchangeable (fun _ ↦ none) fun _ ↦ rfl).1 boundaryCalls hcalls]
  decide +kernel

end WgManager
