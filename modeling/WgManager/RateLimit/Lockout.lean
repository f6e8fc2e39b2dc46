import WgManager.Lib.Once
import WgManager.RateLimit

/-!
# The lockout of addresses

`EnrollRateLimitMiddleware`: what happens to a `POST /v1/enroll` before and after the endpoint.  The
failures of its address are looked at, the request is counted, the endpoint answers, and an answer
that is a failure is counted too.  These are separate steps with the whole request between them, so
any number of requests from any addresses can be anywhere in between.

The limiter is any lawful one (`FixedWindow.Limiter`), in memory or in Redis.  What the endpoint
answers is part of the action, as is the time that passes.

* `locked_of_check`: at a check before the end of a window that has seen `enroll_failure_limit`
  failures, the answer is 429.
* `Agrees`: for all other addresses, a run goes as it would without the requests of one address.
* `once_run`: of every window that trips, one line is written.
-/

set_option autoImplicit false

namespace WgManager

open FixedWindow

/-- The limits and windows of the settings; a limit of 0 disables its bucket. -/
structure EnrollLimits where
  failureLimit : ℤ := 10
  failureWindow : ℤ := 600
  requestLimit : ℤ := 120
  requestWindow : ℤ := 60

namespace Lockout

inductive Bucket
  | failures
  | requests
  deriving DecidableEq

/-- `fail_key` and `req_key`. -/
def Bucket.key : Bucket → String → String
  | .failures, ip => "enroll-fail:" ++ ip
  | .requests, ip => "enroll-req:" ++ ip

/-- The line `enroll.rate_limited` of the audit log. -/
structure RateLimited where
  peer : String
  bucket : Bucket
  retryAfter : ℤ
  deriving DecidableEq

/-- What the caller gets: 429, or what the endpoint says. -/
inductive Reply
  | tooMany (retryAfter : ℤ)
  | endpoint (status : ℕ)
  | raised
  deriving DecidableEq

/-- Where a request is. -/
inductive Phase
  /-- Before the check of the failures. -/
  | begun
  /-- Before it is counted. -/
  | counting
  /-- At the endpoint. -/
  | forwarded
  /-- Before its failure is counted. -/
  | failed (status : ℕ)
  /-- Before the line is written, about this window of the bucket. -/
  | announcing (bucket : Bucket) (window : ℕ) (retryAfter : ℤ) (reply : Reply)
  | answered (reply : Reply)
  deriving DecidableEq

/-- A request. -/
structure Proc where
  ip : String
  phase : Phase
  deriving DecidableEq

/-- What all requests share.  `windows` is the history of each bucket, the counts of its windows
from the last to the first; it and the number of the window at each line are there for the
statements only. -/
structure Shared (σ : Type*) where
  limiter : σ
  clock : ℚ
  lines : List (RateLimited × ℕ) := []
  windows : Bucket → String → List ℕ := fun _ _ ↦ []

inductive Act
  | start (ip : String)
  | check
  | count
  /-- The endpoint answers, or raises. -/
  | endpoint (status : Option ℕ)
  | countFailure
  | emit
  | tick (now : ℚ)
  deriving DecidableEq

end Lockout

open Lockout

namespace EnrollLimits

variable (limits : EnrollLimits)

def limit : Bucket → ℤ
  | .failures => limits.failureLimit
  | .requests => limits.requestLimit

def window : Bucket → ℤ
  | .failures => limits.failureWindow
  | .requests => limits.requestWindow

/-- The count at which a bucket trips: failures at the limit, requests beyond it. -/
def trip : Bucket → ℤ
  | .failures => limits.failureLimit
  | .requests => limits.requestLimit + 1

/-- `limiter.peek` or `limiter.hit` on a bucket of an address. -/
def callOf (kind : Kind) (bucket : Bucket) (ip : String) (now : ℚ) : LimiterCall :=
  ⟨kind, bucket.key ip, limits.limit bucket, limits.window bucket, now⟩

end EnrollLimits

namespace Lockout

/-- The history of a bucket after an event that is counted as `n`: the first of a window begins the
next. -/
def logged (n : ℕ) (history : List ℕ) : List ℕ := if n = 1 then 1 :: history else n :: history.tail

section

variable {σ : Type*} (L : Limiter σ String ℚ) (limits : EnrollLimits)

/-- The failures of an address are looked at. -/
def Shared.peek (g : Shared σ) (ip : String) : Decision × Shared σ :=
  let (locked, limiter) := L.call g.limiter (limits.callOf .peek .failures ip g.clock)
  (locked, { g with limiter })

/-- An event of an address is counted. -/
def Shared.hit (g : Shared σ) (bucket : Bucket) (ip : String) : Decision × Shared σ :=
  let (decision, limiter) := L.call g.limiter (limits.callOf .hit bucket ip g.clock)
  (decision,
    { g with
      limiter
      windows := Function.update g.windows bucket (Function.update (g.windows bucket) ip
        (logged decision.count (g.windows bucket ip))) })

/-- After the check. -/
def checkedPhase (locked : Decision) : Phase :=
  if locked.allowed then .counting else .answered (.tooMany locked.retryAfter)

/-- After the request has been counted. -/
def countedPhase (decision : Decision) (window : ℕ) : Phase :=
  if decision.allowed then .forwarded
  else if decision.count = limits.requestLimit + 1 then
    .announcing .requests window decision.retryAfter (.tooMany decision.retryAfter)
  else .answered (.tooMany decision.retryAfter)

/-- After the failure has been counted. -/
def failurePhase (decision : Decision) (window status : ℕ) : Phase :=
  if decision.count = limits.failureLimit then
    .announcing .failures window decision.retryAfter (.endpoint status)
  else .answered (.endpoint status)

/-- The number of the window that is the last of a bucket. -/
def Shared.lastWindow (g : Shared σ) (bucket : Bucket) (ip : String) : ℕ :=
  (g.windows bucket ip).length - 1

/-- `dispatch`, step by step. -/
def procStep (_ : ℕ) (g : Shared σ) : Option Proc → Act → Option (Shared σ × Option Proc)
  | p, .tick now => if g.clock ≤ now then some ({ g with clock := now }, p) else none
  | none, .start ip => some (g, some ⟨ip, .begun⟩)
  | some ⟨ip, .begun⟩, .check =>
    if 0 < limits.failureLimit then
      let (locked, g) := g.peek L limits ip
      some (g, some ⟨ip, checkedPhase locked⟩)
    else some (g, some ⟨ip, .counting⟩)
  | some ⟨ip, .counting⟩, .count =>
    if 0 < limits.requestLimit then
      let (decision, g) := g.hit L limits .requests ip
      some (g, some ⟨ip, countedPhase limits decision (g.lastWindow .requests ip)⟩)
    else some (g, some ⟨ip, .forwarded⟩)
  | some ⟨ip, .forwarded⟩, .endpoint none => some (g, some ⟨ip, .answered .raised⟩)
  | some ⟨ip, .forwarded⟩, .endpoint (some status) =>
    if (status = 401 ∨ status = 422) ∧ 0 < limits.failureLimit then
      some (g, some ⟨ip, .failed status⟩)
    else some (g, some ⟨ip, .answered (.endpoint status)⟩)
  | some ⟨ip, .failed status⟩, .countFailure =>
    let (decision, g) := g.hit L limits .failures ip
    some (g, some ⟨ip, failurePhase limits decision (g.lastWindow .failures ip) status⟩)
  | some ⟨ip, .announcing bucket window retryAfter reply⟩, .emit =>
    some ({ g with lines := (⟨ip, bucket, retryAfter⟩, window) :: g.lines },
      some ⟨ip, .answered reply⟩)
  | _, _ => none

/-- One step of one request. -/
abbrev step : Config (Shared σ) Proc → ℕ × Act → Option (Config (Shared σ) Proc) :=
  Config.step (procStep L limits)

/-- Before the first request. -/
def initial (limiter : σ) (now : ℚ) : Config (Shared σ) Proc where
  shared := { limiter, clock := now }
  proc := fun _ ↦ none

/-! ## What a step does -/

/-- What a step does. -/
inductive Move : Shared σ → Option Proc → Act → Shared σ → Option Proc → Prop
  | tick {g p now} (h : g.clock ≤ now) : Move g p (.tick now) { g with clock := now } p
  | start {g ip} : Move g none (.start ip) g (some ⟨ip, .begun⟩)
  | check {g ip} (h : 0 < limits.failureLimit) :
      Move g (some ⟨ip, .begun⟩) .check (g.peek L limits ip).2
        (some ⟨ip, checkedPhase (g.peek L limits ip).1⟩)
  | unchecked {g ip} (h : ¬0 < limits.failureLimit) :
      Move g (some ⟨ip, .begun⟩) .check g (some ⟨ip, .counting⟩)
  | count {g ip} (h : 0 < limits.requestLimit) :
      Move g (some ⟨ip, .counting⟩) .count (g.hit L limits .requests ip).2
        (some ⟨ip, countedPhase limits (g.hit L limits .requests ip).1
          ((g.hit L limits .requests ip).2.lastWindow .requests ip)⟩)
  | uncounted {g ip} (h : ¬0 < limits.requestLimit) :
      Move g (some ⟨ip, .counting⟩) .count g (some ⟨ip, .forwarded⟩)
  | raised {g ip} :
      Move g (some ⟨ip, .forwarded⟩) (.endpoint none) g (some ⟨ip, .answered .raised⟩)
  | failed {g ip status} (h : (status = 401 ∨ status = 422) ∧ 0 < limits.failureLimit) :
      Move g (some ⟨ip, .forwarded⟩) (.endpoint (some status)) g (some ⟨ip, .failed status⟩)
  | replied {g ip status} (h : ¬((status = 401 ∨ status = 422) ∧ 0 < limits.failureLimit)) :
      Move g (some ⟨ip, .forwarded⟩) (.endpoint (some status)) g
        (some ⟨ip, .answered (.endpoint status)⟩)
  | countFailure {g ip status} :
      Move g (some ⟨ip, .failed status⟩) .countFailure (g.hit L limits .failures ip).2
        (some ⟨ip, failurePhase limits (g.hit L limits .failures ip).1
          ((g.hit L limits .failures ip).2.lastWindow .failures ip) status⟩)
  | emit {g ip bucket window retryAfter reply} :
      Move g (some ⟨ip, .announcing bucket window retryAfter reply⟩) .emit
        { g with lines := (⟨ip, bucket, retryAfter⟩, window) :: g.lines }
        (some ⟨ip, .answered reply⟩)

end

section

variable {σ : Type*} {L : Limiter σ String ℚ} {limits : EnrollLimits} {g g' : Shared σ}
  {p p' : Option Proc} {a : Act} {i : ℕ}

theorem move_iff : procStep L limits i g p a = some (g', p') ↔ Move L limits g p a g' p' := by
  constructor
  · intro h
    unfold procStep at h
    split at h
    · split at h
      · next hle => cases h; exact .tick hle
      · cases h
    · cases h; exact .start
    · split at h
      · next hlimit => cases h; exact .check hlimit
      · next hlimit => cases h; exact .unchecked hlimit
    · split at h
      · next hlimit => cases h; exact .count hlimit
      · next hlimit => cases h; exact .uncounted hlimit
    · cases h; exact .raised
    · split at h
      · next hfailed => cases h; exact .failed hfailed
      · next hreplied => cases h; exact .replied hreplied
    · cases h; exact .countFailure
    · cases h; exact .emit
    · cases h
  · intro h
    cases h with
    | tick h => simp [procStep, h]
    | check h => simp only [procStep, if_pos h]
    | unchecked h => simp only [procStep, if_neg h]
    | count h => simp only [procStep, if_pos h]
    | uncounted h => simp only [procStep, if_neg h]
    | failed h => simp only [procStep, if_pos h]
    | replied h => simp only [procStep, if_neg h]
    | _ => rfl

/-! ## The buckets -/

/-- Every bucket of every address has a key of its own. -/
theorem key_inj {b b' : Bucket} {ip ip' : String} (h : b.key ip = b'.key ip') :
    b = b' ∧ ip = ip' := by
  have hlist := congrArg String.toList h
  cases b with
  | failures =>
    cases b' with
    | failures => exact ⟨rfl, (String.append_right_inj _).mp h⟩
    | requests => simp [Bucket.key, String.toList_append] at hlist
  | requests =>
    cases b' with
    | failures => simp [Bucket.key, String.toList_append] at hlist
    | requests => exact ⟨rfl, (String.append_right_inj _).mp h⟩

/-- The window of a bucket that is open now. -/
def openNow (L : Limiter σ String ℚ) (g : Shared σ) (b : Bucket) (ip : String) :
    Option (Window ℚ) :=
  L.openWindow g.limiter g.clock (b.key ip)

/-- The decision on an event of a bucket, and what it leaves. -/
theorem hit_fst (b : Bucket) (ip : String) : (g.hit L limits b ip).1 =
    L.decision (limits.callOf .hit b ip g.clock) (openNow L g b ip) := L.call_fst _ _

theorem hit_count (b : Bucket) (ip : String) :
    (g.hit L limits b ip).1.count = (next (openNow L g b ip) g.clock (limits.window b)).count ∧
      (g.hit L limits b ip).1.allowed =
        decide (((g.hit L limits b ip).1.count : ℤ) ≤ limits.limit b) := by
  have hanswer := L.answer_call g.limiter (limits.callOf .hit b ip g.clock)
  have hcount := congrArg Prod.snd hanswer
  have hallowed := congrArg Prod.fst hanswer
  refine ⟨hcount, hallowed.trans ?_⟩
  rw [show (g.hit L limits b ip).1.count = _ from hcount]
  rfl

theorem openNow_hit (b b' : Bucket) (ip ip' : String) :
    openNow L (g.hit L limits b ip).2 b' ip' =
      if b' = b ∧ ip' = ip then
        current (some (next (openNow L g b ip) g.clock (limits.window b))) g.clock
      else openNow L g b' ip' := by
  refine (L.openWindow_call g.limiter (limits.callOf .hit b ip g.clock) (b'.key ip')).trans ?_
  by_cases hkey : b' = b ∧ ip' = ip
  · rw [if_pos hkey, if_pos (by rw [hkey.1, hkey.2]; rfl)]
    rfl
  · have hne : b'.key ip' ≠ (limits.callOf .hit b ip g.clock).key := fun h ↦ hkey (key_inj h)
    rw [if_neg hkey, if_neg hne]
    rfl

theorem peek_fst (ip : String) : (g.peek L limits ip).1 =
    L.decision (limits.callOf .peek .failures ip g.clock) (openNow L g .failures ip) :=
  L.call_fst _ _

theorem peek_allowed (ip : String) : (g.peek L limits ip).1.allowed =
    (peekAnswer limits.failureLimit (openNow L g .failures ip)).1 :=
  congrArg Prod.fst (L.answer_call g.limiter (limits.callOf .peek .failures ip g.clock))

theorem openNow_peek (ip : String) (b' : Bucket) (ip' : String) :
    openNow L (g.peek L limits ip).2 b' ip' = openNow L g b' ip' := by
  refine (L.openWindow_call g.limiter (limits.callOf .peek .failures ip g.clock) _).trans ?_
  split
  · next hkey => rw [openNow, hkey]; rfl
  · rfl

theorem openNow_tick {now : ℚ} (h : g.clock ≤ now) (b : Bucket) (ip : String) :
    openNow L { g with clock := now } b ip = current (openNow L g b ip) now :=
  L.openWindow_later h

theorem windows_hit (b b' : Bucket) (ip ip' : String) :
    (g.hit L limits b ip).2.windows b' ip' =
      if b' = b ∧ ip' = ip then logged (g.hit L limits b ip).1.count (g.windows b ip)
      else g.windows b' ip' := by
  show Function.update g.windows b _ b' ip' = _
  by_cases hb : b' = b
  · subst hb
    rw [Function.update_self, Function.update_apply]
    by_cases hip : ip' = ip
    · rw [if_pos hip, if_pos ⟨rfl, hip⟩]
      rfl
    · rw [if_neg hip, if_neg fun h ↦ hip h.2]
  · rw [Function.update_of_ne hb, if_neg fun h ↦ hb h.1]

/-! ## The history of a bucket -/

/-- The count of a window by its number. -/
def windowCount : List ℕ → ℕ → Option ℕ
  | [], _ => none
  | n :: history, k => if k = history.length then some n else windowCount history k

theorem windowCount_of_length_le {history : List ℕ} {k : ℕ} (h : history.length ≤ k) :
    windowCount history k = none := by
  induction history with
  | nil => rfl
  | cons n history ih =>
    rw [List.length_cons] at h
    rw [windowCount, if_neg (by omega), ih (by omega)]

/-- An event that is counted as `n` in the history: it is in the last window, which had one less, or
was not there. -/
theorem windowCount_logged {n : ℕ} {history : List ℕ} (hpos : 0 < n)
    (hlast : n ≠ 1 → history.head? = some (n - 1)) :
    windowCount (logged n history) ((logged n history).length - 1) = some n ∧
      windowCount history ((logged n history).length - 1) = (if n = 1 then none else some (n - 1)) ∧
      ∀ k, k ≠ (logged n history).length - 1 →
        windowCount (logged n history) k = windowCount history k := by
  rw [logged]
  by_cases hone : n = 1
  · subst hone
    rw [if_pos rfl, if_pos rfl, List.length_cons, Nat.add_sub_cancel]
    refine ⟨?_, windowCount_of_length_le (Nat.le_refl _), fun k hk ↦ ?_⟩
    · rw [windowCount, if_pos rfl]
    · rw [windowCount, if_neg hk]
  · obtain ⟨rest, rfl⟩ : ∃ rest, history = (n - 1) :: rest := by
      cases history with
      | nil => exact absurd (hlast hone).symm (Option.some_ne_none _)
      | cons m rest => exact ⟨rest, by rw [Option.some.inj (hlast hone)]⟩
    rw [if_neg hone, if_neg hone, List.tail_cons, List.length_cons, Nat.add_sub_cancel]
    refine ⟨?_, ?_, fun k hk ↦ ?_⟩
    · rw [windowCount, if_pos rfl]
    · rw [windowCount, if_pos rfl]
    · rw [windowCount, if_neg hk, windowCount, if_neg hk]

/-- The history ends with the count of the window that is open, and a bucket that is disabled has
none. -/
structure Tracked (L : Limiter σ String ℚ) (limits : EnrollLimits) (g : Shared σ) : Prop where
  last : ∀ b ip, ∀ w ∈ openNow L g b ip, (g.windows b ip).head? = some w.count
  disabled : ∀ b ip, limits.limit b ≤ 0 → g.windows b ip = []

theorem Tracked.count (h : Tracked L limits g) (b : Bucket) (ip : String) :
    0 < (g.hit L limits b ip).1.count ∧ ((g.hit L limits b ip).1.count ≠ 1 →
      (g.windows b ip).head? = some ((g.hit L limits b ip).1.count - 1)) := by
  rw [(hit_count b ip).1]
  refine ⟨Window.count_pos _, ?_⟩
  rcases hopen : openNow L g b ip with _ | w
  · exact fun hne ↦ absurd rfl hne
  · exact fun _ ↦ h.last b ip w hopen

theorem head?_logged (n : ℕ) (history : List ℕ) : (logged n history).head? = some n := by
  rw [logged]
  split
  · next h => rw [h, List.head?_cons]
  · rw [List.head?_cons]

theorem tracked_hit (h : Tracked L limits g) {b : Bucket} (hlimit : 0 < limits.limit b)
    (ip : String) : Tracked L limits (g.hit L limits b ip).2 := by
  refine ⟨?_, ?_⟩
  · intro b' ip' w hw
    rw [openNow_hit] at hw
    rw [windows_hit]
    split at hw
    · next hkey =>
      rw [if_pos hkey, head?_logged, (hit_count b ip).1,
        Option.some.inj (current_eq_some_iff.mp hw).1]
    · next hkey =>
      rw [if_neg hkey]
      exact h.last b' ip' w hw
  · intro b' ip' hdisabled
    rw [windows_hit, if_neg]
    · exact h.disabled b' ip' hdisabled
    · rintro ⟨rfl, -⟩
      omega

/-- Only a request whose bucket is enabled comes to count a failure. -/
def CountsEnabled (limits : EnrollLimits) (q : Proc) : Prop :=
  ∀ status, q.phase = .failed status → 0 < limits.failureLimit

theorem tracked_move (h : Tracked L limits g) (hp : ∀ q, p = some q → CountsEnabled limits q)
    (hmove : Move L limits g p a g' p') : Tracked L limits g' := by
  cases hmove with
  | tick hle =>
    refine ⟨fun b ip w hw ↦ h.last b ip w ?_, h.disabled⟩
    rw [Option.mem_def, openNow_tick hle, current_eq_some_iff] at hw
    exact hw.1
  | check hlimit =>
    refine ⟨fun b ip w hw ↦ h.last b ip w ?_, h.disabled⟩
    rwa [openNow_peek] at hw
  | count hlimit => exact tracked_hit (b := .requests) h hlimit _
  | countFailure => exact tracked_hit (b := .failures) h (hp _ rfl _ rfl) _
  | emit => exact ⟨h.last, h.disabled⟩
  | _ => exact h

theorem countsEnabled_move (hp : ∀ q, p = some q → CountsEnabled limits q)
    (hmove : Move L limits g p a g' p') : ∀ q, p' = some q → CountsEnabled limits q := by
  rintro q hq status hstatus
  cases hmove with
  | tick hle => exact hp q hq status hstatus
  | failed h => exact h.2
  | check h =>
    cases hq
    dsimp only [checkedPhase] at hstatus
    split at hstatus <;> cases hstatus
  | count h =>
    cases hq
    dsimp only [countedPhase] at hstatus
    split at hstatus
    · cases hstatus
    · split at hstatus <;> cases hstatus
  | countFailure =>
    cases hq
    dsimp only [failurePhase] at hstatus
    split at hstatus <;> cases hstatus
  | _ => cases hq; cases hstatus

/-! ## One line for each window that trips -/

/-- The window of the bucket has tripped. -/
def Tripped (limits : EnrollLimits) (b : Bucket) (ip : String) (k : ℕ) (g : Shared σ) : Prop :=
  ∃ n ∈ windowCount (g.windows b ip) k, limits.trip b ≤ n

/-- The lines about the window. -/
def lineCount (b : Bucket) (ip : String) (k : ℕ) (g : Shared σ) : ℕ :=
  g.lines.countP fun l ↦ l.1.peer = ip ∧ l.1.bucket = b ∧ l.2 = k

/-- The request is about to write the line. -/
def Announces (b : Bucket) (ip : String) (k : ℕ) (q : Proc) : Prop :=
  q.ip = ip ∧ ∃ retryAfter reply, q.phase = .announcing b k retryAfter reply

/-- The number of the window in which an event has been counted. -/
abbrev hitWindow (L : Limiter σ String ℚ) (limits : EnrollLimits) (g : Shared σ) (b : Bucket)
    (ip : String) : ℕ := (g.hit L limits b ip).2.lastWindow b ip

/-- An event trips its window when the count comes to the number at which the bucket trips. -/
theorem tripped_hit (h : Tracked L limits g) {b : Bucket} (hlimit : 0 < limits.limit b)
    (ip : String) (b' : Bucket) (ip' : String) (k : ℕ) :
    if b' = b ∧ ip' = ip ∧ k = hitWindow L limits g b ip ∧
        ((g.hit L limits b ip).1.count : ℤ) = limits.trip b then
      ¬Tripped limits b' ip' k g ∧ Tripped limits b' ip' k (g.hit L limits b ip).2
    else Tripped limits b' ip' k (g.hit L limits b ip).2 ↔ Tripped limits b' ip' k g := by
  have htrip : 1 ≤ limits.trip b := by
    cases b with
    | failures => exact hlimit
    | requests => exact le_of_lt (Int.lt_add_of_pos_left 1 hlimit)
  obtain ⟨hpos, hlast⟩ := h.count b ip
  obtain ⟨hnew, hold, hothers⟩ := windowCount_logged hpos hlast
  have hhistory : (g.hit L limits b ip).2.windows b ip =
      logged (g.hit L limits b ip).1.count (g.windows b ip) := by
    rw [windows_hit, if_pos ⟨rfl, rfl⟩]
  have hwindow : hitWindow L limits g b ip =
      (logged (g.hit L limits b ip).1.count (g.windows b ip)).length - 1 := by
    rw [hitWindow, Shared.lastWindow, hhistory]
  rw [hwindow]
  generalize (g.hit L limits b ip).1.count = n at *
  by_cases hbucket : b' = b ∧ ip' = ip
  · obtain ⟨rfl, rfl⟩ := hbucket
    by_cases hk : k = (logged n (g.windows b' ip')).length - 1
    · subst hk
      simp only [Tripped, hhistory, hnew, hold, Option.mem_def, true_and, Option.some.injEq,
        exists_eq_left']
      -- before the event the window had one less, or was not there
      have hbefore :
          (∃ m : ℕ, (if n = 1 then none else some (n - 1)) = some m ∧ limits.trip b' ≤ m) ↔
          limits.trip b' < n := by
        by_cases hone : n = 1
        · rw [if_pos hone]
          simp only [reduceCtorEq, false_and, exists_false, false_iff]
          omega
        · rw [if_neg hone]
          simp only [Option.some.injEq, exists_eq_left']
          omega
      rw [hbefore]
      split
      · omega
      · omega
    · rw [if_neg fun h ↦ hk h.2.2.1, Tripped, hhistory, hothers k hk, Tripped]
  · rw [if_neg fun h ↦ hbucket ⟨h.1, h.2.1⟩, Tripped, windows_hit, if_neg hbucket, Tripped]

/-- A step that touches neither the windows nor the lines, by a request that announces nothing
afterwards or the same as before. -/
theorem once_quiet {b : Bucket} {ip : String} {k : ℕ} (hwindows : g'.windows = g.windows)
    (hlines : g'.lines = g.lines)
    (hheld : (∃ q ∈ p', Announces b ip k q) ↔ ∃ q ∈ p, Announces b ip k q) :
    Config.OnceMove (lineCount b ip k) (Tripped limits b ip k) (Announces b ip k) g p g' p' := by
  refine .quiet ?_ ?_ hheld
  · rw [lineCount, lineCount, hlines]
  · rw [Tripped, Tripped, hwindows]

theorem not_announces {b : Bucket} {ip ip' : String} {k : ℕ} {phase : Phase}
    (h : ∀ window retryAfter reply, phase ≠ .announcing b window retryAfter reply) :
    ¬∃ q ∈ some (Proc.mk ip' phase), Announces b ip k q := by
  rintro ⟨q, hq, -, retryAfter, reply, hphase⟩
  cases hq
  exact h k retryAfter reply hphase

/-- An event is counted: the window trips and its request announces it, or neither. -/
theorem once_hit (h : Tracked L limits g) {b : Bucket} (hlimit : 0 < limits.limit b) {ip : String}
    {phase : Phase}
    (hphase : ∀ b' k, (∃ retryAfter reply, phase = .announcing b' k retryAfter reply) ↔
      b' = b ∧ k = hitWindow L limits g b ip ∧ ((g.hit L limits b ip).1.count : ℤ) = limits.trip b)
    {b' : Bucket} {ip' : String} {k : ℕ} (hp : ¬∃ q ∈ p, Announces b' ip' k q) :
    Config.OnceMove (lineCount b' ip' k) (Tripped limits b' ip' k) (Announces b' ip' k) g p
      (g.hit L limits b ip).2 (some ⟨ip, phase⟩) := by
  have hheld : (∃ q ∈ some (Proc.mk ip phase), Announces b' ip' k q) ↔ b' = b ∧ ip' = ip ∧
      k = hitWindow L limits g b ip ∧ ((g.hit L limits b ip).1.count : ℤ) = limits.trip b := by
    constructor
    · rintro ⟨q, hq, hip, hannounces⟩
      cases hq
      obtain ⟨hb, hrest⟩ := (hphase b' k).mp hannounces
      exact ⟨hb, hip.symm, hrest⟩
    · rintro ⟨hb, hip, hrest⟩
      exact ⟨_, rfl, hip.symm, (hphase b' k).mpr ⟨hb, hrest⟩⟩
  have htripped := tripped_hit h hlimit ip b' ip' k
  split at htripped
  · next hannounced => exact .begins rfl htripped.1 htripped.2 (hheld.mpr hannounced)
  · next hannounced =>
    exact .quiet rfl htripped ⟨fun hq ↦ absurd (hheld.mp hq) hannounced, fun hq ↦ absurd hq hp⟩

theorem countedPhase_announcing {b' : Bucket} {ip : String} {k : ℕ} :
    (∃ retryAfter reply, countedPhase limits (g.hit L limits .requests ip).1
        (hitWindow L limits g .requests ip) = .announcing b' k retryAfter reply) ↔
      b' = .requests ∧ k = hitWindow L limits g .requests ip ∧
        ((g.hit L limits .requests ip).1.count : ℤ) = limits.trip .requests := by
  have hallowed : (g.hit L limits .requests ip).1.allowed =
      decide (((g.hit L limits .requests ip).1.count : ℤ) ≤ limits.limit .requests) :=
    (hit_count .requests ip).2
  generalize (g.hit L limits .requests ip).1 = decision at *
  rw [countedPhase, hallowed]
  constructor
  · rintro ⟨retryAfter, reply, h⟩
    split at h
    · cases h
    · split at h
      · next hcount => cases h; exact ⟨rfl, rfl, hcount⟩
      · cases h
  · rintro ⟨rfl, rfl, hcount⟩
    have hdenied : ¬(decision.count : ℤ) ≤ limits.limit .requests := by
      rw [hcount]
      exact not_le_of_gt (Int.lt_succ _)
    have htrip : (decision.count : ℤ) = limits.requestLimit + 1 := hcount
    rw [decide_eq_false hdenied, if_neg Bool.false_ne_true, if_pos htrip]
    exact ⟨_, _, rfl⟩

theorem failurePhase_announcing {b' : Bucket} {ip : String} {k status : ℕ} :
    (∃ retryAfter reply, failurePhase limits (g.hit L limits .failures ip).1
        (hitWindow L limits g .failures ip) status = .announcing b' k retryAfter reply) ↔
      b' = .failures ∧ k = hitWindow L limits g .failures ip ∧
        ((g.hit L limits .failures ip).1.count : ℤ) = limits.trip .failures := by
  rw [failurePhase]
  constructor
  · rintro ⟨retryAfter, reply, h⟩
    split at h
    · next hcount => cases h; exact ⟨rfl, rfl, hcount⟩
    · cases h
  · rintro ⟨rfl, rfl, hcount⟩
    have htrip : ((g.hit L limits .failures ip).1.count : ℤ) = limits.failureLimit := hcount
    rw [if_pos htrip]
    exact ⟨_, _, rfl⟩

theorem once_move (h : Tracked L limits g) (hp : ∀ q, p = some q → CountsEnabled limits q)
    (hmove : Move L limits g p a g' p') (b : Bucket) (ip : String) (k : ℕ) :
    Config.OnceMove (lineCount b ip k) (Tripped limits b ip k) (Announces b ip k) g p g' p' := by
  -- a request that announces nothing before and after
  have hquiet {ip₁ ip₂ : String} {phase₁ phase₂ : Phase}
      (h₁ : ∀ window retryAfter reply, phase₁ ≠ .announcing b window retryAfter reply)
      (h₂ : ∀ window retryAfter reply, phase₂ ≠ .announcing b window retryAfter reply) :
      (∃ q ∈ some (Proc.mk ip₂ phase₂), Announces b ip k q) ↔
        ∃ q ∈ some (Proc.mk ip₁ phase₁), Announces b ip k q :=
    ⟨fun hq ↦ absurd hq (not_announces h₂), fun hq ↦ absurd hq (not_announces h₁)⟩
  cases hmove with
  | tick hle => exact once_quiet rfl rfl Iff.rfl
  | start =>
    refine once_quiet rfl rfl ⟨fun hq ↦ absurd hq (not_announces ?_), ?_⟩
    · rintro _ _ _ ⟨⟩
    · rintro ⟨_, ⟨⟩, -⟩
  | check hlimit =>
    refine once_quiet rfl rfl (hquiet ?_ ?_)
    · rintro _ _ _ ⟨⟩
    · intro window retryAfter reply
      rw [checkedPhase]
      split <;> exact Phase.noConfusion
  | count hlimit =>
    refine once_hit (b := .requests) h hlimit (fun _ _ ↦ countedPhase_announcing) (not_announces ?_)
    rintro _ _ _ ⟨⟩
  | countFailure =>
    refine once_hit (b := .failures) h (hp _ rfl _ rfl) (fun _ _ ↦ failurePhase_announcing)
      (not_announces ?_)
    rintro _ _ _ ⟨⟩
  | @emit ip' bucket window retryAfter reply =>
    have hdone : ¬∃ q ∈ some (Proc.mk ip' (.answered reply)), Announces b ip k q := by
      refine not_announces ?_
      rintro _ _ _ ⟨⟩
    by_cases htag : ip' = ip ∧ bucket = b ∧ window = k
    · refine .discharges ?_ Iff.rfl ?_ hdone
      · rw [lineCount, List.countP_cons_of_pos (by simpa using htag), lineCount]
      · obtain ⟨rfl, rfl, rfl⟩ := htag
        exact ⟨_, rfl, rfl, _, _, rfl⟩
    · refine .quiet ?_ Iff.rfl ⟨fun hq ↦ absurd hq hdone, ?_⟩
      · rw [lineCount, List.countP_cons_of_neg (by simpa using htag), lineCount]
      · rintro ⟨_, ⟨⟩, hip, _, _, hphase⟩
        cases hphase
        exact absurd ⟨hip, rfl, rfl⟩ htag
  | _ =>
    refine once_quiet rfl rfl (hquiet ?_ ?_)
    · rintro _ _ _ ⟨⟩
    · rintro _ _ _ ⟨⟩

/-! ## The lockout -/

/-- Until the end `r`, the window of the failures of an address is the one that ends then, and has
seen `n` of them or more. -/
def LockedUntil (L : Limiter σ String ℚ) (ip : String) (r : ℚ) (n : ℕ) (g : Shared σ) : Prop :=
  g.clock < r → ∃ w, openNow L g .failures ip = some w ∧ w.resetAt = r ∧ n ≤ w.count

theorem lockedUntil_move {ip : String} {r : ℚ} {n : ℕ} (h : LockedUntil L ip r n g)
    (hmove : Move L limits g p a g' p') : LockedUntil L ip r n g' := by
  have hsame {g' : Shared σ} (hclock : g'.clock = g.clock)
      (hopen : openNow L g' .failures ip = openNow L g .failures ip) : LockedUntil L ip r n g' := by
    rw [LockedUntil, hclock, hopen]
    exact h
  cases hmove with
  | tick hle =>
    intro hr
    obtain ⟨w, hw, hend, hcount⟩ := h (lt_of_le_of_lt hle hr)
    refine ⟨w, ?_, hend, hcount⟩
    rw [openNow_tick hle, hw]
    exact current_some_of_lt (hend ▸ hr)
  | check hlimit => exact hsame rfl (openNow_peek _ _ _)
  | @count ip' hlimit =>
    refine hsame rfl ?_
    rw [openNow_hit, if_neg]
    rintro ⟨⟨⟩, -⟩
  | @countFailure ip' status =>
    by_cases hip : ip = ip'
    · subst hip
      intro hr
      obtain ⟨w, hw, hend, hcount⟩ := h hr
      refine ⟨next (some w) g.clock (limits.window .failures), ?_, hend, Nat.le_succ_of_le hcount⟩
      rw [openNow_hit, if_pos ⟨rfl, rfl⟩, hw]
      exact current_some_of_lt (show g.clock < w.resetAt from hend ▸ hr)
    · refine hsame rfl ?_
      rw [openNow_hit, if_neg fun hkey ↦ hip hkey.2]
  | emit => exact hsame rfl rfl
  | _ => exact h

/-- A check that finds the failures at the limit refuses the request. -/
theorem locked_of_check (h : Tracked L limits g) {ip : String} {w : Window ℚ}
    (hopen : openNow L g .failures ip = some w) (hcount : limits.failureLimit ≤ w.count)
    (hmove : Move L limits g (some ⟨ip, .begun⟩) .check g' p') :
    ∃ retryAfter, p' = some ⟨ip, .answered (.tooMany retryAfter)⟩ := by
  have henabled : 0 < limits.failureLimit := by
    by_contra hdisabled
    have hlast := h.last .failures ip w hopen
    rw [h.disabled .failures ip (not_lt.mp hdisabled)] at hlast
    exact absurd hlast.symm (Option.some_ne_none _)
  cases hmove with
  | check hlimit =>
    have hdenied : (g.peek L limits ip).1.allowed = false := by
      rw [peek_allowed, hopen]
      exact decide_eq_false (not_lt.mpr hcount)
    rw [checkedPhase, hdenied]
    exact ⟨_, rfl⟩
  | unchecked hlimit => exact absurd henabled hlimit

/-- What has been answered stays so. -/
theorem answered_move {ip : String} {reply : Reply}
    (hmove : Move L limits g (some ⟨ip, .answered reply⟩) a g' p') :
    p' = some ⟨ip, .answered reply⟩ := by
  cases hmove
  rfl

/-! ## The other addresses -/

/-- Apart from what is about the address `ip`, the two are the same, and there is nothing about it
in the second one's log. -/
structure SharedAgrees (L : Limiter σ String ℚ) (ip : String) (g h : Shared σ) : Prop where
  clock : h.clock = g.clock
  openNow : ∀ b ip', ip' ≠ ip → openNow L h b ip' = openNow L g b ip'
  windows : ∀ b ip', ip' ≠ ip → h.windows b ip' = g.windows b ip'
  lines : h.lines = g.lines.filter fun l ↦ l.1.peer ≠ ip

variable {h : Shared σ} {ip : String}

theorem SharedAgrees.hit (hag : SharedAgrees L ip g h) {b : Bucket} {ip₀ : String}
    (hne : ip₀ ≠ ip) :
    (h.hit L limits b ip₀).1 = (g.hit L limits b ip₀).1 ∧
      SharedAgrees L ip (g.hit L limits b ip₀).2 (h.hit L limits b ip₀).2 := by
  have hdecision : (h.hit L limits b ip₀).1 = (g.hit L limits b ip₀).1 := by
    rw [hit_fst, hit_fst, hag.clock, hag.openNow b ip₀ hne]
  refine ⟨hdecision, hag.clock, ?_, ?_, hag.lines⟩
  · intro b' ip' hip'
    rw [openNow_hit, openNow_hit, hag.openNow b ip₀ hne, hag.clock, hag.openNow b' ip' hip']
  · intro b' ip' hip'
    rw [windows_hit, windows_hit, hdecision, hag.windows b ip₀ hne, hag.windows b' ip' hip']

theorem SharedAgrees.lastWindow (hag : SharedAgrees L ip g h) (b : Bucket) {ip₀ : String}
    (hne : ip₀ ≠ ip) : h.lastWindow b ip₀ = g.lastWindow b ip₀ := by
  rw [Shared.lastWindow, hag.windows b ip₀ hne, Shared.lastWindow]

theorem SharedAgrees.tick (hag : SharedAgrees L ip g h) {now : ℚ} (hle : g.clock ≤ now) :
    SharedAgrees L ip { g with clock := now } { h with clock := now } := by
  refine ⟨rfl, ?_, hag.windows, hag.lines⟩
  intro b ip' hip'
  rw [openNow_tick hle, openNow_tick (hag.clock ▸ hle), hag.openNow b ip' hip']

/-- A step of another address goes the same way. -/
theorem move_other (hag : SharedAgrees L ip g h) (hp : ∀ q ∈ p, q.ip ≠ ip)
    (hmove : Move L limits g p a g' p') :
    ∃ h', Move L limits h p a h' p' ∧ SharedAgrees L ip g' h' := by
  cases hmove with
  | tick hle => exact ⟨_, .tick (hag.clock ▸ hle), hag.tick hle⟩
  | @check ip₀ hlimit =>
    have hne : ip₀ ≠ ip := hp _ rfl
    have hdecision : (h.peek L limits ip₀).1 = (g.peek L limits ip₀).1 := by
      rw [peek_fst, peek_fst, hag.clock, hag.openNow .failures ip₀ hne]
    refine ⟨(h.peek L limits ip₀).2, ?_, hag.clock, ?_, hag.windows, hag.lines⟩
    · rw [← hdecision]
      exact .check hlimit
    · intro b ip' hip'
      rw [openNow_peek, openNow_peek, hag.openNow b ip' hip']
  | @count ip₀ hlimit =>
    have hne : ip₀ ≠ ip := hp _ rfl
    obtain ⟨hdecision, hagrees⟩ := hag.hit (b := .requests) hne
    refine ⟨(h.hit L limits .requests ip₀).2, ?_, hagrees⟩
    rw [← hdecision, ← hagrees.lastWindow .requests hne]
    exact .count hlimit
  | @countFailure ip₀ status =>
    have hne : ip₀ ≠ ip := hp _ rfl
    obtain ⟨hdecision, hagrees⟩ := hag.hit (b := .failures) hne
    refine ⟨(h.hit L limits .failures ip₀).2, ?_, hagrees⟩
    rw [← hdecision, ← hagrees.lastWindow .failures hne]
    exact .countFailure
  | @emit ip₀ bucket window retryAfter reply =>
    refine ⟨_, .emit, hag.clock, hag.openNow, hag.windows, ?_⟩
    rw [List.filter_cons_of_pos (by simpa using hp _ rfl), hag.lines]
  | start => exact ⟨h, .start, hag⟩
  | unchecked hlimit => exact ⟨h, .unchecked hlimit, hag⟩
  | uncounted hlimit => exact ⟨h, .uncounted hlimit, hag⟩
  | raised => exact ⟨h, .raised, hag⟩
  | failed hfailed => exact ⟨h, .failed hfailed, hag⟩
  | replied hreplied => exact ⟨h, .replied hreplied, hag⟩

/-- A request keeps its address. -/
theorem ip_of_move {q : Proc} (hmove : Move L limits g (some q) a g' p') :
    ∃ q', p' = some q' ∧ q'.ip = q.ip := by
  cases hmove <;> exact ⟨_, rfl, rfl⟩

/-- A step of the address itself changes nothing that is about the others. -/
theorem move_own (hag : SharedAgrees L ip g h) {phase : Phase} (ha : ∀ now, a ≠ .tick now)
    (hmove : Move L limits g (some ⟨ip, phase⟩) a g' p') : SharedAgrees L ip g' h := by
  have hhit (b : Bucket) : SharedAgrees L ip (g.hit L limits b ip).2 h := by
    refine ⟨hag.clock, ?_, ?_, hag.lines⟩
    · intro b' ip' hip'
      rw [openNow_hit, if_neg fun hkey ↦ hip' hkey.2, hag.openNow b' ip' hip']
    · intro b' ip' hip'
      rw [windows_hit, if_neg fun hkey ↦ hip' hkey.2, hag.windows b' ip' hip']
  cases hmove with
  | tick hle => exact absurd rfl (ha _)
  | check hlimit =>
    refine ⟨hag.clock, ?_, hag.windows, hag.lines⟩
    intro b' ip' hip'
    rw [openNow_peek, hag.openNow b' ip' hip']
  | count hlimit => exact hhit .requests
  | countFailure => exact hhit .failures
  | emit =>
    refine ⟨hag.clock, hag.openNow, hag.windows, ?_⟩
    rw [List.filter_cons_of_neg (by simp), hag.lines]
  | _ => exact hag

end

section

variable {σ : Type*} {L : Limiter σ String ℚ} {limits : EnrollLimits} {ip : String}
  {c c' d : Config (Shared σ) Proc} {e : ℕ × Act} {es : List (ℕ × Act)}

/-! ## Runs -/

/-- What holds throughout a run of the middleware. -/
structure Invariant (L : Limiter σ String ℚ) (limits : EnrollLimits) (c : Config (Shared σ) Proc) :
    Prop where
  tracked : Config.Inv (Tracked L limits) (fun _ _ q ↦ CountsEnabled limits q) c
  once : ∀ b ip k, Config.Once (lineCount b ip k) (Tripped limits b ip k) (Announces b ip k) c

theorem invariant_step (hc : Invariant L limits c) (hstep : step L limits c e = some c') :
    Invariant L limits c' := by
  refine ⟨?_, fun b ip k ↦ ?_⟩
  · refine Config.inv_step hc.tracked hstep fun g' p' hf ↦ ?_
    have hmove := move_iff.mp hf
    exact ⟨tracked_move hc.tracked.shared (hc.tracked.proc e.1) hmove,
      countsEnabled_move (hc.tracked.proc e.1) hmove, fun _ _ _ hq ↦ hq⟩
  · refine Config.once_step (hc.once b ip k) hstep fun g' p' hf ↦ ?_
    exact once_move hc.tracked.shared (hc.tracked.proc e.1) (move_iff.mp hf) b ip k

theorem invariant_initial {s : σ} {now : ℚ} (hfresh : ∀ now key, L.openWindow s now key = none) :
    Invariant L limits (initial s now) := by
  refine ⟨⟨⟨?_, fun _ _ _ ↦ rfl⟩, ?_⟩, fun b ip k ↦ .idle ?_ rfl ?_⟩
  · intro b ip w hw
    rw [Option.mem_def, openNow, initial, hfresh] at hw
    exact absurd hw.symm (Option.some_ne_none _)
  · intro i q hq
    exact absurd hq.symm (Option.some_ne_none _)
  · rintro ⟨n, hn, -⟩
    exact absurd hn.symm (Option.some_ne_none _)
  · intro i q hq
    exact absurd hq.symm (Option.some_ne_none _)

theorem invariant_run (hc : Invariant L limits c) (hrun : Run.run (step L limits) c es = some c') :
    Invariant L limits c' := Run.run_invariant' (fun _ _ _ hI ↦ invariant_step hI) hc hrun

theorem lockedUntil_run {r : ℚ} {n : ℕ} (hc : LockedUntil L ip r n c.shared)
    (hrun : Run.run (step L limits) c es = some c') : LockedUntil L ip r n c'.shared := by
  refine Run.run_invariant' (I := fun c ↦ LockedUntil L ip r n c.shared) ?_ hc hrun
  intro c e c' hI hstep
  obtain ⟨g', p', hf, rfl⟩ := Config.step_eq_some.mp hstep
  exact lockedUntil_move hI (move_iff.mp hf)

theorem answered_run {i : ℕ} {reply : Reply} (hc : c.proc i = some ⟨ip, .answered reply⟩)
    (hrun : Run.run (step L limits) c es = some c') : c'.proc i = some ⟨ip, .answered reply⟩ := by
  refine Run.run_invariant' (I := fun c ↦ c.proc i = some ⟨ip, .answered reply⟩) ?_ hc hrun
  intro c e c' hI hstep
  obtain ⟨g', p', hf, rfl⟩ := Config.step_eq_some.mp hstep
  by_cases hi : i = e.1
  · subst hi
    rw [hI] at hf
    simp only [Function.update_self]
    exact answered_move (move_iff.mp hf)
  · simp only [Function.update_of_ne hi]
    exact hI

/-- The step is one of a request from the address. -/
def Concerns (ip : String) (c : Config (Shared σ) Proc) (e : ℕ × Act) : Bool :=
  match c.proc e.1, e.2 with
  | _, .tick _ => false
  | none, .start ip' => ip' = ip
  | none, _ => false
  | some q, _ => q.ip = ip

/-- The run without the requests from the address. -/
def without (L : Limiter σ String ℚ) (limits : EnrollLimits) (ip : String) :
    Config (Shared σ) Proc → List (ℕ × Act) → List (ℕ × Act)
  | _, [] => []
  | c, e :: es =>
    let rest := ((step L limits c e).map fun c' ↦ without L limits ip c' es).getD []
    if Concerns ip c e then rest else e :: rest

/-- The second one is what the first one would be without the requests from the address. -/
structure Agrees (L : Limiter σ String ℚ) (ip : String) (c d : Config (Shared σ) Proc) : Prop where
  shared : SharedAgrees L ip c.shared d.shared
  proc : ∀ i, d.proc i = (c.proc i).filter fun q ↦ q.ip ≠ ip

theorem agrees_update {g' h' : Shared σ} {p' r' : Option Proc} {i : ℕ} (hag : Agrees L ip c d)
    (hshared : SharedAgrees L ip g' h') (hr : r' = p'.filter fun q ↦ q.ip ≠ ip) :
    Agrees L ip ⟨g', Function.update c.proc i p'⟩ ⟨h', Function.update d.proc i r'⟩ := by
  refine ⟨hshared, fun j ↦ ?_⟩
  by_cases hj : j = i
  · subst hj
    simp only [Function.update_self]
    exact hr
  · simp only [Function.update_of_ne hj]
    exact hag.proc j

/-- The run without the address takes every step that is not one of its own. -/
theorem agrees_step (hag : Agrees L ip c d) (hstep : step L limits c e = some c') :
    if Concerns ip c e then Agrees L ip c' d
    else ∃ d', step L limits d e = some d' ∧ Agrees L ip c' d' := by
  obtain ⟨i, a⟩ := e
  obtain ⟨g', p', hf, rfl⟩ := Config.step_eq_some.mp hstep
  have hmove : Move L limits c.shared (c.proc i) a g' p' := move_iff.mp hf
  have hproc := hag.proc i
  have hskip (hshared : SharedAgrees L ip g' d.shared)
      (hr : d.proc i = p'.filter fun q ↦ q.ip ≠ ip) :
      Agrees L ip ⟨g', Function.update c.proc i p'⟩ d := by
    have hsame := agrees_update (i := i) hag hshared hr
    rwa [Function.update_eq_self] at hsame
  have htake {h' : Shared σ} {r' : Option Proc} (hd : Move L limits d.shared (d.proc i) a h' r')
      (hshared : SharedAgrees L ip g' h') (hr : r' = p'.filter fun q ↦ q.ip ≠ ip) :
      ∃ d', step L limits d (i, a) = some d' ∧
        Agrees L ip ⟨g', Function.update c.proc i p'⟩ d' :=
    ⟨_, Config.step_eq_some.mpr ⟨h', r', move_iff.mpr hd, rfl⟩, agrees_update hag hshared hr⟩
  by_cases htick : ∃ now, a = .tick now
  · -- time passes for everyone
    obtain ⟨now, rfl⟩ := htick
    rw [if_neg (by simp [Concerns])]
    generalize c.proc i = p at hmove hproc
    cases hmove with
    | tick hle => exact htake (.tick (hag.shared.clock ▸ hle)) (hag.shared.tick hle) hproc
  · have hne : ∀ now, a ≠ .tick now := fun now h ↦ htick ⟨now, h⟩
    rcases hp : c.proc i with _ | q
    · rw [hp] at hmove hproc
      rw [Option.filter_none] at hproc
      cases hmove with
      | tick hle => exact absurd rfl (hne _)
      | @start ip' =>
        by_cases hip : ip' = ip
        · rw [if_pos (by simp [Concerns, hp, hip])]
          exact hskip hag.shared (by rw [hproc, Option.filter_some]; simp [hip])
        · rw [if_neg (by simp [Concerns, hp, hip])]
          have hstart : Move L limits d.shared (d.proc i) (.start ip') d.shared
              (some ⟨ip', .begun⟩) := by
            rw [hproc]
            exact .start
          exact htake hstart hag.shared (by rw [Option.filter_some, if_pos (by simpa using hip)])
    · rw [hp] at hmove hproc
      rw [Option.filter_some] at hproc
      obtain ⟨q', rfl, hq'⟩ := ip_of_move hmove
      have hconcerns : Concerns ip c (i, a) = decide (q.ip = ip) := by
        rw [Concerns, hp]
        cases a <;> first | rfl | exact absurd rfl (hne _)
      by_cases hip : q.ip = ip
      · rw [hconcerns, if_pos (by simpa using hip)]
        subst hip
        refine hskip (move_own hag.shared hne hmove) ?_
        rw [hproc, Option.filter_some, hq', if_neg (by simp), if_neg (by simp)]
      · rw [hconcerns, if_neg (by simpa using hip)]
        rw [if_pos (by simpa using hip)] at hproc
        obtain ⟨h', hd, hshared⟩ :=
          move_other hag.shared (fun r hr ↦ Option.some.inj hr ▸ hip) hmove
        refine htake (hproc ▸ hd) hshared ?_
        rw [Option.filter_some, if_pos (by simpa [hq'] using hip)]

theorem agrees_run (hag : Agrees L ip c d) (hrun : Run.run (step L limits) c es = some c') :
    ∃ d', Run.run (step L limits) d (without L limits ip c es) = some d' ∧ Agrees L ip c' d' := by
  induction es generalizing c d with
  | nil =>
    cases hrun
    exact ⟨d, rfl, hag⟩
  | cons e es ih =>
    obtain ⟨c₁, hstep, hrest⟩ := (Run.run_cons_eq_some _).mp hrun
    have hsim := agrees_step hag hstep
    rw [without, hstep, Option.map_some, Option.getD_some]
    split at hsim
    · next hconcerns =>
      rw [if_pos hconcerns]
      exact ih hsim hrest
    · next hconcerns =>
      rw [if_neg hconcerns]
      obtain ⟨d₁, hd₁, hag₁⟩ := hsim
      obtain ⟨d', hd', hag'⟩ := ih hag₁ hrest
      exact ⟨d', (Run.run_cons_eq_some _).mpr ⟨d₁, hd₁, hd'⟩, hag'⟩

/-- **The lockout and its audit line.**  In every run of the middleware, over any limiter that keeps
fixed windows and begins without any:

* once the failures of an address have come to the limit, a request of that address whose check
  comes before the end of the window is answered 429, and stays so;
* without the requests of one address, the run would go the same for all others;
* of each window of each bucket, one line is written or about to be written when it has tripped, and
  none otherwise. -/
theorem lockout_and_audit_line {s : σ} {now : ℚ} (hfresh : ∀ now key, L.openWindow s now key = none)
    (hrun : Run.run (step L limits) (initial s now) es = some c) :
    (∀ ip w, openNow L c.shared .failures ip = some w → limits.failureLimit ≤ w.count →
      ∀ later c', Run.run (step L limits) c later = some c' → c'.shared.clock < w.resetAt →
      ∀ i c'', c'.proc i = some ⟨ip, .begun⟩ → step L limits c' (i, .check) = some c'' →
      ∃ retryAfter, ∀ rest d, Run.run (step L limits) c'' rest = some d →
        d.proc i = some ⟨ip, .answered (.tooMany retryAfter)⟩) ∧
    (∀ ip, ∃ d, Run.run (step L limits) (initial s now)
      (without L limits ip (initial s now) es) = some d ∧ Agrees L ip c d) ∧
    ∀ b ip k,
      (Tripped limits b ip k c.shared →
        (lineCount b ip k c.shared = 1 ∧ ∀ i q, c.proc i = some q → ¬Announces b ip k q) ∨
          (lineCount b ip k c.shared = 0 ∧ ∃ i, ∃ q ∈ c.proc i, Announces b ip k q)) ∧
      (¬Tripped limits b ip k c.shared → lineCount b ip k c.shared = 0) := by
  have hinv : Invariant L limits c := invariant_run (invariant_initial hfresh) hrun
  refine ⟨?_, ?_, ?_⟩
  · intro ip w hopen hcount later c' hlater hclock i c'' hbegun hcheck
    have hlocked : LockedUntil L ip w.resetAt w.count c.shared :=
      fun _ ↦ ⟨w, hopen, rfl, Nat.le_refl _⟩
    obtain ⟨w', hopen', -, hcount'⟩ := lockedUntil_run hlocked hlater hclock
    obtain ⟨g', p', hf, rfl⟩ := Config.step_eq_some.mp hcheck
    rw [hbegun] at hf
    have htracked : Tracked L limits c'.shared := (invariant_run hinv hlater).tracked.shared
    have hreached : limits.failureLimit ≤ w'.count := le_trans hcount (by exact_mod_cast hcount')
    obtain ⟨retryAfter, rfl⟩ := locked_of_check htracked hopen' hreached (move_iff.mp hf)
    refine ⟨retryAfter, fun rest d hrest ↦ answered_run ?_ hrest⟩
    simp only [Function.update_self]
  · intro ip
    refine agrees_run ⟨⟨rfl, fun _ _ _ ↦ rfl, fun _ _ _ ↦ rfl, rfl⟩, fun _ ↦ rfl⟩ hrun
  · intro b ip k
    rcases hinv.once b ip k with ⟨hdue, hdone, -⟩ | ⟨i, hdue, hdone, hheld, -⟩ |
      ⟨hdue, hdone, hnone⟩
    · exact ⟨fun htripped ↦ absurd htripped hdue, fun _ ↦ hdone⟩
    · exact ⟨fun _ ↦ .inr ⟨hdone, i, hheld⟩, fun hnot ↦ absurd hdue hnot⟩
    · exact ⟨fun _ ↦ .inl ⟨hdone, hnone⟩, fun hnot ↦ absurd hdue hnot⟩

/-- Two failures of `192.0.2.1` with a limit of one, the second begun before the first is counted,
and a third request. -/
def twoFailures : List (ℕ × Act) :=
  [(0, .start "192.0.2.1"), (1, .start "192.0.2.1"), (0, .check), (1, .check), (0, .count),
    (1, .count),
    (0, .endpoint (some 401)), (1, .endpoint (some 401)), (0, .countFailure), (1, .countFailure),
    (0, .emit), (2, .start "192.0.2.1")]

/-- The state after that. -/
abbrev afterTwoFailures : Option (Config (Shared MemoryLimiter.Windows) Proc) :=
  Run.run (step MemoryLimiter.limiter { failureLimit := 1 }) (initial (fun _ ↦ none) 0) twoFailures

/-- One line is written for the two, and the third request is refused. -/
theorem lockout_and_audit_line_twoFailures :
    ∃ c, afterTwoFailures = some c ∧ lineCount .failures "192.0.2.1" 0 c.shared = 1 ∧
      ∃ c', step MemoryLimiter.limiter { failureLimit := 1 } c (2, .check) = some c' ∧
        ∃ retryAfter, c'.proc 2 = some ⟨"192.0.2.1", .answered (.tooMany retryAfter)⟩ := by
  obtain ⟨c, hrun⟩ : ∃ c, afterTwoFailures = some c :=
    Option.isSome_iff_exists.mp (by decide +kernel)
  have hlines :
      afterTwoFailures.map (fun c ↦ lineCount .failures "192.0.2.1" 0 c.shared) = some 1 := by
    decide +kernel
  have hopen : afterTwoFailures.bind (fun c ↦ openNow MemoryLimiter.limiter c.shared .failures
      "192.0.2.1") = some ⟨2, 600, by decide⟩ := by
    decide +kernel
  have hclock : afterTwoFailures.map (fun c ↦ c.shared.clock) = some 0 := by
    decide +kernel
  have hbegun : afterTwoFailures.bind (fun c ↦ c.proc 2) = some ⟨"192.0.2.1", .begun⟩ := by
    decide +kernel
  have hchecks : (afterTwoFailures.bind fun c ↦
      step MemoryLimiter.limiter { failureLimit := 1 } c (2, .check)).isSome = true := by
    decide +kernel
  rw [hrun, Option.map_some, Option.some.injEq] at hlines hclock
  rw [hrun, Option.bind_some] at hopen hbegun hchecks
  obtain ⟨c', hcheck⟩ := Option.isSome_iff_exists.mp hchecks
  obtain ⟨retryAfter, hrefused⟩ :=
    (lockout_and_audit_line (fun _ _ ↦ rfl) hrun).1 "192.0.2.1" _ hopen
    (by decide) [] c rfl (by rw [hclock]; norm_num) 2 c' hbegun hcheck
  exact ⟨c, hrun, hlines, c', hcheck, retryAfter, hrefused [] c' rfl⟩

end

end Lockout

end WgManager
