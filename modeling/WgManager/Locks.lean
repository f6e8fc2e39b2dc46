import Mathlib.Data.Int.Notation
import WgManager.Lib.Interleave

/-!
# Advisory locks

`task_row_lock` of `locks.py` takes a named lock of MySQL on a connection of its own, runs a block,
and releases the lock on the same connection.  Any number of tasks do so at once, and each of them
has a session that takes connections from the same pool and gives them back.

MySQL ties a named lock to a connection.  A connection that goes back to the pool with a lock keeps
it until the worker ends, so that every later task on the row is skipped.  What each step of the
manager does to the pool and to the locks is in `stepLock`; that it strands none, whatever
`GET_LOCK` and `RELEASE_LOCK` answer and however the block ends, is
`task_row_lock_never_strands_a_lock`.
-/

set_option autoImplicit false

namespace WgManager.Locks

/-! ## The pool and the server -/

/-- What a task uses a connection for. -/
inductive Role
  | lock
  | session
  deriving DecidableEq

inductive Status
  | unopened
  /-- In the pool. -/
  | idle
  | closed
  | out (task : ℕ) (role : Role)
  deriving DecidableEq

/-- A named lock: the connection that holds it, and how often it was granted. -/
structure Hold where
  conn : ℕ
  count : ℕ
  deriving DecidableEq

inductive GetLock
  | granted
  | timedOut
  | null
  /-- A driver error. -/
  | error
  deriving DecidableEq

inductive ReleaseLock
  | one
  | zero
  | null
  /-- A driver error, when the server has released the lock or has not. -/
  | error (released : Bool)
  deriving DecidableEq

/-- A statement about a named lock, and what became of it. -/
inductive Statement
  | getLock (task conn : ℕ) (name : String) (outcome : GetLock)
  | releaseLock (task conn : ℕ) (name : String) (outcome : ReleaseLock)
  deriving DecidableEq

/-- The connections of the pool, the locks of the server, and the statements about them, the last
one first. -/
structure Pool where
  status : ℕ → Status
  holder : String → Option Hold
  log : List Statement

namespace Pool

/-- A pool with these connections in it, and no locks. -/
def start (idle : ℕ → Bool) : Pool where
  status conn := if idle conn then .idle else .unopened
  holder _ := none
  log := []

/-- A task takes a connection that is in the pool or opens a new one. -/
def checkout (g : Pool) (task : ℕ) (role : Role) (conn : ℕ) : Option Pool :=
  if g.status conn = .idle ∨ g.status conn = .unopened then
    some { g with status := Function.update g.status conn (.out task role) }
  else none

/-- A connection goes back to the pool. -/
def checkin (g : Pool) (conn : ℕ) : Pool :=
  { g with status := Function.update g.status conn .idle }

/-- A connection is closed; the server drops its locks. -/
def discard (g : Pool) (conn : ℕ) : Pool :=
  { g with
    status := Function.update g.status conn .closed
    holder := fun name ↦ (g.holder name).filter (·.conn ≠ conn) }

def record (g : Pool) (statement : Statement) : Pool := { g with log := statement :: g.log }

/-- The server grants a lock that is free, or that the connection has. -/
def grant (g : Pool) (name : String) (conn : ℕ) : Option Pool :=
  match g.holder name with
  | none => some { g with holder := Function.update g.holder name (some ⟨conn, 1⟩) }
  | some hold =>
    if hold.conn = conn then
      some { g with holder := Function.update g.holder name (some ⟨conn, hold.count + 1⟩) }
    else none

/-- The server releases a lock that the connection has. -/
def release (g : Pool) (name : String) (conn : ℕ) : Option Pool :=
  match g.holder name with
  | none => none
  | some hold =>
    let rest := if hold.count ≤ 1 then none else some ⟨conn, hold.count - 1⟩
    if hold.conn = conn then some { g with holder := Function.update g.holder name rest } else none

end Pool

/-! ## A task -/

section

variable (ε : Type)

/-- What `task_row_lock` raises; `callers` is an exception of the block. -/
inductive Raised
  | valueError (message : String)
  | connectError
  | driverError
  | callers (e : ε)

/-- Where a task is in `task_row_lock`. -/
inductive Phase
  /-- About to call. -/
  | calling
  /-- About to take a connection. -/
  | connecting
  /-- About to send `GET_LOCK`. -/
  | getting (conn : ℕ)
  /-- In the block; there is no connection unless the database is MySQL. -/
  | inside (conn : Option ℕ) (acquired : Bool)
  /-- In the `finally` clause, about to send `RELEASE_LOCK`. -/
  | releasing (conn : ℕ) (pending : Option (Raised ε))
  /-- In its `except` clause, about to invalidate the connection. -/
  | invalidating (conn : ℕ) (pending : Option (Raised ε))
  /-- About to close the connection, which may have been discarded. -/
  | closing (conn : Option ℕ) (pending : Option (Raised ε))
  /-- Back with the caller, to whom `pending` is raised. -/
  | finished (pending : Option (Raised ε))

/-- A task that calls `task_row_lock(session, scope, row_id)`. -/
structure Task where
  scope : String
  rowId : ℤ
  isMysqlSession : Bool
  phase : Phase ε := .calling
  /-- The connection that its session has. -/
  session : Option ℕ := none
  /-- What the block was entered with. -/
  entered : Option Bool := none
  /-- How the block was left. -/
  left : Option (Option ε) := none

/-- What a task does next in `task_row_lock`. -/
inductive Action
  | call
  /-- `none` stands for an exception. -/
  | connect (conn : Option ℕ)
  | getLock (outcome : GetLock)
  /-- The block ends, by an exception or not. -/
  | leave (raised : Option ε)
  | releaseLock (outcome : ReleaseLock)
  | invalidate
  | close

/-- What the session of the caller does, at any time. -/
inductive SessionAction
  /-- It takes a connection. -/
  | begin (conn : ℕ)
  /-- It commits or rolls back; its connection goes back to the pool, or is closed. -/
  | finish (kept : Bool)

end

section

variable {ε : Type}

/-- `lock_name_for`. -/
def lockNameFor (scope : String) (rowId : ℤ) : Except (Raised ε) String :=
  if scope = "" then .error (.valueError "lock scope must be a non-empty string")
  else if rowId ≤ 0 then .error (.valueError s!"lock row_id must be positive; got {rowId}")
  else .ok s!"wgm:{scope}:{rowId}"

/-- The name of the lock. -/
def Task.name (q : Task ε) : String := s!"wgm:{q.scope}:{q.rowId}"

/-- One step of `task_row_lock`. -/
def stepLock (task : ℕ) (g : Pool) (q : Task ε) (a : Action ε) : Option (Pool × Task ε) :=
  match q.phase, a with
  | .calling, .call =>
    match (lockNameFor q.scope q.rowId : Except (Raised ε) String) with
    | .error e => some (g, { q with phase := .finished (some e) })
    | .ok _ =>
      if q.isMysqlSession then some (g, { q with phase := .connecting })
      else some (g, { q with phase := .inside none true, entered := some true })
  | .connecting, .connect none => some (g, { q with phase := .finished (some .connectError) })
  | .connecting, .connect (some conn) =>
    (g.checkout task .lock conn).map fun g ↦ (g, { q with phase := .getting conn })
  | .getting conn, .getLock .granted =>
    ((g.record (.getLock task conn q.name .granted)).grant q.name conn).map fun g ↦
      (g, { q with phase := .inside (some conn) true, entered := some true })
  | .getting conn, .getLock .error =>
    -- SQLAlchemy discards the connection; the `finally` clause has nothing to release
    some ((g.record (.getLock task conn q.name .error)).discard conn,
      { q with phase := .closing none (some .driverError) })
  | .getting conn, .getLock outcome =>
    some (g.record (.getLock task conn q.name outcome),
      { q with phase := .inside (some conn) false, entered := some false })
  | .inside none _, .leave raised =>
    some (g, { q with phase := .finished (raised.map .callers), left := some raised })
  | .inside (some conn) true, .leave raised =>
    some (g, { q with phase := .releasing conn (raised.map .callers), left := some raised })
  | .inside (some conn) false, .leave raised =>
    some (g, { q with phase := .closing (some conn) (raised.map .callers), left := some raised })
  | .releasing conn pending, .releaseLock .one =>
    ((g.record (.releaseLock task conn q.name .one)).release q.name conn).map fun g ↦
      (g, { q with phase := .closing (some conn) pending })
  | .releasing conn pending, .releaseLock (.error true) =>
    ((g.record (.releaseLock task conn q.name (.error true))).release q.name conn).map fun g ↦
      (g, { q with phase := .invalidating conn pending })
  | .releasing conn pending, .releaseLock outcome =>
    some (g.record (.releaseLock task conn q.name outcome),
      { q with phase := .invalidating conn pending })
  | .invalidating conn pending, .invalidate =>
    some (g.discard conn, { q with phase := .closing none pending })
  | .closing (some conn) pending, .close =>
    some (g.checkin conn, { q with phase := .finished pending })
  | .closing none pending, .close => some (g, { q with phase := .finished pending })
  | _, _ => none

/-- One step of the session. -/
def stepSession (task : ℕ) (g : Pool) (q : Task ε) : SessionAction → Option (Pool × Task ε)
  | .begin conn =>
    match q.session with
    | some _ => none
    | none => (g.checkout task .session conn).map fun g ↦ (g, { q with session := some conn })
  | .finish kept =>
    q.session.map fun conn ↦
      (if kept then g.checkin conn else g.discard conn, { q with session := none })

/-- One step of a task. -/
def stepTask (task : ℕ) (g : Pool) :
    Option (Task ε) → Action ε ⊕ SessionAction → Option (Pool × Option (Task ε))
  | none, _ => none
  | some q, .inl a => (stepLock task g q a).map fun r ↦ (r.1, some r.2)
  | some q, .inr a => (stepSession task g q a).map fun r ↦ (r.1, some r.2)

end

/-! ## What a step does to others -/

section

variable {g g' : Pool} {task conn : ℕ} {role : Role} {name : String}

/-- What others have is as it was. -/
structure Frame (task : ℕ) (g g' : Pool) : Prop where
  status : ∀ c other role, other ≠ task →
    (g'.status c = .out other role ↔ g.status c = .out other role)
  holder : ∀ name hold other role, other ≠ task → g.status hold.conn = .out other role →
    (g'.holder name = some hold ↔ g.holder name = some hold)
  log : ∀ statement ∈ g.log, statement ∈ g'.log

/-- Not a connection of another task. -/
def NotOthers (task : ℕ) (s : Status) : Prop := ∀ other role, other ≠ task → s ≠ .out other role

theorem notOthers_out : NotOthers task (.out task role) := by
  rintro other role' hne ⟨⟩
  exact hne rfl

theorem status_update {s : Status} (h : NotOthers task (g.status conn)) (hs : NotOthers task s)
    (c other : ℕ) (role : Role) (hne : other ≠ task) :
    Function.update g.status conn s c = .out other role ↔ g.status c = .out other role := by
  by_cases hc : c = conn
  · subst hc
    rw [Function.update_self]
    exact iff_of_false (hs other role hne) (h other role hne)
  · rw [Function.update_of_ne hc]

/-- A lock of a connection of the task is no lock of another. -/
theorem holder_update {new : Option Hold} (hout : g.status conn = .out task .lock)
    (hold₀ : ∀ hold ∈ g.holder name, hold.conn = conn) (hnew : ∀ hold ∈ new, hold.conn = conn)
    (n : String) (hold : Hold) (other : ℕ) (role : Role) (hne : other ≠ task)
    (hstatus : g.status hold.conn = .out other role) :
    Function.update g.holder name new n = some hold ↔ g.holder n = some hold := by
  have hconn : hold.conn ≠ conn := by
    intro heq
    rw [heq, hout] at hstatus
    cases hstatus
    exact hne rfl
  by_cases hn : n = name
  · subst hn
    rw [Function.update_self]
    exact iff_of_false (fun h ↦ hconn (hnew hold h)) fun h ↦ hconn (hold₀ hold h)
  · rw [Function.update_of_ne hn]

theorem frame_refl (task : ℕ) (g : Pool) : Frame task g g :=
  ⟨fun _ _ _ _ ↦ .rfl, fun _ _ _ _ _ _ ↦ .rfl, fun _ h ↦ h⟩

theorem Frame.trans {g'' : Pool} (h : Frame task g g') (h' : Frame task g' g'') :
    Frame task g g'' where
  status c other role hne := (h'.status c other role hne).trans (h.status c other role hne)
  holder name hold other role hne hstatus :=
    (h'.holder name hold other role hne ((h.status _ other role hne).mpr hstatus)).trans
      (h.holder name hold other role hne hstatus)
  log statement hmem := h'.log statement (h.log statement hmem)

theorem frame_record (task : ℕ) (g : Pool) (statement : Statement) :
    Frame task g (g.record statement) :=
  ⟨fun _ _ _ _ ↦ .rfl, fun _ _ _ _ _ _ ↦ .rfl, fun _ h ↦ List.mem_cons_of_mem statement h⟩

theorem checkout_eq_some (h : g.checkout task role conn = some g') :
    (g.status conn = .idle ∨ g.status conn = .unopened) ∧
      g' = { g with status := Function.update g.status conn (.out task role) } := by
  rw [Pool.checkout, Option.ite_none_right_eq_some] at h
  exact ⟨h.1, (Option.some.inj h.2).symm⟩

theorem frame_checkout (h : g.checkout task role conn = some g') : Frame task g g' := by
  obtain ⟨hfree, rfl⟩ := checkout_eq_some h
  have hothers : NotOthers task (g.status conn) := by
    intro other role' _ heq
    rcases hfree with hidle | hunopened
    · rw [hidle] at heq
      cases heq
    · rw [hunopened] at heq
      cases heq
  exact ⟨fun c other role' hne ↦ status_update hothers notOthers_out c other role' hne,
    fun _ _ _ _ _ _ ↦ .rfl, fun _ hmem ↦ hmem⟩

theorem frame_checkin (h : g.status conn = .out task role) : Frame task g (g.checkin conn) where
  status c other role' hne :=
    status_update (h ▸ notOthers_out) (fun _ _ _ heq ↦ by cases heq) c other role' hne
  holder _ _ _ _ _ _ := .rfl
  log _ hmem := hmem

theorem frame_discard (h : g.status conn = .out task role) : Frame task g (g.discard conn) where
  status c other role' hne :=
    status_update (h ▸ notOthers_out) (fun _ _ _ heq ↦ by cases heq) c other role' hne
  holder n hold other role' hne hstatus := by
    have hconn : hold.conn ≠ conn := by
      intro heq
      rw [heq, h] at hstatus
      cases hstatus
      exact hne rfl
    rw [Pool.discard, Option.filter_eq_some_iff]
    exact and_iff_left (decide_eq_true hconn)
  log _ hmem := hmem

theorem grant_eq_some (h : g.grant name conn = some g') :
    (∀ hold ∈ g.holder name, hold.conn = conn) ∧ ∃ k,
      (g.holder name = none → k = 1) ∧
        g' = { g with holder := Function.update g.holder name (some ⟨conn, k⟩) } := by
  rw [Pool.grant] at h
  cases hholder : g.holder name with
  | none =>
    rw [hholder] at h
    cases h
    exact ⟨fun hold hmem ↦ (by cases hmem), 1, fun _ ↦ rfl, rfl⟩
  | some hold =>
    rw [hholder] at h
    dsimp only at h
    split at h
    · next hconn =>
      cases h
      refine ⟨fun hold' hmem ↦ ?_, _, nofun, rfl⟩
      cases hmem
      exact hconn
    · cases h

theorem frame_grant (hout : g.status conn = .out task .lock) (h : g.grant name conn = some g') :
    Frame task g g' := by
  obtain ⟨hold₀, k, -, rfl⟩ := grant_eq_some h
  refine ⟨fun _ _ _ _ ↦ .rfl, fun n hold other role hne hstatus ↦ ?_, fun _ hmem ↦ hmem⟩
  exact holder_update hout hold₀ (fun hold' hmem ↦ by cases hmem; rfl) n hold other role hne hstatus

theorem release_eq_some (h : g.release name conn = some g') :
    ∃ hold rest, g.holder name = some hold ∧ hold.conn = conn ∧
      (hold.count = 1 → rest = none) ∧ (∀ hold' ∈ rest, hold'.conn = conn) ∧
        g' = { g with holder := Function.update g.holder name rest } := by
  rw [Pool.release] at h
  cases hholder : g.holder name with
  | none =>
    rw [hholder] at h
    cases h
  | some hold =>
    rw [hholder] at h
    dsimp only at h
    rw [Option.ite_none_right_eq_some] at h
    obtain ⟨hconn, h⟩ := h
    refine ⟨hold, _, rfl, hconn, fun hone ↦ if_pos (by omega), fun hold' hmem ↦ ?_,
      (Option.some.inj h).symm⟩
    rw [Option.mem_def, Option.ite_none_left_eq_some, Option.some_inj] at hmem
    rw [← hmem.2]

theorem frame_release (hout : g.status conn = .out task .lock)
    (h : g.release name conn = some g') : Frame task g g' := by
  obtain ⟨hold, rest, hholder, hconn, -, hrest, rfl⟩ := release_eq_some h
  refine ⟨fun _ _ _ _ ↦ .rfl, fun n hold' other role hne hstatus ↦ ?_, fun _ hmem ↦ hmem⟩
  refine holder_update hout (fun hold'' hmem ↦ ?_) hrest n hold' other role hne hstatus
  rw [hholder] at hmem
  cases hmem
  exact hconn

end

/-! ## The invariant -/

section

variable {ε : Type}

/-- The connection that a task has for its lock. -/
def Phase.conn : Phase ε → Option ℕ
  | .getting conn | .releasing conn _ | .invalidating conn _ => some conn
  | .inside conn _ | .closing conn _ => conn
  | .calling | .connecting | .finished _ => none

/-- The lock has been granted, and may not have been released yet. -/
def Phase.acquired : Phase ε → Bool
  | .inside (some _) acquired => acquired
  | .releasing _ _ | .invalidating _ _ => true
  | .inside none _ | .calling | .connecting | .getting _ | .closing _ _ | .finished _ => false

/-- What is to be raised to the caller, once the block has been left. -/
def Phase.pending : Phase ε → Option (Option (Raised ε))
  | .releasing _ pending | .invalidating _ pending | .closing _ pending | .finished pending =>
    some pending
  | .calling | .connecting | .getting _ | .inside _ _ => none

/-- A lock was granted to the connection before it was released on it. -/
def SoundLog : List Statement → Prop
  | [] => True
  | .getLock _ _ _ _ :: before => SoundLog before
  | .releaseLock task conn name _ :: before =>
    .getLock task conn name .granted ∈ before ∧ SoundLog before

/-- Only connections that are out for a lock have locks. -/
structure Sound (g : Pool) : Prop where
  held : ∀ name hold, g.holder name = some hold → ∃ task, g.status hold.conn = .out task .lock
  log : SoundLog g.log

/-- What a task can rely on. -/
structure Owns (task : ℕ) (g : Pool) (q : Task ε) : Prop where
  lock : ∀ c, g.status c = .out task .lock ↔ q.phase.conn = some c
  session : ∀ c, q.session = some c → g.status c = .out task .session
  /-- Its connection has no lock but the one that was granted, and that one once. -/
  holds : ∀ name hold, g.holder name = some hold → q.phase.conn = some hold.conn →
    q.phase.acquired = true ∧ name = q.name ∧ hold.count = 1
  granted : q.phase.acquired = true → ∀ c, q.phase.conn = some c →
    .getLock task c q.name .granted ∈ g.log
  entered : q.entered = some true → q.isMysqlSession = true →
    ∃ c, .getLock task c q.name .granted ∈ g.log
  left : ∀ raised, q.left = some raised → q.phase.pending = some (raised.map .callers)

variable {g g' : Pool} {task : ℕ} {q : Task ε}

theorem Owns.frame (h : Owns task g q) {other : ℕ} (hne : task ≠ other) (hf : Frame other g g') :
    Owns task g' q where
  lock c := (hf.status c task .lock hne).trans (h.lock c)
  session c hc := (hf.status c task .session hne).mpr (h.session c hc)
  holds name hold hholder hconn :=
    h.holds name hold ((hf.holder name hold task .lock hne ((h.lock _).mpr hconn)).mp hholder) hconn
  granted hacquired c hc := hf.log _ (h.granted hacquired c hc)
  entered hentered hmysql := by
    obtain ⟨c, hc⟩ := h.entered hentered hmysql
    exact ⟨c, hf.log _ hc⟩
  left := h.left

/-! ## One step -/

variable {conn : ℕ} {role : Role}

theorem sound_checkout (hs : Sound g) (h : g.checkout task role conn = some g') : Sound g' := by
  obtain ⟨hfree, rfl⟩ := checkout_eq_some h
  refine ⟨fun name hold hholder ↦ ?_, hs.log⟩
  obtain ⟨other, hout⟩ := hs.held name hold hholder
  refine ⟨other, ?_⟩
  show Function.update _ _ _ _ = _
  rw [Function.update_of_ne, hout]
  rintro rfl
  rw [hout] at hfree
  rcases hfree with hidle | hunopened
  · cases hidle
  · cases hunopened

/-- A connection without locks can go back to the pool. -/
theorem sound_checkin (hs : Sound g)
    (h : ∀ name hold, g.holder name = some hold → hold.conn ≠ conn) :
    Sound (g.checkin conn) := by
  refine ⟨fun name hold hholder ↦ ?_, hs.log⟩
  obtain ⟨other, hout⟩ := hs.held name hold hholder
  refine ⟨other, ?_⟩
  show Function.update _ _ _ _ = _
  rw [Function.update_of_ne (h name hold hholder), hout]

theorem sound_discard (hs : Sound g) (conn : ℕ) : Sound (g.discard conn) := by
  refine ⟨fun name hold hholder ↦ ?_, hs.log⟩
  obtain ⟨hholder, hconn⟩ := Option.filter_eq_some_iff.mp hholder
  obtain ⟨other, hout⟩ := hs.held name hold hholder
  refine ⟨other, ?_⟩
  show Function.update _ _ _ _ = _
  rw [Function.update_of_ne (of_decide_eq_true hconn), hout]

theorem sound_grant (hs : Sound g) {name : String} (hout : g.status conn = .out task .lock)
    (h : g.grant name conn = some g') : Sound g' := by
  obtain ⟨-, k, -, rfl⟩ := grant_eq_some h
  refine ⟨fun n hold hholder ↦ ?_, hs.log⟩
  change Function.update _ _ _ n = _ at hholder
  by_cases hn : n = name
  · subst hn
    rw [Function.update_self] at hholder
    cases hholder
    exact ⟨task, hout⟩
  · rw [Function.update_of_ne hn] at hholder
    exact hs.held n hold hholder

theorem sound_release (hs : Sound g) {name : String} (hout : g.status conn = .out task .lock)
    (h : g.release name conn = some g') : Sound g' := by
  obtain ⟨hold₀, rest, -, -, -, hrest, rfl⟩ := release_eq_some h
  refine ⟨fun n hold hholder ↦ ?_, hs.log⟩
  change Function.update _ _ _ n = _ at hholder
  by_cases hn : n = name
  · subst hn
    rw [Function.update_self] at hholder
    exact ⟨task, hrest hold hholder ▸ hout⟩
  · rw [Function.update_of_ne hn] at hholder
    exact hs.held n hold hholder

theorem sound_getLock (hs : Sound g) (conn : ℕ) (name : String) (outcome : GetLock) :
    Sound (g.record (.getLock task conn name outcome)) := ⟨hs.held, hs.log⟩

theorem sound_releaseLock (hs : Sound g) {name : String}
    (h : .getLock task conn name .granted ∈ g.log) (outcome : ReleaseLock) :
    Sound (g.record (.releaseLock task conn name outcome)) := ⟨hs.held, h, hs.log⟩

theorem Owns.record (hq : Owns task g q) (statement : Statement) :
    Owns task (g.record statement) q where
  lock := hq.lock
  session := hq.session
  holds := hq.holds
  granted hacquired c hc := List.mem_cons_of_mem _ (hq.granted hacquired c hc)
  entered hentered hmysql := by
    obtain ⟨c, hc⟩ := hq.entered hentered hmysql
    exact ⟨c, List.mem_cons_of_mem _ hc⟩
  left := hq.left

/-- The task goes on with the same connection, and with the same right to a lock. -/
theorem Owns.move (hq : Owns task g q) {phase : Phase ε} {entered : Option Bool}
    {left : Option (Option ε)} (hconn : phase.conn = q.phase.conn)
    (hacquired : phase.acquired = q.phase.acquired)
    (hentered : entered = some true → q.isMysqlSession = true →
      ∃ c, .getLock task c q.name .granted ∈ g.log)
    (hleft : ∀ raised, left = some raised → phase.pending = some (raised.map .callers)) :
    Owns task g { q with phase, entered, left } where
  lock c := hconn ▸ hq.lock c
  session := hq.session
  holds name hold hholder hc := hacquired ▸ hq.holds name hold hholder (hconn ▸ hc)
  granted hacq c hc := hq.granted (hacquired ▸ hacq) c (hconn ▸ hc)
  entered := hentered
  left := hleft

/-- The connection of the task has been given back or closed, and the task no longer has one. -/
theorem Owns.drop (hq : Owns task g q) {s : Status} {holder : String → Option Hold}
    {phase : Phase ε} (hconn : q.phase.conn = some conn) (hs : ∀ role, s ≠ .out task role)
    (hphase : phase.conn = none) (hacquired : phase.acquired = false)
    (hleft : ∀ raised, q.left = some raised → phase.pending = some (raised.map .callers)) :
    Owns task { g with status := Function.update g.status conn s, holder } { q with phase } where
  lock c := by
    rw [hphase]
    refine iff_of_false ?_ nofun
    show ¬Function.update _ _ _ _ = _
    by_cases hc : c = conn
    · subst hc
      rw [Function.update_self]
      exact hs .lock
    · rw [Function.update_of_ne hc, hq.lock, hconn, Option.some_inj]
      exact Ne.symm hc
  session c hc := by
    have hout := hq.session c hc
    have hne : c ≠ conn := by
      rintro rfl
      rw [(hq.lock c).mpr hconn] at hout
      cases hout
    show Function.update _ _ _ _ = _
    rw [Function.update_of_ne hne, hout]
  holds name hold _ hc := by
    rw [hphase] at hc
    cases hc
  granted hacq := by
    rw [hacquired] at hacq
    cases hacq
  entered := hq.entered
  left := hleft

/-- How the block was left, in a phase that is known. -/
theorem Owns.left_of (hq : Owns task g q) {phase : Phase ε} {pending : Option (Option (Raised ε))}
    (hphase : q.phase = phase) (hpending : phase.pending = pending) :
    ∀ raised, q.left = some raised → pending = some (raised.map .callers) := by
  intro raised hraised
  rw [← hpending, ← hphase]
  exact hq.left raised hraised

theorem owns_checkout_lock (hs : Sound g) (hq : Owns task g q) (hphase : q.phase = .connecting)
    (h : g.checkout task .lock conn = some g') :
    Owns task g' { q with phase := .getting conn } := by
  obtain ⟨hfree, rfl⟩ := checkout_eq_some h
  have hnotOut : ∀ other role, g.status conn ≠ .out other role := by
    rintro other role hout
    rw [hout] at hfree
    rcases hfree with hidle | hunopened
    · cases hidle
    · cases hunopened
  refine ⟨fun c ↦ ?_, fun c hc ↦ ?_, fun name hold hholder hc ↦ ?_, nofun, hq.entered,
    fun raised hraised ↦ ?_⟩
  · show Function.update _ _ _ _ = _ ↔ some conn = some c
    by_cases hc : c = conn
    · subst hc
      rw [Function.update_self]
      exact iff_of_true rfl rfl
    · rw [Function.update_of_ne hc, hq.lock c, hphase]
      exact iff_of_false nofun fun heq ↦ hc (Option.some.inj heq).symm
  · have hne : c ≠ conn := by
      rintro rfl
      exact hnotOut _ _ (hq.session c hc)
    show Function.update _ _ _ _ = _
    rw [Function.update_of_ne hne]
    exact hq.session c hc
  · obtain ⟨other, hout⟩ := hs.held name hold hholder
    have hheld : some conn = some hold.conn := hc
    rw [← Option.some.inj hheld] at hout
    exact absurd hout (hnotOut other .lock)
  · exact hq.left_of hphase rfl raised hraised

theorem owns_grant (hq : Owns task g q) (hphase : q.phase = .getting conn)
    (hlog : .getLock task conn q.name .granted ∈ g.log)
    (h : g.grant q.name conn = some g') :
    Owns task g' { q with phase := .inside (some conn) true, entered := some true } := by
  have hconn : q.phase.conn = some conn := by rw [hphase]; rfl
  -- the connection has had no lock yet
  have hnone : ∀ name hold, g.holder name = some hold → hold.conn ≠ conn := by
    rintro name hold hholder rfl
    have hacquired := (hq.holds name hold hholder hconn).1
    rw [hphase] at hacquired
    cases hacquired
  obtain ⟨hold₀, k, hk, rfl⟩ := grant_eq_some h
  have hfree : g.holder q.name = none := by
    cases hholder : g.holder q.name with
    | none => rfl
    | some hold => exact absurd (hold₀ hold hholder) (hnone _ hold hholder)
  refine ⟨fun c ↦ (hq.lock c).trans (by rw [hconn]; rfl), hq.session, fun name hold hholder hc ↦ ?_,
    fun _ c hc ↦ ?_, fun _ _ ↦ ⟨conn, hlog⟩, fun raised hraised ↦ ?_⟩
  · change Function.update _ _ _ name = _ at hholder
    by_cases hn : name = q.name
    · subst hn
      rw [Function.update_self, hk hfree] at hholder
      cases hholder
      exact ⟨rfl, rfl, rfl⟩
    · rw [Function.update_of_ne hn] at hholder
      exact absurd (Option.some.inj hc).symm (hnone name hold hholder)
  · cases hc
    exact hlog
  · exact hq.left_of hphase rfl raised hraised

/-- The lock is released, and the connection has no other. -/
theorem owns_release (hq : Owns task g q) {pending : Option (Raised ε)} {phase : Phase ε}
    (hphase : q.phase = .releasing conn pending) (hconn : phase.conn = some conn)
    (hpending : phase.pending = some pending) (h : g.release q.name conn = some g') :
    Owns task g' { q with phase } ∧ ∀ name hold, g'.holder name = some hold → hold.conn ≠ conn := by
  have hconn' : q.phase.conn = some conn := by rw [hphase]; rfl
  have hacquired : q.phase.acquired = true := by rw [hphase]; rfl
  obtain ⟨hold₀, rest, hholder₀, rfl, hone, -, rfl⟩ := release_eq_some h
  have hrest : rest = none := hone (hq.holds _ _ hholder₀ hconn').2.2
  have hnone : ∀ name hold, Function.update g.holder q.name rest name = some hold →
      hold.conn ≠ hold₀.conn := by
    intro name hold hholder heq
    by_cases hn : name = q.name
    · subst hn
      rw [Function.update_self, hrest] at hholder
      cases hholder
    · rw [Function.update_of_ne hn] at hholder
      exact hn (hq.holds name hold hholder (heq ▸ hconn')).2.1
  refine ⟨⟨fun c ↦ ?_, hq.session, fun name hold hholder hc ↦ ?_, fun _ c hc ↦ ?_, hq.entered,
    fun raised hraised ↦ ?_⟩, hnone⟩
  · exact (hq.lock c).trans (by rw [hconn', ← hconn])
  · rw [hconn] at hc
    exact absurd (Option.some.inj hc).symm (hnone name hold hholder)
  · rw [hconn] at hc
    exact hq.granted hacquired c (hc ▸ hconn')
  · exact hq.left_of hphase hpending.symm raised hraised

/-- `RELEASE_LOCK` releases the lock, whether the answer arrives or not. -/
theorem inv_release (hs : Sound g) (hq : Owns task g q) {pending : Option (Raised ε)}
    {phase : Phase ε} {outcome : ReleaseLock} (hphase : q.phase = .releasing conn pending)
    (hconn : phase.conn = some conn) (hpending : phase.pending = some pending)
    (h : (g.record (.releaseLock task conn q.name outcome)).release q.name conn = some g') :
    Sound g' ∧ Owns task g' { q with phase } ∧ Frame task g g' := by
  have hown : q.phase.conn = some conn := by rw [hphase]; rfl
  have hout := (hq.lock conn).mpr hown
  have hgranted := hq.granted (by rw [hphase]; rfl) conn hown
  exact ⟨sound_release (sound_releaseLock hs hgranted _) hout h,
    (owns_release (hq.record _) hphase hconn hpending h).1,
    (frame_record task g _).trans (frame_release hout h)⟩

/-- What each step of the manager keeps. -/
theorem stepLock_inv {q' : Task ε} {a : Action ε} (hs : Sound g) (hq : Owns task g q)
    (h : stepLock task g q a = some (g', q')) : Sound g' ∧ Owns task g' q' ∧ Frame task g g' := by
  have hleft : q.phase.pending = none → ∀ raised, q.left ≠ some raised := by
    intro hnone raised hraised
    have hpending := hq.left raised hraised
    rw [hnone] at hpending
    cases hpending
  unfold stepLock at h
  split at h
  · -- `lock_name_for`, and which database it is
    next hphase =>
    have hcalling := hleft (by rw [hphase]; rfl)
    split at h
    · cases h
      exact ⟨hs, hq.move (by rw [hphase]; rfl) (by rw [hphase]; rfl) hq.entered
        fun raised hraised ↦ absurd hraised (hcalling raised), frame_refl task g⟩
    · split at h
      · cases h
        exact ⟨hs, hq.move (by rw [hphase]; rfl) (by rw [hphase]; rfl) hq.entered
          (hq.left_of hphase rfl), frame_refl task g⟩
      · next hmysql =>
        cases h
        exact ⟨hs, hq.move (by rw [hphase]; rfl) (by rw [hphase]; rfl)
          (fun _ hyes ↦ absurd hyes hmysql) (hq.left_of hphase rfl), frame_refl task g⟩
  · -- no connection
    next hphase =>
    cases h
    have hno := hleft (by rw [hphase]; rfl)
    exact ⟨hs, hq.move (by rw [hphase]; rfl) (by rw [hphase]; rfl) hq.entered
      fun raised hraised ↦ absurd hraised (hno raised), frame_refl task g⟩
  · next conn hphase =>
    obtain ⟨g₁, hcheckout, heq⟩ := Option.map_eq_some_iff.mp h
    cases heq
    exact ⟨sound_checkout hs hcheckout, owns_checkout_lock hs hq hphase hcheckout,
      frame_checkout hcheckout⟩
  · -- `GET_LOCK` is granted
    next conn hphase =>
    obtain ⟨g₁, hgrant, heq⟩ := Option.map_eq_some_iff.mp h
    cases heq
    have hout : g.status conn = .out task .lock := (hq.lock conn).mpr (by rw [hphase]; rfl)
    exact ⟨sound_grant (sound_getLock hs conn q.name _) hout hgrant,
      owns_grant (hq.record _) hphase List.mem_cons_self hgrant,
      (frame_record task g _).trans (frame_grant hout hgrant)⟩
  · -- it raises
    next conn hphase =>
    cases h
    have hconn : q.phase.conn = some conn := by rw [hphase]; rfl
    have hno := hleft (by rw [hphase]; rfl)
    exact ⟨sound_discard (sound_getLock hs conn q.name _) conn,
      (hq.record _).drop hconn nofun rfl rfl fun raised hraised ↦ absurd hraised (hno raised),
      (frame_record task g _).trans (frame_discard ((hq.lock conn).mpr hconn))⟩
  · -- it is not granted
    next conn outcome hgranted herror hphase =>
    cases h
    exact ⟨sound_getLock hs conn q.name _, (hq.record _).move (by rw [hphase]; rfl)
      (by rw [hphase]; rfl) nofun (hq.left_of hphase rfl), frame_record task g _⟩
  · next acquired raised hphase =>
    cases h
    exact ⟨hs, hq.move (by rw [hphase]; rfl) (by rw [hphase]; rfl) hq.entered
      fun raised' hraised ↦ by cases hraised; rfl, frame_refl task g⟩
  · next conn raised hphase =>
    cases h
    exact ⟨hs, hq.move (by rw [hphase]; rfl) (by rw [hphase]; rfl) hq.entered
      fun raised' hraised ↦ by cases hraised; rfl, frame_refl task g⟩
  · next conn raised hphase =>
    cases h
    exact ⟨hs, hq.move (by rw [hphase]; rfl) (by rw [hphase]; rfl) hq.entered
      fun raised' hraised ↦ by cases hraised; rfl, frame_refl task g⟩
  · -- `RELEASE_LOCK` answers 1
    next conn pending hphase =>
    obtain ⟨g₁, hrelease, heq⟩ := Option.map_eq_some_iff.mp h
    cases heq
    exact inv_release hs hq hphase rfl rfl hrelease
  · -- it raises after the lock is gone
    next conn pending hphase =>
    obtain ⟨g₁, hrelease, heq⟩ := Option.map_eq_some_iff.mp h
    cases heq
    exact inv_release hs hq hphase rfl rfl hrelease
  · -- anything else
    next conn pending outcome hone herror hphase =>
    cases h
    have hgranted := hq.granted (by rw [hphase]; rfl) conn (by rw [hphase]; rfl)
    exact ⟨sound_releaseLock hs hgranted _, (hq.record _).move (by rw [hphase]; rfl)
      (by rw [hphase]; rfl) (hq.record _).entered (hq.left_of hphase rfl), frame_record task g _⟩
  · next conn pending hphase =>
    cases h
    have hconn : q.phase.conn = some conn := by rw [hphase]; rfl
    exact ⟨sound_discard hs conn, hq.drop hconn nofun rfl rfl (hq.left_of hphase rfl),
      frame_discard ((hq.lock conn).mpr hconn)⟩
  · -- the connection goes back without a lock
    next conn pending hphase =>
    cases h
    have hconn : q.phase.conn = some conn := by rw [hphase]; rfl
    have hnone : ∀ name hold, g.holder name = some hold → hold.conn ≠ conn := by
      rintro name hold hholder rfl
      have hacquired := (hq.holds name hold hholder hconn).1
      rw [hphase] at hacquired
      cases hacquired
    exact ⟨sound_checkin hs hnone, hq.drop hconn nofun rfl rfl (hq.left_of hphase rfl),
      frame_checkin ((hq.lock conn).mpr hconn)⟩
  · next pending hphase =>
    cases h
    exact ⟨hs, hq.move (by rw [hphase]; rfl) (by rw [hphase]; rfl) hq.entered
      (hq.left_of hphase rfl), frame_refl task g⟩
  · cases h

theorem owns_session_finish (hq : Owns task g q) (hsession : q.session = some conn) {s : Status}
    {holder : String → Option Hold} (hs : ∀ role, s ≠ .out task role)
    (hholder : ∀ name hold, holder name = some hold → g.holder name = some hold) :
    Owns task { g with status := Function.update g.status conn s, holder }
      { q with session := none } where
  lock c := by
    show Function.update _ _ _ _ = _ ↔ _
    by_cases hc : c = conn
    · subst hc
      have hout := hq.session c hsession
      rw [Function.update_self]
      refine iff_of_false (hs .lock) fun hconn ↦ ?_
      rw [(hq.lock c).mpr hconn] at hout
      cases hout
    · rw [Function.update_of_ne hc]
      exact hq.lock c
  session c hc := by cases hc
  holds name hold hold' hc := hq.holds name hold (hholder name hold hold') hc
  granted := hq.granted
  entered := hq.entered
  left := hq.left

theorem stepSession_inv {q' : Task ε} {a : SessionAction} (hs : Sound g) (hq : Owns task g q)
    (h : stepSession task g q a = some (g', q')) :
    Sound g' ∧ Owns task g' q' ∧ Frame task g g' := by
  cases a with
  | begin conn =>
    rw [stepSession] at h
    split at h
    · cases h
    · next hnone =>
      obtain ⟨g₁, hcheckout, heq⟩ := Option.map_eq_some_iff.mp h
      cases heq
      refine ⟨sound_checkout hs hcheckout, ?_, frame_checkout hcheckout⟩
      obtain ⟨hfree, rfl⟩ := checkout_eq_some hcheckout
      refine ⟨fun c ↦ ?_, fun c hc ↦ ?_, hq.holds, hq.granted, hq.entered, hq.left⟩
      · show Function.update _ _ _ _ = _ ↔ _
        by_cases hc : c = conn
        · subst hc
          rw [Function.update_self]
          refine iff_of_false nofun fun hconn ↦ ?_
          rw [(hq.lock c).mpr hconn] at hfree
          rcases hfree with hidle | hunopened
          · cases hidle
          · cases hunopened
        · rw [Function.update_of_ne hc]
          exact hq.lock c
      · cases hc
        exact Function.update_self ..
  | finish kept =>
    obtain ⟨conn, hconn, heq⟩ := Option.map_eq_some_iff.mp h
    have hout := hq.session conn hconn
    have hnone : ∀ name hold, g.holder name = some hold → hold.conn ≠ conn := by
      rintro name hold hholder rfl
      obtain ⟨other, hlock⟩ := hs.held name hold hholder
      rw [hout] at hlock
      cases hlock
    cases kept with
    | true =>
      cases heq
      exact ⟨sound_checkin hs hnone, owns_session_finish hq hconn nofun fun _ _ hholder ↦ hholder,
        frame_checkin hout⟩
    | false =>
      cases heq
      exact ⟨sound_discard hs conn, owns_session_finish hq hconn nofun fun _ _ hholder ↦
        (Option.filter_eq_some_iff.mp hholder).1, frame_discard hout⟩

/-! ## Whole runs -/

/-- Tasks that run side by side. -/
abbrev System (ε : Type) := Config Pool (Task ε)

/-- Tasks that are about to call `task_row_lock`, and a pool without locks. -/
def System.start (idle : ℕ → Bool) (calls : ℕ → Option (String × ℤ × Bool)) : System ε where
  shared := .start idle
  proc i := (calls i).map fun call ↦
    { scope := call.1, rowId := call.2.1, isMysqlSession := call.2.2 }

theorem inv_start (idle : ℕ → Bool) (calls : ℕ → Option (String × ℤ × Bool)) :
    Config.Inv Sound Owns (System.start idle calls : System ε) := by
  refine ⟨⟨nofun, trivial⟩, fun i q hq ↦ ?_⟩
  obtain ⟨call, -, rfl⟩ := Option.map_eq_some_iff.mp hq
  refine ⟨fun c ↦ iff_of_false ?_ nofun, nofun, nofun, nofun, nofun, nofun⟩
  show ¬(if idle c then Status.idle else .unopened) = _
  split <;> nofun

theorem inv_run {c c' : System ε} {es : List (ℕ × (Action ε ⊕ SessionAction))}
    (hc : Config.Inv Sound Owns c) (h : Run.run (Config.step stepTask) c es = some c') :
    Config.Inv Sound Owns c' := by
  refine Run.run_invariant' (fun c e c' hc hstep ↦ Config.inv_step hc hstep fun g' p' hf ↦ ?_) hc h
  obtain ⟨i, a⟩ := e
  dsimp only at hf ⊢
  cases hproc : c.proc i with
  | none =>
    rw [hproc] at hf
    cases hf
  | some q =>
    rw [hproc] at hf
    have hq := hc.proc i q hproc
    have hstep : ∃ q', p' = some q' ∧ Sound g' ∧ Owns i g' q' ∧ Frame i c.shared g' := by
      cases a with
      | inl a =>
        obtain ⟨⟨g₁, q'⟩, hlock, heq⟩ := Option.map_eq_some_iff.mp hf
        cases heq
        exact ⟨q', rfl, stepLock_inv hc.shared hq hlock⟩
      | inr a =>
        obtain ⟨⟨g₁, q'⟩, hsession, heq⟩ := Option.map_eq_some_iff.mp hf
        cases heq
        exact ⟨q', rfl, stepSession_inv hc.shared hq hsession⟩
    obtain ⟨q', rfl, hsound, hown, hframe⟩ := hstep
    exact ⟨hsound, fun q hq ↦ by cases hq; exact hown, fun j q hne hq ↦ hq.frame hne hframe⟩

theorem granted_of_soundLog {log after before : List Statement} {task conn : ℕ} {name : String}
    {outcome : ReleaseLock} (h : SoundLog log)
    (heq : log = after ++ .releaseLock task conn name outcome :: before) :
    .getLock task conn name .granted ∈ before := by
  induction after generalizing log with
  | nil =>
    subst heq
    exact h.1
  | cons statement after ih =>
    subst heq
    have hrest : SoundLog (after ++ .releaseLock task conn name outcome :: before) := by
      cases statement with
      | getLock _ _ _ _ => exact h
      | releaseLock _ _ _ _ => exact h.2
    exact ih hrest rfl

/-- **`task_row_lock` never strands a lock.**  However many tasks use it at once, whatever the
server and the driver answer, and however the blocks end:

* no connection in the pool has a lock: who has one is in its block or about to release it;
* `RELEASE_LOCK` is sent on a connection that was granted the lock;
* what the block raises is what the caller sees;
* on MySQL, a block is entered with `True` when the lock was granted. -/
theorem task_row_lock_never_strands_a_lock {idle : ℕ → Bool}
    {calls : ℕ → Option (String × ℤ × Bool)} {es : List (ℕ × (Action ε ⊕ SessionAction))}
    {c : System ε}
    (h : Run.run (Config.step stepTask) (System.start idle calls) es = some c) :
    (∀ name hold, c.shared.holder name = some hold → c.shared.status hold.conn ≠ .idle ∧
        ∃ i, c.shared.status hold.conn = .out i .lock ∧
          ∀ q, c.proc i = some q → q.phase.acquired = true ∧ name = q.name) ∧
      (∀ after i conn name outcome before,
        c.shared.log = after ++ .releaseLock i conn name outcome :: before →
          .getLock i conn name .granted ∈ before) ∧
      (∀ i q raised pending, c.proc i = some q → q.left = some raised →
        q.phase = .finished pending → pending = raised.map .callers) ∧
      ∀ i q, c.proc i = some q → q.isMysqlSession = true → q.entered = some true →
        ∃ conn, .getLock i conn q.name .granted ∈ c.shared.log := by
  have hinv := inv_run (inv_start idle calls) h
  refine ⟨fun name hold hholder ↦ ?_, fun after i conn name outcome before heq ↦
    granted_of_soundLog hinv.shared.log heq, fun i q raised pending hq hleft hphase ↦ ?_,
    fun i q hq hmysql hentered ↦ (hinv.proc i q hq).entered hentered hmysql⟩
  · obtain ⟨i, hout⟩ := hinv.shared.held name hold hholder
    have hbusy : c.shared.status hold.conn ≠ .idle := by
      rw [hout]
      nofun
    refine ⟨hbusy, i, hout, fun q hq ↦ ?_⟩
    have howns := hinv.proc i q hq
    obtain ⟨hacquired, hname, -⟩ := howns.holds name hold hholder ((howns.lock _).mp hout)
    exact ⟨hacquired, hname⟩
  · have hpending := (hinv.proc i q hq).left raised hleft
    rw [hphase] at hpending
    exact Option.some.inj hpending

/-- The block commits and then raises, and `RELEASE_LOCK` answers `NULL`. -/
theorem task_row_lock_never_strands_a_lock_release_null :
    ∃ c : System String, Run.run (Config.step stepTask)
        (System.start (fun _ ↦ false) fun _ ↦ some ("server", 7, true))
        [(0, .inl .call), (0, .inl (.connect (some 0))), (0, .inl (.getLock .granted)),
          (0, .inr (.begin 1)), (0, .inr (.finish true)), (0, .inl (.leave (some "DataError"))),
          (0, .inl (.releaseLock .null)), (0, .inl .invalidate), (0, .inl .close)] = some c ∧
      ∀ name hold, c.shared.holder name = some hold → c.shared.status hold.conn ≠ .idle := by
  have hrun : (Run.run (Config.step (@stepTask String))
      (System.start (fun _ ↦ false) fun _ ↦ some ("server", 7, true))
      [(0, .inl .call), (0, .inl (.connect (some 0))), (0, .inl (.getLock .granted)),
        (0, .inr (.begin 1)), (0, .inr (.finish true)), (0, .inl (.leave (some "DataError"))),
        (0, .inl (.releaseLock .null)), (0, .inl .invalidate), (0, .inl .close)]).isSome =
          true := by
    decide +kernel
  obtain ⟨c, hc⟩ := Option.isSome_iff_exists.mp hrun
  exact ⟨c, hc, fun name hold hholder ↦
    ((task_row_lock_never_strands_a_lock hc).1 name hold hholder).1⟩

end

end WgManager.Locks
