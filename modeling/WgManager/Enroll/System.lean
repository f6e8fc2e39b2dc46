import WgManager.EnrollApp
import WgManager.Routers.Clients
import WgManager.Routers.EnrollmentTokens
import WgManager.Lib.Interleave

/-!
# Requests that run side by side

Redemptions, registrations, deletions of clients and revocations of tokens, each a process of its
own over one MySQL database at its default isolation level, REPEATABLE READ:

* the plain `SELECT`s of a transaction see the database as it was at the first of them, which for a
  redemption is the token lookup, before it has waited for the lock;
* an `UPDATE` sees the latest committed row and keeps a lock on it until the transaction ends, and
  another `UPDATE` of that row waits;
* the unique columns are checked against the latest rows;
* `GET_LOCK` is exclusive, and held on a connection of its own.

A transaction here has its writes applied at once by its commit.  What a transaction has inserted
before that blocks only an insertion that would clash with it, until it is known which of the two
stays; so this shows in the order of the commits and nowhere else.

What a step of a redemption or of another request can do is said once more as a relation
(`RedemptionMove`, `RequestMove`), which is what the proofs about runs take apart.  After its commit
a redemption still has the lock of its hub; that it then bumps the generation of the hub is no
concern of this part, and neither is what the others do after their commits.
-/

set_option autoImplicit false

namespace WgManager.Enroll

/-! ## Processes -/

/-- What a redemption has read before it waits for the lock: the snapshot of its transaction, the
token row in it, and the body. -/
structure Lookup where
  snap : Db
  row : EnrollmentToken
  payload : EnrollRequest

/-- How far a redemption has got. -/
inductive Phase
  | begun
  | checked (w : Lookup)
  | locked (w : Lookup)
  /-- A use is taken, and the token row is locked. -/
  | consumed (w : Lookup)
  | admitted (w : Lookup) (a : Admitted)
  /-- Committed; the lock of the hub is still held. -/
  | committed (w : Lookup)
  | done (enrolled : Bool)

/-- A `POST /v1/enroll`, with what it meets. -/
structure Redemption where
  call : EnrollCall
  env : EnrollEnv

/-- The other requests. -/
inductive Request
  | registerClient (ctx : Context) (payload : ClientCreate)
  | registerManualClient (ctx : Context) (payload : ClientManualCreate)
  | deleteClient (ctx : Context) (scope : TenantScope) (clientId : ℕ)
  | revokeEnrollmentToken (ctx : Context) (scope : TenantScope) (tokenId : ℕ)

/-- What such a request takes from its surroundings. -/
def Request.context : Request → Context
  | registerClient ctx _ | registerManualClient ctx _ | deleteClient ctx .. |
    revokeEnrollmentToken ctx .. => ctx

/-- How far one of them has got. -/
inductive Stage
  | begun
  /-- The checks have passed on `snap`, and `row` is to be inserted. -/
  | inserting (snap : Db) (row : Client)
  | deleting (row : Client) (event : AuditEvent)
  | revoking (row : EnrollmentToken) (now : Datetime) (revokedByCn : Option String)
      (event : AuditEvent)
  /-- The token row is updated and locked. -/
  | marked (row : EnrollmentToken) (now : Datetime) (revokedByCn : Option String)
      (event : AuditEvent)
  | done

inductive Proc
  | redemption (r : Redemption) (ph : Phase)
  | request (q : Request) (st : Stage)

/-- How far a redemption has got. -/
def Proc.phase : Proc → Option Phase
  | redemption _ ph => some ph
  | request .. => none

/-- What can happen next. -/
inductive Action
  /-- The first `SELECT`, and all checks on the snapshot it opens. -/
  | read
  | lock
  | consume
  | admitClient
  /-- The `UPDATE` of a revocation. -/
  | update
  | commit
  | release
  /-- An error strikes one of the other requests. -/
  | fail
  deriving DecidableEq

/-- What the processes share. -/
structure Shared where
  /-- What is committed. -/
  db : Db
  /-- The holder of the advisory lock of each hub. -/
  ipam : ℕ → Option ℕ := fun _ ↦ none
  /-- The holder of the row lock of each token. -/
  rows : ℕ → Option ℕ := fun _ ↦ none

namespace Shared

@[simps]
def lockIpam (g : Shared) (i serverId : ℕ) : Shared :=
  { g with ipam := Function.update g.ipam serverId (some i) }

@[simps]
def unlockIpam (g : Shared) (serverId : ℕ) : Shared :=
  { g with ipam := Function.update g.ipam serverId none }

@[simps]
def lockRow (g : Shared) (i tokenId : ℕ) : Shared :=
  { g with rows := Function.update g.rows tokenId (some i) }

@[simps]
def unlockRow (g : Shared) (tokenId : ℕ) : Shared :=
  { g with rows := Function.update g.rows tokenId none }

@[simps]
def commit (g : Shared) (db : Db) : Shared := { g with db }

end Shared

/-! ## Steps -/

/-- The checks of a redemption before it waits for the lock. -/
def Redemption.checks (r : Redemption) (db : Db) :
    Except Rejection (EnrollmentToken × EnrollRequest) := do
  r.env.limit
  r.env.tokenChecks db r.call

/-- What is committed, with the use that a redemption has taken. -/
def withUse (db : Db) (tokenId : ℕ) : Db :=
  { db with enrollmentTokens :=
      db.enrollmentTokens.modify tokenId EnrollmentToken.use EnrollmentToken.pk_use }

/-- The commit of a redemption leaves one more use, one more client and one more event, the latter
two under keys and a name that are new. -/
theorem withEnrolled_of_commit {env : EnrollEnv} {db db' : Db} {row : EnrollmentToken}
    {client : Client} (h : env.commitEnroll (withUse db row.id) row client = .ok db') :
    db.clients.get client.id = none ∧
      (∀ c ∈ db.clients.rows, env.coll.same c.name client.name = false) ∧
      db.auditEvents.get env.auditId = none ∧ db' = env.withEnrolled db row client :=
  (commitEnroll_eq_ok_iff.mp h).2

/-- A step of a redemption.  A failure ends the transaction and gives the locks back. -/
def redemptionStep (i : ℕ) (g : Shared) (r : Redemption) : Phase → Action → Option (Shared × Phase)
  | .begun, .read =>
    match r.checks g.db with
    | .error _ => some (g, .done false)
    | .ok (row, payload) => some (g, .checked ⟨g.db, row, payload⟩)
  | .checked w, .lock =>
    match r.env.ipamLock w.row.serverId with
    | .error _ => some (g, .done false)
    | .ok _ =>
      -- a request whose wait will be granted waits until the lock is free
      if g.ipam w.row.serverId = none then some (g.lockIpam i w.row.serverId, .locked w) else none
  | .locked w, .consume =>
    if r.env.fails .consumeToken then some (g.unlockIpam w.row.serverId, .done false)
    else if g.rows w.row.id = none then
      match consumeToken g.db.enrollmentTokens w.row.id with
      | none => some (g.unlockIpam w.row.serverId, .done false)
      | some _ => some (g.lockRow i w.row.id, .consumed w)
    else none
  | .consumed w, .admitClient =>
    match r.env.admitClient w.snap w.row w.payload with
    | .error _ => some ((g.unlockRow w.row.id).unlockIpam w.row.serverId, .done false)
    | .ok a => some (g, .admitted w a)
  | .admitted w a, .commit =>
    match r.env.commitEnroll (withUse g.db w.row.id) w.row a.client with
    | .error _ => some ((g.unlockRow w.row.id).unlockIpam w.row.serverId, .done false)
    | .ok db => some ((g.commit db).unlockRow w.row.id, .committed w)
  | .committed w, .release => some (g.unlockIpam w.row.serverId, .done true)
  | _, _ => none

/-- What one of the other requests makes of its snapshot. -/
def Request.read (db : Db) : Request → Stage
  | .registerClient ctx payload =>
    match registerClientChecks ctx db payload with
    | .error _ => .done
    | .ok (_, allocated) => .inserting db (newClient ctx payload allocated)
  | .registerManualClient ctx payload =>
    match registerManualClientChecks ctx db payload with
    | .error _ => .done
    | .ok (_, allocated) => .inserting db (newManualClient ctx payload allocated)
  | .deleteClient ctx scope clientId =>
    match clientGate db scope clientId with
    | .error _ => .done
    | .ok row =>
      .deleting row (ctx.auditEvent "client.delete" "client" "delete" (some clientId) row.tenantId
        (some (.client row)) none)
  | .revokeEnrollmentToken ctx scope tokenId =>
    match tokenGate db scope tokenId with
    | .error _ => .done
    | .ok row =>
      match revokeToken row ctx.now ctx.actorCn with
      | none => .done
      | some revoked =>
        -- the image after the event is the row this session has loaded and marked: a use that is
        -- committed in between is not in it, and nothing here reads the hash
        .revoking row ctx.now ctx.actorCn
          (ctx.auditEvent "enrollment_token.revoke" "enrollment_token" "revoke" (some row.id)
            row.tenantId (some (.enrollmentToken { row with tokenHash := "" }))
            (some (.enrollmentToken { revoked with tokenHash := "" })))

/-- The `UPDATE` of a revocation by a session that has `loaded` the row.  The session writes the
columns that it has changed: `revoked_by_cn` is not among them when the name is the one it read. -/
def updateRevoked (loaded : EnrollmentToken) (now : Datetime) (revokedByCn : Option String)
    (row : EnrollmentToken) : EnrollmentToken :=
  { row with
    revokedAt := some now
    revokedByCn := if revokedByCn = loaded.revokedByCn then row.revokedByCn else revokedByCn }

theorem pk_updateRevoked (loaded : EnrollmentToken) (now : Datetime) (revokedByCn : Option String)
    (row : EnrollmentToken) : Keyed.pk (updateRevoked loaded now revokedByCn row) = Keyed.pk row :=
  rfl

/-- The token table after a revocation. -/
def revoked (tokens : Table EnrollmentToken) (loaded : EnrollmentToken) (now : Datetime)
    (revokedByCn : Option String) : Table EnrollmentToken :=
  tokens.modify loaded.id (updateRevoked loaded now revokedByCn)
    (pk_updateRevoked loaded now revokedByCn)

/-- A step of one of the other requests. -/
def requestStep (i : ℕ) (g : Shared) (q : Request) : Stage → Action → Option (Shared × Stage)
  | .begun, .read => some (g, q.read g.db)
  | .inserting _ row, .commit =>
    match flushClient q.context.coll g.db.clients row with
    | none => some (g, .done)
    | some clients => some (g.commit { g.db with clients }, .done)
  | .deleting row event, .commit =>
    match flushAudit g.db.auditEvents event with
    | none => some (g, .done)
    | some auditEvents =>
      some (g.commit { g.db with clients := g.db.clients.delete row.id, auditEvents }, .done)
  | .revoking row now cn event, .update =>
    if g.rows row.id = none then some (g.lockRow i row.id, .marked row now cn event) else none
  | .marked row now cn event, .commit =>
    match flushAudit g.db.auditEvents event with
    | none => some (g.unlockRow row.id, .done)
    | some auditEvents =>
      let enrollmentTokens := revoked g.db.enrollmentTokens row now cn
      some ((g.commit { g.db with enrollmentTokens, auditEvents }).unlockRow row.id, .done)
  | .marked row _ _ _, .fail => some (g.unlockRow row.id, .done)
  | .done, _ => none
  | _, .fail => some (g, .done)
  | _, _ => none

/-- A step of a process. -/
def procStep (i : ℕ) (g : Shared) : Option Proc → Action → Option (Shared × Option Proc)
  | none, _ => none
  | some (.redemption r ph), a =>
    (redemptionStep i g r ph a).map fun s ↦ (s.1, some (.redemption r s.2))
  | some (.request q st), a =>
    (requestStep i g q st a).map fun s ↦ (s.1, some (.request q s.2))

/-- A step of the system. -/
def step : Config Shared Proc → ℕ × Action → Option (Config Shared Proc) := Config.step procStep

/-- A process that has not begun. -/
def Proc.fresh : Proc → Prop
  | .redemption _ .begun => True
  | .request _ .begun => True
  | _ => False

/-- No request has begun, and no lock is held. -/
structure Initial (c : Config Shared Proc) : Prop where
  ipam : ∀ k, c.shared.ipam k = none
  rows : ∀ k, c.shared.rows k = none
  proc : ∀ i p, c.proc i = some p → p.fresh

theorem Initial.begun {c : Config Shared Proc} (h : Initial c) {i : ℕ} {p : Proc}
    (hp : c.proc i = some p) : (∃ r, p = .redemption r .begun) ∨ ∃ q, p = .request q .begun := by
  have hfresh := h.proc i p hp
  rcases p with ⟨r, ph⟩ | ⟨q, st⟩
  · cases ph with
    | begun => exact .inl ⟨r, rfl⟩
    | _ => exact hfresh.elim
  · cases st with
    | begun => exact .inr ⟨q, rfl⟩
    | _ => exact hfresh.elim

/-! ## What a step can do -/

/-- **What a step of a redemption can do.** -/
inductive RedemptionMove (i : ℕ) (g : Shared) (r : Redemption) :
    Phase → Action → Shared → Phase → Prop
  | refused {e : Rejection} (h : r.checks g.db = .error e) :
      RedemptionMove i g r .begun .read g (.done false)
  | read {row : EnrollmentToken} {payload : EnrollRequest}
      (h : r.checks g.db = .ok (row, payload)) :
      RedemptionMove i g r .begun .read g (.checked ⟨g.db, row, payload⟩)
  | notAcquired {w : Lookup} {e : Rejection} (h : r.env.ipamLock w.row.serverId = .error e) :
      RedemptionMove i g r (.checked w) .lock g (.done false)
  | lock {w : Lookup} (h : r.env.ipamLock w.row.serverId = .ok ())
      (free : g.ipam w.row.serverId = none) :
      RedemptionMove i g r (.checked w) .lock (g.lockIpam i w.row.serverId) (.locked w)
  | rejected {w : Lookup} (h : r.env.fails .consumeToken = true ∨
        consumeToken g.db.enrollmentTokens w.row.id = none) :
      RedemptionMove i g r (.locked w) .consume (g.unlockIpam w.row.serverId) (.done false)
  | consume {w : Lookup} {tokens : Table EnrollmentToken}
      (point : r.env.fails .consumeToken = false) (free : g.rows w.row.id = none)
      (h : consumeToken g.db.enrollmentTokens w.row.id = some tokens) :
      RedemptionMove i g r (.locked w) .consume (g.lockRow i w.row.id) (.consumed w)
  | notAdmitted {w : Lookup} {e : Rejection}
      (h : r.env.admitClient w.snap w.row w.payload = .error e) :
      RedemptionMove i g r (.consumed w) .admitClient
        ((g.unlockRow w.row.id).unlockIpam w.row.serverId) (.done false)
  | admitClient {w : Lookup} {a : Admitted} (h : r.env.admitClient w.snap w.row w.payload = .ok a) :
      RedemptionMove i g r (.consumed w) .admitClient g (.admitted w a)
  | rolledBack {w : Lookup} {a : Admitted} {e : Rejection}
      (h : r.env.commitEnroll (withUse g.db w.row.id) w.row a.client = .error e) :
      RedemptionMove i g r (.admitted w a) .commit
        ((g.unlockRow w.row.id).unlockIpam w.row.serverId) (.done false)
  | commit {w : Lookup} {a : Admitted} {db : Db}
      (h : r.env.commitEnroll (withUse g.db w.row.id) w.row a.client = .ok db) :
      RedemptionMove i g r (.admitted w a) .commit ((g.commit db).unlockRow w.row.id) (.committed w)
  | release {w : Lookup} :
      RedemptionMove i g r (.committed w) .release (g.unlockIpam w.row.serverId) (.done true)

theorem redemptionMove_of_step {i : ℕ} {g g' : Shared} {r : Redemption} {ph ph' : Phase}
    {a : Action} (h : redemptionStep i g r ph a = some (g', ph')) :
    RedemptionMove i g r ph a g' ph' := by
  unfold redemptionStep at h
  split at h
  · split at h
    · next hchecks => cases h; exact .refused hchecks
    · next hchecks => cases h; exact .read hchecks
  · split at h
    · next hlock => cases h; exact .notAcquired hlock
    · next hlock =>
      split at h
      · next hfree => cases h; exact .lock hlock hfree
      · cases h
  · split at h
    · next hfail => cases h; exact .rejected (.inl hfail)
    · next hpoint =>
      split at h
      · next hfree =>
        split at h
        · next hnone => cases h; exact .rejected (.inr hnone)
        · next hsome => cases h; exact .consume (by simpa using hpoint) hfree hsome
      · cases h
  · split at h
    · next hadm => cases h; exact .notAdmitted hadm
    · next hadm => cases h; exact .admitClient hadm
  · split at h
    · next hcommit => cases h; exact .rolledBack hcommit
    · next hcommit => cases h; exact .commit hcommit
  · cases h; exact .release
  · cases h

/-- **What a step of one of the other requests can do.** -/
inductive RequestMove (i : ℕ) (g : Shared) (q : Request) : Stage → Action → Shared → Stage → Prop
  | read : RequestMove i g q .begun .read g (q.read g.db)
  | insert {snap : Db} {row : Client} {clients : Table Client}
      (h : flushClient q.context.coll g.db.clients row = some clients) :
      RequestMove i g q (.inserting snap row) .commit (g.commit { g.db with clients }) .done
  | delete {row : Client} {event : AuditEvent} {auditEvents : Table AuditEvent}
      (h : flushAudit g.db.auditEvents event = some auditEvents) :
      RequestMove i g q (.deleting row event) .commit
        (g.commit { g.db with clients := g.db.clients.delete row.id, auditEvents }) .done
  | mark {row : EnrollmentToken} {now : Datetime} {cn : Option String} {event : AuditEvent}
      (free : g.rows row.id = none) :
      RequestMove i g q (.revoking row now cn event) .update (g.lockRow i row.id)
        (.marked row now cn event)
  | revoke {row : EnrollmentToken} {now : Datetime} {cn : Option String} {event : AuditEvent}
      {auditEvents : Table AuditEvent} (h : flushAudit g.db.auditEvents event = some auditEvents) :
      RequestMove i g q (.marked row now cn event) .commit
        ((g.commit { g.db with
            enrollmentTokens := revoked g.db.enrollmentTokens row now cn
            auditEvents }).unlockRow row.id) .done
  /-- The transaction is rolled back while the token row is locked. -/
  | unmark {row : EnrollmentToken} {now : Datetime} {cn : Option String} {event : AuditEvent}
      {a : Action} : RequestMove i g q (.marked row now cn event) a (g.unlockRow row.id) .done
  | rolledBack {st : Stage} {a : Action} : RequestMove i g q st a g .done

theorem requestMove_of_step {i : ℕ} {g g' : Shared} {q : Request} {st st' : Stage} {a : Action}
    (h : requestStep i g q st a = some (g', st')) : RequestMove i g q st a g' st' := by
  unfold requestStep at h
  split at h
  · cases h; exact .read
  · split at h
    · cases h; exact .rolledBack
    · next hflush => cases h; exact .insert hflush
  · split at h
    · cases h; exact .rolledBack
    · next hflush => cases h; exact .delete hflush
  · split at h
    · next hfree => cases h; exact .mark hfree
    · cases h
  · split at h
    · cases h; exact .unmark
    · next hflush => cases h; exact .revoke hflush
  · cases h; exact .unmark
  · cases h
  · cases h; exact .rolledBack
  · cases h

/-- A step is a step of a redemption or of another request, and the process stays what it is. -/
theorem procStep_cases {i : ℕ} {g g' : Shared} {p p' : Option Proc} {a : Action}
    (h : procStep i g p a = some (g', p')) :
    (∃ r ph ph', p = some (.redemption r ph) ∧ p' = some (.redemption r ph') ∧
      RedemptionMove i g r ph a g' ph') ∨
    ∃ q st st', p = some (.request q st) ∧ p' = some (.request q st') ∧
      RequestMove i g q st a g' st' := by
  rcases p with _ | (⟨r, ph⟩ | ⟨q, st⟩)
  · cases h
  · obtain ⟨⟨g₁, ph'⟩, hstep, hpair⟩ := Option.map_eq_some_iff.mp h
    cases hpair
    exact .inl ⟨r, ph, ph', rfl, rfl, redemptionMove_of_step hstep⟩
  · obtain ⟨⟨g₁, st'⟩, hstep, hpair⟩ := Option.map_eq_some_iff.mp h
    cases hpair
    exact .inr ⟨q, st, st', rfl, rfl, requestMove_of_step hstep⟩

end WgManager.Enroll
