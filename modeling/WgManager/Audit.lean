import Mathlib.Data.List.Chain
import WgManager.Routers.Clients
import WgManager.Routers.SshKeys
import WgManager.Certs
import WgManager.Enroll.AllOrNothing

/-!
# The audit log

`AuditEvent` is meant to be the record of everything that happens to a managed resource: a server, a
client, an SSH key or a certificate that is created, updated, deleted or revoked leaves one event in
the transaction that does it, with the hashes of the row before and after.  `Audited` says so of one
transaction.

A request may commit more than once: `request_reconfigure` has a transaction of its own, after the
one of the handler that calls it.  `commits` lists what a request to `/servers`, `/clients`,
`/ssh-keys`, `/certs` or `POST /v1/enroll` commits, in order; the last commit is what the handler
leaves (`last_commits`).  When all of these transactions are audited is settled in
`Audit.Completeness`.
-/

set_option autoImplicit false

namespace WgManager

/-! ## Resources -/

/-- The database and the registry of certificates. -/
structure Resources where
  db : Db
  certs : CertTable

/-- The tables whose rows are audited. -/
inductive Kind
  | server
  | client
  | sshKey
  | certificate
  deriving DecidableEq

/-- The `resource_type` of an event. -/
def Kind.resourceType : Kind → String
  | server => "server"
  | client => "client"
  | sshKey => "ssh_key"
  | certificate => "certificate"

/-- A row of one of these tables. -/
inductive Image
  | row (image : RowImage)
  | certificate (row : CertificateRow)

/-- The row of a table with a key. -/
def Resources.image (s : Resources) : Kind → ℕ → Option Image
  | .server, id => (s.db.servers.get id).map fun r ↦ .row (.server r)
  | .client, id => (s.db.clients.get id).map fun r ↦ .row (.client r)
  | .sshKey, id => (s.db.sshKeys.get id).map fun r ↦ .row (.sshKey r)
  | .certificate, id => (s.certs.certificates.get id).map .certificate

/-- What has happened to a row. -/
def auditAction : Option Image → Option Image → String
  | none, _ => "create"
  | some _, none => "delete"
  | some (.certificate before), some (.certificate after) =>
    if !before.revoked && after.revoked then "revoke" else "update"
  | some _, some _ => "update"

/-- The event records that a row has gone from `before` to `after`. -/
structure AuditEvent.Records (e : AuditEvent) (digest : Image → String) (k : Kind) (id : ℕ)
    (before after : Option Image) : Prop where
  resourceType : e.resourceType = k.resourceType
  resourceId : e.resourceId = some id
  action : e.action = auditAction before after
  beforeHash : e.beforeHash = before.map digest
  afterHash : e.afterHash = after.map digest

/-- The transaction that leads from `s` to `s'` writes the event. -/
def Writes (s s' : Resources) (e : AuditEvent) : Prop :=
  e ∈ s'.db.auditEvents.rows ∧ e ∉ s.db.auditEvents.rows

/-- **A transaction is audited**: it writes exactly one event for each row it affects, and no
other. -/
structure Audited (digest : Image → String) (s s' : Resources) : Prop where
  recorded : ∀ k id, s.image k id ≠ s'.image k id →
    ∃! e, Writes s s' e ∧ e.Records digest k id (s.image k id) (s'.image k id)
  justified : ∀ e, Writes s s' e → ∃ k id, s.image k id ≠ s'.image k id ∧
    e.Records digest k id (s.image k id) (s'.image k id)

/-! ## Requests -/

/-- The requests of the `/certs` router. -/
inductive CertRequest
  | whoami
  | list
  | issue (payload : CertificateIssueRequest)
  | renew (certId : ℕ)
  | revoke (certId : ℕ)

/-- A request to one of the routers, or to the enrollment listener. -/
inductive ApiRequest
  | servers (request : ServerRequest)
  | clients (request : ClientRequest)
  | sshKeys (request : SSHKeyRequest)
  | certs (request : CertRequest)
  | enroll (call : EnrollCall)

/-- What the requests meet.  All of them hash rows in the same way. -/
structure Surroundings where
  ctx : Context
  scope : TenantScope
  dir : Directory
  certCtx : CertContext
  /-- The SHA-256 digest of a certificate row in canonical JSON. -/
  certDigest : CertificateRow → String
  env : EnrollEnv
  digest_eq : env.digest = ctx.digest

/-- The digest of a row. -/
def Surroundings.digest (w : Surroundings) : Image → String
  | .row image => w.ctx.digest image
  | .certificate row => w.certDigest row

/-- The table in which a request inserts a row under `w.ctx.newId`.  The certificates have a counter
of their own, and an enrollment is refused by the database when its keys are taken. -/
def ApiRequest.newRowIn : ApiRequest → Option Kind
  | .servers (.register _) => some .server
  | .clients (.register _) => some .client
  | .clients (.registerManual _) => some .client
  | .sshKeys (.create _) => some .sshKey
  | _ => none

/-- The auto-increment keys that the database hands out are new. -/
structure Surroundings.Fresh (w : Surroundings) (s : Resources) (request : ApiRequest) : Prop where
  row : ∀ k, request.newRowIn = some k → s.image k w.ctx.newId = none
  auditEvent : s.db.auditEvents.get w.ctx.auditId = none

/-! ## What a request commits -/

/-- What `request_reconfigure` commits. -/
def reconfigureCommits (db : Db) (serverId : ℕ) : List Db :=
  if (db.servers.get serverId).isSome then [db.bumpRequestedGen serverId] else []

/-- What `register_manual_client` commits. -/
def registerManualClientCommits (ctx : Context) (db : Db) (payload : ClientManualCreate) :
    List Db :=
  match registerManualClientChecks ctx db payload with
  | .error _ => []
  | .ok (server, allocated) =>
    let row := newManualClient ctx payload allocated
    let db' := { db with clients := db.clients.insert row }
    match renderManualClientConfig row server ctx.keypair.1 with
    | none => [db']
    | some _ => db' :: reconfigureCommits db' payload.serverId

/-- What `delete_client` commits. -/
def deleteClientCommits (ctx : Context) (db : Db) (scope : TenantScope) (clientId : ℕ) : List Db :=
  match clientGate db scope clientId with
  | .error _ => []
  | .ok row =>
    let db' := { db with clients := db.clients.delete clientId }.persistAudit ctx "client.delete"
      "client" "delete" (some clientId) row.tenantId (some (.client row)) none
    db' :: reconfigureCommits db' row.serverId

/-- What a request to `/clients` commits. -/
def clientCommits (ctx : Context) (db : Db) (scope : TenantScope) : ClientRequest → List Db
  | .registerManual payload => registerManualClientCommits ctx db payload
  | .delete clientId => deleteClientCommits ctx db scope clientId
  | request => [(handleClients ctx db scope request).db]

/-- What a redemption commits. -/
def enrollCommits (env : EnrollEnv) (db : Db) (call : EnrollCall) : List Db :=
  match env.transaction db call with
  | .error _ => []
  | .ok (committed, admitted) =>
    committed ::
      if env.fails .acknowledge || env.fails .refresh || env.fails .bump then []
      else reconfigureCommits committed admitted.server.id

/-- The event of `revoke_cert`. -/
def Surroundings.revokeEvent (w : Surroundings) (before after : CertificateRow) : AuditEvent :=
  { w.ctx.auditEvent "certificate.revoke" "certificate" "revoke" (some after.id) after.tenantId
      none none with
    beforeHash := some (w.certDigest before)
    afterHash := some (w.certDigest after) }

/-- What a request to `/certs` commits. -/
def certCommits (w : Surroundings) (s : Resources) : CertRequest → List Resources
  | .whoami | .list => []
  | .issue payload =>
    match issueCert w.dir w.certCtx s.certs payload with
    | .error _ => []
    | .ok certs => [{ s with certs }]
  | .renew certId =>
    match renewCert w.certCtx s.certs certId with
    | .error _ => []
    | .ok certs => [{ s with certs }]
  | .revoke certId =>
    match revokeCert w.certCtx s.certs certId with
    | .error _ => []
    | .ok (certs, none) => [{ s with certs }]
    | .ok (certs, some (before, after)) =>
      let auditEvents := s.db.auditEvents.insert (w.revokeEvent before after)
      [{ db := { s.db with auditEvents }, certs }]

/-- What a request commits, in order. -/
def commits (w : Surroundings) (s : Resources) : ApiRequest → List Resources
  | .servers request => [{ s with db := (handleServers w.ctx s.db w.scope request).db }]
  | .clients request =>
    (clientCommits w.ctx s.db w.scope request).map fun db ↦ { s with db }
  | .sshKeys request => [{ s with db := (handleSshKeys w.ctx s.db w.scope request).db }]
  | .certs request => certCommits w s request
  | .enroll call => (enrollCommits w.env s.db call).map fun db ↦ { s with db }

/-- Every transaction of a request is audited. -/
def AuditedRequest (w : Surroundings) (s : Resources) (request : ApiRequest) : Prop :=
  (s :: commits w s request).IsChain (Audited w.digest)

/-! ### The last commit is what the handler leaves -/

section

variable {db : Db}

theorem last_reconfigureCommits {serverId : ℕ} {answer : ℕ × Body} :
    (reconfigureCommits db serverId).getLastD db = (requestReconfigure db serverId answer).db := by
  rw [reconfigureCommits]
  split
  · next h =>
    obtain ⟨row, hrow⟩ := Option.isSome_iff_exists.mp h
    rw [requestReconfigure_of_some hrow]
    rfl
  · next h =>
    rw [requestReconfigure_of_none (by simpa using h)]
    rfl

theorem last_clientCommits (ctx : Context) (scope : TenantScope) (request : ClientRequest) :
    (clientCommits ctx db scope request).getLastD db = (handleClients ctx db scope request).db := by
  cases request with
  | registerManual payload =>
    rw [clientCommits, registerManualClientCommits, handleClients, registerManualClient]
    cases registerManualClientChecks ctx db payload with
    | error e => rfl
    | ok found =>
      obtain ⟨server, allocated⟩ := found
      dsimp only [Outcome.ofChecks]
      cases renderManualClientConfig (newManualClient ctx payload allocated) server
          ctx.keypair.1 with
      | none => rfl
      | some wgConfig =>
        rw [List.getLastD_cons]
        exact last_reconfigureCommits
  | delete clientId =>
    rw [clientCommits, deleteClientCommits, handleClients, deleteClient]
    cases clientGate db scope clientId with
    | error e => rfl
    | ok row =>
      dsimp only [Outcome.ofChecks]
      rw [List.getLastD_cons]
      exact last_reconfigureCommits
  | _ => rfl

theorem last_enrollCommits (env : EnrollEnv) (call : EnrollCall) :
    (enrollCommits env db call).getLastD db = (env.enroll db call).db := by
  rw [enrollCommits, EnrollEnv.enroll]
  cases env.transaction db call with
  | error e => rfl
  | ok result =>
    obtain ⟨committed, admitted⟩ := result
    dsimp only
    rw [EnrollEnv.finish, List.getLastD_cons]
    split
    · rfl
    · rw [reconfigureCommits]
      cases hserver : committed.servers.get admitted.server.id with
      | none => rfl
      | some server =>
        have hid : server.id = admitted.server.id := Table.pk_of_get hserver
        simp only [hid, Option.isSome_some, if_true]
        split
        · rfl
        · split <;> rfl

end

/-- **What a handler leaves is what it has committed last**, for the two kinds of requests that
commit more than once; all others are their one commit. -/
theorem last_commits (w : Surroundings) (s : Resources) :
    (∀ request, (commits w s (.clients request)).getLastD s =
      { s with db := (handleClients w.ctx s.db w.scope request).db }) ∧
    ∀ call, (commits w s (.enroll call)).getLastD s =
      { s with db := (w.env.enroll s.db call).db } := by
  have hmap (dbs : List Db) : (dbs.map fun db ↦ { s with db := db }).getLastD s =
      { s with db := dbs.getLastD s.db } := by
    rw [List.getLastD_eq_getLast?, List.getLastD_eq_getLast?, List.getLast?_map]
    cases dbs.getLast? <;> rfl
  refine ⟨fun request ↦ ?_, fun call ↦ ?_⟩
  · rw [commits, hmap, last_clientCommits]
  · rw [commits, hmap, last_enrollCommits]

end WgManager
