import WgManager.Lib.Collation
import WgManager.Lib.Except
import WgManager.TenantScope
import WgManager.Ipam
import WgManager.Wireguard

/-!
# What a request does

A handler of the operator API, called on a database by a caller, leaves a database, has queued some
Celery tasks, and answers.  `Outcome` holds the three together, because a handler that fails late —
after its commit — answers with an error and still has changed rows.

Every handler has the same shape: checks that have no effect, then the effect.  `Outcome.ofChecks`
is that shape.  What a handler takes from its surroundings (the clock, the keys the database hands
out, how it compares texts, the settings) is in `Context`.
-/

set_option autoImplicit false

namespace WgManager

/-- What a handler takes from its surroundings. -/
structure Context where
  now : Datetime
  /-- How the database compares texts. -/
  coll : Collation
  /-- The auto-increment key of the row the request inserts. -/
  newId : ℕ
  /-- The key of the audit row it writes. -/
  auditId : ℕ
  /-- The common name of the calling operator. -/
  actorCn : Option String
  /-- `settings.default_subnet`. -/
  defaultSubnet : IPv4Network
  /-- What `generate_wireguard_keypair` returns: the private and the public key. -/
  keypair : String × String
  /-- The id Celery gives to the task the request queues. -/
  taskId : String
  /-- `repr` of a string, as in `{name!r}`. -/
  repr : String → String
  /-- The SHA-256 digest of a row in canonical JSON. -/
  digest : RowImage → String

/-- A Celery task queued by a handler. -/
inductive Dispatch
  | provisionServer (serverId : ℕ)
  | provisionClient (clientId : ℕ)
  | rotateHostCert (serverId : ℕ)
  | rotateClientHostCert (clientId : ℕ)
  | reconfigureServer (serverId generation : ℕ)
  | discoverPeers (serverId : ℕ)
  | discoverAllPeers
  deriving DecidableEq

/-- `ServerRead`: the columns of a server that the API shows. -/
structure ServerRead where
  id : ℕ
  hostname : String
  sshPort : ℕ
  sshUsername : String
  sshKeyId : ℕ
  endpointHost : String
  endpointPort : ℤ
  interface : String
  subnet : IPv4Network
  address : IPv4Interface
  publicKey : String
  status : NodeStatus
  createdAt : Datetime
  tenantId : Option ℕ
  hostCert : HostCertColumns
  deriving DecidableEq

/-- `ServerRead.model_validate(row)`. -/
def Server.read (row : Server) : ServerRead where
  id := row.id
  hostname := row.hostname
  sshPort := row.sshPort
  sshUsername := row.sshUsername
  sshKeyId := row.sshKeyId
  endpointHost := row.endpointHost
  endpointPort := row.endpointPort
  interface := row.interface
  subnet := row.subnet
  address := row.address
  publicKey := row.publicKey
  status := row.status
  createdAt := row.createdAt
  tenantId := row.tenantId
  hostCert := row.hostCert

/-- Derived state of an enrollment token. -/
inductive EnrollmentTokenStatus
  | active
  | revoked
  | expired
  | exhausted
  deriving DecidableEq

/-- `EnrollmentTokenRead`: a token without its hash, with its derived status. -/
structure EnrollmentTokenRead where
  id : ℕ
  tenantId : Option ℕ
  serverId : ℕ
  sshKeyId : ℕ
  sshUsername : String
  namePrefix : String
  maxUses : ℕ
  useCount : ℕ
  expiresAt : Datetime
  createdByCn : Option String
  createdAt : Datetime
  revokedAt : Option Datetime
  revokedByCn : Option String
  allowedCidrs : Option (List String)
  status : EnrollmentTokenStatus
  deriving DecidableEq

/-- The body of a successful response.  `ClientRead`, `SSHKeyRead`, `DiscoveredPeerRead` and
`TenantRead` show all columns of their tables. -/
inductive Body
  | noContent
  | text (body : String)
  | server (row : ServerRead)
  | servers (rows : List ServerRead)
  | serverTask (taskId : String) (row : ServerRead)
  | discoverAll (taskId : String) (serverCount : ℕ)
  | peers (rows : List DiscoveredPeer)
  | client (row : Client)
  | clients (rows : List Client)
  | clientTask (taskId : String) (row : Client)
  | manualClient (taskId : String) (row : Client) (wgConfig : String)
  | clientDeleted (taskId : String) (clientId serverId : ℕ)
  | sshKey (row : SSHKey)
  | sshKeys (rows : List SSHKey)
  | enrollmentToken (row : EnrollmentTokenRead)
  | enrollmentTokens (rows : List EnrollmentTokenRead)
  | mintedToken (id : ℕ) (token : String) (serverId : ℕ) (tenantId : Option ℕ) (maxUses : ℕ)
      (expiresAt : Datetime)
  | tenant (row : Tenant)
  | tenants (rows : List Tenant)
  deriving DecidableEq

/-- A response: an error, or a status with a body. -/
abbrev Response := Except HttpError (ℕ × Body)

/-- What a request leaves behind, and what it answers. -/
structure Outcome where
  db : Db
  dispatched : List Dispatch := []
  response : Response

/-- A handler whose checks come first: when one fails, nothing has happened. -/
def Outcome.ofChecks {α : Type} (db : Db) (checks : Except HttpError α) (effect : α → Outcome) :
    Outcome :=
  match checks with
  | .error e => ⟨db, [], .error e⟩
  | .ok a => effect a

/-- An uncaught exception in a handler. -/
def internalServerError : HttpError := ⟨500, "Internal Server Error"⟩

/-- `canonical_json_hash`; `None` has no hash. -/
def canonicalJsonHash (digest : RowImage → String) (image : Option RowImage) : Option String :=
  image.map digest

/-- The audit row of an event on one row. -/
def Context.auditEvent (ctx : Context) (event resourceType action : String)
    (resourceId tenantId : Option ℕ) (before after : Option RowImage) : AuditEvent where
  id := ctx.auditId
  tenantId := tenantId
  ts := ctx.now
  event := event
  actorCn := ctx.actorCn
  resourceType := resourceType
  resourceId := resourceId
  action := action
  beforeHash := canonicalJsonHash ctx.digest before
  afterHash := canonicalJsonHash ctx.digest after

/-- `audit.persist`, for an event on one row. -/
def Db.persistAudit (db : Db) (ctx : Context) (event resourceType action : String)
    (resourceId tenantId : Option ℕ) (before after : Option RowImage) : Db :=
  { db with
    auditEvents := db.auditEvents.insert
      (ctx.auditEvent event resourceType action resourceId tenantId before after) }

/-- The `UPDATE` that asks a hub for one more reconfigure. -/
def Db.bumpRequestedGen (db : Db) (serverId : ℕ) : Db :=
  { db with servers := db.servers.modify serverId fun r ↦
      { r with reconfigRequestedGen := r.reconfigRequestedGen + 1 } }

/-- `request_reconfigure(server_id)`, after the handler's own commit `db`: bump the requested
generation, read it back, queue the task.  A hub that is gone is a `ValueError`. -/
def requestReconfigure (db : Db) (serverId : ℕ) (answer : ℕ × Body) : Outcome :=
  match db.servers.get serverId with
  | none => ⟨db, [], .error internalServerError⟩
  | some row =>
    { db := db.bumpRequestedGen serverId
      dispatched := [.reconfigureServer serverId (row.reconfigRequestedGen + 1)]
      response := .ok answer }

theorem requestReconfigure_of_none {db : Db} {serverId : ℕ} {answer : ℕ × Body}
    (h : db.servers.get serverId = none) :
    requestReconfigure db serverId answer = ⟨db, [], .error internalServerError⟩ := by
  rw [requestReconfigure, h]

theorem requestReconfigure_of_some {db : Db} {serverId : ℕ} {answer : ℕ × Body} {row : Server}
    (h : db.servers.get serverId = some row) :
    requestReconfigure db serverId answer =
      ⟨db.bumpRequestedGen serverId,
        [.reconfigureServer serverId (row.reconfigRequestedGen + 1)], .ok answer⟩ := by
  rw [requestReconfigure, h]

/-- Digests for examples: 64 hexadecimal digits that tell the tables apart. -/
def exampleDigest : RowImage → String
  | .server _ => "".pushn 'a' 64
  | .client _ => "".pushn 'b' 64
  | .sshKey _ => "".pushn 'c' 64
  | .enrollmentToken _ => "".pushn 'd' 64

/-- Surroundings for examples. -/
def exampleContext : Context where
  now := 0
  coll := .binary
  newId := 2
  auditId := 1
  actorCn := none
  defaultSubnet := exampleSubnet
  keypair := ("private", "public")
  taskId := "task"
  repr := fun text ↦ "'" ++ text ++ "'"
  digest := exampleDigest

end WgManager
