import WgManager.Enroll.AllOrNothing
import WgManager.Routers.Clients
import WgManager.Routers.EnrollmentTokens
import WgManager.Routers.SshKeys
import WgManager.Routers.Tenants
import WgManager.Lib.Interleave

/-!
# The control plane as one state machine

All requests that change the database, one after the other: those of the operator API, the tenant
command of the command line, the redemption of a token, and what a provisioning task writes into its
row.  `ControlPlane.step` is total: a request that is refused leaves the database as it is.

`move_of_step` says once what an action can do to the tables.  It looks at them from far enough away
that most actions do nothing: a hub is its tenant and its subnet (`Db.hub`), a client or a token is
the hub it refers to and the tenant it is filed under (`Filing`).  What is left are the six moves
that the results about tenants are about.
-/

set_option autoImplicit false

namespace WgManager

/-- What a provisioning task writes into the row of its node. -/
structure Provisioned where
  status : NodeStatus
  publicKey : String
  hostCert : HostCertColumns

/-- What changes the database. -/
inductive Action
  | tenants (ctx : TenantContext) (caller : Option Operator) (request : TenantRequest)
  /-- `wg-manager tenants create`. -/
  | tenantsCreate (ctx : TenantContext) (args : TenantCreate)
  | servers (ctx : Context) (scope : TenantScope) (request : ServerRequest)
  | clients (ctx : Context) (scope : TenantScope) (request : ClientRequest)
  | sshKeys (ctx : Context) (scope : TenantScope) (request : SSHKeyRequest)
  | mintToken (ctx : Context) (lib : TokenLibrary) (token : String) (scope : TenantScope)
      (payload : EnrollmentTokenCreate)
  | revokeToken (ctx : Context) (scope : TenantScope) (tokenId : ℕ)
  | enroll (env : EnrollEnv) (call : EnrollCall)
  | provisionServer (serverId : ℕ) (result : Provisioned)
  | provisionClient (clientId : ℕ) (result : Provisioned)

def Provisioned.applyServer (result : Provisioned) (row : Server) : Server :=
  { row with
    status := result.status
    publicKey := result.publicKey
    hostCert := result.hostCert }

def Provisioned.applyClient (result : Provisioned) (row : Client) : Client :=
  { row with
    status := result.status
    publicKey := result.publicKey
    hostCert := result.hostCert }

/-- The database after an action. -/
def Db.act (db : Db) : Action → Db
  | .tenants ctx caller request => (handleTenants ctx db caller request).db
  | .tenantsCreate ctx args => (tenantsCreate ctx db args).1
  | .servers ctx scope request => (handleServers ctx db scope request).db
  | .clients ctx scope request => (handleClients ctx db scope request).db
  | .sshKeys ctx scope request => (handleSshKeys ctx db scope request).db
  | .mintToken ctx lib token scope payload =>
    (createEnrollmentToken ctx lib token db scope payload).db
  | .revokeToken ctx scope tokenId => (revokeEnrollmentToken ctx db scope tokenId).db
  | .enroll env call => (env.enroll db call).db
  | .provisionServer serverId result =>
    { db with servers := db.servers.modify serverId result.applyServer }
  | .provisionClient clientId result =>
    { db with clients := db.clients.modify clientId result.applyClient }

namespace ControlPlane

/-- One action. -/
def step (db : Db) (action : Action) : Option Db := some (db.act action)

/-! ## What is looked at -/

/-- Where a client or a token belongs. -/
structure Filing where
  serverId : ℕ
  tenantId : Option ℕ
  deriving DecidableEq

end ControlPlane

open ControlPlane

def Client.filing (row : Client) : Filing := ⟨row.serverId, row.tenantId⟩

def EnrollmentToken.filing (row : EnrollmentToken) : Filing := ⟨row.serverId, row.tenantId⟩

/-- The tenant and the subnet of a hub, which no update changes. -/
def Db.hub (db : Db) (serverId : ℕ) : Option (Option ℕ × IPv4Network) :=
  (db.servers.get serverId).map fun row ↦ (row.tenantId, row.subnet)

namespace ControlPlane

/-- The tenants and the hubs are the same, and there are no clients and tokens but those from before
and the ones given. -/
structure Frame (db db' : Db) (newClients newTokens : List Filing) : Prop where
  tenants : db'.tenants = db.tenants
  hubs : ∀ id, db'.hub id = db.hub id
  clients : ∀ c ∈ db'.clients.rows, c.filing ∈ newClients ∨
    ∃ c₀ ∈ db.clients.rows, c₀.filing = c.filing
  tokens : ∀ t ∈ db'.enrollmentTokens.rows,
    t.filing ∈ newTokens ∨ ∃ t₀ ∈ db.enrollmentTokens.rows, t₀.filing = t.filing

/-- A tenant is created with this pool, or with none. -/
def Creates (db : Db) (slug : String) (pool : Option SubnetPool) : Action → Prop
  | .tenants ctx caller (.create body) => createTenantChecks ctx db caller body = .ok (slug, pool)
  | .tenantsCreate ctx args => tenantsCreateChecks ctx db args = .ok (slug, pool)
  | _ => False

/-- A tenant is given this pool. -/
def SetsPool (db : Db) (row : Tenant) (pool : SubnetPool) : Action → Prop
  | .tenants ctx caller (.update slug body) =>
    updateTenantChecks ctx db caller slug body = .ok (row, some pool)
  | _ => False

/-- A client is registered on this hub by `POST /clients` or `POST /clients/manual`. -/
def Registers (db : Db) (server : Server) : Action → Prop
  | .clients ctx _ (.register payload) =>
    ∃ allocated, registerClientChecks ctx db payload = .ok (server, allocated)
  | .clients ctx _ (.registerManual payload) =>
    ∃ allocated, registerManualClientChecks ctx db payload = .ok (server, allocated)
  | _ => False

/-- What an action can do. -/
inductive Move (db : Db) (action : Action) (db' : Db) : Prop
  | stay (h : Frame db db' [] [])
  | createTenant (row : Tenant) (slug : String) (pool : Option SubnetPool)
      (h : Creates db slug pool action) (hpool : row.subnetPool = pool.getD .fallback)
      (hdb : db' = { db with tenants := db.tenants.insert row })
  | setPool (row : Tenant) (pool : SubnetPool) (h : SetsPool db row pool action)
      (hdb : db' = db.withPool row.id (some pool))
  | addServer (row : Server) (tenant : Tenant) (htenant : db.tenants.get tenant.id = some tenant)
      (hrow : row.tenantId = some tenant.id)
      (hpool : subnetInPool row.subnet tenant.subnetPool = true)
      (hservers : db'.servers = db.servers.insert row)
      (hothers : db'.tenants = db.tenants ∧ db'.clients = db.clients ∧
        db'.enrollmentTokens = db.enrollmentTokens)
  | dropServer (serverId : ℕ) (hservers : db'.servers = db.servers.delete serverId)
      (htenants : db'.tenants = db.tenants)
      (hclients : ∀ c ∈ db'.clients.rows, c ∈ db.clients.rows ∧ c.serverId ≠ serverId)
      (htokens : ∀ t ∈ db'.enrollmentTokens.rows,
        t ∈ db.enrollmentTokens.rows ∧ t.serverId ≠ serverId)
  | register (server : Server) (h : Registers db server action)
      (hserver : db.servers.get server.id = some server)
      (hframe : Frame db db' [⟨server.id, none⟩] [])
  | admitting (token : EnrollmentToken) (htoken : token ∈ db.enrollmentTokens.rows)
      (hframe : Frame db db' [token.filing] [])
  | mint (server : Server) (hserver : db.servers.get server.id = some server)
      (hframe : Frame db db' [] [⟨server.id, server.tenantId⟩])

/-! ## Frames -/

section

variable {db db' : Db} {action : Action}

theorem Frame.refl (db : Db) : Frame db db [] [] :=
  ⟨rfl, fun _ ↦ rfl, fun c hc ↦ .inr ⟨c, hc, rfl⟩, fun t ht ↦ .inr ⟨t, ht, rfl⟩⟩

/-- An audit row is not looked at. -/
theorem Frame.persistAudit {new new' : List Filing} (h : Frame db db' new new') {ctx : Context}
    {event resourceType action : String} {resourceId tenantId : Option ℕ}
    {before after : Option RowImage} :
    Frame db (db'.persistAudit ctx event resourceType action resourceId tenantId before after)
      new new' := by
  obtain ⟨htenants, hhubs, hclients, htokens⟩ := h
  exact ⟨htenants, hhubs, hclients, htokens⟩

/-- A change of a hub's other columns is not seen. -/
theorem hub_modify {serverId : ℕ} {f : Server → Server} {hf : ∀ r, Keyed.pk (f r) = Keyed.pk r}
    (hplace : ∀ r, (f r).tenantId = r.tenantId ∧ (f r).subnet = r.subnet) (id : ℕ) :
    ({ db with servers := db.servers.modify serverId f hf } : Db).hub id = db.hub id := by
  rw [Db.hub, Db.hub, Table.get_modify]
  split
  · cases db.servers.get id with
    | none => rfl
    | some row => simp [hplace row]
  · rfl

theorem Frame.modifyServer {new new' : List Filing} (h : Frame db db' new new') {serverId : ℕ}
    {f : Server → Server} {hf : ∀ r, Keyed.pk (f r) = Keyed.pk r}
    (hplace : ∀ r, (f r).tenantId = r.tenantId ∧ (f r).subnet = r.subnet) :
    Frame db { db' with servers := db'.servers.modify serverId f hf } new new' := by
  obtain ⟨htenants, hhubs, hclients, htokens⟩ := h
  exact ⟨htenants, fun id ↦ (hub_modify hplace id).trans (hhubs id), hclients, htokens⟩

theorem Frame.requestReconfigure {new new' : List Filing} (h : Frame db db' new new') (serverId : ℕ)
    (answer : ℕ × Body) : Frame db (requestReconfigure db' serverId answer).db new new' := by
  cases hget : db'.servers.get serverId with
  | none =>
    rw [requestReconfigure_of_none hget]
    exact h
  | some row =>
    rw [requestReconfigure_of_some hget]
    exact h.modifyServer fun _ ↦ ⟨rfl, rfl⟩

/-- A change of a client's other columns is not seen. -/
theorem frame_modifyClient {clientId : ℕ} {f : Client → Client}
    {hf : ∀ r, Keyed.pk (f r) = Keyed.pk r} (hfiling : ∀ r, (f r).filing = r.filing) :
    Frame db { db with clients := db.clients.modify clientId f hf } [] [] := by
  refine ⟨rfl, fun _ ↦ rfl, ?_, fun t ht ↦ .inr ⟨t, ht, rfl⟩⟩
  intro c hc
  rcases Table.mem_modify hf hc with ⟨hold, -⟩ | ⟨c₀, hc₀, -, rfl⟩
  · exact .inr ⟨c, hold, rfl⟩
  · exact .inr ⟨c₀, hc₀, (hfiling c₀).symm⟩

theorem frame_insertClient (db : Db) (row : Client) :
    Frame db { db with clients := db.clients.insert row } [row.filing] [] := by
  refine ⟨rfl, fun _ ↦ rfl, ?_, fun t ht ↦ .inr ⟨t, ht, rfl⟩⟩
  intro c hc
  rcases Table.mem_insert hc with hold | rfl
  · exact .inr ⟨c, hold, rfl⟩
  · exact .inl (List.mem_singleton_self _)

theorem frame_deleteClient (db : Db) (clientId : ℕ) :
    Frame db { db with clients := db.clients.delete clientId } [] [] := by
  refine ⟨rfl, fun _ ↦ rfl, ?_, fun t ht ↦ .inr ⟨t, ht, rfl⟩⟩
  intro c hc
  exact .inr ⟨c, (List.mem_filter.mp hc).1, rfl⟩

/-- A handler whose checks come first stays, or has its effect. -/
theorem move_ofChecks {α : Type} {checks : Except HttpError α} {effect : α → Outcome}
    (h : ∀ a, checks = .ok a → Move db action (effect a).db) :
    Move db action (Outcome.ofChecks db checks effect).db := by
  cases hchecks : checks with
  | error e => exact .stay (Frame.refl db)
  | ok a => exact h a hchecks

end

/-! ## The moves of each router -/

section

variable {db : Db}

theorem move_of_handleTenants (ctx : TenantContext) (caller : Option Operator)
    (request : TenantRequest) :
    Move db (.tenants ctx caller request) (handleTenants ctx db caller request).db := by
  cases request with
  | list => exact .stay (Frame.refl db)
  | get slug => exact .stay (Frame.refl db)
  | create body =>
    refine move_ofChecks fun a hchecks ↦ ?_
    obtain ⟨slug, pool⟩ := a
    exact .createTenant _ slug pool hchecks rfl rfl
  | update slug body =>
    refine move_ofChecks fun a hchecks ↦ ?_
    obtain ⟨row, pool⟩ := a
    cases pool with
    | some pool => exact .setPool row pool hchecks rfl
    | none =>
      -- without a pool the row is written back as it is
      have hsame : db.tenants.modify row.id (Tenant.withPool none) (Tenant.pk_withPool none) =
          db.tenants := Table.modify_eq_self fun _ ↦ rfl
      obtain ⟨-, hhubs, hclients, htokens⟩ := Frame.refl db
      exact .stay ⟨hsame, hhubs, hclients, htokens⟩

theorem move_of_tenantsCreate (ctx : TenantContext) (args : TenantCreate) :
    Move db (.tenantsCreate ctx args) (tenantsCreate ctx db args).1 := by
  rw [tenantsCreate]
  cases hchecks : tenantsCreateChecks ctx db args with
  | error message => exact .stay (Frame.refl db)
  | ok a =>
    obtain ⟨slug, pool⟩ := a
    exact .createTenant _ slug pool hchecks rfl rfl

/-- No client of a deleted hub is left. -/
theorem mem_clients_withoutServer {serverId : ℕ} {force : Bool} {c : Client}
    (h : force = true ∨ attachedClients db serverId = [])
    (hc : c ∈ (withoutServer db serverId force).clients.rows) :
    c ∈ db.clients.rows ∧ c.serverId ≠ serverId := by
  cases force with
  | true =>
    obtain ⟨hmem, hne⟩ := List.mem_filter.mp hc
    exact ⟨hmem, by simpa using hne⟩
  | false =>
    refine ⟨hc, ?_⟩
    have hnone : attachedClients db serverId = [] := h.resolve_left (by decide)
    rw [attachedClients, Table.select, List.filter_eq_nil_iff] at hnone
    simpa using hnone c hc

theorem move_of_handleServers (ctx : Context) (scope : TenantScope) (request : ServerRequest) :
    Move db (.servers ctx scope request) (handleServers ctx db scope request).db := by
  cases request with
  | register payload =>
    refine move_ofChecks fun a hchecks ↦ ?_
    obtain ⟨tenant, network, serverHost⟩ := a
    obtain ⟨htenant, hpool⟩ := registerServerChecks_eq_ok hchecks
    exact .addServer (newServer ctx payload tenant network serverHost) tenant htenant rfl hpool rfl
      ⟨rfl, rfl, rfl⟩
  | reprovision serverId =>
    exact move_ofChecks fun _ _ ↦ .stay ((Frame.refl db).modifyServer fun _ ↦ ⟨rfl, rfl⟩)
  | update serverId payload =>
    exact move_ofChecks fun _ _ ↦
      .stay ((Frame.refl db).modifyServer (f := payload.apply) fun _ ↦ ⟨rfl, rfl⟩).persistAudit
  | delete serverId force =>
    refine move_ofChecks fun _ hchecks ↦ ?_
    obtain ⟨-, hattached, hreferenced⟩ := deleteServerChecks_eq_ok hchecks
    refine .dropServer serverId rfl rfl ?_ ?_
    · exact fun c hc ↦ mem_clients_withoutServer hattached hc
    · intro t ht
      rw [stillReferenced, Bool.or_eq_false_iff, List.any_eq_false] at hreferenced
      exact ⟨ht, by simpa using hreferenced.1 t ht⟩
  | discover serverId => exact move_ofChecks fun _ _ ↦ .stay (Frame.refl db)
  | rotateHostCert serverId => exact move_ofChecks fun _ _ ↦ .stay (Frame.refl db)
  | list => exact .stay (Frame.refl db)
  | get serverId => exact .stay (Frame.refl db)
  | listDiscoveredPeers serverId => exact .stay (Frame.refl db)
  | listAllDiscoveredPeers => exact .stay (Frame.refl db)
  | discoverAll => exact .stay (Frame.refl db)

/-- A client that is registered is filed under no tenant, whosever the hub is. -/
theorem move_of_handleClients (ctx : Context) (scope : TenantScope) (request : ClientRequest) :
    Move db (.clients ctx scope request) (handleClients ctx db scope request).db := by
  cases request with
  | register payload =>
    refine move_ofChecks fun a hchecks ↦ ?_
    obtain ⟨server, allocated⟩ := a
    have hhub := hub_of_registerClientChecks hchecks
    have hid : payload.serverId = server.id := (Table.pk_of_get hhub).symm
    refine .register server ⟨allocated, hchecks⟩ (hid ▸ hhub) ?_
    have hframe := frame_insertClient db (newClient ctx payload allocated)
    rwa [show (newClient ctx payload allocated).filing = ⟨server.id, none⟩ from by
      rw [← hid]; rfl] at hframe
  | registerManual payload =>
    refine move_ofChecks fun a hchecks ↦ ?_
    obtain ⟨server, allocated⟩ := a
    have hhub := hub_of_registerManualClientChecks hchecks
    have hid : payload.serverId = server.id := (Table.pk_of_get hhub).symm
    have hframe := frame_insertClient db (newManualClient ctx payload allocated)
    rw [show (newManualClient ctx payload allocated).filing = ⟨server.id, none⟩ from by
      rw [← hid]; rfl] at hframe
    refine .register server ⟨allocated, hchecks⟩ (hid ▸ hhub) ?_
    dsimp only
    split
    · exact hframe
    · exact hframe.requestReconfigure _ _
  | reprovision clientId =>
    exact move_ofChecks fun _ _ ↦ .stay (frame_modifyClient fun _ ↦ rfl)
  | rotateHostCert clientId => exact move_ofChecks fun _ _ ↦ .stay (Frame.refl db)
  | list => exact .stay (Frame.refl db)
  | exportSshConfig => exact .stay (Frame.refl db)
  | get clientId => exact .stay (Frame.refl db)
  | update clientId payload =>
    exact move_ofChecks fun _ _ ↦ .stay (frame_modifyClient (f := payload.apply) fun _ ↦ rfl)
  | delete clientId =>
    exact move_ofChecks fun _ _ ↦
      .stay ((frame_deleteClient db clientId).persistAudit.requestReconfigure _ _)

theorem move_of_handleSshKeys (ctx : Context) (scope : TenantScope) (request : SSHKeyRequest) :
    Move db (.sshKeys ctx scope request) (handleSshKeys ctx db scope request).db := by
  obtain ⟨htenants, hhubs, hclients, htokens⟩ := Frame.refl db
  cases request with
  | create payload => exact move_ofChecks fun _ _ ↦ .stay ⟨htenants, hhubs, hclients, htokens⟩
  | update keyId name => exact move_ofChecks fun _ _ ↦ .stay ⟨htenants, hhubs, hclients, htokens⟩
  | delete keyId => exact move_ofChecks fun _ _ ↦ .stay ⟨htenants, hhubs, hclients, htokens⟩
  | list => exact .stay (Frame.refl db)
  | get keyId => exact .stay (Frame.refl db)

/-- A token is filed under the tenant of its hub. -/
theorem move_of_createEnrollmentToken (ctx : Context) (lib : TokenLibrary) (token : String)
    (scope : TenantScope) (payload : EnrollmentTokenCreate) :
    Move db (.mintToken ctx lib token scope payload)
      (createEnrollmentToken ctx lib token db scope payload).db := by
  refine move_ofChecks fun a hchecks ↦ ?_
  obtain ⟨server, sshKey⟩ := a
  have hhub := hub_of_createEnrollmentTokenChecks hchecks
  refine .mint server (Table.mem_rows_iff.mp (Table.mem_of_get hhub)) (Frame.persistAudit ?_)
  refine ⟨rfl, fun _ ↦ rfl, fun c hc ↦ .inr ⟨c, hc, rfl⟩, ?_⟩
  intro t ht
  rcases Table.mem_insert ht with hold | rfl
  · exact .inr ⟨t, hold, rfl⟩
  · exact .inl (List.mem_singleton_self _)

/-- A change of a token's other columns is not seen. -/
theorem mem_tokens_modify {tokens : Table EnrollmentToken} {tokenId : ℕ}
    {f : EnrollmentToken → EnrollmentToken} (hf : ∀ r, Keyed.pk (f r) = Keyed.pk r)
    (hfiling : ∀ r, (f r).filing = r.filing) {t : EnrollmentToken}
    (ht : t ∈ (tokens.modify tokenId f hf).rows) : ∃ t₀ ∈ tokens.rows, t₀.filing = t.filing := by
  rcases Table.mem_modify hf ht with ⟨hold, -⟩ | ⟨t₀, ht₀, -, rfl⟩
  · exact ⟨t, hold, rfl⟩
  · exact ⟨t₀, ht₀, (hfiling t₀).symm⟩

theorem move_of_revokeEnrollmentToken (ctx : Context) (scope : TenantScope) (tokenId : ℕ) :
    Move db (.revokeToken ctx scope tokenId) (revokeEnrollmentToken ctx db scope tokenId).db := by
  refine move_ofChecks fun row hchecks ↦ ?_
  split
  · exact .stay (Frame.refl db)
  · refine .stay ⟨rfl, fun _ ↦ rfl, fun c hc ↦ .inr ⟨c, hc, rfl⟩, fun t ht ↦ .inr ?_⟩
    exact mem_tokens_modify (EnrollmentToken.pk_markRevoked ctx.now ctx.actorCn) (fun _ ↦ rfl) ht

/-- A host that enrolls is filed where its token is. -/
theorem move_of_enroll (env : EnrollEnv) (call : EnrollCall) :
    Move db (.enroll env call) (env.enroll db call).db := by
  rw [EnrollEnv.enroll]
  split
  · exact .stay (Frame.refl db)
  · next committed admitted htransaction =>
    obtain ⟨_, -, hredeem⟩ := bind_eq_ok_iff.mp htransaction
    obtain ⟨row, payload, hchecks, hadm, rfl⟩ := withEnrolled_of_redeem hredeem
    obtain ⟨server, address, cert, hok, rfl⟩ := admitClient_eq_ok_iff.mp hadm
    obtain ⟨token, -, -, hfound, -⟩ := tokenChecks_eq_ok_iff.mp hchecks
    have hrow : row ∈ db.enrollmentTokens.rows := Table.mem_of_get (get_of_findToken hfound)
    have hid : server.id = row.serverId := Table.pk_of_get hok.hub
    have hframe : Frame db (env.withEnrolled db row (env.enrolledClient row payload server address
        cert)) [row.filing] [] := by
      refine ⟨rfl, fun _ ↦ rfl, ?_, fun t ht ↦ .inr (mem_tokens_modify
        EnrollmentToken.pk_use (fun _ ↦ rfl) ht)⟩
      have hfiling : (env.enrolledClient row payload server address cert).filing = row.filing := by
        rw [EnrollmentToken.filing, ← hid]
        rfl
      rw [← hfiling]
      exact (frame_insertClient db _).clients
    refine .admitting row hrow ?_
    rcases finish_db env (env.withEnrolled db row (env.enrolledClient row payload server address
      cert)) ⟨env.enrolledClient row payload server address cert, server, cert⟩ with hdb | ⟨id, hdb⟩
    · rw [hdb]
      exact hframe
    · rw [hdb]
      exact hframe.modifyServer fun _ ↦ ⟨rfl, rfl⟩

end

/-- **What an action can do.** -/
theorem move_of_step {db db' : Db} {action : Action} (h : step db action = some db') :
    Move db action db' := by
  obtain rfl : db.act action = db' := Option.some.inj h
  cases action with
  | tenants ctx caller request => exact move_of_handleTenants ctx caller request
  | tenantsCreate ctx args => exact move_of_tenantsCreate ctx args
  | servers ctx scope request => exact move_of_handleServers ctx scope request
  | clients ctx scope request => exact move_of_handleClients ctx scope request
  | sshKeys ctx scope request => exact move_of_handleSshKeys ctx scope request
  | mintToken ctx lib token scope payload =>
    exact move_of_createEnrollmentToken ctx lib token scope payload
  | revokeToken ctx scope tokenId => exact move_of_revokeEnrollmentToken ctx scope tokenId
  | enroll env call => exact move_of_enroll env call
  | provisionServer serverId result =>
    exact .stay ((Frame.refl db).modifyServer fun _ ↦ ⟨rfl, rfl⟩)
  | provisionClient clientId result =>
    exact .stay (frame_modifyClient (f := result.applyClient) fun _ ↦ rfl)

/-! ## A tenant and a hub for examples -/

/-- Surroundings of a tenant request, and an admin to make it. -/
def exampleTenantContext : TenantContext where
  coll := .binary
  now := 0
  newId := 2
  repr := fun text ↦ "'" ++ text ++ "'"
  lower := id
  valueError := fun _ ↦ ""

def exampleAdmin : Operator := ⟨.admin, .empty⟩

/-- The default tenant, with the pool `10.9.0.0/16`. -/
def defaultTenant : Tenant where
  id := 1
  name := "default"
  slug := "default"
  subnetPool :=
    { text := "10.9.0.0/16"
      network := ⟨168361984, 16, by decide, exampleSubnet.lt_two_pow, by decide⟩
      parse_text := by
        rw [IPv4Network.parse, String.toList_ofList]
        rfl }
  createdAt := 0

/-- The default tenant alone, and an SSH role. -/
def defaultTenantDb : Db where
  tenants := .singleton defaultTenant
  sshKeys := .singleton { id := 1, name := "deploy", createdAt := 0 }

/-- `POST /servers` for a hub in `10.9.0.0/30`. -/
def registerHub : Action :=
  .servers exampleContext (getTenantScope exampleAdmin) (.register
    { hostname := "hub.example", sshUsername := "root", sshKeyId := 1,
      endpointHost := "hub.example" })

end ControlPlane

end WgManager
