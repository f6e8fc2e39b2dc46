import WgManager.Routers.Outcome

/-!
# The `/servers` router

The handlers of `routers/servers.py`.  The checks of each handler are a definition of their own,
`…Checks`, since what a handler checks before it acts is what the isolation results are about.
-/

set_option autoImplicit false

namespace WgManager

/-- `ServerCreate`, as far as it ends up in the row.  The schema has parsed the subnet. -/
structure ServerCreate where
  hostname : String
  sshPort : ℕ := 22
  sshUsername : String
  sshKeyId : ℕ
  endpointHost : String
  endpointPort : ℤ := 51820
  interface : String := "wg0"
  subnet : Option IPv4Network := none
  tenantId : Option ℕ := none

/-- `ServerUpdate`; a field that is unset or null is `none`. -/
structure ServerUpdate where
  hostname : Option String := none
  sshPort : Option ℕ := none
  sshUsername : Option String := none
  sshKeyId : Option ℕ := none
  endpointHost : Option String := none
  endpointPort : Option ℤ := none

def serverNotFound : String := "Server not found"

/-- The requests of the router. -/
inductive ServerRequest
  | register (payload : ServerCreate)
  | reprovision (serverId : ℕ)
  | list
  | get (serverId : ℕ)
  | update (serverId : ℕ) (payload : ServerUpdate)
  | delete (serverId : ℕ) (force : Bool)
  | discover (serverId : ℕ)
  | listDiscoveredPeers (serverId : ℕ)
  | listAllDiscoveredPeers
  | rotateHostCert (serverId : ℕ)
  | discoverAll

section

variable (ctx : Context) (db : Db) (scope : TenantScope)

/-! ## Register -/

/-- The checks of `register_server`: the tenant, the SSH key, the hub's own address and the
tenant's pool. -/
def registerServerChecks (payload : ServerCreate) :
    Except HttpError (Tenant × IPv4Network × IPv4Address) := do
  let tenant ← resolveCreateTenant scope db payload.tenantId
  let _ ← getOr404 db.sshKeys payload.sshKeyId "SSH key not found"
  let network := payload.subnet.getD ctx.defaultSubnet
  match network.hosts with
  | [] => .error internalServerError
  | serverHost :: _ =>
    if subnetInPool network tenant.subnetPool then .ok (tenant, network, serverHost)
    else
      let subnet := ctx.repr network.text
      let slug := ctx.repr tenant.slug
      let pool := ctx.repr tenant.subnetPool.text
      .error ⟨422, s!"subnet {subnet} is outside tenant {slug}'s pool {pool}"⟩

/-- The row `register_server` inserts. -/
def newServer (payload : ServerCreate) (tenant : Tenant) (network : IPv4Network)
    (serverHost : IPv4Address) : Server :=
  { id := ctx.newId, tenantId := some tenant.id, hostname := payload.hostname,
    sshPort := payload.sshPort, sshUsername := payload.sshUsername, sshKeyId := payload.sshKeyId,
    endpointHost := payload.endpointHost, endpointPort := payload.endpointPort,
    interface := payload.interface, subnet := network, address := ⟨serverHost, network.prefixlen⟩,
    createdAt := ctx.now }

/-- `register_server`. -/
def registerServer (payload : ServerCreate) : Outcome :=
  .ofChecks db (registerServerChecks ctx db scope payload) fun (tenant, network, serverHost) ↦
    let row := newServer ctx payload tenant network serverHost
    let db' := { db with servers := db.servers.insert row }
    { db := db'.persistAudit ctx "server.create" "server" "create" (some row.id) row.tenantId none
        (some (.server row))
      dispatched := [.provisionServer row.id]
      response := .ok (202, .serverTask ctx.taskId row.read) }

/-! ## Requests that only look the row up -/

/-- `reprovision_server`. -/
def reprovisionServer (serverId : ℕ) : Outcome :=
  .ofChecks db (getOr404 db.servers serverId serverNotFound) fun row ↦
    { db := { db with servers := db.servers.modify serverId fun r ↦ { r with status := .pending } }
      dispatched := [.provisionServer row.id]
      response := .ok (202,
        .serverTask ctx.taskId ({ row with status := .pending } : Server).read) }

/-- `discover_server_peers`. -/
def discoverServerPeers (serverId : ℕ) : Outcome :=
  .ofChecks db (getOr404 db.servers serverId serverNotFound) fun row ↦
    ⟨db, [.discoverPeers row.id], .ok (202, .serverTask ctx.taskId row.read)⟩

/-- The checks of `rotate_server_host_cert`: the row, and the SSH key it refers to. -/
def rotateServerHostCertChecks (serverId : ℕ) : Except HttpError Server := do
  let row ← getOr404 db.servers serverId serverNotFound
  match db.sshKeys.get row.sshKeyId with
  | none => .error ⟨409, s!"server {row.id} references SSHKey {row.sshKeyId} " ++
      "which no longer exists; reassign before rotating"⟩
  | some _ => .ok row

/-- `rotate_server_host_cert`. -/
def rotateServerHostCert (serverId : ℕ) : Outcome :=
  .ofChecks db (rotateServerHostCertChecks db serverId) fun row ↦
    ⟨db, [.rotateHostCert row.id], .ok (202, .serverTask ctx.taskId row.read)⟩

/-- `discover_all_servers`. -/
def discoverAllServers : Outcome :=
  ⟨db, [.discoverAllPeers], .ok (202, .discoverAll ctx.taskId db.servers.rows.length)⟩

/-! ## Requests that check the scope -/

/-- `list_servers`. -/
def listServers : Response := .ok (200, .servers ((listInScope scope db.servers).map Server.read))

/-- `get_server`. -/
def getServer (serverId : ℕ) : Response := do
  let row ← getInScope scope db.servers serverId serverNotFound
  .ok (200, .server row.read)

/-- The gate of `update_server` and `delete_server`: 404 out of scope, then 403 by role. -/
def serverGate (serverId : ℕ) : Except HttpError Server := do
  let row ← getInScope scope db.servers serverId serverNotFound
  requireTenantRole scope row.tenantId [.admin, .operator]
  .ok row

/-- `setattr(row, field, value)` for the fields that are set. -/
def ServerUpdate.apply (payload : ServerUpdate) (row : Server) : Server :=
  { row with
    hostname := payload.hostname.getD row.hostname
    sshPort := payload.sshPort.getD row.sshPort
    sshUsername := payload.sshUsername.getD row.sshUsername
    sshKeyId := payload.sshKeyId.getD row.sshKeyId
    endpointHost := payload.endpointHost.getD row.endpointHost
    endpointPort := payload.endpointPort.getD row.endpointPort }

/-- A newly-referenced SSH key has to exist. -/
def newKeyExists (keyId : Option ℕ) : Except HttpError Unit :=
  match keyId with
  | none => .ok ()
  | some id => do
    let _ ← getOr404 db.sshKeys id "SSH key not found"
    .ok ()

/-- `update_server`. -/
def updateServer (serverId : ℕ) (payload : ServerUpdate) : Outcome :=
  let checks := do
    let row ← serverGate db scope serverId
    newKeyExists db payload.sshKeyId
    .ok row
  .ofChecks db checks fun row ↦
    let db' := { db with servers := db.servers.modify serverId payload.apply }
    { db := db'.persistAudit ctx "server.update" "server" "update" (some row.id) row.tenantId
        (some (.server row)) (some (.server (payload.apply row)))
      response := .ok (200, .server (payload.apply row).read) }

/-- The client rows attached to a hub. -/
def attachedClients (serverId : ℕ) : List Client :=
  db.clients.select fun c ↦ c.serverId == serverId

/-- A row that `delete_server` leaves refers to the hub, so that the foreign keys of the database
refuse the deletion: an enrollment token, or a discovered peer when nothing is cascaded. -/
def stillReferenced (serverId : ℕ) (force : Bool) : Bool :=
  (db.enrollmentTokens.rows.any fun t ↦ t.serverId == serverId) ||
    (!force && db.discoveredPeers.rows.any fun p ↦ p.serverId == serverId)

/-- The checks of `delete_server`, the last of them by the database. -/
def deleteServerChecks (serverId : ℕ) (force : Bool) : Except HttpError Server := do
  let row ← serverGate db scope serverId
  let attached := (attachedClients db serverId).length
  if attached ≠ 0 && !force then
    .error ⟨409, s!"Server still has {attached} managed client(s); " ++
      "pass ?force=true to cascade-delete them."⟩
  else if stillReferenced db serverId force then .error internalServerError
  else .ok row

/-- What `delete_server` leaves: with `?force=true` the clients and discovered peers of the hub are
deleted along with it. -/
def withoutServer (serverId : ℕ) (force : Bool) : Db :=
  { db with
    clients := if force then db.clients.filter fun c ↦ c.serverId != serverId else db.clients
    discoveredPeers :=
      if force then db.discoveredPeers.filter fun p ↦ p.serverId != serverId
      else db.discoveredPeers
    servers := db.servers.delete serverId }

/-- `delete_server`. -/
def deleteServer (serverId : ℕ) (force : Bool) : Outcome :=
  .ofChecks db (deleteServerChecks db scope serverId force) fun _ ↦
    { db := withoutServer db serverId force
      response := .ok (204, .noContent) }

/-! ## Discovered peers -/

/-- `list_server_discovered_peers`. -/
def listServerDiscoveredPeers (serverId : ℕ) : Response := do
  let _ ← getOr404 db.servers serverId serverNotFound
  .ok (200, .peers (db.discoveredPeers.select fun p ↦ p.serverId == serverId))

/-- `list_all_discovered_peers`. -/
def listAllDiscoveredPeers : Response := .ok (200, .peers db.discoveredPeers.rows)

/-- The router. -/
def handleServers : ServerRequest → Outcome
  | .register payload => registerServer ctx db scope payload
  | .reprovision serverId => reprovisionServer ctx db serverId
  | .list => ⟨db, [], listServers db scope⟩
  | .get serverId => ⟨db, [], getServer db scope serverId⟩
  | .update serverId payload => updateServer ctx db scope serverId payload
  | .delete serverId force => deleteServer db scope serverId force
  | .discover serverId => discoverServerPeers ctx db serverId
  | .listDiscoveredPeers serverId => ⟨db, [], listServerDiscoveredPeers db serverId⟩
  | .listAllDiscoveredPeers => ⟨db, [], listAllDiscoveredPeers db⟩
  | .rotateHostCert serverId => rotateServerHostCert ctx db serverId
  | .discoverAll => discoverAllServers ctx db

end

/-! ## What has passed -/

theorem get_of_serverGate {db : Db} {scope : TenantScope} {serverId : ℕ} {row : Server}
    (h : serverGate db scope serverId = .ok row) : db.servers.get serverId = some row := by
  rw [serverGate, bind_eq_ok_iff] at h
  obtain ⟨found, hfound, h⟩ := h
  obtain ⟨_, -, h⟩ := bind_eq_ok_iff.mp h
  cases h
  exact get_of_getInScope hfound

/-- A hub is registered for a tenant that is there, and inside its pool. -/
theorem registerServerChecks_eq_ok {ctx : Context} {db : Db} {scope : TenantScope}
    {payload : ServerCreate} {tenant : Tenant} {network : IPv4Network} {serverHost : IPv4Address}
    (h : registerServerChecks ctx db scope payload = .ok (tenant, network, serverHost)) :
    db.tenants.get tenant.id = some tenant ∧ subnetInPool network tenant.subnetPool = true := by
  rw [registerServerChecks, bind_eq_ok_iff] at h
  obtain ⟨found, hfound, h⟩ := h
  obtain ⟨_, -, h⟩ := bind_eq_ok_iff.mp h
  dsimp only at h
  split at h
  · cases h
  · split at h
    · next hpool =>
      cases h
      exact ⟨get_of_resolveCreateTenant hfound, hpool⟩
    · cases h

/-- A hub gets a host address of its subnet. -/
theorem host_of_registerServerChecks {ctx : Context} {db : Db} {scope : TenantScope}
    {payload : ServerCreate} {tenant : Tenant} {network : IPv4Network} {serverHost : IPv4Address}
    (h : registerServerChecks ctx db scope payload = .ok (tenant, network, serverHost)) :
    serverHost ∈ network.hosts := by
  rw [registerServerChecks, bind_eq_ok_iff] at h
  obtain ⟨_, -, h⟩ := h
  obtain ⟨_, -, h⟩ := bind_eq_ok_iff.mp h
  dsimp only at h
  split at h
  · cases h
  · next first rest hhosts =>
    split at h
    · cases h
      rw [hhosts]
      exact List.mem_cons_self
    · cases h

/-- A hub that is deleted has passed the gate, leaves no client behind, and nothing that stays
refers to it. -/
theorem deleteServerChecks_eq_ok {db : Db} {scope : TenantScope} {serverId : ℕ} {force : Bool}
    {row : Server} (h : deleteServerChecks db scope serverId force = .ok row) :
    serverGate db scope serverId = .ok row ∧
      (force = true ∨ attachedClients db serverId = []) ∧
      stillReferenced db serverId force = false := by
  rw [deleteServerChecks, bind_eq_ok_iff] at h
  obtain ⟨row', hgate, h⟩ := h
  dsimp only at h
  split at h
  · cases h
  · next hattached =>
    split at h
    · cases h
    · next hreferenced =>
      cases h
      refine ⟨hgate, ?_, by simpa using hreferenced⟩
      cases force <;> simp_all

end WgManager
