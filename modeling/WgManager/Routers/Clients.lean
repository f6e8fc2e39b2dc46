import WgManager.Routers.Servers

/-!
# The `/clients` router

The handlers of `routers/clients.py`.
-/

set_option autoImplicit false

namespace WgManager

/-- `ClientCreate`, as far as it ends up in the row. -/
structure ClientCreate where
  name : String
  hostname : String
  sshPort : ℕ := 22
  sshUsername : String
  sshKeyId : ℕ
  serverId : ℕ

/-- `ClientManualCreate`. -/
structure ClientManualCreate where
  name : String
  serverId : ℕ

/-- `ClientUpdate`; a field that is unset or null is `none`. -/
structure ClientUpdate where
  name : Option String := none
  hostname : Option String := none
  sshPort : Option ℕ := none
  sshUsername : Option String := none
  sshKeyId : Option ℕ := none

def clientNotFound : String := "Client not found"

/-- The requests of the router. -/
inductive ClientRequest
  | register (payload : ClientCreate)
  | registerManual (payload : ClientManualCreate)
  | reprovision (clientId : ℕ)
  | rotateHostCert (clientId : ℕ)
  | list
  | exportSshConfig
  | get (clientId : ℕ)
  | update (clientId : ℕ) (payload : ClientUpdate)
  | delete (clientId : ℕ)

section

variable (ctx : Context) (db : Db) (scope : TenantScope)

/-! ## Register -/

/-- No client has the name yet, as the database compares names. -/
def nameFree (name : String) : Except HttpError Unit :=
  if db.clients.rows.any fun c ↦ ctx.coll.same c.name name then
    let shown := ctx.repr name
    .error ⟨409, s!"Client named {shown} already exists"⟩
  else .ok ()

/-- The hub of a new client exists, is ready and has an address left.  `advice` is what the message
of a hub that is not ready ends with. -/
def hubFor (serverId : ℕ) (advice : String) : Except HttpError (Server × IPv4Address) := do
  let server ← getOr404 db.servers serverId serverNotFound
  if server.status ≠ .ready then
    .error ⟨400, s!"Server is not ready (status={server.status.value})" ++ advice⟩
  else match allocateClientIp db.clients server with
  | none => .error ⟨409, ipPoolExhausted server⟩
  | some allocated => .ok (server, allocated)

/-- A hub that passes is there, and the address is one of its own that is free. -/
theorem hubFor_eq_ok {db : Db} {serverId : ℕ} {advice : String} {server : Server}
    {allocated : IPv4Address} (h : hubFor db serverId advice = .ok (server, allocated)) :
    db.servers.get serverId = some server ∧
      allocateClientIp db.clients server = some allocated := by
  rw [hubFor, bind_eq_ok_iff] at h
  obtain ⟨found, hfound, h⟩ := h
  split at h
  · cases h
  · split at h
    · cases h
    · next hfree =>
      cases h
      exact ⟨get_of_getOr404 hfound, hfree⟩

/-- The checks of `register_client`. -/
def registerClientChecks (payload : ClientCreate) : Except HttpError (Server × IPv4Address) := do
  nameFree ctx db payload.name
  let _ ← getOr404 db.sshKeys payload.sshKeyId "SSH key not found"
  hubFor db payload.serverId ""

/-- The row `register_client` inserts. -/
def newClient (payload : ClientCreate) (allocated : IPv4Address) : Client :=
  { id := ctx.newId, name := payload.name, hostname := some payload.hostname,
    sshPort := payload.sshPort, sshUsername := some payload.sshUsername,
    sshKeyId := some payload.sshKeyId, serverId := payload.serverId,
    address := some ⟨allocated, 32⟩, createdAt := ctx.now }

/-- `register_client`. -/
def registerClient (payload : ClientCreate) : Outcome :=
  .ofChecks db (registerClientChecks ctx db payload) fun (_, allocated) ↦
    let row := newClient ctx payload allocated
    { db := { db with clients := db.clients.insert row }
      dispatched := [.provisionClient row.id]
      response := .ok (202, .clientTask ctx.taskId row) }

/-- The checks of `register_manual_client`. -/
def registerManualClientChecks (payload : ClientManualCreate) :
    Except HttpError (Server × IPv4Address) := do
  nameFree ctx db payload.name
  hubFor db payload.serverId "; manual clients require a server whose public key is known"

/-- The row `register_manual_client` inserts. -/
def newManualClient (payload : ClientManualCreate) (allocated : IPv4Address) : Client :=
  { id := ctx.newId, name := payload.name, serverId := payload.serverId,
    address := some ⟨allocated, 32⟩, publicKey := ctx.keypair.2, isManual := true,
    status := .ready, createdAt := ctx.now }

/-- `register_manual_client`. -/
def registerManualClient (payload : ClientManualCreate) : Outcome :=
  .ofChecks db (registerManualClientChecks ctx db payload) fun (server, allocated) ↦
    let row := newManualClient ctx payload allocated
    let db' := { db with clients := db.clients.insert row }
    match renderManualClientConfig row server ctx.keypair.1 with
    | none => ⟨db', [], .error internalServerError⟩
    | some wgConfig =>
      requestReconfigure db' payload.serverId (201, .manualClient ctx.taskId row wgConfig)

/-! ## Requests that only look the row up -/

/-- The checks of `reprovision_client`. -/
def reprovisionClientChecks (clientId : ℕ) : Except HttpError Client := do
  let row ← getOr404 db.clients clientId clientNotFound
  if row.isManual then
    .error ⟨400, "Cannot reprovision a manual client — delete and re-register " ++
      "to mint a fresh keypair and config"⟩
  else .ok row

/-- `reprovision_client`. -/
def reprovisionClient (clientId : ℕ) : Outcome :=
  .ofChecks db (reprovisionClientChecks db clientId) fun row ↦
    { db := { db with clients := db.clients.modify clientId fun r ↦ { r with status := .pending } }
      dispatched := [.provisionClient row.id]
      response := .ok (202, .clientTask ctx.taskId { row with status := .pending }) }

/-- The text of a client's `ssh_key_id` column. -/
def keyIdText : Option ℕ → String
  | none => "None"
  | some id => toString id

/-- The checks of `rotate_client_host_cert`. -/
def rotateClientHostCertChecks (clientId : ℕ) : Except HttpError Client := do
  let row ← getOr404 db.clients clientId clientNotFound
  if row.isManual then
    .error ⟨400, "Cannot rotate a host cert on a manual client — no SSH access"⟩
  else match row.sshKeyId.bind db.sshKeys.get with
  | none =>
    let keyId := keyIdText row.sshKeyId
    .error ⟨409, s!"client {row.id} references SSHKey {keyId} " ++
      "which no longer exists; reassign before rotating"⟩
  | some _ => .ok row

/-- `rotate_client_host_cert`. -/
def rotateClientHostCert (clientId : ℕ) : Outcome :=
  .ofChecks db (rotateClientHostCertChecks db clientId) fun row ↦
    ⟨db, [.rotateClientHostCert row.id], .ok (202, .clientTask ctx.taskId row)⟩

/-! ## Requests that check the scope -/

/-- `list_clients`. -/
def listClients : Response := .ok (200, .clients (listInScope scope db.clients))

/-- `get_client`. -/
def getClient (clientId : ℕ) : Response := do
  let row ← getInScope scope db.clients clientId clientNotFound
  .ok (200, .client row)

/-- The gate of `update_client` and `delete_client`. -/
def clientGate (clientId : ℕ) : Except HttpError Client := do
  let row ← getInScope scope db.clients clientId clientNotFound
  requireTenantRole scope row.tenantId [.admin, .operator]
  .ok row

/-- `setattr(row, field, value)` for the fields that are set. -/
def ClientUpdate.apply (payload : ClientUpdate) (row : Client) : Client :=
  { row with
    name := payload.name.getD row.name
    hostname := payload.hostname.or row.hostname
    sshPort := payload.sshPort.getD row.sshPort
    sshUsername := payload.sshUsername.or row.sshUsername
    sshKeyId := payload.sshKeyId.or row.sshKeyId }

/-- The checks of `update_client`. -/
def updateClientChecks (clientId : ℕ) (payload : ClientUpdate) : Except HttpError Client := do
  let row ← clientGate db scope clientId
  newKeyExists db payload.sshKeyId
  match payload.name with
  | none => .ok row
  | some name =>
    if name ≠ row.name then
      nameFree ctx db name
      .ok row
    else .ok row

/-- `update_client`. -/
def updateClient (clientId : ℕ) (payload : ClientUpdate) : Outcome :=
  .ofChecks db (updateClientChecks ctx db scope clientId payload) fun row ↦
    { db := { db with clients := db.clients.modify clientId payload.apply }
      response := .ok (200, .client (payload.apply row)) }

/-- `delete_client`. -/
def deleteClient (clientId : ℕ) : Outcome :=
  .ofChecks db (clientGate db scope clientId) fun row ↦
    let db' := { db with clients := db.clients.delete clientId }
    requestReconfigure
      (db'.persistAudit ctx "client.delete" "client" "delete" (some clientId) row.tenantId
        (some (.client row)) none)
      row.serverId (202, .clientDeleted ctx.taskId clientId row.serverId)

/-! ## The SSH configuration export -/

/-- One `Host` block. -/
def sshConfigBlock (c : Client) : String :=
  let hostIp := (c.address.map fun a ↦ IPv4Address.text a.ip).getD ""
  let user := c.sshUsername.getD "None"
  s!"Host {c.name}.vpn\n    HostName {hostIp}\n    User {user}\n"

/-- `export_ssh_config`: every client that is not manual, in the order of their keys. -/
def exportSshConfig : Response :=
  let clients := (db.clients.rows.insertionSort (·.id ≤ ·.id)).filter fun c ↦ !c.isManual
  .ok (200, .text ("\n".intercalate (clients.map sshConfigBlock)))

/-- The router. -/
def handleClients : ClientRequest → Outcome
  | .register payload => registerClient ctx db payload
  | .registerManual payload => registerManualClient ctx db payload
  | .reprovision clientId => reprovisionClient ctx db clientId
  | .rotateHostCert clientId => rotateClientHostCert ctx db clientId
  | .list => ⟨db, [], listClients db scope⟩
  | .exportSshConfig => ⟨db, [], exportSshConfig db⟩
  | .get clientId => ⟨db, [], getClient db scope clientId⟩
  | .update clientId payload => updateClient ctx db scope clientId payload
  | .delete clientId => deleteClient ctx db scope clientId

end

/-! ## What has passed -/

theorem get_of_clientGate {db : Db} {scope : TenantScope} {clientId : ℕ} {row : Client}
    (h : clientGate db scope clientId = .ok row) : db.clients.get clientId = some row := by
  rw [clientGate, bind_eq_ok_iff] at h
  obtain ⟨found, hfound, h⟩ := h
  obtain ⟨_, -, h⟩ := bind_eq_ok_iff.mp h
  cases h
  exact get_of_getInScope hfound

theorem hub_of_registerClientChecks {ctx : Context} {db : Db} {payload : ClientCreate}
    {server : Server} {allocated : IPv4Address}
    (h : registerClientChecks ctx db payload = .ok (server, allocated)) :
    db.servers.get payload.serverId = some server := by
  rw [registerClientChecks, bind_eq_ok_iff] at h
  obtain ⟨_, -, h⟩ := h
  obtain ⟨_, -, h⟩ := bind_eq_ok_iff.mp h
  exact (hubFor_eq_ok h).1

theorem hub_of_registerManualClientChecks {ctx : Context} {db : Db} {payload : ClientManualCreate}
    {server : Server} {allocated : IPv4Address}
    (h : registerManualClientChecks ctx db payload = .ok (server, allocated)) :
    db.servers.get payload.serverId = some server := by
  rw [registerManualClientChecks, bind_eq_ok_iff] at h
  obtain ⟨_, -, h⟩ := h
  exact (hubFor_eq_ok h).1

end WgManager
