import WgManager.Routers.Outcome

/-!
# The `/ssh-keys` router

The handlers of `routers/ssh_keys.py`.
-/

set_option autoImplicit false

namespace WgManager

/-- `SSHKeyCreate`. -/
structure SSHKeyCreate where
  name : String
  tenantId : Option ℕ := none

def sshKeyNotFound : String := "SSH key not found"

/-- The requests of the router. -/
inductive SSHKeyRequest
  | create (payload : SSHKeyCreate)
  | list
  | get (keyId : ℕ)
  | update (keyId : ℕ) (name : Option String)
  | delete (keyId : ℕ)

section

variable (ctx : Context) (db : Db) (scope : TenantScope)

/-- No role has the name yet, as the database compares names. -/
def keyNameFree (name : String) : Except HttpError Unit :=
  if db.sshKeys.rows.any fun k ↦ ctx.coll.same k.name name then
    let shown := ctx.repr name
    .error ⟨409, s!"SSH key named {shown} already exists"⟩
  else .ok ()

/-- `create_ssh_key`. -/
def createSshKey (payload : SSHKeyCreate) : Outcome :=
  let checks := do
    let tenant ← resolveCreateTenant scope db payload.tenantId
    keyNameFree ctx db payload.name
    .ok tenant
  .ofChecks db checks fun tenant ↦
    let row : SSHKey :=
      { id := ctx.newId, tenantId := some tenant.id, name := payload.name, createdAt := ctx.now }
    let db' := { db with sshKeys := db.sshKeys.insert row }
    { db := db'.persistAudit ctx "ssh_key.create" "ssh_key" "create" (some row.id) row.tenantId none
        (some (.sshKey row))
      response := .ok (201, .sshKey row) }

/-- `list_ssh_keys`. -/
def listSshKeys : Response := .ok (200, .sshKeys (listInScope scope db.sshKeys))

/-- `get_ssh_key`. -/
def getSshKey (keyId : ℕ) : Response := do
  let row ← getInScope scope db.sshKeys keyId sshKeyNotFound
  .ok (200, .sshKey row)

/-- The gate of `update_ssh_key` and `delete_ssh_key`. -/
def sshKeyGate (keyId : ℕ) : Except HttpError SSHKey := do
  let row ← getInScope scope db.sshKeys keyId sshKeyNotFound
  requireTenantRole scope row.tenantId [.admin, .operator]
  .ok row

/-- `update_ssh_key`. -/
def updateSshKey (keyId : ℕ) (name : Option String) : Outcome :=
  let checks := do
    let row ← sshKeyGate db scope keyId
    match name with
    | none => .ok row
    | some new =>
      if new ≠ row.name then
        keyNameFree ctx db new
        .ok row
      else .ok row
  .ofChecks db checks fun row ↦
    let rename (r : SSHKey) : SSHKey := { r with name := name.getD r.name }
    { db := { db with sshKeys := db.sshKeys.modify keyId rename }
      response := .ok (200, .sshKey (rename row)) }

/-- `delete_ssh_key`; an enrollment token that refers to the role makes the database refuse. -/
def deleteSshKey (keyId : ℕ) : Outcome :=
  let checks := do
    let row ← sshKeyGate db scope keyId
    if (db.servers.rows.any fun s ↦ s.sshKeyId == keyId) ||
        (db.clients.rows.any fun c ↦ c.sshKeyId == some keyId) then
      .error ⟨409, "SSH key is still referenced by a server or client"⟩
    else if db.enrollmentTokens.rows.any fun t ↦ t.sshKeyId == keyId then
      .error internalServerError
    else .ok row
  .ofChecks db checks fun _ ↦
    { db := { db with sshKeys := db.sshKeys.delete keyId }
      response := .ok (204, .noContent) }

/-- The router. -/
def handleSshKeys : SSHKeyRequest → Outcome
  | .create payload => createSshKey ctx db scope payload
  | .list => ⟨db, [], listSshKeys db scope⟩
  | .get keyId => ⟨db, [], getSshKey db scope keyId⟩
  | .update keyId name => updateSshKey ctx db scope keyId name
  | .delete keyId => deleteSshKey db scope keyId

end

/-! ## What has passed -/

theorem get_of_sshKeyGate {db : Db} {scope : TenantScope} {keyId : ℕ} {row : SSHKey}
    (h : sshKeyGate db scope keyId = .ok row) : db.sshKeys.get keyId = some row := by
  rw [sshKeyGate, bind_eq_ok_iff] at h
  obtain ⟨found, hfound, h⟩ := h
  obtain ⟨_, -, h⟩ := bind_eq_ok_iff.mp h
  cases h
  exact get_of_getInScope hfound

end WgManager
