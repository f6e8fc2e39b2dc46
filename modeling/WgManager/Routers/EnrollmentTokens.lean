import WgManager.Routers.Outcome
import WgManager.Enrollment

/-!
# The `/enrollment-tokens` router

The handlers of `routers/enrollment_tokens.py`: they mint, read and revoke tokens.  They are for
admins: a list shows the tokens of the tenants the caller is `admin` on, and a single token answers
403 to everybody else.
-/

set_option autoImplicit false

namespace WgManager

/-- `token_status`. -/
def tokenStatus (row : EnrollmentToken) (now : Datetime) : EnrollmentTokenStatus :=
  if row.revokedAt.isSome then .revoked
  else if isExpired row now then .expired
  else if row.useCount ≥ row.maxUses then .exhausted
  else .active

/-- `active_filter`. -/
def activeFilter (row : EnrollmentToken) (now : Datetime) : Bool :=
  row.revokedAt.isNone && now < row.expiresAt && row.useCount < row.maxUses

/-- `_split_stored_cidrs`. -/
def splitStoredCidrs : Option String → Option (List String)
  | none => none
  | some "" => none
  | some cidrs => some (PyStr.splitOn ',' cidrs)

/-- `_read`. -/
def EnrollmentToken.read (row : EnrollmentToken) (now : Datetime) : EnrollmentTokenRead where
  id := row.id
  tenantId := row.tenantId
  serverId := row.serverId
  sshKeyId := row.sshKeyId
  sshUsername := row.sshUsername
  namePrefix := row.namePrefix
  maxUses := row.maxUses
  useCount := row.useCount
  expiresAt := row.expiresAt
  createdByCn := row.createdByCn
  createdAt := row.createdAt
  revokedAt := row.revokedAt
  revokedByCn := row.revokedByCn
  allowedCidrs := splitStoredCidrs row.allowedCidrs
  status := tokenStatus row now

/-- `_admin_tenant_ids`. -/
def adminTenantIds (scope : TenantScope) : List ℕ :=
  (scope.tenantRoles.select fun join ↦ join.role == .admin).map OperatorTenant.tenantId

/-- `list_enrollment_tokens`. -/
def listEnrollmentTokens (ctx : Context) (db : Db) (scope : TenantScope) (serverId : Option ℕ)
    (active : Bool) : Response :=
  let rows := db.enrollmentTokens.select fun row ↦
    (scope.isSuperAdmin || row.tenantId.any ((adminTenantIds scope).contains ·)) &&
      serverId.all (row.serverId == ·) && (!active || activeFilter row ctx.now)
  .ok (200, .enrollmentTokens
    ((rows.insertionSort (·.id ≥ ·.id)).map (·.read ctx.now)))

/-- The gate of the requests about one token. -/
def tokenGate (db : Db) (scope : TenantScope) (tokenId : ℕ) : Except HttpError EnrollmentToken := do
  let row ← getOr404 db.enrollmentTokens tokenId "Enrollment token not found"
  requireTenantRole scope row.tenantId [.admin]
  .ok row

theorem get_of_tokenGate {db : Db} {scope : TenantScope} {tokenId : ℕ} {row : EnrollmentToken}
    (h : tokenGate db scope tokenId = .ok row) : db.enrollmentTokens.get tokenId = some row := by
  rw [tokenGate, bind_eq_ok_iff] at h
  obtain ⟨found, hfound, h⟩ := h
  obtain ⟨_, -, h⟩ := bind_eq_ok_iff.mp h
  cases h
  exact get_of_getOr404 hfound

/-- `get_enrollment_token`. -/
def getEnrollmentToken (ctx : Context) (db : Db) (scope : TenantScope) (tokenId : ℕ) :
    Response := do
  let row ← tokenGate db scope tokenId
  .ok (200, .enrollmentToken (row.read ctx.now))

/-- `revoke_enrollment_token`; a token that is revoked already is returned as it is. -/
def revokeEnrollmentToken (ctx : Context) (db : Db) (scope : TenantScope) (tokenId : ℕ) : Outcome :=
  .ofChecks db (tokenGate db scope tokenId) fun row ↦
    match revokeToken row ctx.now ctx.actorCn with
    | none => ⟨db, [], .ok (200, .enrollmentToken (row.read ctx.now))⟩
    | some revoked =>
      let tokens := db.enrollmentTokens.modify tokenId
        (EnrollmentToken.markRevoked ctx.now ctx.actorCn)
        (EnrollmentToken.pk_markRevoked ctx.now ctx.actorCn)
      let db' := { db with enrollmentTokens := tokens }
      { db := db'.persistAudit ctx "enrollment_token.revoke" "enrollment_token" "revoke"
          (some row.id) row.tenantId (some (.enrollmentToken { row with tokenHash := "" }))
          (some (.enrollmentToken { revoked with tokenHash := "" }))
        response := .ok (200, .enrollmentToken (revoked.read ctx.now)) }

/-! ## Minting a token -/

/-- `EnrollmentTokenCreate`; the schema has checked the fields and normalised the networks. -/
structure EnrollmentTokenCreate where
  serverId : ℕ
  sshKeyId : ℕ
  sshUsername : String
  namePrefix : String := "node"
  ttlSeconds : ℕ := 3600
  maxUses : ℕ := 1
  allowedCidrs : Option (List String) := none

/-- The checks of `create_enrollment_token`. -/
def createEnrollmentTokenChecks (db : Db) (scope : TenantScope) (payload : EnrollmentTokenCreate) :
    Except HttpError (Server × SSHKey) := do
  let server ← getOr404 db.servers payload.serverId "Server not found"
  requireTenantRole scope server.tenantId [.admin]
  let sshKey ← getOr404 db.sshKeys payload.sshKeyId "SSH key not found"
  if sshKey.tenantId ≠ server.tenantId then
    .error ⟨400, "SSH key must belong to the same tenant as the server"⟩
  else if server.status ≠ .ready then
    .error ⟨400, s!"Server is not ready (status={server.status.value}); " ++
      "enrollment needs the hub's public key"⟩
  else .ok (server, sshKey)

/-- `mint_token`.  `token` is what `generate_token` returns. -/
def mintToken (ctx : Context) (lib : TokenLibrary) (token : String) (server : Server)
    (sshKey : SSHKey) (payload : EnrollmentTokenCreate) : EnrollmentToken where
  id := ctx.newId
  tenantId := server.tenantId
  serverId := server.id
  sshKeyId := sshKey.id
  sshUsername := payload.sshUsername
  namePrefix := payload.namePrefix
  tokenHash := lib.sha256Hex token
  maxUses := payload.maxUses
  expiresAt := ctx.now + payload.ttlSeconds
  createdByCn := ctx.actorCn
  createdAt := ctx.now
  allowedCidrs := payload.allowedCidrs.bind fun cidrs ↦
    if cidrs = [] then none else some (",".intercalate cidrs)

/-- `create_enrollment_token`. -/
def createEnrollmentToken (ctx : Context) (lib : TokenLibrary) (token : String) (db : Db)
    (scope : TenantScope) (payload : EnrollmentTokenCreate) : Outcome :=
  .ofChecks db (createEnrollmentTokenChecks db scope payload) fun (server, sshKey) ↦
    let row := mintToken ctx lib token server sshKey payload
    let db' := { db with enrollmentTokens := db.enrollmentTokens.insert row }
    { db := db'.persistAudit ctx "enrollment_token.create" "enrollment_token" "create"
        (some row.id) row.tenantId none (some (.enrollmentToken { row with tokenHash := "" }))
      response := .ok (201,
        .mintedToken row.id token row.serverId row.tenantId row.maxUses row.expiresAt) }

theorem hub_of_createEnrollmentTokenChecks {db : Db} {scope : TenantScope}
    {payload : EnrollmentTokenCreate} {server : Server} {sshKey : SSHKey}
    (h : createEnrollmentTokenChecks db scope payload = .ok (server, sshKey)) :
    db.servers.get payload.serverId = some server := by
  rw [createEnrollmentTokenChecks, bind_eq_ok_iff] at h
  obtain ⟨found, hfound, h⟩ := h
  obtain ⟨_, -, h⟩ := bind_eq_ok_iff.mp h
  obtain ⟨key, -, h⟩ := bind_eq_ok_iff.mp h
  split at h
  · cases h
  · split at h
    · cases h
    · cases h
      exact get_of_getOr404 hfound

end WgManager
