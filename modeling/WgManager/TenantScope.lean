import WgManager.Models
import Mathlib.Data.List.Sort

/-!
# Whose rows a caller may see and change

`tenant_scope.py`: the scope of a request, and the helpers the routers compose their checks from.
An operator carries a global role and one role for each tenant it is joined to; the global role
`admin` makes a super-admin, who passes every check.

The three ways in which a router hides or refuses a row all go through here: `TenantScope.inScope`
is the membership test behind both the filtered lists and the 404s, `requireTenantRole` is the 403.
-/

set_option autoImplicit false

namespace WgManager

/-- An error response. -/
structure HttpError where
  status : ℕ
  detail : String
  deriving DecidableEq

/-- An `OperatorTenant` row of a given operator: the role it has on one tenant. -/
structure OperatorTenant where
  tenantId : ℕ
  role : OperatorRole
  deriving DecidableEq

/-- The unique constraint on operator and tenant makes the tenant a key of these rows. -/
instance : Keyed OperatorTenant := ⟨OperatorTenant.tenantId⟩

/-- The calling operator: its global role and the tenants it is joined to. -/
structure Operator where
  role : OperatorRole
  joins : Table OperatorTenant

/-- `TenantScope`. -/
structure TenantScope where
  isSuperAdmin : Bool
  tenantIds : List ℕ
  /-- The dict from tenant to role. -/
  tenantRoles : Table OperatorTenant

/-- `get_tenant_scope`, for a request whose operator is known. -/
def getTenantScope (operator : Operator) : TenantScope where
  isSuperAdmin := operator.role == .admin
  tenantIds := (operator.joins.rows.map OperatorTenant.tenantId).insertionSort (· ≤ ·)
  tenantRoles := operator.joins

namespace TenantScope

/-- `scope.role_in(tenant_id)`. -/
def roleIn (scope : TenantScope) (tenantId : ℕ) : Option OperatorRole :=
  (scope.tenantRoles.get tenantId).map OperatorTenant.role

/-- `scope.is_super_admin or tenant_id in scope.tenant_ids`.  This is both the condition that
`scope_filter` adds to a query and the test before a 404. -/
def inScope (scope : TenantScope) (tenantId : Option ℕ) : Bool :=
  scope.isSuperAdmin || tenantId.any (scope.tenantIds.contains ·)

end TenantScope

/-- `require_tenant_role`. -/
def requireTenantRole (scope : TenantScope) (tenantId : Option ℕ) (allowed : List OperatorRole) :
    Except HttpError Unit :=
  if scope.isSuperAdmin then .ok ()
  else match tenantId with
  | none => .error ⟨403, "super-admin role required"⟩
  | some t =>
    match scope.roleIn t with
    | none => .error ⟨403, s!"operator not attached to tenant {t}"⟩
    | some role =>
      if allowed.contains role then .ok () else .error ⟨403, "role not permitted"⟩

/-- `_DEFAULT_TENANT_ID`. -/
def defaultTenantId : ℕ := 1

/-- The tenant a create request asks for, as far as it can be told without looking it up. -/
def createTarget (scope : TenantScope) (explicitTenantId : Option ℕ) : Except HttpError ℕ :=
  match explicitTenantId with
  | some t => .ok t
  | none =>
    if scope.isSuperAdmin then .ok defaultTenantId
    else match scope.tenantIds with
    | [t] => .ok t
    | ts =>
      let candidates := ", ".intercalate (ts.map toString)
      .error ⟨422, "tenant_id is required: operator is attached to " ++
        s!"multiple tenants ({candidates}); pick one in the body"⟩

/-- `resolve_create_tenant`, for the roles `admin` and `operator`. -/
def resolveCreateTenant (scope : TenantScope) (db : Db) (explicitTenantId : Option ℕ) :
    Except HttpError Tenant :=
  if !scope.isSuperAdmin && scope.tenantIds.isEmpty then
    .error ⟨403, "operator is not attached to any tenant — ask an " ++
      "admin to run `wg-manager operators attach-tenant`"⟩
  else match createTarget scope explicitTenantId with
  | .error e => .error e
  | .ok target =>
    match db.tenants.get target with
    | none => .error ⟨404, s!"tenant_id {target} not found"⟩
    | some tenant =>
      if scope.isSuperAdmin then .ok tenant
      else if !scope.tenantIds.contains target then
        .error ⟨403, s!"operator is not attached to tenant {target}"⟩
      else match scope.roleIn target with
      | some .admin => .ok tenant
      | some .operator => .ok tenant
      | _ => .error ⟨403, "role not permitted"⟩

/-! ## Reading rows in scope -/

/-- Rows that belong to a tenant, or to none. -/
class HasTenant (α : Type) where
  tenantId : α → Option ℕ

instance : HasTenant SSHKey := ⟨SSHKey.tenantId⟩
instance : HasTenant Server := ⟨Server.tenantId⟩
instance : HasTenant Client := ⟨Client.tenantId⟩
instance : HasTenant EnrollmentToken := ⟨EnrollmentToken.tenantId⟩

section

variable {α : Type} [Keyed α] [HasTenant α]

/-- `session.get(Model, id)`, with a 404 when there is no such row. -/
def getOr404 (table : Table α) (id : ℕ) (detail : String) : Except HttpError α :=
  match table.get id with
  | none => .error ⟨404, detail⟩
  | some row => .ok row

/-- The same, with the same 404 for a row that is out of scope. -/
def getInScope (scope : TenantScope) (table : Table α) (id : ℕ) (detail : String) :
    Except HttpError α :=
  match table.get id with
  | none => .error ⟨404, detail⟩
  | some row =>
    if scope.inScope (HasTenant.tenantId row) then .ok row else .error ⟨404, detail⟩

/-- `select(Model)` narrowed by `scope_filter`. -/
def listInScope (scope : TenantScope) (table : Table α) : List α :=
  table.select fun row ↦ scope.inScope (HasTenant.tenantId row)

end

/-! ## What the checks establish -/

theorem get_of_getOr404 {α : Type} [Keyed α] {table : Table α} {id : ℕ} {detail : String} {row : α}
    (h : getOr404 table id detail = .ok row) : table.get id = some row := by
  rw [getOr404] at h
  split at h
  · cases h
  · next hget =>
    cases h
    exact hget

theorem get_of_getInScope {α : Type} [Keyed α] [HasTenant α] {scope : TenantScope}
    {table : Table α} {id : ℕ} {detail : String} {row : α}
    (h : getInScope scope table id detail = .ok row) : table.get id = some row := by
  rw [getInScope] at h
  split at h
  · cases h
  · next hget =>
    split at h
    · cases h
      exact hget
    · cases h

/-- A tenant that is resolved is there. -/
theorem get_of_resolveCreateTenant {scope : TenantScope} {db : Db} {explicitTenantId : Option ℕ}
    {tenant : Tenant} (h : resolveCreateTenant scope db explicitTenantId = .ok tenant) :
    db.tenants.get tenant.id = some tenant := by
  rw [resolveCreateTenant] at h
  split at h
  · cases h
  · split at h
    · cases h
    · split at h
      · cases h
      · next found hfound =>
        have hget : db.tenants.get found.id = some found :=
          Table.mem_rows_iff.mp (Table.mem_of_get hfound)
        split at h
        · cases h
          exact hget
        · split at h
          · cases h
          · split at h <;> cases h <;> exact hget

/-- The operator holds one of the roles that may change rows of `tenantId`. -/
def Operator.MayWrite (operator : Operator) (tenantId : Option ℕ) : Prop :=
  ∃ join ∈ operator.joins.rows, tenantId = some join.tenantId ∧
    (join.role = .admin ∨ join.role = .operator)

instance (operator : Operator) (tenantId : Option ℕ) : Decidable (operator.MayWrite tenantId) :=
  inferInstanceAs (Decidable (∃ join ∈ operator.joins.rows, tenantId = some join.tenantId ∧
    (join.role = .admin ∨ join.role = .operator)))

section

variable {operator : Operator} {t : ℕ} {role : OperatorRole} {tenantId : Option ℕ}

theorem isSuperAdmin_eq_false (h : operator.role ≠ .admin) :
    (getTenantScope operator).isSuperAdmin = false := by
  simpa [getTenantScope] using h

theorem roleIn_eq_some_iff :
    (getTenantScope operator).roleIn t = some role ↔ ⟨t, role⟩ ∈ operator.joins.rows := by
  rw [TenantScope.roleIn, Option.map_eq_some_iff]
  constructor
  · rintro ⟨join, hget, rfl⟩
    have hpk : join.tenantId = t := Table.pk_of_get hget
    rw [← hpk]
    exact Table.mem_of_get hget
  · intro hmem
    exact ⟨⟨t, role⟩, Table.mem_rows_iff.mp hmem, rfl⟩

/-- The roles that `requireTenantRole` asks for before a change are those that may write. -/
theorem mayWrite_of_requireTenantRole (hrole : operator.role ≠ .admin)
    {allowed : List OperatorRole} (hallowed : ∀ r ∈ allowed, r = .admin ∨ r = .operator)
    (h : requireTenantRole (getTenantScope operator) tenantId allowed = .ok ()) :
    operator.MayWrite tenantId := by
  unfold requireTenantRole at h
  rw [isSuperAdmin_eq_false hrole, if_neg (by decide)] at h
  split at h
  · cases h
  · next t =>
    split at h
    · cases h
    · next role hroleIn =>
      split at h
      · next hmem =>
        exact ⟨⟨t, role⟩, roleIn_eq_some_iff.mp hroleIn, rfl,
          hallowed role (List.contains_iff_mem.mp hmem)⟩
      · cases h

theorem mayWrite_of_resolveCreateTenant (hrole : operator.role ≠ .admin) {db : Db}
    {explicitTenantId : Option ℕ} {tenant : Tenant}
    (h : resolveCreateTenant (getTenantScope operator) db explicitTenantId = .ok tenant) :
    operator.MayWrite (some tenant.id) := by
  rw [resolveCreateTenant] at h
  split at h
  · cases h
  · split at h
    · cases h
    · next target _ =>
      split at h
      · cases h
      · next found hget =>
        have hid : found.id = target := Table.pk_of_get hget
        rw [isSuperAdmin_eq_false hrole, if_neg (by decide)] at h
        split at h
        · cases h
        · split at h
          · next hroleIn =>
            cases h
            exact ⟨⟨target, .admin⟩, roleIn_eq_some_iff.mp hroleIn, by rw [hid], .inl rfl⟩
          · next hroleIn =>
            cases h
            exact ⟨⟨target, .operator⟩, roleIn_eq_some_iff.mp hroleIn, by rw [hid], .inr rfl⟩
          · cases h

end

/-! ## A hub and two callers for examples -/

/-- The hub at `10.9.0.1`, as a hub of tenant 1. -/
def tenantDb : Db where
  servers := ⟨[{ exampleHub with tenantId := some 1 }], by decide⟩

/-- An operator of tenant 1. -/
def hubOperator : Operator := ⟨.operator, ⟨[⟨1, .operator⟩], by decide⟩⟩

/-- An auditor, joined to tenant 2 only. -/
def foreignAuditor : Operator := ⟨.auditor, ⟨[⟨2, .auditor⟩], by decide⟩⟩

end WgManager
