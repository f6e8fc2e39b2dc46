import WgManager.Routers.Outcome

/-!
# Creating and changing tenants

The handlers of `routers/tenants.py` that read and change the tenant registry, and
`wg-manager tenants create` of `cli.py`, which does the same as `POST /tenants` straight on the
database.  The two were written separately: the command line looks at the shape of the pool before
it looks for the slug and the name, and its messages say more.

A pool that is given is compared with the pools of all tenants.  One that is not given is the
default of the column, and is compared with none.
-/

set_option autoImplicit false

namespace WgManager

/-- What a tenant request takes from its surroundings. -/
structure TenantContext where
  now : Datetime
  /-- How the database compares texts. -/
  coll : Collation
  /-- The auto-increment key of the row the request inserts. -/
  newId : ℕ
  /-- `repr` of a string, as in `{slug!r}`. -/
  repr : String → String
  /-- `str.lower()`. -/
  lower : String → String
  /-- The text of the `ValueError` that `IPv4Network` raises on a text it does not read. -/
  valueError : String → String

/-- `TenantCreate`, and the options of `tenants create`. -/
structure TenantCreate where
  name : String
  slug : Option String := none
  subnetPool : Option String := none
  deriving DecidableEq

/-- `TenantUpdate`. -/
structure TenantUpdate where
  subnetPool : Option String := none
  deriving DecidableEq

/-- A character that a slug keeps: `[a-z0-9]`. -/
def isSlugChar (c : Char) : Bool := c.isLower || c.isDigit

/-- `_slugify`.  The runs of other characters become single hyphens and those at the ends are
stripped, so the words that are kept stand between hyphens. -/
def slugify (lower : String → String) (name : String) : String :=
  let words := (PyStr.pieces (fun c ↦ !isSlugChar c) (lower name).toList).filter (· ≠ [])
  if words = [] then "tenant" else "-".intercalate (words.map String.ofList)

/-- `body.slug or _slugify(body.name)`. -/
def TenantCreate.targetSlug (body : TenantCreate) (lower : String → String) : String :=
  match body.slug with
  | none => slugify lower body.name
  | some slug => if slug = "" then slugify lower body.name else slug

/-- The requests of the router that are about tenants. -/
inductive TenantRequest
  | list
  | get (slug : String)
  | create (body : TenantCreate)
  | update (slug : String) (body : TenantUpdate)

/-! ## Role gates -/

/-- `_RequireAdmin` and `_RequireAdminOrAuditor`, over `_get_operator`. -/
def requireRole (caller : Option Operator) (allowed : List OperatorRole) : Except HttpError Unit :=
  match caller with
  | none => .error ⟨401, "operator unknown"⟩
  | some operator =>
    if allowed.contains operator.role then .ok () else .error ⟨403, "role not permitted"⟩

section

variable (ctx : TenantContext) (db : Db)

/-! ## Lookups -/

def tenantBySlug (slug : String) : Option Tenant :=
  db.tenants.rows.find? fun t ↦ ctx.coll.same t.slug slug

def tenantByName (name : String) : Option Tenant :=
  db.tenants.rows.find? fun t ↦ ctx.coll.same t.name name

/-- `_require_tenant`. -/
def requireTenant (slug : String) : Except HttpError Tenant :=
  match tenantBySlug ctx db slug with
  | none =>
    let slug := ctx.repr slug
    .error ⟨404, s!"no tenant with slug {slug}"⟩
  | some row => .ok row

/-- The first tenant, other than the excluded one, that has a pool which overlaps `pool`. -/
def overlappingTenant (pool : SubnetPool) (excludeId : Option ℕ) : Option Tenant :=
  db.tenants.rows.find? fun other ↦
    excludeId != some other.id && other.subnetPool.text != "" && poolsOverlap pool other.subnetPool

/-- The part of the message about an overlap that the router and the command line share. -/
def overlapMessage (pool : SubnetPool) (other : Tenant) : String :=
  let text := ctx.repr pool.text
  let slug := ctx.repr other.slug
  let otherPool := ctx.repr other.subnetPool.text
  s!"{text} overlaps tenant {slug}'s pool {otherPool}"

/-! ## The router -/

/-- `IPv4Network(body.subnet_pool, strict=True)` and `_reject_pool_overlap`, where a pool is
given. -/
def checkPool (text : Option String) (excludeId : Option ℕ) :
    Except HttpError (Option SubnetPool) :=
  match text with
  | none => .ok none
  | some text =>
    match SubnetPool.parse text with
    | none =>
      let given := ctx.repr text
      let reason := ctx.valueError text
      .error ⟨422, s!"invalid subnet_pool {given}: {reason}"⟩
    | some pool =>
      match overlappingTenant db pool excludeId with
      | some other => .error ⟨409, "subnet_pool " ++ overlapMessage ctx pool other⟩
      | none => .ok (some pool)

/-- The slug and the name must not be taken. -/
def checkIdentity (slug name : String) : Except HttpError Unit :=
  match tenantBySlug ctx db slug, tenantByName ctx db name with
  | some existing, _ =>
    let slug := ctx.repr slug
    .error ⟨409, s!"tenant with slug {slug} already exists (id={existing.id})"⟩
  | none, some existing =>
    let name := ctx.repr name
    .error ⟨409, s!"tenant with name {name} already exists (id={existing.id})"⟩
  | none, none => .ok ()

/-- The checks of `create_tenant`: the slug and, where one is given, the pool. -/
def createTenantChecks (caller : Option Operator) (body : TenantCreate) :
    Except HttpError (String × Option SubnetPool) := do
  requireRole caller [.admin]
  checkIdentity ctx db (body.targetSlug ctx.lower) body.name
  let pool ← checkPool ctx db body.subnetPool none
  .ok (body.targetSlug ctx.lower, pool)

/-- The row that is inserted. -/
def newTenant (name slug : String) (pool : Option SubnetPool) : Tenant :=
  { id := ctx.newId, name := name, slug := slug, subnetPool := pool.getD .fallback,
    createdAt := ctx.now }

/-- `create_tenant`. -/
def createTenant (caller : Option Operator) (body : TenantCreate) : Outcome :=
  .ofChecks db (createTenantChecks ctx db caller body) fun (slug, pool) ↦
    let row := newTenant ctx body.name slug pool
    { db := { db with tenants := db.tenants.insert row }
      response := .ok (201, .tenant row) }

/-- The checks of `update_tenant`: the row and, where one is given, the pool. -/
def updateTenantChecks (caller : Option Operator) (slug : String) (body : TenantUpdate) :
    Except HttpError (Tenant × Option SubnetPool) := do
  requireRole caller [.admin]
  let row ← requireTenant ctx db slug
  let pool ← checkPool ctx db body.subnetPool (some row.id)
  .ok (row, pool)

/-- `row.subnet_pool = body.subnet_pool`, where one is given. -/
def Tenant.withPool (pool : Option SubnetPool) (row : Tenant) : Tenant :=
  { row with subnetPool := pool.getD row.subnetPool }

theorem Tenant.pk_withPool (pool : Option SubnetPool) (row : Tenant) :
    Keyed.pk (row.withPool pool) = Keyed.pk row := rfl

/-- The pool is set, where one is given. -/
def Db.withPool (tenantId : ℕ) (pool : Option SubnetPool) : Db :=
  { db with tenants := db.tenants.modify tenantId (Tenant.withPool pool) (Tenant.pk_withPool pool) }

/-- `update_tenant`. -/
def updateTenant (caller : Option Operator) (slug : String) (body : TenantUpdate) : Outcome :=
  .ofChecks db (updateTenantChecks ctx db caller slug body) fun (row, pool) ↦
    { db := db.withPool row.id pool
      response := .ok (200, .tenant (row.withPool pool)) }

/-- `list_tenants`. -/
def listTenants (caller : Option Operator) : Response := do
  requireRole caller [.admin, .auditor]
  .ok (200, .tenants db.tenants.rows)

/-- `get_tenant`. -/
def getTenant (caller : Option Operator) (slug : String) : Response := do
  requireRole caller [.admin, .auditor]
  let row ← requireTenant ctx db slug
  .ok (200, .tenant row)

/-- The router. -/
def handleTenants (caller : Option Operator) : TenantRequest → Outcome
  | .list => ⟨db, [], listTenants db caller⟩
  | .get slug => ⟨db, [], getTenant ctx db caller slug⟩
  | .create body => createTenant ctx db caller body
  | .update slug body => updateTenant ctx db caller slug body

/-! ## The command line -/

/-- The shape of `--subnet-pool`, where it is given. -/
def parsePoolOption (text : Option String) : Except String (Option SubnetPool) :=
  match text with
  | none => .ok none
  | some text =>
    match SubnetPool.parse text with
    | none =>
      let given := ctx.repr text
      let reason := ctx.valueError text
      .error s!"invalid --subnet-pool {given}: {reason}"
    | some pool => .ok (some pool)

/-- The slug and the name must not be taken. -/
def checkIdentityOptions (slug name : String) : Except String Unit :=
  match tenantBySlug ctx db slug, tenantByName ctx db name with
  | some existing, _ =>
    let slug := ctx.repr slug
    let name := ctx.repr existing.name
    .error s!"tenant with slug {slug} already exists (id={existing.id}, name={name})"
  | none, some existing =>
    let name := ctx.repr name
    let slug := ctx.repr existing.slug
    .error s!"tenant with name {name} already exists (id={existing.id}, slug={slug})"
  | none, none => .ok ()

/-- The pool must not overlap that of another tenant. -/
def checkOverlapOption (pool : SubnetPool) : Except String Unit :=
  match overlappingTenant db pool none with
  | some other => .error ("--subnet-pool " ++ overlapMessage ctx pool other)
  | none => .ok ()

/-- The checks of `tenants create`; an error is printed, and the exit code is 1. -/
def tenantsCreateChecks (args : TenantCreate) : Except String (String × Option SubnetPool) := do
  let pool ← parsePoolOption ctx args.subnetPool
  checkIdentityOptions ctx db (args.targetSlug ctx.lower) args.name
  pool.forM (checkOverlapOption ctx db)
  .ok (args.targetSlug ctx.lower, pool)

/-- `tenants_create`: the database it leaves, and what it prints. -/
def tenantsCreate (args : TenantCreate) : Db × Except String String :=
  match tenantsCreateChecks ctx db args with
  | .error message => (db, .error message)
  | .ok (slug, pool) =>
    let row := newTenant ctx args.name slug pool
    let name := ctx.repr row.name
    let slug := ctx.repr row.slug
    let pool := ctx.repr row.subnetPool.text
    ({ db with tenants := db.tenants.insert row },
      .ok s!"created tenant id={row.id} name={name} slug={slug} subnet_pool={pool}")

end

/-! ## What a pool that is taken has passed -/

section

variable {ctx : TenantContext} {db : Db} {pool : SubnetPool} {excludeId : Option ℕ}

/-- No tenant overlaps when all but the excluded one are clear of the pool. -/
theorem overlappingTenant_eq_none_iff : overlappingTenant db pool excludeId = none ↔
    ∀ other ∈ db.tenants.rows, excludeId ≠ some other.id →
      poolsOverlap pool other.subnetPool = false := by
  rw [overlappingTenant, List.find?_eq_none]
  refine forall₂_congr fun other _ ↦ ?_
  have htext := other.subnetPool.text_ne_empty
  simp [htext]

theorem clear_of_checkPool {text : Option String}
    (h : checkPool ctx db text excludeId = .ok (some pool)) :
    ∀ other ∈ db.tenants.rows, excludeId ≠ some other.id →
      poolsOverlap pool other.subnetPool = false := by
  rw [← overlappingTenant_eq_none_iff]
  cases text with
  | none => cases h
  | some text =>
    rw [checkPool] at h
    cases hparse : SubnetPool.parse text with
    | none => simp [hparse] at h
    | some given =>
      simp only [hparse] at h
      cases hother : overlappingTenant db given excludeId with
      | some other => simp [hother] at h
      | none =>
        rw [hother] at h
        cases h
        exact hother

theorem clear_of_createTenantChecks {caller : Option Operator} {body : TenantCreate} {slug : String}
    (h : createTenantChecks ctx db caller body = .ok (slug, some pool)) :
    ∀ other ∈ db.tenants.rows, poolsOverlap pool other.subnetPool = false := by
  rw [createTenantChecks, bind_eq_ok_iff] at h
  obtain ⟨-, -, h⟩ := h
  obtain ⟨-, -, h⟩ := bind_eq_ok_iff.mp h
  obtain ⟨given, hpool, h⟩ := bind_eq_ok_iff.mp h
  cases h
  exact fun other hother ↦ clear_of_checkPool hpool other hother (by simp)

theorem clear_of_tenantsCreateChecks {args : TenantCreate} {slug : String}
    (h : tenantsCreateChecks ctx db args = .ok (slug, some pool)) :
    ∀ other ∈ db.tenants.rows, poolsOverlap pool other.subnetPool = false := by
  rw [tenantsCreateChecks, bind_eq_ok_iff] at h
  obtain ⟨given, -, h⟩ := h
  obtain ⟨-, -, h⟩ := bind_eq_ok_iff.mp h
  obtain ⟨_, hclear, h⟩ := bind_eq_ok_iff.mp h
  cases h
  have hnone : overlappingTenant db pool none = none := by
    cases hother : overlappingTenant db pool none with
    | none => rfl
    | some other => simp [checkOverlapOption, hother] at hclear
  exact fun other hmem ↦ overlappingTenant_eq_none_iff.mp hnone other hmem (by simp)

/-- A tenant that is updated is there, and its new pool is clear of the others. -/
theorem updateTenantChecks_eq_ok {caller : Option Operator} {slug : String} {body : TenantUpdate}
    {row : Tenant} {given : Option SubnetPool}
    (h : updateTenantChecks ctx db caller slug body = .ok (row, given)) :
    row ∈ db.tenants.rows ∧ ∀ pool ∈ given, ∀ other ∈ db.tenants.rows, other.id ≠ row.id →
      poolsOverlap pool other.subnetPool = false := by
  rw [updateTenantChecks, bind_eq_ok_iff] at h
  obtain ⟨-, -, h⟩ := h
  obtain ⟨row', hrow, h⟩ := bind_eq_ok_iff.mp h
  obtain ⟨pool', hpool, h⟩ := bind_eq_ok_iff.mp h
  cases h
  refine ⟨?_, ?_⟩
  · rw [requireTenant] at hrow
    split at hrow
    · cases hrow
    · next row'' hslug =>
      cases hrow
      exact List.mem_of_find?_eq_some hslug
  · rintro pool hgiven other hother hne
    rw [Option.mem_def.mp hgiven] at hpool
    exact clear_of_checkPool hpool other hother (by simpa using Ne.symm hne)

end

end WgManager
