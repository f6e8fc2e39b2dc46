import WgManager.TenantScope
import WgManager.Lib.Collation
import WgManager.Lib.PyStr

/-!
# Who may call the API

`MTLSAuthMiddleware` of `auth.py`: the chain of decisions between the TLS socket and the handlers.
A request is forwarded with the operator it was found to come from, turned away with a 401, or an
exception leaves the middleware.

The middleware reads the database four or five times, each time in a session of its own, and other
requests move in between.  `AuthEnv.db` is therefore one database for each lookup, and
`AuthEnv.fails` says which lookups raise a driver error; nothing else ties the lookups together.
Names and serials are looked up as the database compares texts, which is the parameter `coll`.
`x509` parsing is the library's and enters as the parameter `loadPemX509Certificate`.
-/

set_option autoImplicit false

namespace WgManager

/-! ## The certificate of the caller -/

/-- Exceptions, as far as an `except` clause of the module tells them apart. -/
inductive Raised
  | valueError
  | typeError
  | other
  deriving DecidableEq

/-- An attribute of a certificate's subject. -/
structure NameAttribute where
  isCommonName : Bool
  value : String
  deriving DecidableEq

/-- An entry of a subject alternative name. -/
inductive GeneralName
  | dnsName (value : String)
  | ipAddress (text : String)
  | other
  deriving DecidableEq

/-- What the middleware reads off an `x509.Certificate`. -/
structure X509 where
  subject : List NameAttribute
  /-- The lookup of the extension; `none` is `ExtensionNotFound`. -/
  subjectAlternativeName : Except Raised (Option (List GeneralName))
  serialNumber : ℤ
  notValidBefore : Datetime
  notValidAfter : Datetime

/-- The operator identity behind a request. -/
structure CertSubject where
  commonName : String
  sans : List String
  serial : ℤ
  notBefore : Datetime
  notAfter : Datetime
  certPem : String
  deriving DecidableEq

/-- `_sans_from_cert`: the DNS and IP entries in declaration order. -/
def sansFromCert (cert : X509) : Except Raised (List String) :=
  cert.subjectAlternativeName.map fun ext ↦ (ext.getD []).filterMap fun
    | .dnsName value => some value
    | .ipAddress text => some text
    | .other => none

/-- `_common_name`: the first one of the subject, or the empty string. -/
def commonName (cert : X509) : String :=
  ((cert.subject.find? NameAttribute.isCommonName).map NameAttribute.value).getD ""

/-- `parse_subject_from_pem`, over the library's loader. -/
def parseSubjectFromPem (loadPemX509Certificate : String → Except Raised X509) (pem : String) :
    Except Raised CertSubject :=
  if pem = "" || PyStr.strip pem = "" then .error .valueError
  else match loadPemX509Certificate pem with
  | .error .other => .error .other
  | .error _ => .error .valueError
  | .ok cert =>
    match sansFromCert cert with
    | .error e => .error e
    | .ok sans => .ok {
        commonName := commonName cert
        sans := sans
        serial := cert.serialNumber
        notBefore := cert.notValidBefore
        notAfter := cert.notValidAfter
        certPem := pem }

/-- `extract_subject_from_scope`, on the chain of the scope's TLS extension (empty when the
extension is missing).  A `ValueError` is logged and counts as no subject; any other exception
goes on. -/
def extractSubjectFromScope (loadPemX509Certificate : String → Except Raised X509)
    (clientCertChain : List String) : Except Raised (Option CertSubject) :=
  match clientCertChain with
  | [] => .ok none
  | first :: _ =>
    if first = "" then .ok none
    else match parseSubjectFromPem loadPemX509Certificate first with
    | .ok subject => .ok (some subject)
    | .error .valueError => .ok none
    | .error e => .error e

/-! ## The tables the middleware reads -/

inductive OperatorStatus
  | active
  | disabled
  deriving DecidableEq

/-- A row of the operator registry. -/
structure OperatorRow where
  id : ℕ
  cn : String
  displayName : Option String := none
  role : OperatorRole := .operator
  status : OperatorStatus := .active
  createdAt : Datetime
  deriving DecidableEq

/-- The role of one operator on one tenant. -/
structure OperatorTenantRow where
  id : ℕ
  operatorId : ℕ
  tenantId : ℕ
  role : OperatorRole := .operator
  deriving DecidableEq

/-- A row of the certificate registry: a serial, and whether it was revoked. -/
structure Certificate where
  id : ℕ
  serial : String
  revoked : Bool := false
  deriving DecidableEq

instance : Keyed OperatorRow := ⟨OperatorRow.id⟩
instance : Keyed OperatorTenantRow := ⟨OperatorTenantRow.id⟩
instance : Keyed Certificate := ⟨Certificate.id⟩

/-- The registry, with the unique constraints of its three tables. -/
structure Registry (coll : Collation) where
  operators : Table OperatorRow := .empty
  operatorTenants : Table OperatorTenantRow := .empty
  certificates : Table Certificate := .empty
  cn_unique : coll.Unique (operators.rows.map OperatorRow.cn)
  pair_nodup : (operatorTenants.rows.map fun r ↦ (r.operatorId, r.tenantId)).Nodup
  serial_unique : coll.Unique (certificates.rows.map Certificate.serial)

section

variable {coll : Collation}

/-- `select(Operator).where(Operator.cn == cn)`, the first row. -/
def Registry.operatorByCn (db : Registry coll) (cn : String) : Option OperatorRow :=
  db.operators.rows.find? fun row ↦ coll.same row.cn cn

theorem Registry.operatorByCn_eq_some {db : Registry coll} {cn : String} {row : OperatorRow}
    (h : db.operatorByCn cn = some row) :
    row ∈ db.operators.rows ∧ coll.same row.cn cn = true := by
  rw [Registry.operatorByCn] at h
  exact ⟨List.mem_of_find?_eq_some h, by simpa only using List.find?_some h⟩

/-- No row has a name that the database takes for this one. -/
theorem Registry.operatorByCn_eq_none {db : Registry coll} {cn : String} :
    db.operatorByCn cn = none ↔ ∀ row ∈ db.operators.rows, coll.same row.cn cn = false := by
  rw [Registry.operatorByCn, List.find?_eq_none]
  simp

/-- Names that are the same to the database have the same row. -/
theorem Registry.operatorByCn_congr {db : Registry coll} {cn cn' : String}
    (h : coll.same cn cn' = true) : db.operatorByCn cn = db.operatorByCn cn' := by
  rw [Registry.operatorByCn, Registry.operatorByCn]
  exact congrArg (List.find? · _) (funext fun row ↦ Collation.same_congr h row.cn)

/-- `select(Certificate).where(Certificate.serial == serial)`, the first row. -/
def Registry.certificateBySerial (db : Registry coll) (serial : String) : Option Certificate :=
  db.certificates.rows.find? fun row ↦ coll.same row.serial serial

/-- The join rows of an operator. -/
def Registry.joinRows (db : Registry coll) (operatorId : ℕ) : List OperatorTenantRow :=
  db.operatorTenants.select fun row ↦ row.operatorId == operatorId

/-- The tenants of an operator are different, so that they can be the keys of a dict. -/
theorem Registry.joinRows_nodup (db : Registry coll) (operatorId : ℕ) :
    (((db.joinRows operatorId).map fun row ↦ (⟨row.tenantId, row.role⟩ : OperatorTenant)).map
      Keyed.pk).Nodup := by
  have hpairs : ((db.joinRows operatorId).map fun r ↦ (r.operatorId, r.tenantId)).Nodup :=
    db.pair_nodup.sublist (List.filter_sublist.map _)
  rw [List.map_map]
  refine List.Nodup.map_on ?_ (List.Nodup.of_map _ hpairs)
  intro r hr s hs htenant
  refine List.inj_on_of_nodup_map hpairs hr hs ?_
  have hr' : r.operatorId = operatorId := by simpa using (List.mem_filter.mp hr).2
  have hs' : s.operatorId = operatorId := by simpa using (List.mem_filter.mp hs).2
  exact Prod.ext (hr'.trans hs'.symm) htenant

/-- The dict from tenant to role. -/
def Registry.joins (db : Registry coll) (operatorId : ℕ) : Table OperatorTenant :=
  ⟨(db.joinRows operatorId).map fun row ↦ ⟨row.tenantId, row.role⟩, db.joinRows_nodup operatorId⟩

end

/-! ## The middleware -/

/-- The moments at which the middleware talks to the database. -/
inductive Lookup
  /-- The select of the operator by common name. -/
  | operator
  /-- The commit of a bootstrapped row. -/
  | commit
  /-- `session.refresh` of that row. -/
  | refresh
  /-- The select after a lost bootstrap race. -/
  | refetch
  /-- The select of the certificate by serial. -/
  | certificate
  /-- The select of the operator's tenants. -/
  | tenants
  deriving DecidableEq

/-- The settings the middleware captures. -/
structure AuthSettings where
  tlsRequired : Bool
  authBootstrapOperatorCn : Option String := none
  authBootstrapOperatorRole : String := "admin"

/-- `OperatorRole(value)`; `none` is a `ValueError`. -/
def OperatorRole.ofValue (value : String) : Option OperatorRole :=
  if value = "admin" then some .admin
  else if value = "operator" then some .operator
  else if value = "auditor" then some .auditor
  else none

/-- What a request meets: the settings, the certificate library, and the database as it is at each
lookup. -/
structure AuthEnv (coll : Collation) where
  settings : AuthSettings
  loadPemX509Certificate : String → Except Raised X509
  /-- The content of the registry at each lookup. -/
  db : Lookup → Registry coll
  /-- The lookups that raise a driver error. -/
  fails : Lookup → Bool
  /-- The key and the time a bootstrapped row gets. -/
  newId : ℕ
  now : Datetime
  /-- What the table holds under the key of a row committed just before; `none` when the row is gone
  again. -/
  readBack : OperatorRow → Option OperatorRow
  /-- Nothing changes the common name of an operator row. -/
  readBack_cn : ∀ row row', readBack row = some row' → row'.cn = row.cn

/-- What the handlers find on `request.state`. -/
structure RequestState where
  certSubject : Option CertSubject := none
  operator : Option OperatorRow := none
  tenantIds : Option (List ℕ) := none
  tenantRoles : Option (Table OperatorTenant) := none
  isSuperAdmin : Option Bool := none

/-- How the middleware ends: it calls the application, answers 401 (for the reason it writes to the
audit log), or an exception leaves it. -/
inductive Decision
  | forward (state : RequestState)
  | reject (reason : String) (error : HttpError)
  | raised (e : Raised)

/-- `get_tenant_scope`, once the middleware has filled in the slots. -/
def RequestState.scope (state : RequestState) : Option TenantScope :=
  state.isSuperAdmin.map fun isSuperAdmin ↦
    ⟨isSuperAdmin, state.tenantIds.getD [], state.tenantRoles.getD .empty⟩

structure AuthRequest where
  method : String
  path : String
  clientCertChain : List String

/-- `is_health_path`. -/
def isHealthPath (path : String) : Bool :=
  ["/healthz", "/readyz", "/v1/healthz", "/v1/readyz"].contains path

namespace AuthEnv

variable {coll : Collation}

/-- The row a bootstrap adds. -/
def bootstrapRow (env : AuthEnv coll) (subject : CertSubject) (role : OperatorRole) :
    OperatorRow where
  id := env.newId
  cn := subject.commonName
  displayName := some s!"bootstrap:{subject.commonName}"
  role := role
  status := .active
  createdAt := env.now

/-- `_maybe_bootstrap`: self-register the configured common name. -/
def maybeBootstrap (env : AuthEnv coll) (subject : CertSubject) :
    Except Raised (Option OperatorRow) :=
  match env.settings.authBootstrapOperatorCn with
  | none => .ok none
  | some bootstrapCn =>
    if bootstrapCn = "" || bootstrapCn ≠ subject.commonName then .ok none
    else match OperatorRole.ofValue env.settings.authBootstrapOperatorRole with
    | none => .ok none
    | some role =>
      if env.fails .commit then .error .other
      else match (env.db .commit).operatorByCn subject.commonName with
      -- the row is committed, and refreshed from the table
      | none =>
        if env.fails .refresh then .error .other
        else match env.readBack (env.bootstrapRow subject role) with
        | none => .error .other
        | some row => .ok (some row)
      -- `IntegrityError`: somebody else registered the name in the meantime
      | some _ =>
        if env.fails .refetch then .error .other
        else .ok ((env.db .refetch).operatorByCn subject.commonName)

/-- `_resolve_operator`. -/
def resolveOperator (env : AuthEnv coll) (subject : CertSubject) :
    Except Raised (Option OperatorRow) :=
  if env.fails .operator then .error .other
  else match (env.db .operator).operatorByCn subject.commonName with
  | some row => .ok (some row)
  | none => env.maybeBootstrap subject

/-- `_serial_is_revoked`: a driver error counts as not revoked. -/
def serialIsRevoked (env : AuthEnv coll) (serial : ℤ) : Bool :=
  if env.fails .certificate then false
  else ((env.db .certificate).certificateBySerial (toString serial)).any Certificate.revoked

/-- `_resolve_tenant_set`: a driver error gives the empty pair. -/
def resolveTenantSet (env : AuthEnv coll) (operator : OperatorRow) :
    List ℕ × Table OperatorTenant :=
  if env.fails .tenants then ([], .empty)
  else
    let joins := (env.db .tenants).joins operator.id
    ((joins.rows.map OperatorTenant.tenantId).insertionSort (· ≤ ·), joins)

/-- The state an admitted request carries. -/
def admitted (env : AuthEnv coll) (subject : CertSubject) (operator : OperatorRow) : RequestState :=
  let (tenantIds, tenantRoles) := env.resolveTenantSet operator
  { certSubject := some subject
    operator := some operator
    tenantIds := some tenantIds
    tenantRoles := some tenantRoles
    isSuperAdmin := some (operator.role == .admin) }

/-- `MTLSAuthMiddleware.dispatch`. -/
def dispatch (env : AuthEnv coll) (request : AuthRequest) : Decision :=
  if isHealthPath request.path then .forward {}
  else if !env.settings.tlsRequired then .forward {}
  else if request.method = "OPTIONS" then .forward {}
  else match extractSubjectFromScope env.loadPemX509Certificate request.clientCertChain with
  | .error e => .raised e
  | .ok none => .reject "client-cert-required" ⟨401, "client cert required"⟩
  | .ok (some subject) =>
    match env.resolveOperator subject with
    | .error e => .raised e
    | .ok none => .reject "operator-not-registered" ⟨401, "operator not registered"⟩
    | .ok (some operator) =>
      if operator.status ≠ .active then .reject "operator-disabled" ⟨401, "operator disabled"⟩
      else if env.serialIsRevoked subject.serial then
        .reject "operator-cert-revoked" ⟨401, "operator cert revoked"⟩
      else .forward (env.admitted subject operator)

/-! ## What a forwarded request has shown -/

/-- The middleware saw `row` in the operator table: in one of its two selects, or as the row it had
just added itself. -/
def SawOperator (env : AuthEnv coll) (subject : CertSubject) (row : OperatorRow) : Prop :=
  row ∈ (env.db .operator).operators.rows ∨ row ∈ (env.db .refetch).operators.rows ∨
    ∃ role, env.readBack (env.bootstrapRow subject role) = some row

theorem extractSubjectFromScope_eq_some {load : String → Except Raised X509} {chain : List String}
    {subject : CertSubject} (h : extractSubjectFromScope load chain = .ok (some subject)) :
    ∃ pem rest, chain = pem :: rest ∧ parseSubjectFromPem load pem = .ok subject := by
  cases chain with
  | nil => simp [extractSubjectFromScope] at h
  | cons pem rest =>
    refine ⟨pem, rest, rfl, ?_⟩
    rw [extractSubjectFromScope] at h
    split at h
    · simp at h
    · split at h
      · next parsed hparse =>
        simp only [Except.ok.injEq, Option.some.injEq] at h
        rw [hparse, h]
      · simp at h
      · simp at h

theorem maybeBootstrap_eq_some {env : AuthEnv coll} {subject : CertSubject} {row : OperatorRow}
    (h : env.maybeBootstrap subject = .ok (some row)) :
    coll.same row.cn subject.commonName = true ∧ env.SawOperator subject row := by
  unfold maybeBootstrap at h
  split at h
  · simp at h
  · split at h
    · simp at h
    · split at h
      · simp at h
      · next role _ =>
        split at h
        · simp at h
        · split at h
          -- the row this request committed
          · split at h
            · simp at h
            · split at h
              · simp at h
              · next found hfound =>
                simp only [Except.ok.injEq, Option.some.injEq] at h
                subst h
                have hcn : found.cn = subject.commonName := env.readBack_cn _ _ hfound
                exact ⟨hcn ▸ coll.refl _, .inr (.inr ⟨role, hfound⟩)⟩
          -- the row of the winner
          · split at h
            · simp at h
            · obtain ⟨hmem, hcn⟩ := Registry.operatorByCn_eq_some (Except.ok.inj h)
              exact ⟨hcn, .inr (.inl hmem)⟩

theorem resolveOperator_eq_some {env : AuthEnv coll} {subject : CertSubject} {row : OperatorRow}
    (h : env.resolveOperator subject = .ok (some row)) :
    coll.same row.cn subject.commonName = true ∧ env.SawOperator subject row := by
  unfold resolveOperator at h
  split at h
  · simp at h
  · split at h
    · next found hfound =>
      simp only [Except.ok.injEq, Option.some.injEq] at h
      subst h
      obtain ⟨hmem, hcn⟩ := Registry.operatorByCn_eq_some hfound
      exact ⟨hcn, .inl hmem⟩
    · exact maybeBootstrap_eq_some h

/-- When the lookup answers, it finds a revoked row if there is one: the serial is unique. -/
theorem not_revoked_of_serialIsRevoked {env : AuthEnv coll} {serial : ℤ}
    (h : env.serialIsRevoked serial = false) (hok : env.fails .certificate = false) :
    ∀ row ∈ (env.db .certificate).certificates.rows, row.serial = toString serial →
      row.revoked = false := by
  intro row hrow hserial
  rw [serialIsRevoked, if_neg (by simp [hok])] at h
  cases hfind : (env.db .certificate).certificateBySerial (toString serial) with
  | none =>
    exact absurd (hserial ▸ coll.refl _) (List.find?_eq_none.mp hfind row hrow)
  | some found =>
    have hfound : found ∈ (env.db .certificate).certificates.rows ∧
        coll.same found.serial row.serial = true := by
      rw [Registry.certificateBySerial, ← hserial] at hfind
      exact ⟨List.mem_of_find?_eq_some hfind, by simpa only using List.find?_some hfind⟩
    have hsame : found = row :=
      (env.db .certificate).serial_unique.eq_of_same hfound.1 hrow hfound.2
    rw [hfind, hsame] at h
    simpa using h

/-- What the middleware has found out about a request it forwards with an operator. -/
theorem dispatch_eq_forward {env : AuthEnv coll} {request : AuthRequest} {state : RequestState}
    (htls : env.settings.tlsRequired = true) (hmethod : request.method ≠ "OPTIONS")
    (hpath : isHealthPath request.path = false) (h : env.dispatch request = .forward state) :
    ∃ subject operator,
      extractSubjectFromScope env.loadPemX509Certificate request.clientCertChain =
        .ok (some subject) ∧
      env.resolveOperator subject = .ok (some operator) ∧ operator.status = .active ∧
      env.serialIsRevoked subject.serial = false ∧ state = env.admitted subject operator := by
  rw [dispatch, if_neg (by simp [hpath]), if_neg (by simp [htls]), if_neg hmethod] at h
  split at h
  · simp at h
  · simp at h
  · next subject hsubject =>
    split at h
    · simp at h
    · simp at h
    · next operator hoperator =>
      split at h
      · simp at h
      · next hactive =>
        split at h
        · simp at h
        · next hrevoked =>
          refine ⟨subject, operator, hsubject, hoperator, not_not.mp hactive, ?_, ?_⟩
          · simpa using hrevoked
          · exact (Decision.forward.inj h).symm

/-- **What authentication guarantees.**  A request that is forwarded has shown a certificate that
parses and whose common name the database takes for that of an active operator; and unless the
registry could not be read, the certificate is not revoked in it. -/
theorem forwarded_is_authenticated (env : AuthEnv coll) (request : AuthRequest)
    (state : RequestState) (htls : env.settings.tlsRequired = true)
    (hmethod : request.method ≠ "OPTIONS")
    (hpath : isHealthPath request.path = false) (h : env.dispatch request = .forward state) :
    ∃ pem rest subject, request.clientCertChain = pem :: rest ∧
      parseSubjectFromPem env.loadPemX509Certificate pem = .ok subject ∧
      (∃ row, env.SawOperator subject row ∧ coll.same row.cn subject.commonName = true ∧
        row.status = .active) ∧
      (env.fails .certificate = false →
        ∀ row ∈ (env.db .certificate).certificates.rows, row.serial = toString subject.serial →
          row.revoked = false) := by
  obtain ⟨subject, operator, hsubject, hoperator, hactive, hrevoked, -⟩ :=
    dispatch_eq_forward htls hmethod hpath h
  obtain ⟨pem, rest, hchain, hparse⟩ := extractSubjectFromScope_eq_some hsubject
  obtain ⟨hcn, hsaw⟩ := resolveOperator_eq_some hoperator
  exact ⟨pem, rest, subject, hchain, hparse, ⟨operator, hsaw, hcn, hactive⟩,
    not_revoked_of_serialIsRevoked hrevoked⟩

theorem admitted_scope (env : AuthEnv coll) (subject : CertSubject) (operator : OperatorRow) :
    (env.admitted subject operator).scope = some (getTenantScope ⟨operator.role,
      if env.fails .tenants then .empty else (env.db .tenants).joins operator.id⟩) := by
  by_cases hfails : env.fails .tenants
  · simp [admitted, RequestState.scope, resolveTenantSet, getTenantScope, hfails, Table.empty]
  · simp [admitted, RequestState.scope, resolveTenantSet, getTenantScope, hfails]

/-- **In which scope the handlers work.**  A request that is forwarded works in the scope of its
operator; without the tenants of the operator when these could not be read. -/
theorem forwarded_scope (env : AuthEnv coll) (request : AuthRequest) (state : RequestState)
    (htls : env.settings.tlsRequired = true) (hmethod : request.method ≠ "OPTIONS")
    (hpath : isHealthPath request.path = false) (h : env.dispatch request = .forward state) :
    ∃ operator, state.operator = some operator ∧ operator.status = .active ∧
      state.scope = some (getTenantScope ⟨operator.role,
        if env.fails .tenants then .empty else (env.db .tenants).joins operator.id⟩) := by
  obtain ⟨subject, operator, -, -, hactive, -, rfl⟩ := dispatch_eq_forward htls hmethod hpath h
  exact ⟨operator, rfl, hactive, env.admitted_scope subject operator⟩

end AuthEnv

/-- A certificate of `ops` with serial 7. -/
def exampleX509 : X509 where
  subject := [⟨true, "ops"⟩]
  subjectAlternativeName := .ok none
  serialNumber := 7
  notValidBefore := 0
  notValidAfter := 100

/-- A registry that knows the operator `ops` and the serial 7. -/
def exampleRegistry (revoked : Bool) : Registry .binary where
  operators := ⟨[{ id := 1, cn := "ops", createdAt := 0 }], by decide⟩
  certificates := ⟨[{ id := 1, serial := "7", revoked := revoked }], by simp⟩
  cn_unique := List.pairwise_singleton _ _
  pair_nodup := by decide
  serial_unique := List.pairwise_singleton _ _

/-- That registry at every lookup; the lookups in `failing` raise. -/
def exampleAuthEnv (revoked : Bool) (failing : List Lookup) : AuthEnv .binary where
  settings := { tlsRequired := true }
  loadPemX509Certificate := fun _ ↦ .ok exampleX509
  db := fun _ ↦ exampleRegistry revoked
  fails := fun lookup ↦ failing.contains lookup
  newId := 2
  now := 0
  readBack := some
  readBack_cn := by
    intro row row' h
    rw [Option.some.inj h]

def exampleAuthRequest : AuthRequest where
  method := "GET"
  path := "/v1/servers"
  clientCertChain := ["pem"]

theorem forwarded_is_authenticated_for_ops :
    ∃ pem rest subject, exampleAuthRequest.clientCertChain = pem :: rest ∧
      parseSubjectFromPem (fun _ ↦ .ok exampleX509) pem = .ok subject ∧
      (∃ row, (exampleAuthEnv false []).SawOperator subject row ∧
        Collation.binary.same row.cn subject.commonName = true ∧ row.status = .active) ∧
      ((exampleAuthEnv false []).fails .certificate = false →
        ∀ row ∈ (exampleRegistry false).certificates.rows,
          row.serial = toString subject.serial → row.revoked = false) :=
  AuthEnv.forwarded_is_authenticated (exampleAuthEnv false []) exampleAuthRequest
    ((exampleAuthEnv false []).admitted ⟨"ops", [], 7, 0, 100, "pem"⟩
      { id := 1, cn := "ops", createdAt := 0 }) rfl (by decide) (by decide) rfl

/-- The registry says the certificate is revoked, the lookup fails, and the request goes through. -/
theorem revoked_certificate_forwarded :
    (exampleAuthEnv true [.certificate]).settings.tlsRequired = true ∧
    exampleAuthRequest.method ≠ "OPTIONS" ∧ isHealthPath exampleAuthRequest.path = false ∧
    (∃ state, (exampleAuthEnv true [.certificate]).dispatch exampleAuthRequest = .forward state ∧
      ∃ subject, state.certSubject = some subject ∧
        ∃ row ∈ (exampleRegistry true).certificates.rows,
          row.serial = toString subject.serial ∧ row.revoked = true) :=
  ⟨rfl, by decide, by decide,
    (exampleAuthEnv true [.certificate]).admitted ⟨"ops", [], 7, 0, 100, "pem"⟩
      { id := 1, cn := "ops", createdAt := 0 }, rfl,
    ⟨"ops", [], 7, 0, 100, "pem"⟩, rfl,
    { id := 1, serial := "7", revoked := true }, by simp [exampleRegistry], by decide, rfl⟩

end WgManager
