import Mathlib.Algebra.Order.Field.Rat
import WgManager.Routers.Outcome
import WgManager.Lib.PyStr

/-!
# The certificate registry and the files it speaks of

Leaf certificates are minted by the CLI (`certs issue`, `certs renew`) and by the `/certs` router,
and each of them is recorded as a row.  The CLI also writes the leaf, its key and its chain to
files, and keeps the three paths in the row, so that `certs renew --due` can later rewrite the leaf
in place; the router hands the leaf to its caller and writes no file.

* `World` is the registry together with the files.
* `certsIssue`, `certsRenewId`, `certsRenewDue`, `certsRevoke` are the commands of `cli.py`;
  `issueCert`, `renewCert`, `revokeCert` the handlers of `routers/certs.py`, up to their audit rows.
* A command that fails half way leaves the files it has written; what it meets (what the PKI
  backend answers, which write fails and what that leaves) is in `MintEnv`.

A path is the text that `str(Path(…))` gives and that a row stores, and two paths are the same when
the texts are.  The texts are not resolved: which file a path leads to depends on the directory that
a command runs in and on symbolic links, so that two paths may lead to one file (`MintEnv.place`).
The percentage of `_row_is_due`, which the code computes in floating point, is taken as an exact
rational.
-/

set_option autoImplicit false

namespace WgManager

/-! ## Rows -/

/-- Logical purpose of a leaf certificate. -/
inductive CertificateType
  | api
  | cli
  | dashboard
  | mysql
  | mysqlClient
  deriving DecidableEq, Repr

/-- `cert_type.value`. -/
def CertificateType.value : CertificateType → String
  | api => "api"
  | cli => "cli"
  | dashboard => "dashboard"
  | mysql => "mysql"
  | mysqlClient => "mysql-client"

/-- An entry of `_CERT_PROFILES`. -/
structure CertProfile where
  ttlDays : ℕ
  /-- `none` stands for the common name. -/
  defaultSans : Option (List String)
  requiresOperator : Bool
  serverEku : Bool

/-- `_CERT_PROFILES`, which the CLI and the router both have. -/
def certProfile : CertificateType → CertProfile
  | .api => ⟨30, some ["127.0.0.1", "localhost"], false, true⟩
  | .cli => ⟨365, none, true, false⟩
  | .dashboard => ⟨365, none, true, false⟩
  | .mysql => ⟨30, some ["mysql", "127.0.0.1", "localhost"], false, true⟩
  | .mysqlClient => ⟨30, none, false, false⟩

/-- The record of a leaf that has been issued. -/
structure CertificateRow where
  id : ℕ
  tenantId : Option ℕ := none
  serial : String
  certType : CertificateType
  operatorId : Option ℕ := none
  commonName : String
  /-- Comma-separated. -/
  sans : String := ""
  notBefore : Datetime
  notAfter : Datetime
  revoked : Bool := false
  revokedAt : Option Datetime := none
  createdAt : Datetime
  outCertPath : Option String := none
  outKeyPath : Option String := none
  outChainPath : Option String := none
  deriving DecidableEq

instance : Keyed CertificateRow := ⟨CertificateRow.id⟩

/-- A path column as Python tests it: the empty text is no path. -/
def stored : Option String → Option String
  | some "" => none
  | path => path

/-- The file that a row says its leaf is in. -/
def CertificateRow.certPath (row : CertificateRow) : Option String := stored row.outCertPath

/-- The table of certificates, with the counter that its keys come from. -/
structure CertTable where
  certificates : Table CertificateRow
  /-- The next auto-increment key. -/
  nextId : ℕ
  lt_nextId : ∀ row ∈ certificates.rows, row.id < nextId

namespace CertTable

/-- The rows that are not revoked. -/
def live (t : CertTable) : List CertificateRow := t.certificates.select fun row ↦ !row.revoked

/-- `session.add(row); session.commit()` for a new row, which gets the next key; `none` when the
serial is there already. -/
def insert (t : CertTable) (row : CertificateRow) : Option CertTable :=
  if t.certificates.rows.any (·.serial == row.serial) then none
  else some
    { certificates := t.certificates.insert { row with id := t.nextId }
      nextId := t.nextId + 1
      lt_nextId := by
        intro r hr
        rcases Table.mem_insert hr with hold | rfl
        · exact Nat.lt_succ_of_lt (t.lt_nextId r hold)
        · exact Nat.lt_succ_self _ }

/-- Change the row with key `id`. -/
def modify (t : CertTable) (id : ℕ) (f : CertificateRow → CertificateRow)
    (hf : ∀ r, Keyed.pk (f r) = Keyed.pk r) : CertTable where
  certificates := t.certificates.modify id f hf
  nextId := t.nextId
  lt_nextId := by
    intro r hr
    rcases Table.mem_modify hf hr with ⟨hold, -⟩ | ⟨r₀, hr₀, -, rfl⟩
    · exact t.lt_nextId r hold
    · have hid : (f r₀).id = r₀.id := hf r₀
      rw [hid]
      exact t.lt_nextId r₀ hr₀

/-- The next key is new. -/
theorem get_nextId (t : CertTable) : t.certificates.get t.nextId = none := by
  refine Table.get_eq_none_iff.mpr fun r hr hid ↦ ?_
  exact absurd hid (Nat.ne_of_lt (t.lt_nextId r hr))

theorem insert_isSome_iff {t : CertTable} {row : CertificateRow} :
    (t.insert row).isSome = true ↔ ∀ r ∈ t.certificates.rows, r.serial ≠ row.serial := by
  rw [insert]
  split
  · next h =>
    obtain ⟨r, hr, heq⟩ := List.any_eq_true.mp h
    exact iff_of_false (by simp) fun hfree ↦ hfree r hr (beq_iff_eq.mp heq)
  · next h => simpa using h

theorem certificates_of_insert {t t' : CertTable} {row : CertificateRow}
    (h : t.insert row = some t') :
    t'.certificates = t.certificates.insert { row with id := t.nextId } := by
  rw [insert] at h
  split at h
  · cases h
  · cases h
    rfl

end CertTable

/-- The columns a revocation sets. -/
def CertificateRow.markRevoked (now : Datetime) (row : CertificateRow) : CertificateRow :=
  { row with revoked := true, revokedAt := some now }

theorem CertificateRow.pk_markRevoked (now : Datetime) (row : CertificateRow) :
    Keyed.pk (row.markRevoked now) = Keyed.pk row := rfl

/-! ## Leaves and files -/

/-- A leaf as the PKI backend returns it, without its texts. -/
structure Leaf where
  serial : ℕ
  commonName : String
  sans : List String
  notBefore : Datetime
  notAfter : Datetime
  deriving DecidableEq

/-- An exception.  `PKIError` and the complaint about missing paths are `RuntimeError`s; errors of
the file system and of the database are not. -/
inductive Fault
  | runtimeError
  | other
  deriving DecidableEq

/-- What is in a file. -/
inductive Content
  | leaf (serial : ℕ)
  | key (serial : ℕ)
  | chain
  | pkcs12 (serial : ℕ)
  /-- What a write that failed has left. -/
  | torn
  deriving DecidableEq

/-- How the write of a file ends. -/
inductive Write
  | written
  /-- It fails, and has touched the file or not. -/
  | failed (touched : Bool)
  /-- The text is written, and the mode of the file cannot be changed. -/
  | modeFailed
  deriving DecidableEq

/-- The registry and the files, each by its own name. -/
structure World where
  registry : CertTable
  file : String → Option Content

/-- What a command or a request that mints a leaf meets. -/
structure MintEnv where
  now : Datetime
  /-- `issue_server_cert` and `issue_client_cert`, by whether the leaf is for a server. -/
  mint : Bool → String → List String → ℤ → Except Fault Leaf
  /-- The file that a path leads to. -/
  place : String → String := id
  writeCert : Write := .written
  writeKey : Write := .written
  writeChain : Write := .written
  writePkcs12 : Write := .written
  /-- The commit of the new row goes through, unless the row is refused. -/
  commits : Bool := true

/-- `_mint_leaf`. -/
def MintEnv.mintLeaf (env : MintEnv) (certType : CertificateType) (commonName : String)
    (sans : List String) (ttlSeconds : ℤ) : Except Fault Leaf :=
  env.mint (certProfile certType).serverEku commonName sans ttlSeconds

/-- What a minting has done: the world it leaves, the path it has minted a leaf for, and the
exception that ended it. -/
structure Minting where
  world : World
  minted : Option String := none
  raised : Option Fault := none

namespace World

/-- The content of a file after `_write_pem`. -/
def put (w : World) (file : String) (content : Content) : World :=
  { w with file := Function.update w.file file (some content) }

/-- The world after a write that ends as `write` says. -/
def afterWrite (w : World) (file : String) (content : Content) : Write → World
  | .written => w.put file content
  | .failed true => w.put file .torn
  | .failed false => w
  | .modeFailed => w.put file content

end World

/-- The row of a new leaf. -/
def Leaf.row (leaf : Leaf) (certType : CertificateType) (operatorId tenantId : Option ℕ)
    (now : Datetime) (outCertPath outKeyPath outChainPath : Option String) : CertificateRow where
  id := 0
  tenantId := tenantId
  serial := toString leaf.serial
  certType := certType
  operatorId := operatorId
  commonName := leaf.commonName
  sans := ",".intercalate leaf.sans
  notBefore := leaf.notBefore
  notAfter := leaf.notAfter
  createdAt := now
  outCertPath := outCertPath
  outKeyPath := outKeyPath
  outChainPath := outChainPath

/-- The commit that records a leaf. -/
def World.record (w : World) (env : MintEnv) (row : CertificateRow) : World × Bool :=
  if env.commits then
    match w.registry.insert row with
    | none => (w, false)
    | some registry => ({ w with registry }, true)
  else (w, false)

/-- The three files of a leaf. -/
structure OutPaths where
  cert : String
  key : String
  chain : String
  deriving DecidableEq

/-- The files that the paths lead to. -/
def OutPaths.follow (paths : OutPaths) (place : String → String) : OutPaths :=
  ⟨place paths.cert, place paths.key, place paths.chain⟩

/-- Write the leaf, its key and its chain, and then record it: a row never points at files that are
not there. -/
def World.writeAndRecord (w : World) (env : MintEnv) (leaf : Leaf) (paths : OutPaths)
    (row : CertificateRow) : Minting :=
  let w₁ := w.afterWrite (env.place paths.cert) (.leaf leaf.serial) env.writeCert
  if env.writeCert ≠ .written then ⟨w₁, some paths.cert, some .other⟩
  else
    let w₂ := w₁.afterWrite (env.place paths.key) (.key leaf.serial) env.writeKey
    if env.writeKey ≠ .written then ⟨w₂, some paths.cert, some .other⟩
    else
      let w₃ := w₂.afterWrite (env.place paths.chain) .chain env.writeChain
      if env.writeChain ≠ .written then ⟨w₃, some paths.cert, some .other⟩
      else
        let (w₄, recorded) := w₃.record env row
        ⟨w₄, some paths.cert, if recorded then none else some .other⟩

/-! ## The commands -/

/-- What the tables of operators and of tenants answer. -/
structure Directory where
  /-- `select(Operator).where(Operator.cn == cn)`. -/
  operatorId : String → Option ℕ
  /-- `select(Tenant).where(Tenant.slug == slug)`. -/
  tenantId : String → Option ℕ

/-- `_resolve_sans`: explicit, else the default of the type, else the common name. -/
def resolveSans (certType : CertificateType) (commonName : String) :
    Option (List String) → List String
  | some (san :: sans) => san :: sans
  | _ => (certProfile certType).defaultSans.getD [commonName]

/-- The SAN that binds a leaf to a tenant. -/
def tenantSan (slug : String) : String := "tenant:" ++ slug

/-- The options of `certs issue`. -/
structure IssueOptions where
  certType : CertificateType
  commonName : String
  sans : Option (List String) := none
  ttlDays : Option ℤ := none
  operatorCn : Option String := none
  tenantSlug : Option String := none
  outCert : Option String := none
  outKey : Option String := none
  outChain : Option String := none
  outPkcs12 : Option String := none

/-- The owner of a new leaf: an operator and a tenant.  `none` when one that is asked for does not
exist. -/
def Directory.owner (dir : Directory) (certType : CertificateType) (commonName : String)
    (operatorCn tenantSlug : Option String) : Option (Option ℕ × Option ℕ) := do
  let operatorId ←
    if (certProfile certType).requiresOperator then
      (dir.operatorId ((stored operatorCn).getD commonName)).map some
    else some none
  let tenantId ←
    match tenantSlug with
    | none => some none
    | some slug => (dir.tenantId slug).map some
  some (operatorId, tenantId)

/-- The files that an `issue` of this type has to be given. -/
def IssueOptions.paths (opts : IssueOptions) : Option OutPaths :=
  match opts.outCert, opts.outKey, opts.outChain with
  | some cert, some key, some chain => some ⟨cert, key, chain⟩
  | _, _, _ => none

/-- `certs issue`.  An invocation that is refused has no effect.  A `dashboard` leaf goes into one
PKCS#12 archive, and its row has the other paths as they were given. -/
def certsIssue (dir : Directory) (env : MintEnv) (w : World) (opts : IssueOptions) : Minting :=
  let profile := certProfile opts.certType
  if opts.tenantSlug.isSome && profile.serverEku then ⟨w, none, none⟩
  else
    let sans := resolveSans opts.certType opts.commonName opts.sans ++
      (opts.tenantSlug.map tenantSan).toList
    let ttlSeconds := opts.ttlDays.getD profile.ttlDays * 24 * 60 * 60
    match dir.owner opts.certType opts.commonName opts.operatorCn opts.tenantSlug with
    | none => ⟨w, none, none⟩
    | some (operatorId, tenantId) =>
      let row (leaf : Leaf) : CertificateRow :=
        leaf.row opts.certType operatorId tenantId env.now opts.outCert opts.outKey opts.outChain
      if opts.certType = .dashboard then
        match opts.outPkcs12 with
        | none => ⟨w, none, none⟩
        | some archive =>
          match env.mintLeaf opts.certType opts.commonName sans ttlSeconds with
          | .error fault => ⟨w, none, some fault⟩
          | .ok leaf =>
            let w₁ := w.afterWrite (env.place archive) (.pkcs12 leaf.serial) env.writePkcs12
            if env.writePkcs12 ≠ .written then ⟨w₁, none, some .other⟩
            else
              let (w₂, recorded) := w₁.record env (row leaf)
              ⟨w₂, none, if recorded then none else some .other⟩
      else
        match opts.paths with
        | none => ⟨w, none, none⟩
        | some paths =>
          match env.mintLeaf opts.certType opts.commonName sans ttlSeconds with
          | .error fault => ⟨w, none, some fault⟩
          | .ok leaf => w.writeAndRecord env leaf paths (row leaf)

/-- The options `--out-cert`, `--out-key` and `--out-chain` of `certs renew --id`. -/
structure Overrides where
  cert : Option String := none
  key : Option String := none
  chain : Option String := none

/-- Where a renewal writes: what it was told, else what the row has. -/
def CertificateRow.renewalPaths (row : CertificateRow) (given : Overrides) : Option OutPaths := do
  let cert ← given.cert.or row.certPath
  let key ← given.key.or (stored row.outKeyPath)
  let chain ← given.chain.or (stored row.outChainPath)
  some ⟨cert, key, chain⟩

/-- The SANs of a row. -/
def CertificateRow.sanList (row : CertificateRow) : List String :=
  (PyStr.splitOn ',' row.sans).filter (· ≠ "")

/-- The lifetime of a renewed leaf: that of its predecessor, and at least a second. -/
def CertificateRow.ttlSeconds (row : CertificateRow) : ℤ := max 1 (row.notAfter - row.notBefore)

/-- `_renew_row`. -/
def renewRow (env : MintEnv) (w : World) (row : CertificateRow) (given : Overrides) : Minting :=
  match row.renewalPaths given with
  | none => ⟨w, none, some .runtimeError⟩
  | some paths =>
    match env.mintLeaf row.certType row.commonName row.sanList row.ttlSeconds with
    | .error fault => ⟨w, none, some fault⟩
    | .ok leaf =>
      w.writeAndRecord env leaf paths
        (leaf.row row.certType row.operatorId none env.now (some paths.cert) (some paths.key)
          (some paths.chain))

/-- `certs renew --id`. -/
def certsRenewId (env : MintEnv) (w : World) (certId : ℕ) (given : Overrides) (dryRun : Bool) :
    Minting :=
  match w.registry.certificates.get certId with
  | none => ⟨w, none, none⟩
  | some row => if row.revoked || dryRun then ⟨w, none, none⟩ else renewRow env w row given

/-- `newest_by_path[path]` of `_drop_superseded`. -/
def newestByPath (rows : List CertificateRow) (path : String) : ℕ :=
  rows.foldl (fun newest row ↦ if row.certPath = some path then max newest row.id else newest) 0

/-- `_drop_superseded`. -/
def dropSuperseded (rows : List CertificateRow) : List CertificateRow :=
  rows.filter fun row ↦
    match row.certPath with
    | none => true
    | some path => row.id == newestByPath rows path

/-- `_row_is_due`, with the percentage of the code, a float, as an exact rational. -/
def rowIsDue (row : CertificateRow) (thresholdPct : ℚ) (now : Datetime) : Bool :=
  let window := row.notAfter - row.notBefore
  if window ≤ 0 then true
  else thresholdPct ≤ ((now - row.notBefore : ℤ) : ℚ) / ((window : ℤ) : ℚ) * 100

/-- The rows that `certs renew --due` renews. -/
def dueRows (t : CertTable) (thresholdPct : ℚ) (now : Datetime) : List CertificateRow :=
  (dropSuperseded t.live).filter fun row ↦ rowIsDue row thresholdPct now

/-- The loop of `certs renew --due`: the world it leaves, and the paths it has minted leaves for.
A `RuntimeError` skips a row; any other exception ends the command. -/
def renewAll (env : ℕ → MintEnv) : World → List CertificateRow → World × List String
  | w, [] => (w, [])
  | w, row :: rows =>
    let m := renewRow (env row.id) w row {}
    if m.raised = some .other then (m.world, m.minted.toList)
    else
      let (w', minted) := renewAll env m.world rows
      (w', m.minted.toList ++ minted)

/-- `certs renew --due`; what it meets at each row is given by the key of the row. -/
def certsRenewDue (env : ℕ → MintEnv) (w : World) (thresholdPct : ℚ) (now : Datetime)
    (dryRun : Bool) : World × List String :=
  if dryRun then (w, []) else renewAll env w (dueRows w.registry thresholdPct now)

/-- The row that `certs revoke --serial` is about. -/
def CertTable.bySerial (t : CertTable) (serial : ℕ) : Option CertificateRow :=
  t.certificates.rows.find? fun row ↦ row.serial == toString serial

/-- `certs revoke`; `crlUpdated` tells whether the PKI backend takes the serial. -/
def certsRevoke (t : CertTable) (serial : ℕ) (now : Datetime) (crlUpdated : Bool) : CertTable :=
  match t.bySerial serial with
  | none => t
  | some row =>
    if crlUpdated then t.modify row.id (.markRevoked now) (CertificateRow.pk_markRevoked now) else t

/-! ## The handlers -/

/-- `_RequireAdmin`, on the role of the operator that the middleware has put into the request. -/
def requireAdmin : Option OperatorRole → Except HttpError Unit
  | none => .error ⟨401, "operator unknown"⟩
  | some .admin => .ok ()
  | some _ => .error ⟨403, "role not permitted"⟩

/-- `CertificateIssueRequest`. -/
structure CertificateIssueRequest where
  certType : CertificateType
  commonName : String
  sans : Option (List String) := none
  ttlDays : Option ℕ := none
  operatorCn : Option String := none
  tenantSlug : Option String := none

/-- The lifetime of the leaf: zero days count as none given. -/
def CertificateIssueRequest.ttlSeconds (payload : CertificateIssueRequest) : ℤ :=
  match payload.ttlDays with
  | none | some 0 => (certProfile payload.certType).ttlDays * 24 * 60 * 60
  | some days => days * 24 * 60 * 60

/-- What a request to `/certs` takes from its surroundings, next to what it meets when it mints. -/
structure CertContext where
  role : Option OperatorRole
  env : MintEnv
  /-- The PKCS#12 archive of a `dashboard` leaf can be built. -/
  bundles : Bool := true
  /-- The PKI backend takes a serial that is revoked. -/
  crlUpdated : Bool := true
  /-- `repr` of a string. -/
  repr : String → String

/-- `_resolve_operator_fk`. -/
def CertContext.resolveOperatorFk (ctx : CertContext) (dir : Directory)
    (certType : CertificateType) (commonName : String) (operatorCn : Option String) :
    Except HttpError (Option ℕ) :=
  if (certProfile certType).requiresOperator then
    let targetCn := (stored operatorCn).getD commonName
    match dir.operatorId targetCn with
    | some id => .ok (some id)
    | none => .error ⟨422, s!"no operator registered with CN {ctx.repr targetCn} — register " ++
        "the operator first via the Operators page or " ++
        s!"`wg-manager operators add --cn {targetCn}`"⟩
  else .ok none

/-- The tenant of a new leaf. -/
def CertContext.resolveTenant (ctx : CertContext) (dir : Directory) :
    Option String → Except HttpError (Option ℕ)
  | none => .ok none
  | some slug =>
    match dir.tenantId slug with
    | some id => .ok (some id)
    | none => .error ⟨422, s!"no tenant with slug {ctx.repr slug}"⟩

/-- From the minting of a leaf to the commit of its row. -/
def CertContext.mintAndRecord (ctx : CertContext) (t : CertTable) (certType : CertificateType)
    (commonName : String) (sans : List String) (ttlSeconds : ℤ) (row : Leaf → CertificateRow) :
    Except HttpError CertTable :=
  match ctx.env.mintLeaf certType commonName sans ttlSeconds with
  | .error _ => .error internalServerError
  | .ok leaf =>
    if certType = .dashboard && !ctx.bundles || !ctx.env.commits then .error internalServerError
    else
      match t.insert (row leaf) with
      | none => .error internalServerError
      | some t' => .ok t'

/-- `issue_cert`. -/
def issueCert (dir : Directory) (ctx : CertContext) (t : CertTable)
    (payload : CertificateIssueRequest) : Except HttpError CertTable := do
  requireAdmin ctx.role
  if payload.tenantSlug.isSome && (certProfile payload.certType).serverEku then
    .error ⟨422, s!"tenant_slug is not allowed for cert_type {ctx.repr payload.certType.value} " ++
      "— only cli + dashboard certs carry a tenant binding"⟩
  else
    let operatorId ←
      ctx.resolveOperatorFk dir payload.certType payload.commonName payload.operatorCn
    let tenantId ← ctx.resolveTenant dir payload.tenantSlug
    let sans := resolveSans payload.certType payload.commonName payload.sans ++
      (payload.tenantSlug.map tenantSan).toList
    ctx.mintAndRecord t payload.certType payload.commonName sans payload.ttlSeconds fun leaf ↦
      leaf.row payload.certType operatorId tenantId ctx.env.now none none none

/-- `session.get(Certificate, cert_id)`, or 404. -/
def CertTable.getOr404 (t : CertTable) (certId : ℕ) : Except HttpError CertificateRow :=
  WgManager.getOr404 t.certificates certId s!"certificate id={certId} not found"

/-- `renew_cert`.  The new row has the paths of the old one; no file is written. -/
def renewCert (ctx : CertContext) (t : CertTable) (certId : ℕ) : Except HttpError CertTable := do
  requireAdmin ctx.role
  let row ← t.getOr404 certId
  if row.revoked then
    .error ⟨422,
      s!"certificate id={certId} is revoked; renewal is not supported for revoked certs " ++
      "— issue a fresh leaf via POST /certs"⟩
  else
    ctx.mintAndRecord t row.certType row.commonName row.sanList row.ttlSeconds fun leaf ↦
      leaf.row row.certType row.operatorId none ctx.env.now row.outCertPath row.outKeyPath
        row.outChainPath

/-- `revoke_cert`: the table, and the row before and after, unless it was revoked already. -/
def revokeCert (ctx : CertContext) (t : CertTable) (certId : ℕ) :
    Except HttpError (CertTable × Option (CertificateRow × CertificateRow)) := do
  requireAdmin ctx.role
  let row ← t.getOr404 certId
  if row.revoked then .ok (t, none)
  else if ctx.crlUpdated && ctx.env.commits then
    .ok (t.modify row.id (.markRevoked ctx.env.now) (CertificateRow.pk_markRevoked ctx.env.now),
      some (row, row.markRevoked ctx.env.now))
  else .error internalServerError

/-! ## What the handlers leave -/

theorem insert_of_mintAndRecord {ctx : CertContext} {t t' : CertTable} {certType : CertificateType}
    {commonName : String} {sans : List String} {ttlSeconds : ℤ} {row : Leaf → CertificateRow}
    (h : ctx.mintAndRecord t certType commonName sans ttlSeconds row = .ok t') :
    ∃ leaf, t.insert (row leaf) = some t' := by
  rw [CertContext.mintAndRecord] at h
  split at h
  · cases h
  · next leaf _ =>
    split at h
    · cases h
    · split at h
      · cases h
      · next hinsert =>
        cases h
        exact ⟨leaf, hinsert⟩

theorem insert_of_issueCert {dir : Directory} {ctx : CertContext} {t t' : CertTable}
    {payload : CertificateIssueRequest} (h : issueCert dir ctx t payload = .ok t') :
    ∃ leaf operatorId tenantId,
      t.insert (Leaf.row leaf payload.certType operatorId tenantId ctx.env.now none none none) =
        some t' := by
  rw [issueCert, bind_eq_ok_iff] at h
  obtain ⟨_, -, h⟩ := h
  split at h
  · cases h
  · obtain ⟨operatorId, -, h⟩ := bind_eq_ok_iff.mp h
    obtain ⟨tenantId, -, h⟩ := bind_eq_ok_iff.mp h
    obtain ⟨leaf, hinsert⟩ := insert_of_mintAndRecord h
    exact ⟨leaf, operatorId, tenantId, hinsert⟩

/-- `renew_cert` records a row with the paths of the one it renews. -/
theorem insert_of_renewCert {ctx : CertContext} {t t' : CertTable} {certId : ℕ}
    (h : renewCert ctx t certId = .ok t') :
    ∃ row leaf, t.certificates.get certId = some row ∧ row.revoked = false ∧
      t.insert (Leaf.row leaf row.certType row.operatorId none ctx.env.now row.outCertPath
        row.outKeyPath row.outChainPath) = some t' := by
  rw [renewCert, bind_eq_ok_iff] at h
  obtain ⟨_, -, h⟩ := h
  obtain ⟨row, hrow, h⟩ := bind_eq_ok_iff.mp h
  split at h
  · cases h
  · next hlive =>
    obtain ⟨leaf, hinsert⟩ := insert_of_mintAndRecord h
    exact ⟨row, leaf, get_of_getOr404 hrow, by simpa using hlive, hinsert⟩

/-- `revoke_cert` revokes a row that is not revoked, or leaves the registry alone. -/
theorem revokeCert_cases {ctx : CertContext} {t t' : CertTable} {certId : ℕ}
    {change : Option (CertificateRow × CertificateRow)}
    (h : revokeCert ctx t certId = .ok (t', change)) :
    (t' = t ∧ change = none) ∨ ∃ row, t.certificates.get certId = some row ∧ row.revoked = false ∧
      t' = t.modify row.id (.markRevoked ctx.env.now) (CertificateRow.pk_markRevoked ctx.env.now) ∧
      change = some (row, row.markRevoked ctx.env.now) := by
  rw [revokeCert, bind_eq_ok_iff] at h
  obtain ⟨_, -, h⟩ := h
  obtain ⟨row, hrow, h⟩ := bind_eq_ok_iff.mp h
  split at h
  · cases h
    exact .inl ⟨rfl, rfl⟩
  · next hlive =>
    split at h
    · cases h
      exact .inr ⟨row, get_of_getOr404 hrow, by simpa using hlive, rfl, rfl⟩
    · cases h

end WgManager
