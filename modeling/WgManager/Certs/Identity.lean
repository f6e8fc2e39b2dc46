import WgManager.Certs.Renewal

/-!
# What a renewal passes on

`POST /certs/{id}/renew` and `wg-manager certs renew` each mint a new leaf from the row of an old
one, "with the same identity" and for the lifetime that the old one had.  A row has the names of its
leaf joined by commas, and the two implementations each list the columns that the new row takes
over.  Neither lists the tenant.

* `Issues` and `Renews` are what puts a leaf and its row into the world, whatever the registry and
  the PKI backend are at that moment; `Renewals` is a chain of renewals through either of the two.
* **`identity_of_renewals_iff`**: a chain ends with the identity it began with exactly when that
  has no tenant, and no name that is empty or has a comma.
* **`window_of_renewals_iff`**: with the backend of development a leaf begins a minute before it is
  asked for, and the next one is asked for the whole window, so that each renewal adds a minute.
-/

set_option autoImplicit false

namespace WgManager.CertIdentity

open CertRenewal

/-! ## Leaves and their rows -/

/-- A leaf, and the row that records it. -/
structure Issued where
  leaf : Leaf
  row : CertificateRow

/-- Whom a certificate is for. -/
structure Identity where
  certType : CertificateType
  commonName : String
  operatorId : Option ℕ
  tenantId : Option ℕ
  sans : List String
  deriving DecidableEq

/-- The names are those in the leaf. -/
def Issued.identity (x : Issued) : Identity where
  certType := x.row.certType
  commonName := x.row.commonName
  operatorId := x.row.operatorId
  tenantId := x.row.tenantId
  sans := x.leaf.sans

/-- How long the leaf is valid, in seconds. -/
def Issued.window (x : Issued) : ℤ := x.leaf.notAfter - x.leaf.notBefore

/-- The leaf that `certs issue` gets from the PKI backend. -/
def issueLeaf (env : MintEnv) (opts : IssueOptions) : Except Fault Leaf :=
  env.mintLeaf opts.certType opts.commonName
    (resolveSans opts.certType opts.commonName opts.sans ++ (opts.tenantSlug.map tenantSan).toList)
    (opts.ttlDays.getD (certProfile opts.certType).ttlDays * 24 * 60 * 60)

/-- The leaf that `issue_cert` gets. -/
def apiIssueLeaf (env : MintEnv) (payload : CertificateIssueRequest) : Except Fault Leaf :=
  env.mintLeaf payload.certType payload.commonName
    (resolveSans payload.certType payload.commonName payload.sans ++
      (payload.tenantSlug.map tenantSan).toList)
    payload.ttlSeconds

/-- The leaf that a renewal gets, in either implementation. -/
def renewLeaf (env : MintEnv) (row : CertificateRow) : Except Fault Leaf :=
  env.mintLeaf row.certType row.commonName row.sanList row.ttlSeconds

/-- The row is the one by which `t'` is ahead of `t`. -/
structure Added (t t' : CertTable) (row : CertificateRow) : Prop where
  mem : row ∈ t'.certificates.rows
  id : row.id = t.nextId

/-- A leaf that is issued by the CLI or by the API and recorded, with a PKI backend of which `P`
holds. -/
inductive Issues (P : MintEnv → Prop) (new : Issued) : Prop
  | cli (dir : Directory) (env : MintEnv) (w : World) (opts : IssueOptions) (backend : P env)
      (leaf : issueLeaf env opts = .ok new.leaf)
      (added : Added w.registry (certsIssue dir env w opts).world.registry new.row)
  | api (dir : Directory) (ctx : CertContext) (t t' : CertTable)
      (payload : CertificateIssueRequest) (backend : P ctx.env)
      (leaf : apiIssueLeaf ctx.env payload = .ok new.leaf)
      (ok : issueCert dir ctx t payload = .ok t') (added : Added t t' new.row)

/-- A renewal of a row that is not revoked, by `renew_cert` or by `_renew_row`. -/
inductive Renews (P : MintEnv → Prop) (old new : Issued) : Prop
  | api (ctx : CertContext) (t t' : CertTable) (backend : P ctx.env) (live : old.row ∈ t.live)
      (leaf : renewLeaf ctx.env old.row = .ok new.leaf)
      (ok : renewCert ctx t old.row.id = .ok t') (added : Added t t' new.row)
  | cli (env : MintEnv) (w : World) (given : Overrides) (backend : P env)
      (live : old.row ∈ w.registry.live) (leaf : renewLeaf env old.row = .ok new.leaf)
      (added : Added w.registry (renewRow env w old.row given).world.registry new.row)

/-- A chain of renewals.  What else happens to the registry in between is left open. -/
inductive Renewals (P : MintEnv → Prop) (first : Issued) : ℕ → Issued → Prop
  | none : Renewals P first 0 first
  | again {n : ℕ} {old new : Issued} (before : Renewals P first n old) (renews : Renews P old new) :
      Renewals P first (n + 1) new

/-- Issued, or renewed from what was issued. -/
def Created (P : MintEnv → Prop) (x : Issued) : Prop :=
  ∃ first n, Issues P first ∧ Renewals P first n x

/-! ## What is recorded of a leaf -/

/-- The row has the data of the leaf. -/
structure Issued.Matches (x : Issued) : Prop where
  commonName : x.row.commonName = x.leaf.commonName
  sans : x.row.sans = ",".intercalate x.leaf.sans
  notBefore : x.row.notBefore = x.leaf.notBefore
  notAfter : x.row.notAfter = x.leaf.notAfter

section

variable {t t' : CertTable} {w : World} {env : MintEnv} {row r : CertificateRow}

theorem not_added : ¬Added t t r := fun h ↦ Nat.lt_irrefl _ (h.id ▸ t.lt_nextId r h.mem)

theorem added_insert (h : t.insert row = some t') :
    Added t t' r ↔ r = { row with id := t.nextId } := by
  constructor
  · rintro ⟨hmem, hid⟩
    rcases (mem_of_insert h).mp hmem with hold | hnew
    · exact absurd hid (Nat.ne_of_lt (t.lt_nextId r hold))
    · exact hnew
  · rintro rfl
    exact ⟨(mem_of_insert h).mpr (.inr rfl), rfl⟩

theorem mintLeaf_of_mintAndRecord {ctx : CertContext} {certType : CertificateType}
    {commonName : String} {sans : List String} {ttlSeconds : ℤ} {new : Leaf → CertificateRow}
    {leaf : Leaf} (hleaf : ctx.env.mintLeaf certType commonName sans ttlSeconds = .ok leaf)
    (h : ctx.mintAndRecord t certType commonName sans ttlSeconds new = .ok t') :
    t.insert (new leaf) = some t' := by
  rw [CertContext.mintAndRecord, hleaf] at h
  dsimp only at h
  split at h
  · cases h
  · split at h
    · cases h
    · next hinsert =>
      cases h
      exact hinsert

/-- `renew_cert` records the leaf it gets, for no tenant. -/
theorem insert_of_renewLeaf {ctx : CertContext} {leaf : Leaf} (hlive : row ∈ t.live)
    (hleaf : renewLeaf ctx.env row = .ok leaf) (h : renewCert ctx t row.id = .ok t') :
    t.insert (leaf.row row.certType row.operatorId none ctx.env.now row.outCertPath row.outKeyPath
      row.outChainPath) = some t' := by
  obtain ⟨hmem, hrevoked⟩ := mem_live.mp hlive
  have hrow : t.certificates.get row.id = some row := Table.mem_rows_iff.mp hmem
  have hget : t.getOr404 row.id = .ok row := by rw [CertTable.getOr404, getOr404, hrow]
  rw [renewCert, bind_eq_ok_iff] at h
  obtain ⟨_, -, h⟩ := h
  obtain ⟨row', hrow', h⟩ := bind_eq_ok_iff.mp h
  cases hget.symm.trans hrow'
  rw [hrevoked] at h
  exact mintLeaf_of_mintAndRecord hleaf h

theorem registry_writeAndRecord {leaf : Leaf} {paths : OutPaths}
    (hrow : row.serial = toString leaf.serial) :
    (w.writeAndRecord env leaf paths row).world.registry = w.registry ∨
      w.registry.insert row = some (w.writeAndRecord env leaf paths row).world.registry := by
  rcases writeAndRecord_cases hrow with ⟨hreg, -⟩ | ⟨t, hinsert, hreg, -⟩
  · exact .inl hreg
  · exact .inr (by rw [hreg]; exact hinsert)

/-- `_renew_row` records the leaf it gets, for no tenant, or nothing. -/
theorem registry_renewRow {given : Overrides} :
    (renewRow env w row given).world.registry = w.registry ∨
      ∃ paths leaf, row.renewalPaths given = some paths ∧ renewLeaf env row = .ok leaf ∧
        w.registry.insert (leaf.row row.certType row.operatorId none env.now (some paths.cert)
          (some paths.key) (some paths.chain)) =
          some (renewRow env w row given).world.registry := by
  rw [renewRow]
  split
  · exact .inl rfl
  · next paths hpaths =>
    split
    · exact .inl rfl
    · next leaf hleaf =>
      exact Or.imp_right (fun hinsert ↦ ⟨paths, leaf, hpaths, hleaf, hinsert⟩)
        (registry_writeAndRecord rfl)

/-- `certs issue` records the leaf it gets, or nothing. -/
theorem registry_certsIssue {dir : Directory} {opts : IssueOptions} :
    (certsIssue dir env w opts).world.registry = w.registry ∨
      ∃ leaf operatorId tenantId, issueLeaf env opts = .ok leaf ∧
        w.registry.insert (Leaf.row leaf opts.certType operatorId tenantId env.now opts.outCert
          opts.outKey opts.outChain) = some (certsIssue dir env w opts).world.registry := by
  have hends := issueEnds_certsIssue dir env w opts
  generalize (certsIssue dir env w opts).world = w' at hends ⊢
  cases hends with
  | nothing => exact .inl rfl
  | archived => exact .inl (registry_afterWrite ..)
  | recorded leaf _ operatorId tenantId _ _ _ hleaf hinsert =>
    exact .inr ⟨leaf, operatorId, tenantId, hleaf, hinsert⟩
  | written leaf _ operatorId tenantId _ _ hleaf =>
    exact Or.imp_right (fun hinsert ↦ ⟨leaf, operatorId, tenantId, hleaf, hinsert⟩)
      (registry_writeAndRecord rfl)

theorem insert_of_apiIssueLeaf {dir : Directory} {ctx : CertContext}
    {payload : CertificateIssueRequest} {leaf : Leaf}
    (hleaf : apiIssueLeaf ctx.env payload = .ok leaf)
    (h : issueCert dir ctx t payload = .ok t') :
    ∃ operatorId tenantId, t.insert (leaf.row payload.certType operatorId tenantId ctx.env.now
      none none none) = some t' := by
  rw [issueCert, bind_eq_ok_iff] at h
  obtain ⟨_, -, h⟩ := h
  split at h
  · cases h
  · obtain ⟨operatorId, -, h⟩ := bind_eq_ok_iff.mp h
    obtain ⟨tenantId, -, h⟩ := bind_eq_ok_iff.mp h
    exact ⟨operatorId, tenantId, mintLeaf_of_mintAndRecord hleaf h⟩

end

section

variable {P : MintEnv → Prop} {x y z : Issued} {n : ℕ}

theorem matches_of_insert {t t' : CertTable} {row : CertificateRow} (h : t.insert row = some t')
    (hadded : Added t t' x.row) (hrow : Issued.Matches ⟨x.leaf, row⟩) : x.Matches := by
  have heq := (added_insert h).mp hadded
  constructor
  · rw [heq, ← hrow.commonName]
  · rw [heq, ← hrow.sans]
  · rw [heq, ← hrow.notBefore]
  · rw [heq, ← hrow.notAfter]

theorem matches_of_issues (h : Issues P x) : x.Matches := by
  cases h with
  | cli dir env w opts backend hleaf hadded =>
    rcases registry_certsIssue (w := w) with hsame | ⟨leaf, _, _, hleaf', hinsert⟩
    · rw [hsame] at hadded
      exact absurd hadded not_added
    · cases hleaf.symm.trans hleaf'
      exact matches_of_insert hinsert hadded ⟨rfl, rfl, rfl, rfl⟩
  | api dir ctx t t' payload backend hleaf hok hadded =>
    obtain ⟨_, _, hinsert⟩ := insert_of_apiIssueLeaf hleaf hok
    exact matches_of_insert hinsert hadded ⟨rfl, rfl, rfl, rfl⟩

/-- **What a renewal does**, in either implementation: a leaf is minted from the old row, and is
recorded for the same operator and for no tenant. -/
structure Step (P : MintEnv → Prop) (old new : Issued) : Prop where
  minted : ∃ env, P env ∧ renewLeaf env old.row = .ok new.leaf
  recorded : new.Matches
  certType : new.row.certType = old.row.certType
  operatorId : new.row.operatorId = old.row.operatorId
  tenantId : new.row.tenantId = none

theorem step_of_insert {t t' : CertTable} {env : MintEnv} {now : Datetime}
    {cert key chain : Option String} (hP : P env) (hleaf : renewLeaf env x.row = .ok y.leaf)
    (h : t.insert (y.leaf.row x.row.certType x.row.operatorId none now cert key chain) = some t')
    (hadded : Added t t' y.row) : Step P x y := by
  have heq := (added_insert h).mp hadded
  refine ⟨⟨env, hP, hleaf⟩, matches_of_insert h hadded ⟨rfl, rfl, rfl, rfl⟩, ?_, ?_, ?_⟩
  · rw [heq, Leaf.row]
  · rw [heq, Leaf.row]
  · rw [heq, Leaf.row]

theorem step_of_renews (h : Renews P x y) : Step P x y := by
  cases h with
  | api ctx t t' hP hlive hleaf hok hadded =>
    exact step_of_insert hP hleaf (insert_of_renewLeaf hlive hleaf hok) hadded
  | cli env w given hP hlive hleaf hadded =>
    rcases registry_renewRow (w := w) with hsame | ⟨paths, leaf, -, hleaf', hinsert⟩
    · rw [hsame] at hadded
      exact absurd hadded not_added
    · cases hleaf.symm.trans hleaf'
      exact step_of_insert hP hleaf hinsert hadded

theorem matches_of_renewals (hx : x.Matches) (h : Renewals P x n y) : y.Matches := by
  cases h with
  | none => exact hx
  | again _ hstep => exact (step_of_renews hstep).recorded

theorem matches_of_created (h : Created P x) : x.Matches := by
  obtain ⟨first, n, hfirst, hchain⟩ := h
  exact matches_of_renewals (matches_of_issues hfirst) hchain

end

/-! ## The identity -/

/-- The PKI backend signs the common name and the names it is given, and reports them back. -/
def SignsAsAsked (env : MintEnv) : Prop :=
  ∀ serverEku commonName sans ttlSeconds leaf,
    env.mint serverEku commonName sans ttlSeconds = .ok leaf →
      leaf.commonName = commonName ∧ leaf.sans = sans

/-- Names that come back out of the column they are joined in. -/
def Joinable (sans : List String) : Prop := ∀ san ∈ sans, san ≠ "" ∧ ',' ∉ san.toList

/-- What every renewal makes of an identity. -/
def Issued.renewedIdentity (x : Issued) : Identity :=
  { x.identity with tenantId := none, sans := x.row.sanList }

section

variable {x y y' : Issued} {n : ℕ}

theorem joinable_sanList (row : CertificateRow) : Joinable row.sanList := by
  intro san hsan
  rw [CertificateRow.sanList, List.mem_filter] at hsan
  exact ⟨by simpa using hsan.2, PyStr.not_mem_of_mem_splitOn hsan.1⟩

/-- The names survive exactly when they can be joined. -/
theorem sanList_eq_iff (hx : x.Matches) : x.row.sanList = x.leaf.sans ↔ Joinable x.leaf.sans := by
  constructor
  · intro h
    exact h ▸ joinable_sanList x.row
  · intro h
    rw [CertificateRow.sanList, hx.sans]
    cases hsans : x.leaf.sans with
    | nil => rfl
    | cons san sans =>
      rw [hsans] at h
      rw [PyStr.splitOn_intercalate rfl (List.cons_ne_nil san sans) fun part hpart ↦
        (h part hpart).2]
      exact List.filter_eq_self.mpr fun part hpart ↦ by simpa using (h part hpart).1

theorem identity_of_step (h : Step SignsAsAsked x y) : y.identity = x.renewedIdentity := by
  obtain ⟨env, hsigns, hleaf⟩ := h.minted
  obtain ⟨hname, hsans⟩ := hsigns _ _ _ _ _ hleaf
  have hcommon : y.row.commonName = x.row.commonName := h.recorded.commonName.trans hname
  simp only [Issued.identity, Issued.renewedIdentity, h.certType, h.operatorId, h.tenantId, hcommon,
    hsans]

/-- What one renewal has kept, the next one keeps. -/
theorem renewedIdentity_of_step (h : Step SignsAsAsked x y) :
    y.renewedIdentity = x.renewedIdentity := by
  have hid := identity_of_step h
  have hleaf : y.leaf.sans = x.row.sanList := congrArg Identity.sans hid
  have hsans : y.row.sanList = x.row.sanList := by
    rw [← hleaf]
    refine (sanList_eq_iff h.recorded).mpr ?_
    rw [hleaf]
    exact joinable_sanList x.row
  rw [Issued.renewedIdentity, hid, hsans]
  rfl

theorem renewedIdentity_of_renewals (h : Renewals SignsAsAsked x n y) :
    y.renewedIdentity = x.renewedIdentity := by
  induction h with
  | none => rfl
  | again _ hstep ih => exact (renewedIdentity_of_step (step_of_renews hstep)).trans ih

theorem identity_of_renewals (h : Renewals SignsAsAsked x (n + 1) y) :
    y.identity = x.renewedIdentity := by
  obtain - | ⟨hbefore, hstep⟩ := h
  exact (identity_of_step (step_of_renews hstep)).trans (renewedIdentity_of_renewals hbefore)

/-- **When renewals keep the identity.**  Take a certificate that the CLI or the API has created,
and renew it any number of times, each time through either of them.  The last row has the type, the
common name, the operator and the tenant of the first, and the last leaf the names of the first,
exactly when the first has no tenant and its names can be joined by commas.  Whatever the
certificate, the two implementations make the same of it. -/
theorem identity_of_renewals_iff (hx : Created SignsAsAsked x)
    (h : Renewals SignsAsAsked x (n + 1) y) :
    (y.identity = x.identity ↔
      x.row.tenantId = none ∧ ∀ san ∈ x.leaf.sans, san ≠ "" ∧ ',' ∉ san.toList) ∧
      ∀ y₁ y₂, Renews SignsAsAsked x y₁ → Renews SignsAsAsked x y₂ →
        y₁.identity = y₂.identity := by
  have hmatches := matches_of_created hx
  constructor
  · rw [identity_of_renewals h]
    constructor
    · intro heq
      exact ⟨(congrArg Identity.tenantId heq).symm,
        (sanList_eq_iff hmatches).mp (congrArg Identity.sans heq)⟩
    · rintro ⟨htenant, hjoin⟩
      simp only [Issued.renewedIdentity, Issued.identity, (sanList_eq_iff hmatches).mpr hjoin,
        htenant]
  · intro y₁ y₂ h₁ h₂
    exact (identity_of_step (step_of_renews h₁)).trans (identity_of_step (step_of_renews h₂)).symm

end

theorem signsAsAsked_handsOut (serial : ℕ) (now : Datetime) :
    SignsAsAsked (handsOut serial now) := by
  rintro _ _ _ _ _ ⟨⟩
  exact ⟨rfl, rfl⟩

/-- A request of an admin. -/
def asAdmin (env : MintEnv) : CertContext := ⟨some .admin, env, true, true, id⟩

/-- The leaf with the serial, for the API. -/
def apiLeaf (serial : ℕ) (now : Datetime) : Leaf :=
  ⟨serial, "api", ["127.0.0.1", "localhost"], now, now + 2592000⟩

/-- The certificate of the API. -/
def apiIssued : Issued := ⟨apiLeaf 7 0, apiRow⟩

/-- What a renewal makes of it. -/
def apiRenewed (id serial : ℕ) (now : Datetime) : Issued where
  leaf := apiLeaf serial now
  row := { apiRow with
    id := id, serial := toString serial, notBefore := now, notAfter := now + 2592000
    createdAt := now }

theorem created_apiIssued : Created SignsAsAsked apiIssued := by
  refine ⟨apiIssued, 0, ?_, .none⟩
  refine .cli ⟨fun _ ↦ none, fun _ ↦ none⟩ (handsOut 7 0) emptyWorld
    { certType := .api, commonName := "api", outCert := some "/etc/wg/api.pem"
      outKey := some "/etc/wg/api.key", outChain := some "/etc/wg/chain.pem" }
    (signsAsAsked_handsOut 7 0) rfl ⟨?_, rfl⟩
  exact rows_issueApi ▸ List.mem_singleton_self apiRow

/-- A request that is granted, and that adds the row. -/
theorem exists_added {t : CertTable} {answer : Except HttpError CertTable} {row : CertificateRow}
    (h : answer.toOption.any fun t' ↦ row ∈ t'.certificates.rows) (hid : row.id = t.nextId) :
    ∃ t', answer = .ok t' ∧ Added t t' row := by
  cases answer with
  | error e => cases h
  | ok t' => exact ⟨t', rfl, ⟨by simpa [Except.toOption] using h, hid⟩⟩

/-- Renewed by the CLI and then by the API, it is still for the same. -/
theorem identity_of_renewals_iff_api :
    ∃ y, Renewals SignsAsAsked apiIssued 2 y ∧ y.identity = apiIssued.identity := by
  let w := act emptyWorld issueApi
  let w' := (renewRow (handsOut 8 60) w apiRow {}).world
  have hmem : apiRow ∈ w.registry.live :=
    mem_live.mpr ⟨rows_issueApi ▸ List.mem_singleton_self apiRow, rfl⟩
  have hfirst : Renews SignsAsAsked apiIssued (apiRenewed 2 8 60) :=
    .cli (handsOut 8 60) w {} (signsAsAsked_handsOut 8 60) hmem rfl
      ⟨by decide +kernel, by decide +kernel⟩
  have hlive : (apiRenewed 2 8 60).row ∈ w'.registry.live := by decide +kernel
  obtain ⟨t, hok, hadded⟩ : ∃ t, renewCert (asAdmin (handsOut 9 120)) w'.registry 2 = .ok t ∧
      Added w'.registry t (apiRenewed 3 9 120).row :=
    exists_added (by decide +kernel) (by decide +kernel)
  have hsecond : Renews SignsAsAsked (apiRenewed 2 8 60) (apiRenewed 3 9 120) :=
    .api (asAdmin (handsOut 9 120)) w'.registry t (signsAsAsked_handsOut 9 120) hlive rfl hok hadded
  have hchain : Renewals SignsAsAsked apiIssued 2 (apiRenewed 3 9 120) :=
    .again (.again .none hfirst) hsecond
  refine ⟨_, hchain, (identity_of_renewals_iff created_apiIssued hchain).1.mpr ⟨rfl, ?_⟩⟩
  decide

/-- The certificate of an operator in a tenant. -/
def tenantIssued : Issued where
  leaf := ⟨7, "ops", ["ops", "tenant:acme"], 0, 31536000⟩
  row :=
    { id := 1, tenantId := some 3, serial := "7", certType := .cli, operatorId := some 5
      commonName := "ops", sans := "ops,tenant:acme", notBefore := 0, notAfter := 31536000
      createdAt := 0 }

/-- What a renewal makes of it. -/
def tenantRenewed : Issued where
  leaf := ⟨8, "ops", ["ops", "tenant:acme"], 60, 31536060⟩
  row :=
    { id := 2, serial := "8", certType := .cli, operatorId := some 5, commonName := "ops"
      sans := "ops,tenant:acme", notBefore := 60, notAfter := 31536060, createdAt := 60 }

/-- The registry that has one row. -/
def registryOf (row : CertificateRow) (hid : row.id = 1) : CertTable where
  certificates := Table.empty.insert row
  nextId := 2
  lt_nextId := by
    intro r hr
    rcases Table.mem_insert hr with hold | rfl
    · cases hold
    · rw [hid]
      exact Nat.one_lt_two

/-- `POST /certs` with a tenant, and `POST /certs/{id}/renew`: the new row has no tenant. -/
theorem renewal_loses_tenant :
    ¬∀ x y, Created SignsAsAsked x → Renews SignsAsAsked x y → y.identity = x.identity := by
  intro hkeeps
  obtain ⟨t, hok, hadded⟩ : ∃ t, issueCert ⟨fun _ ↦ some 5, fun _ ↦ some 3⟩
      (asAdmin (handsOut 7 0)) emptyWorld.registry
      { certType := .cli, commonName := "ops", tenantSlug := some "acme" } = .ok t ∧
      Added emptyWorld.registry t tenantIssued.row :=
    exists_added (by decide +kernel) rfl
  have hcreated : Created SignsAsAsked tenantIssued :=
    ⟨tenantIssued, 0, .api _ _ _ t _ (signsAsAsked_handsOut 7 0) rfl hok hadded, .none⟩
  let t₁ := registryOf tenantIssued.row rfl
  obtain ⟨t', hok', hadded'⟩ : ∃ t', renewCert (asAdmin (handsOut 8 60)) t₁ 1 = .ok t' ∧
      Added t₁ t' tenantRenewed.row :=
    exists_added (by decide +kernel) rfl
  have hrenews : Renews SignsAsAsked tenantIssued tenantRenewed :=
    .api _ t₁ t' (signsAsAsked_handsOut 8 60) (by decide +kernel) rfl hok' hadded'
  exact absurd (hkeeps _ _ hcreated hrenews) (by decide)

/-! ## The validity -/

/-- `LocalDevPKI._issue` at the time `now`.  `signs` is what the certificate builder says to the
leaf: it refuses some names and some dates. -/
def LocalDevPKI.issue (now : Datetime) (serial : ℕ) (signs : Bool → Leaf → Except Fault Unit)
    (serverEku : Bool) (commonName : String) (sans : List String) (ttlSeconds : ℤ) :
    Except Fault Leaf :=
  let leaf : Leaf := ⟨serial, commonName, sans, now - 60, now + ttlSeconds⟩
  (signs serverEku leaf).map fun _ ↦ leaf

/-- The PKI backend is `LocalDevPKI`. -/
def IsLocalDev (env : MintEnv) : Prop :=
  ∃ now serial signs, env.mint = LocalDevPKI.issue now serial signs

section

variable {x y : Issued} {n : ℕ}

theorem window_of_issue {now : Datetime} {serial : ℕ} {signs : Bool → Leaf → Except Fault Unit}
    {serverEku : Bool} {commonName : String} {sans : List String} {ttlSeconds : ℤ} {leaf : Leaf}
    (h : LocalDevPKI.issue now serial signs serverEku commonName sans ttlSeconds = .ok leaf) :
    leaf.notAfter - leaf.notBefore = ttlSeconds + 60 := by
  obtain ⟨_, -, rfl⟩ := map_eq_ok_iff.mp h
  have harith (a b : ℤ) : a + b - (a - 60) = b + 60 := by omega
  exact harith now ttlSeconds

/-- A renewal adds a minute to the window it finds. -/
theorem window_of_step (hx : x.Matches) (h : Step IsLocalDev x y) :
    y.window = max 1 x.window + 60 := by
  obtain ⟨env, ⟨now, serial, signs, hmint⟩, hleaf⟩ := h.minted
  rw [renewLeaf, MintEnv.mintLeaf, hmint] at hleaf
  rw [Issued.window, window_of_issue hleaf, CertificateRow.ttlSeconds, hx.notAfter, hx.notBefore,
    Issued.window]

theorem window_of_renewals (hx : x.Matches) (h : Renewals IsLocalDev x n y) :
    x.window + 60 * n ≤ y.window ∧ (1 ≤ x.window → y.window = x.window + 60 * n) := by
  induction h with
  | none => simp
  | again hbefore hstep ih =>
    have hlast := window_of_step (matches_of_renewals hx hbefore) (step_of_renews hstep)
    push_cast
    omega

/-- **Renewals and the lifetime.**  Take a leaf that `LocalDevPKI` has issued, and renew it `n`
times, each time through either implementation.  The last leaf is valid for as long as the first
exactly when it is the first; from a second on, each renewal adds a minute. -/
theorem window_of_renewals_iff (hx : Created IsLocalDev x) (h : Renewals IsLocalDev x n y) :
    (y.window = x.window ↔ n = 0) ∧ (1 ≤ x.window → y.window = x.window + 60 * n) := by
  obtain ⟨hle, heq⟩ := window_of_renewals (matches_of_created hx) h
  refine ⟨⟨fun hsame ↦ by omega, ?_⟩, heq⟩
  rintro rfl
  obtain - | _ := h
  rfl

/-- `LocalDevPKI`, when it signs. -/
def localDev (serial : ℕ) (now : Datetime) : MintEnv where
  now := now
  mint := LocalDevPKI.issue now serial fun _ _ ↦ .ok ()

theorem isLocalDev_localDev (serial : ℕ) (now : Datetime) : IsLocalDev (localDev serial now) :=
  ⟨now, serial, fun _ _ ↦ .ok (), rfl⟩

/-- A certificate of the API that lasts thirty days, issued by `POST /certs`. -/
def devIssued : Issued where
  leaf := ⟨7, "api", ["127.0.0.1", "localhost"], 0, 2592060⟩
  row :=
    { id := 1, serial := "7", certType := .api, commonName := "api"
      sans := "127.0.0.1,localhost", notBefore := 0, notAfter := 2592060, createdAt := 60 }

/-- The certificate that follows it. -/
def devRenewed : Issued where
  leaf := ⟨8, "api", ["127.0.0.1", "localhost"], 540, 2592660⟩
  row :=
    { id := 2, serial := "8", certType := .api, commonName := "api"
      sans := "127.0.0.1,localhost", notBefore := 540, notAfter := 2592660, createdAt := 600 }

theorem created_devIssued : Created IsLocalDev devIssued := by
  obtain ⟨t, hok, hadded⟩ : ∃ t, issueCert ⟨fun _ ↦ none, fun _ ↦ none⟩
      (asAdmin (localDev 7 60)) emptyWorld.registry { certType := .api, commonName := "api" } =
        .ok t ∧ Added emptyWorld.registry t devIssued.row :=
    exists_added (by decide +kernel) rfl
  exact ⟨devIssued, 0, .api _ _ _ t _ (isLocalDev_localDev 7 60) rfl hok hadded, .none⟩

theorem renews_devIssued : Renews IsLocalDev devIssued devRenewed := by
  let t := registryOf devIssued.row rfl
  obtain ⟨t', hok, hadded⟩ : ∃ t', renewCert (asAdmin (localDev 8 600)) t 1 = .ok t' ∧
      Added t t' devRenewed.row :=
    exists_added (by decide +kernel) rfl
  exact .api _ t t' (isLocalDev_localDev 8 600) (by decide +kernel) rfl hok hadded

theorem window_of_renewals_iff_thirty_days :
    Renewals IsLocalDev devIssued 1 devRenewed ∧ devIssued.window = 2592060 ∧
      devRenewed.window = devIssued.window + 60 := by
  have hchain : Renewals IsLocalDev devIssued 1 devRenewed := .again .none renews_devIssued
  exact ⟨hchain, by decide, (window_of_renewals_iff created_devIssued hchain).2 (by decide)⟩

/-- Thirty days and a minute become thirty days and two minutes. -/
theorem renewal_adds_a_minute :
    ¬∀ x y n, Created IsLocalDev x → Renewals IsLocalDev x n y → y.window = x.window := by
  intro hkeeps
  have hsame := hkeeps _ _ 1 created_devIssued (.again .none renews_devIssued)
  exact absurd hsame (by decide)

end

end WgManager.CertIdentity
