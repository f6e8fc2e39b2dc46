import WgManager.Certs
import WgManager.Lib.Interleave

/-!
# What the registry says about the files

`certs renew --due` walks the rows that are not revoked, and of the rows that name one file it
renews only the newest, because "only the newest row per path describes the file actually on disk".
`Described` is that fact, over everything that can be done to the registry and the files (`Action`),
for whoever follows the paths of the rows: to which files they lead is the parameter `place`.

It is not kept by the commands and the requests as they are: `renew_cert` of the router records a
new row for the path of the old one and writes no file (`undescribed_after_api_renewal`), the
revocation of the newest row leaves an older one as the newest that is not revoked, and a path that
is spelled in another way, or followed from another directory, hits the file of another row.
`Careful` says what has to be avoided, and **`newest_row_describes_file`** that nothing else has.
-/

set_option autoImplicit false

namespace WgManager.CertRenewal

/-- A command or a request about certificates. -/
inductive Action
  | issue (dir : Directory) (env : MintEnv) (opts : IssueOptions)
  | renewId (env : MintEnv) (certId : ℕ) (given : Overrides) (dryRun : Bool)
  | renewDue (env : ℕ → MintEnv) (thresholdPct : ℚ) (now : Datetime) (dryRun : Bool)
  | revoke (serial : ℕ) (now : Datetime) (crlUpdated : Bool)
  | apiIssue (dir : Directory) (ctx : CertContext) (payload : CertificateIssueRequest)
  | apiRenew (ctx : CertContext) (certId : ℕ)
  | apiRevoke (ctx : CertContext) (certId : ℕ)

/-- The world after a request that may fail. -/
def answered (w : World) : Except HttpError CertTable → World
  | .error _ => w
  | .ok registry => { w with registry }

/-- What it does. -/
def act (w : World) : Action → World
  | .issue dir env opts => (certsIssue dir env w opts).world
  | .renewId env certId given dryRun => (certsRenewId env w certId given dryRun).world
  | .renewDue env thresholdPct now dryRun => (certsRenewDue env w thresholdPct now dryRun).1
  | .revoke serial now crlUpdated =>
    { w with registry := certsRevoke w.registry serial now crlUpdated }
  | .apiIssue dir ctx payload => answered w (issueCert dir ctx w.registry payload)
  | .apiRenew ctx certId => answered w (renewCert ctx w.registry certId)
  | .apiRevoke ctx certId => answered w ((revokeCert ctx w.registry certId).map Prod.fst)

/-- A step of the system: no command is ever impossible. -/
def step (w : World) (a : Action) : Option World := some (act w a)

/-! ## Rows that are not revoked -/

theorem stored_eq_some {column : Option String} {path : String} :
    stored column = some path ↔ column = some path ∧ path ≠ "" := by
  unfold stored
  split
  · simp
  · next hne =>
    constructor
    · intro h
      refine ⟨h, ?_⟩
      rintro rfl
      exact hne h
    · exact And.left

section

variable {t t' : CertTable} {row r : CertificateRow}

theorem mem_live : r ∈ t.live ↔ r ∈ t.certificates.rows ∧ r.revoked = false := by
  simp [CertTable.live, Table.select]

theorem id_lt_of_live (h : r ∈ t.live) : r.id < t.nextId := t.lt_nextId r (mem_live.mp h).1

theorem mem_of_insert (h : t.insert row = some t') :
    r ∈ t'.certificates.rows ↔ r ∈ t.certificates.rows ∨ r = { row with id := t.nextId } := by
  have hfree : t.certificates.get (Keyed.pk { row with id := t.nextId }) = none := t.get_nextId
  rw [CertTable.certificates_of_insert h, Table.rows_insert hfree, List.mem_append,
    List.mem_singleton]

theorem live_of_insert (hlive : row.revoked = false) (h : t.insert row = some t') :
    r ∈ t'.live ↔ r ∈ t.live ∨ r = { row with id := t.nextId } := by
  rw [mem_live, mem_live, mem_of_insert h]
  constructor
  · rintro ⟨hold | rfl, hr⟩
    · exact .inl ⟨hold, hr⟩
    · exact .inr rfl
  · rintro (⟨hold, hr⟩ | rfl)
    · exact ⟨.inl hold, hr⟩
    · exact ⟨.inr rfl, hlive⟩

theorem live_of_revoke {id : ℕ} {now : Datetime} :
    r ∈ (t.modify id (.markRevoked now) (CertificateRow.pk_markRevoked now)).live ↔
      r ∈ t.live ∧ r.id ≠ id := by
  rw [mem_live, mem_live]
  constructor
  · rintro ⟨hr, hlive⟩
    rcases Table.mem_modify (CertificateRow.pk_markRevoked now) hr with
      ⟨hold, hne⟩ | ⟨r₀, -, -, rfl⟩
    · exact ⟨⟨hold, hlive⟩, hne⟩
    · cases hlive
  · rintro ⟨⟨hr, hlive⟩, hne⟩
    refine ⟨List.mem_map.mpr ⟨r, hr, if_neg hne⟩, hlive⟩

end

/-! ## What a minting does -/

section

variable {w : World} {env : MintEnv} {leaf : Leaf} {paths : OutPaths} {row : CertificateRow}

/-- The writes and the commit of a minting all go through. -/
structure Completes (w : World) (env : MintEnv) (leaf : Leaf) : Prop where
  cert : env.writeCert = .written
  key : env.writeKey = .written
  chain : env.writeChain = .written
  commit : env.commits = true
  serial : ∀ r ∈ w.registry.certificates.rows, r.serial ≠ toString leaf.serial

theorem insert_isSome {t : CertTable} (hrow : row.serial = toString leaf.serial)
    (h : ∀ r ∈ t.certificates.rows, r.serial ≠ toString leaf.serial) : (t.insert row).isSome :=
  CertTable.insert_isSome_iff.mpr (hrow ▸ h)

theorem file_afterWrite (w : World) {file q : String} (content : Content) (write : Write)
    (h : q ≠ file) : (w.afterWrite file content write).file q = w.file q := by
  rcases write with _ | (_ | _) | _
  · exact Function.update_of_ne h _ _
  · rfl
  · exact Function.update_of_ne h _ _
  · exact Function.update_of_ne h _ _

theorem registry_afterWrite (w : World) (file : String) (content : Content) (write : Write) :
    (w.afterWrite file content write).registry = w.registry := by
  rcases write with _ | (_ | _) | _ <;> rfl

theorem record_cases (w : World) (env : MintEnv) (row : CertificateRow) :
    (w.record env row = (w, false) ∧ ¬(env.commits = true ∧ (w.registry.insert row).isSome)) ∨
      ∃ t, w.registry.insert row = some t ∧
        w.record env row = ({ w with registry := t }, true) := by
  rw [World.record]
  split
  · next hcommits =>
    split
    · next hnone => exact .inl ⟨rfl, by simp [hnone]⟩
    · next t hsome => exact .inr ⟨t, hsome, rfl⟩
  · next hcommits => exact .inl ⟨rfl, fun h ↦ hcommits h.1⟩

theorem file_record (w : World) (env : MintEnv) (row : CertificateRow) :
    (w.record env row).1.file = w.file := by
  rcases record_cases w env row with ⟨h, -⟩ | ⟨t, -, h⟩ <;> rw [h]

theorem minted_writeAndRecord :
    (w.writeAndRecord env leaf paths row).minted = some paths.cert := by
  simp only [World.writeAndRecord]
  split
  · rfl
  · split
    · rfl
    · split <;> rfl

theorem writeAndRecord_untouched (h : env.writeCert = .failed false) :
    (w.writeAndRecord env leaf paths row).world = w := by
  rw [World.writeAndRecord, h]
  rfl

/-- The writes of the key and of the chain leave the other files. -/
theorem file_of_first_write {q : String} (hkey : q ≠ env.place paths.key)
    (hchain : q ≠ env.place paths.chain) :
    (w.writeAndRecord env leaf paths row).world.file q =
      (w.afterWrite (env.place paths.cert) (.leaf leaf.serial) env.writeCert).file q := by
  simp only [World.writeAndRecord]
  split
  · rfl
  · split
    · rw [file_afterWrite _ _ _ hkey]
    · split
      · rw [file_afterWrite _ _ _ hchain, file_afterWrite _ _ _ hkey]
      · rw [file_record, file_afterWrite _ _ _ hchain, file_afterWrite _ _ _ hkey]

/-- The files that a minting does not write stay. -/
theorem file_writeAndRecord {q : String} (hcert : q ≠ env.place paths.cert)
    (hkey : q ≠ env.place paths.key) (hchain : q ≠ env.place paths.chain) :
    (w.writeAndRecord env leaf paths row).world.file q = w.file q :=
  (file_of_first_write hkey hchain).trans (file_afterWrite w _ _ hcert)

/-- How the writes and the commit of a minting end. -/
theorem writeAndRecord_ends (w : World) (env : MintEnv) (leaf : Leaf) (paths : OutPaths)
    (row : CertificateRow) :
    ((w.writeAndRecord env leaf paths row).raised = some .other ∧
      (w.writeAndRecord env leaf paths row).world.registry = w.registry ∧
      (env.writeCert ≠ .written ∨ env.writeKey ≠ .written ∨ env.writeChain ≠ .written ∨
        env.commits = false ∨ w.registry.insert row = none)) ∨
    ((w.writeAndRecord env leaf paths row).raised = none ∧
      w.registry.insert row = some (w.writeAndRecord env leaf paths row).world.registry ∧
      (w.writeAndRecord env leaf paths row).minted = some paths.cert ∧
      env.writeCert = .written ∧ env.writeKey = .written ∧ env.writeChain = .written ∧
      env.commits = true) := by
  simp only [World.writeAndRecord]
  split
  · next hcert => exact .inl ⟨rfl, registry_afterWrite .., .inl hcert⟩
  · next hcert =>
    split
    · next hkey =>
      refine .inl ⟨rfl, ?_, .inr (.inl hkey)⟩
      rw [registry_afterWrite, registry_afterWrite]
    · next hkey =>
      split
      · next hchain =>
        refine .inl ⟨rfl, ?_, .inr (.inr (.inl hchain))⟩
        rw [registry_afterWrite, registry_afterWrite, registry_afterWrite]
      · next hchain =>
        set w₃ := ((w.afterWrite (env.place paths.cert) (.leaf leaf.serial)
          env.writeCert).afterWrite (env.place paths.key) (.key leaf.serial)
          env.writeKey).afterWrite (env.place paths.chain) .chain env.writeChain with hw₃
        have hreg : w₃.registry = w.registry := by
          rw [hw₃, registry_afterWrite, registry_afterWrite, registry_afterWrite]
        rw [World.record]
        split
        · next hcommits =>
          cases hinsert : w₃.registry.insert row with
          | none =>
            rw [hreg] at hinsert
            exact .inl ⟨rfl, hreg, .inr (.inr (.inr (.inr hinsert)))⟩
          | some t =>
            rw [hreg] at hinsert
            exact .inr ⟨rfl, hinsert, rfl, not_not.mp hcert, not_not.mp hkey, not_not.mp hchain,
              hcommits⟩
        · next hcommits =>
          exact .inl ⟨rfl, hreg, .inr (.inr (.inr (.inl (by simpa using hcommits))))⟩

/-- **What a minting does to the registry**: it records the row, and then the leaf is in its file
unless the key or the chain went there too; or it does not, and then it was not complete, and did
nothing at all when the first write did not touch the file. -/
theorem writeAndRecord_cases (hrow : row.serial = toString leaf.serial) :
    ((w.writeAndRecord env leaf paths row).world.registry = w.registry ∧ ¬Completes w env leaf ∧
      (env.writeCert = .failed false → (w.writeAndRecord env leaf paths row).world = w)) ∨
    ∃ t, w.registry.insert row = some t ∧
      (w.writeAndRecord env leaf paths row).world.registry = t ∧
      (env.place paths.cert ≠ env.place paths.key →
        env.place paths.cert ≠ env.place paths.chain →
          (w.writeAndRecord env leaf paths row).world.file (env.place paths.cert) =
            some (.leaf leaf.serial)) := by
  rcases writeAndRecord_ends w env leaf paths row with
    ⟨-, hreg, hends⟩ | ⟨-, hinsert, -, hcert, -⟩
  · refine .inl ⟨hreg, fun h ↦ ?_, writeAndRecord_untouched⟩
    rcases hends with hnot | hnot | hnot | hnot | hnone
    · exact hnot h.cert
    · exact hnot h.key
    · exact hnot h.chain
    · rw [h.commit] at hnot
      cases hnot
    · have hsome := insert_isSome hrow h.serial
      rw [hnone] at hsome
      cases hsome
  · refine .inr ⟨_, hinsert, rfl, fun hk hch ↦ ?_⟩
    rw [file_of_first_write hk hch, hcert]
    exact Function.update_self _ _ _

/-- **What `certs issue` does to the world**: nothing; or it writes the archive of a dashboard
certificate, and records the row or not; or it goes on to write three files and to record the
row. -/
inductive IssueEnds (env : MintEnv) (w : World) (opts : IssueOptions) : World → Prop
  | nothing : IssueEnds env w opts w
  | archived (leaf : Leaf) (archive : String) (hdash : opts.certType = .dashboard)
      (harchive : opts.outPkcs12 = some archive) :
      IssueEnds env w opts
        (w.afterWrite (env.place archive) (.pkcs12 leaf.serial) env.writePkcs12)
  | recorded (leaf : Leaf) (archive : String) (operatorId tenantId : Option ℕ) (t : CertTable)
      (hdash : opts.certType = .dashboard) (harchive : opts.outPkcs12 = some archive)
      (hleaf : env.mintLeaf opts.certType opts.commonName
        (resolveSans opts.certType opts.commonName opts.sans ++
          (opts.tenantSlug.map tenantSan).toList)
        (opts.ttlDays.getD (certProfile opts.certType).ttlDays * 24 * 60 * 60) = .ok leaf)
      (hinsert : w.registry.insert (leaf.row opts.certType operatorId tenantId env.now opts.outCert
        opts.outKey opts.outChain) = some t) :
      IssueEnds env w opts
        { w.afterWrite (env.place archive) (.pkcs12 leaf.serial) env.writePkcs12 with
          registry := t }
  | written (leaf : Leaf) (paths : OutPaths) (operatorId tenantId : Option ℕ)
      (hdash : opts.certType ≠ .dashboard) (hpaths : opts.paths = some paths)
      (hleaf : env.mintLeaf opts.certType opts.commonName
        (resolveSans opts.certType opts.commonName opts.sans ++
          (opts.tenantSlug.map tenantSan).toList)
        (opts.ttlDays.getD (certProfile opts.certType).ttlDays * 24 * 60 * 60) = .ok leaf) :
      IssueEnds env w opts (w.writeAndRecord env leaf paths (leaf.row opts.certType operatorId
        tenantId env.now opts.outCert opts.outKey opts.outChain)).world

theorem issueEnds_certsIssue (dir : Directory) (env : MintEnv) (w : World) (opts : IssueOptions) :
    IssueEnds env w opts (certsIssue dir env w opts).world := by
  simp only [certsIssue]
  split
  · exact .nothing
  · split
    · exact .nothing
    · next operatorId tenantId _ =>
      split
      · next hdash =>
        split
        · exact .nothing
        · next archive harchive =>
          split
          · exact .nothing
          · next leaf hleaf =>
            split
            · exact .archived leaf archive hdash harchive
            · rcases record_cases
                (w.afterWrite (env.place archive) (.pkcs12 leaf.serial) env.writePkcs12) env
                (leaf.row opts.certType operatorId tenantId env.now opts.outCert opts.outKey
                  opts.outChain) with ⟨hrec, -⟩ | ⟨t, hinsert, hrec⟩
              · rw [hrec]
                exact .archived leaf archive hdash harchive
              · rw [hrec]
                rw [registry_afterWrite] at hinsert
                exact .recorded leaf archive operatorId tenantId t hdash harchive hleaf hinsert
      · next hdash =>
        split
        · exact .nothing
        · next paths hpaths =>
          split
          · exact .nothing
          · next leaf hleaf =>
            exact .written leaf paths operatorId tenantId hdash hpaths hleaf

end

/-! ## The newest row describes the file -/

section

variable {place : String → String} {w w' : World} {r : CertificateRow} {p : String}

/-- The newest row for a path that is not revoked. -/
structure Newest (t : CertTable) (path : String) (row : CertificateRow) : Prop where
  live : row ∈ t.live
  names : row.certPath = some path
  newest : ∀ r ∈ t.live, r.certPath = some path → r.id ≤ row.id

/-- The leaf of the row is in the file. -/
def HasLeaf (w : World) (file : String) (row : CertificateRow) : Prop :=
  ∃ serial : ℕ, row.serial = toString serial ∧ w.file file = some (.leaf serial)

/-- For each path, the file that it leads to has the leaf of the newest row that is not revoked. -/
def Described (place : String → String) (w : World) : Prop :=
  ∀ path row, Newest w.registry path row → HasLeaf w (place path) row

/-- A row that is not revoked says that its leaf is where the path leads. -/
def Claimed (w : World) (path : String) : Prop :=
  ∃ row ∈ w.registry.live, row.certPath = some path

/-- No such path leads to the file. -/
def Unclaimed (place : String → String) (w : World) (file : String) : Prop :=
  ∀ path, Claimed w path → place path ≠ file

theorem Newest.claimed (h : Newest w.registry p r) : Claimed w p := ⟨r, h.live, h.names⟩

theorem ne_empty_of_claimed (h : Claimed w p) : p ≠ "" := by
  obtain ⟨row, -, hrow⟩ := h
  exact (stored_eq_some.mp hrow).2

theorem described_of_kept (hw : Described place w)
    (hlive : ∀ r, r ∈ w'.registry.live ↔ r ∈ w.registry.live)
    (hfile : ∀ path, Claimed w path → w'.file (place path) = w.file (place path)) :
    Described place w' := by
  intro path row hrow
  have hnewest : Newest w.registry path row :=
    ⟨(hlive row).mp hrow.live, hrow.names, fun r hr ↦ hrow.newest r ((hlive r).mpr hr)⟩
  obtain ⟨serial, hserial, hleaf⟩ := hw path row hnewest
  refine ⟨serial, hserial, ?_⟩
  rw [hfile path hnewest.claimed]
  exact hleaf

/-- A new row, whose leaf is in the file that it names, next to files that stay. -/
theorem described_of_new (new : CertificateRow) (hw : Described place w)
    (hid : ∀ r ∈ w.registry.live, r.id < new.id)
    (hlive : ∀ r, r ∈ w'.registry.live ↔ r ∈ w.registry.live ∨ r = new)
    (hnew : ∀ path, new.certPath = some path → HasLeaf w' (place path) new)
    (hfile : ∀ path, Claimed w path → new.certPath ≠ some path →
      w'.file (place path) = w.file (place path)) :
    Described place w' := by
  intro path row hrow
  rcases (hlive row).mp hrow.live with hold | rfl
  · by_cases hpath : new.certPath = some path
    · -- the new row names the path too, and is newer
      have hle := hrow.newest new ((hlive new).mpr (.inr rfl)) hpath
      exact absurd (hid row hold) (Nat.not_lt.mpr hle)
    · have hnewest : Newest w.registry path row :=
        ⟨hold, hrow.names, fun r hr ↦ hrow.newest r ((hlive r).mpr (.inl hr))⟩
      obtain ⟨serial, hserial, hleaf⟩ := hw path row hnewest
      refine ⟨serial, hserial, ?_⟩
      rw [hfile path hnewest.claimed hpath]
      exact hleaf
  · exact hnew path hrow.names

/-- The revocation of a row that is not the newest of its path, or the only one. -/
def LeavesNewest (t : CertTable) (row : CertificateRow) : Prop :=
  ∀ path, row.certPath = some path →
    (∃ r ∈ t.live, r.certPath = some path ∧ row.id < r.id) ∨
      ∀ r ∈ t.live, r.certPath = some path → r.id = row.id

theorem described_of_revoke (hw : Described place w) (hr : r ∈ w.registry.live)
    (hok : LeavesNewest w.registry r)
    (hlive : ∀ r', r' ∈ w'.registry.live ↔ r' ∈ w.registry.live ∧ r'.id ≠ r.id)
    (hfile : w'.file = w.file) : Described place w' := by
  intro path row hrow
  obtain ⟨hold, hne⟩ := (hlive row).mp hrow.live
  have hnewest : Newest w.registry path row := by
    refine ⟨hold, hrow.names, fun r' hr' hpath ↦ ?_⟩
    by_cases hid : r'.id = r.id
    · -- `r'` is the row that was revoked
      have heq : r' = r := Table.eq_of_pk_eq (mem_live.mp hr').1 (mem_live.mp hr).1 hid
      subst heq
      rcases hok path hpath with ⟨r₂, hr₂, hpath₂, hlt⟩ | honly
      · have hle := hrow.newest r₂ ((hlive r₂).mpr ⟨hr₂, Nat.ne_of_gt hlt⟩) hpath₂
        omega
      · exact absurd (honly row hold hrow.names) hne
    · exact hrow.newest r' ((hlive r').mpr ⟨hr', hid⟩) hpath
  obtain ⟨serial, hserial, hleaf⟩ := hw path row hnewest
  exact ⟨serial, hserial, by rw [hfile]; exact hleaf⟩

end

/-! ### What keeps it so -/

section

variable {place : String → String} {w w' : World} {env : MintEnv} {leaf : Leaf} {paths : OutPaths}
  {row : CertificateRow} {given : Overrides}

/-- The PKI backend hands out the leaf. -/
def Mints (env : MintEnv) (leaf : Leaf) : Prop :=
  ∃ serverEku commonName sans ttlSeconds, env.mint serverEku commonName sans ttlSeconds = .ok leaf

/-- A minting that writes its leaf where its path leads, which no other path of a row does; that
writes its key and its chain to files of their own; and that goes on to its commit when it has begun
to write, unless nobody counts on the file of the leaf. -/
structure MintOk (place : String → String) (w : World) (env : MintEnv) (paths : OutPaths)
    (leaf : Leaf) : Prop where
  cert : env.place paths.cert = place paths.cert
  alone : ∀ path, Claimed w path → place path = place paths.cert → path = paths.cert
  key : env.place paths.cert ≠ env.place paths.key ∧ Unclaimed place w (env.place paths.key)
  chain : env.place paths.cert ≠ env.place paths.chain ∧
    Unclaimed place w (env.place paths.chain)
  whole : Completes w env leaf ∨ env.writeCert = .failed false ∨
    Unclaimed place w (env.place paths.cert)

/-- The same for the renewal of a row. -/
def RenewOk (place : String → String) (env : MintEnv) (w : World) (row : CertificateRow)
    (given : Overrides) : Prop :=
  ∀ paths leaf, row.renewalPaths given = some paths → Mints env leaf →
    MintOk place w env paths leaf

/-- The same for each renewal of a walk, in the world that it finds. -/
def DueOk (place : String → String) (env : ℕ → MintEnv) : World → List CertificateRow → Prop
  | _, [] => True
  | w, row :: rows =>
    RenewOk place (env row.id) w row {} ∧
      DueOk place env (renewRow (env row.id) w row {}).world rows

/-- **What has to be avoided.**  An API renewal of a row that names a file; the revocation of the
newest row of a path when it is not the only one; a `dashboard` leaf with an `--out-cert`; and
writes that end in between, that hit the file of another leaf, or that go elsewhere than the path of
the row leads. -/
def Careful (place : String → String) (w : World) : Action → Prop
  | .issue _ env opts =>
    if opts.certType = .dashboard then
      stored opts.outCert = none ∧
        ∀ archive, opts.outPkcs12 = some archive → Unclaimed place w (env.place archive)
    else ∀ paths leaf, opts.paths = some paths → Mints env leaf → MintOk place w env paths leaf
  | .renewId env certId given _ =>
    ∀ row, w.registry.certificates.get certId = some row → RenewOk place env w row given
  | .renewDue env thresholdPct now dryRun =>
    dryRun = false → DueOk place env w (dueRows w.registry thresholdPct now)
  | .revoke serial _ _ =>
    ∀ row, w.registry.bySerial serial = some row → row.revoked = false →
      LeavesNewest w.registry row
  | .apiIssue .. => True
  | .apiRenew _ certId =>
    ∀ row, w.registry.certificates.get certId = some row → row.revoked = false →
      row.certPath = none
  | .apiRevoke _ certId =>
    ∀ row, w.registry.certificates.get certId = some row → row.revoked = false →
      LeavesNewest w.registry row

theorem described_writeAndRecord (hw : Described place w) (hok : MintOk place w env paths leaf)
    (hlive : row.revoked = false) (hpath : row.certPath = stored (some paths.cert))
    (hserial : row.serial = toString leaf.serial) :
    Described place (w.writeAndRecord env leaf paths row).world := by
  have hother : ∀ path, Claimed w path → place path ≠ env.place paths.cert →
      (w.writeAndRecord env leaf paths row).world.file (place path) = w.file (place path) :=
    fun path hclaimed hcert ↦
      file_writeAndRecord hcert (hok.key.2 path hclaimed) (hok.chain.2 path hclaimed)
  rcases writeAndRecord_cases hserial with ⟨hreg, hnot, huntouched⟩ | ⟨t, hinsert, hreg, hleaf⟩
  · rcases hok.whole with hwhole | hfailed | hcert
    · exact absurd hwhole hnot
    · rw [huntouched hfailed]
      exact hw
    · exact described_of_kept hw (fun r ↦ by rw [hreg]) fun path hclaimed ↦
        hother path hclaimed (hcert path hclaimed)
  · refine described_of_new { row with id := w.registry.nextId } hw
      (fun r hr ↦ id_lt_of_live hr) (fun r ↦ ?_) (fun path hnames ↦ ?_)
      fun path hclaimed hnames ↦ ?_
    · rw [hreg]
      exact live_of_insert hlive hinsert
    · have hcert := (stored_eq_some.mp (hpath.symm.trans hnames)).1
      cases hcert
      exact ⟨leaf.serial, hserial, hok.cert ▸ hleaf hok.key.1 hok.chain.1⟩
    · refine hother path hclaimed fun hplace ↦ hnames ?_
      -- no other path leads to the file
      obtain rfl := hok.alone path hclaimed (hplace.trans hok.cert)
      exact hpath.trans (stored_eq_some.mpr ⟨rfl, ne_empty_of_claimed hclaimed⟩)

theorem described_renewRow (hw : Described place w) (hok : RenewOk place env w row given) :
    Described place (renewRow env w row given).world := by
  rw [renewRow]
  split
  · exact hw
  · next paths hpaths =>
    split
    · exact hw
    · next leaf hleaf =>
      exact described_writeAndRecord hw (hok paths leaf hpaths ⟨_, _, _, _, hleaf⟩) rfl rfl rfl

theorem described_renewAll {env : ℕ → MintEnv} {rows : List CertificateRow}
    (hw : Described place w) (hok : DueOk place env w rows) :
    Described place (renewAll env w rows).1 := by
  induction rows generalizing w with
  | nil => exact hw
  | cons row rows ih =>
    have hrow := described_renewRow hw hok.1
    rw [renewAll]
    split
    · exact hrow
    · exact ih hrow hok.2

theorem outCert_of_paths {opts : IssueOptions} (h : opts.paths = some paths) :
    opts.outCert = some paths.cert := by
  rw [IssueOptions.paths] at h
  split at h
  · next hcert _ _ =>
    cases h
    exact hcert
  · cases h

/-- A row that names no file. -/
theorem described_insert {t : CertTable} (hw : Described place w) (hlive : row.revoked = false)
    (hpath : row.certPath = none) (h : w.registry.insert row = some t) :
    Described place { w with registry := t } := by
  refine described_of_new { row with id := w.registry.nextId } hw
    (fun r hr ↦ id_lt_of_live hr) (fun r ↦ live_of_insert hlive h) (fun path hnames ↦ ?_)
    fun _ _ _ ↦ rfl
  have hnone : some path = none := hnames.symm.trans hpath
  cases hnone

theorem described_archive {archive : String} {content : Content} {write : Write}
    (hw : Described place w) (hun : Unclaimed place w archive) :
    Described place (w.afterWrite archive content write) :=
  described_of_kept hw (fun r ↦ by rw [registry_afterWrite]) fun path hclaimed ↦
    file_afterWrite w _ _ (hun path hclaimed)

theorem described_issue {dir : Directory} {opts : IssueOptions} (hw : Described place w)
    (hok : Careful place w (.issue dir env opts)) :
    Described place (certsIssue dir env w opts).world := by
  rw [Careful] at hok
  have hends := issueEnds_certsIssue dir env w opts
  generalize (certsIssue dir env w opts).world = w' at hends ⊢
  cases hends with
  | nothing => exact hw
  | archived leaf archive hdash harchive =>
    rw [if_pos hdash] at hok
    exact described_archive hw (hok.2 archive harchive)
  | recorded leaf archive operatorId tenantId t hdash harchive _ hinsert =>
    rw [if_pos hdash] at hok
    rw [← registry_afterWrite w (env.place archive) (.pkcs12 leaf.serial) env.writePkcs12]
      at hinsert
    refine described_insert (described_archive hw (hok.2 archive harchive)) rfl ?_ hinsert
    exact hok.1
  | written leaf paths operatorId tenantId hdash hpaths hleaf =>
    rw [if_neg hdash] at hok
    refine described_writeAndRecord hw (hok paths leaf hpaths ⟨_, _, _, _, hleaf⟩) rfl ?_ rfl
    rw [← outCert_of_paths hpaths]
    rfl

theorem described_markRevoked {now : Datetime} (hw : Described place w)
    (hmem : row ∈ w.registry.certificates.rows)
    (hok : row.revoked = false → LeavesNewest w.registry row) :
    Described place
      { w with
        registry :=
          w.registry.modify row.id (.markRevoked now) (CertificateRow.pk_markRevoked now) } := by
  cases hrevoked : row.revoked with
  | false =>
    exact described_of_revoke hw (mem_live.mpr ⟨hmem, hrevoked⟩) (hok hrevoked)
      (fun _ ↦ live_of_revoke) rfl
  | true =>
    -- the row was revoked before, so that nothing changes
    refine described_of_kept hw (fun r ↦ live_of_revoke.trans ⟨And.left, fun hr ↦ ⟨hr, ?_⟩⟩)
      fun _ _ ↦ rfl
    intro hid
    obtain ⟨hr, hlive⟩ := mem_live.mp hr
    rw [Table.eq_of_pk_eq hr hmem hid, hrevoked] at hlive
    cases hlive

theorem described_answer {answer : Except HttpError CertTable} (hw : Described place w)
    (h : ∀ t, answer = .ok t → Described place { w with registry := t }) :
    Described place (answered w answer) := by
  cases answer with
  | error e => exact hw
  | ok t => exact h t rfl

theorem described_step {a : Action} (hw : Described place w) (hok : Careful place w a)
    (h : step w a = some w') : Described place w' := by
  cases h
  cases a with
  | issue dir env opts => exact described_issue hw hok
  | renewId env certId given dryRun =>
    rw [act, certsRenewId]
    split
    · exact hw
    · next row hrow =>
      split
      · exact hw
      · exact described_renewRow hw (hok row hrow)
  | renewDue env thresholdPct now dryRun =>
    rw [act, certsRenewDue]
    split
    · exact hw
    · next hdry => exact described_renewAll hw (hok (by simpa using hdry))
  | revoke serial now crlUpdated =>
    rw [act, certsRevoke]
    split
    · exact hw
    · next row hrow =>
      split
      · have hmem : row ∈ w.registry.certificates.rows := List.mem_of_find?_eq_some hrow
        exact described_markRevoked hw hmem fun hlive ↦ hok row hrow hlive
      · exact hw
  | apiIssue dir ctx payload =>
    refine described_answer hw fun t ht ↦ ?_
    obtain ⟨leaf, operatorId, tenantId, hinsert⟩ := insert_of_issueCert ht
    exact described_insert hw rfl rfl hinsert
  | apiRenew ctx certId =>
    refine described_answer hw fun t ht ↦ ?_
    obtain ⟨row, leaf, hrow, hlive, hinsert⟩ := insert_of_renewCert ht
    have hpath : (Leaf.row leaf row.certType row.operatorId none ctx.env.now row.outCertPath
      row.outKeyPath row.outChainPath).certPath = none := hok row hrow hlive
    exact described_insert hw rfl hpath hinsert
  | apiRevoke ctx certId =>
    refine described_answer hw fun t ht ↦ ?_
    obtain ⟨⟨t', change⟩, hrevoke, rfl⟩ := map_eq_ok_iff.mp ht
    rcases revokeCert_cases hrevoke with ⟨rfl, -⟩ | ⟨row, hrow, hlive, rfl, -⟩
    · exact hw
    · exact described_markRevoked hw (Table.mem_of_get hrow) fun _ ↦ hok row hrow hlive

/-- **The newest row describes the file.**  Along every sequence of commands and requests that are
careful, wherever the paths lead, the file of each path has the leaf of the newest row that is not
revoked. -/
theorem newest_row_describes_file {as : List Action} (hw : Described place w)
    (hok : Run.Meets step (Careful place) w as) (h : Run.run step w as = some w') :
    Described place w' :=
  Run.run_invariant (fun _ _ _ hw hok hstep ↦ described_step hw hok hstep) hw hok h

end

/-! ## The certificate of the API -/

/-- No certificate, and no file. -/
def emptyWorld : World where
  registry := ⟨.empty, 1, by rintro row ⟨⟩⟩
  file := fun _ ↦ none

/-- A PKI backend that hands out one serial, for the lifetime it is asked for. -/
def handsOut (serial : ℕ) (now : Datetime) : MintEnv where
  now := now
  mint := fun _ commonName sans ttlSeconds ↦
    .ok ⟨serial, commonName, sans, now, now + ttlSeconds⟩

/-- `certs issue --type api`, with serial 7. -/
def issueApi : Action :=
  .issue ⟨fun _ ↦ none, fun _ ↦ none⟩ (handsOut 7 0)
    { certType := .api, commonName := "api", outCert := some "/etc/wg/api.pem"
      outKey := some "/etc/wg/api.key", outChain := some "/etc/wg/chain.pem" }

/-- The row of it. -/
def apiRow : CertificateRow where
  id := 1
  serial := "7"
  certType := .api
  commonName := "api"
  sans := "127.0.0.1,localhost"
  notBefore := 0
  notAfter := 2592000
  createdAt := 0
  outCertPath := some "/etc/wg/api.pem"
  outKeyPath := some "/etc/wg/api.key"
  outChainPath := some "/etc/wg/chain.pem"

theorem rows_issueApi : (act emptyWorld issueApi).registry.certificates.rows = [apiRow] := by
  decide +kernel

theorem described_emptyWorld (place : String → String) : Described place emptyWorld := by
  intro path row hrow
  cases (mem_live.mp hrow.live).1

/-- Two leaves that both exist: issued, and renewed in place.  The paths are absolute, and there are
no links. -/
theorem newest_row_describes_file_renewed :
    ∃ w', Run.run step emptyWorld [issueApi, .renewId (handsOut 8 60) 1 {} false] = some w' ∧
      w'.file "/etc/wg/api.pem" = some (.leaf 8) ∧ Described id w' := by
  have hok : Run.Meets step (Careful id) emptyWorld
      [issueApi, .renewId (handsOut 8 60) 1 {} false] := by
    refine ⟨?_, ?_⟩
    · intro paths leaf hpaths hleaf
      cases hpaths
      have hnone : ∀ path, ¬Claimed emptyWorld path := by
        rintro path ⟨row, hrow, -⟩
        cases (mem_live.mp hrow).1
      have hun : ∀ file, Unclaimed id emptyWorld file := fun _ path h ↦ absurd h (hnone path)
      exact ⟨rfl, fun path h ↦ absurd h (hnone path), ⟨by decide, hun _⟩, ⟨by decide, hun _⟩,
        .inr (.inr (hun _))⟩
    · rintro _ ⟨⟩
      refine ⟨fun row hrow paths leaf hpaths hleaf ↦ ?_, fun _ _ ↦ trivial⟩
      have hmem := Table.mem_of_get hrow
      rw [rows_issueApi, List.mem_singleton] at hmem
      subst hmem
      have honly : ∀ path, Claimed (act emptyWorld issueApi) path → path = "/etc/wg/api.pem" := by
        rintro path ⟨row, hrow, hpath⟩
        have hmem := (mem_live.mp hrow).1
        rw [rows_issueApi, List.mem_singleton] at hmem
        subst hmem
        exact (Option.some.inj hpath).symm
      have hun : ∀ file, "/etc/wg/api.pem" ≠ file →
          Unclaimed id (act emptyWorld issueApi) file :=
        fun file hne path h ↦ honly path h ▸ hne
      obtain ⟨_, _, _, _, hmint⟩ := hleaf
      cases hpaths
      cases hmint
      refine ⟨rfl, fun path h _ ↦ honly path h, ⟨by decide, hun _ (by decide)⟩,
        ⟨by decide, hun _ (by decide)⟩, .inl ⟨rfl, rfl, rfl, rfl, ?_⟩⟩
      rw [rows_issueApi]
      exact (by decide : ∀ r ∈ [apiRow], r.serial ≠ toString 8)
  exact ⟨_, rfl, by decide +kernel, newest_row_describes_file (described_emptyWorld id) hok rfl⟩

/-- A renewal over HTTP records serial 8 for the path, and the file still has serial 7. -/
theorem undescribed_after_api_renewal :
    Described id emptyWorld ∧
      ∃ w', Run.run step emptyWorld
          [issueApi, .apiRenew ⟨some .admin, handsOut 8 60, true, true, id⟩ 1] = some w' ∧
        w'.file "/etc/wg/api.pem" = some (.leaf 7) ∧ ¬Described id w' := by
  refine ⟨described_emptyWorld id, _, rfl, by decide +kernel, fun h ↦ ?_⟩
  have hrows : (act (act emptyWorld issueApi)
      (.apiRenew ⟨some .admin, handsOut 8 60, true, true, id⟩ 1)).registry.live =
      [apiRow, { apiRow with
        id := 2, serial := "8", notBefore := 60, notAfter := 2592060, createdAt := 60 }] := by
    decide +kernel
  obtain ⟨serial, hserial, hfile⟩ := h "/etc/wg/api.pem" { apiRow with
    id := 2, serial := "8", notBefore := 60, notAfter := 2592060, createdAt := 60 }
    ⟨by rw [hrows]; decide, by decide, by rw [hrows]; decide⟩
  have hseven : some (Content.leaf serial) = some (Content.leaf 7) :=
    hfile.symm.trans (by decide +kernel)
  cases hseven
  exact absurd hserial (by decide)

end WgManager.CertRenewal
