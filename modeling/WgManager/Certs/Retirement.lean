import WgManager.Certs.Renewal

/-!
# The path of a revoked certificate

When the certificate in a file is revoked, `certs renew --due` is not to mint another one for it:
"that would mint a fresh leaf for an identity the operator already decommissioned".  The walk of the
command looks at the rows that are not revoked, and of these it takes the newest for each path.  The
rows that a renewal has left behind are among them, so that an older row of the path comes back when
the newer ones are revoked.

* `NeverRenewed` is what is to hold from the revocation on, over everything that may be done later.
* `Dead` is the condition: no row that could be renewed in place is left.
* **`revoked_path_is_never_renewed_iff`** says that the one holds exactly when the other does.

`renewed_after_revocation` is an issue, a renewal, a revocation and a walk that mints again.
-/

set_option autoImplicit false

namespace WgManager.CertRenewal

/-! ## A path that is dead -/

section

variable {w w' : World} {path : String} {row : CertificateRow}

/-- The newest row of a path, revoked or not, is revoked. -/
def Retired (w : World) (path : String) : Prop :=
  ∃ row ∈ w.registry.certificates.rows, row.certPath = some path ∧ row.revoked = true ∧
    ∀ r ∈ w.registry.certificates.rows, r.certPath = some path → r.id ≤ row.id

/-- A `certs issue` or a `certs renew --id` that names the path. -/
def Names (path : String) (w : World) : Action → Prop
  | .issue _ _ opts => stored opts.outCert = some path
  | .renewId _ certId given _ =>
    ∃ row, w.registry.certificates.get certId = some row ∧ given.cert.or row.certPath = some path
  | _ => False

/-- Whatever is done from now on without naming the path again, no walk of `certs renew --due`, at
any time and with any threshold, mints a leaf for it. -/
def NeverRenewed (w : World) (path : String) : Prop :=
  ∀ as w', Run.Meets step (fun w a ↦ ¬Names path w a) w as → Run.run step w as = some w' →
    ∀ env thresholdPct now dryRun, path ∉ (certsRenewDue env w' thresholdPct now dryRun).2

/-- No row of the path that is not revoked could be renewed in place: each lacks the path of its key
or of its chain. -/
def Dead (w : World) (path : String) : Prop :=
  ∀ row ∈ w.registry.live, row.certPath = some path → row.renewalPaths {} = none

theorem cert_of_renewalPaths {given : Overrides} {paths : OutPaths}
    (h : row.renewalPaths given = some paths) : given.cert.or row.certPath = some paths.cert := by
  simp only [CertificateRow.renewalPaths, Option.bind_eq_bind, Option.bind_eq_some_iff] at h
  obtain ⟨cert, hcert, key, -, chain, -, hpaths⟩ := h
  cases hpaths
  exact hcert

theorem dead_of_live (hw : Dead w path) (h : ∀ r ∈ w'.registry.live, r.certPath = some path →
    r ∈ w.registry.live ∨ r.renewalPaths {} = none) : Dead w' path := by
  intro r hr hpath
  rcases h r hr hpath with hold | hnone
  · exact hw r hold hpath
  · exact hnone

/-- A new row of another path, or one that cannot be renewed in place. -/
theorem dead_of_insert {t : CertTable} (hw : Dead w path) (hlive : row.revoked = false)
    (hrow : row.certPath = some path → row.renewalPaths {} = none)
    (h : w.registry.insert row = some t) (hreg : w'.registry = t) : Dead w' path := by
  refine dead_of_live hw fun r hr hpath ↦ ?_
  rw [hreg] at hr
  rcases (live_of_insert hlive h).mp hr with hold | rfl
  · exact .inl hold
  · exact .inr (hrow hpath)

theorem dead_writeAndRecord {env : MintEnv} {leaf : Leaf} {paths : OutPaths} (hw : Dead w path)
    (hlive : row.revoked = false) (hserial : row.serial = toString leaf.serial)
    (hpath : row.certPath ≠ some path) : Dead (w.writeAndRecord env leaf paths row).world path := by
  rcases writeAndRecord_cases hserial with ⟨hreg, -, -⟩ | ⟨t, hinsert, hreg, -⟩
  · refine dead_of_live hw fun r hr _ ↦ .inl ?_
    rwa [hreg] at hr
  · exact dead_of_insert hw hlive (fun h ↦ absurd h hpath) hinsert hreg

theorem dead_renewRow {env : MintEnv} {given : Overrides} (hw : Dead w path)
    (hrow : ∀ paths, row.renewalPaths given = some paths → paths.cert ≠ path) :
    Dead (renewRow env w row given).world path := by
  rw [renewRow]
  split
  · exact hw
  · next paths hpaths =>
    split
    · exact hw
    · refine dead_writeAndRecord hw rfl rfl fun hcert ↦ hrow paths hpaths ?_
      exact Option.some.inj (stored_eq_some.mp hcert).1

/-- A row that the walk looks at, and a path that is dead. -/
theorem Dead.ne_of_renewalPaths (hw : Dead w path) (hrow : row ∈ w.registry.live)
    {paths : OutPaths} (h : row.renewalPaths {} = some paths) : paths.cert ≠ path := by
  rintro rfl
  have hnone := hw row hrow (cert_of_renewalPaths h)
  rw [h] at hnone
  cases hnone

theorem mem_of_dueRows {t : CertTable} {thresholdPct : ℚ} {now : Datetime}
    (h : row ∈ dueRows t thresholdPct now) : row ∈ t.live :=
  (List.mem_filter.mp (List.mem_filter.mp h).1).1

theorem dead_renewAll {env : ℕ → MintEnv} {rows : List CertificateRow} (hw : Dead w path)
    (hrows : ∀ row ∈ rows, ∀ paths, row.renewalPaths {} = some paths → paths.cert ≠ path) :
    Dead (renewAll env w rows).1 path := by
  induction rows generalizing w with
  | nil => exact hw
  | cons row rows ih =>
    have hrow : Dead (renewRow (env row.id) w row {}).world path :=
      dead_renewRow hw (hrows row List.mem_cons_self)
    rw [renewAll]
    split
    · exact hrow
    · exact ih hrow fun r hr ↦ hrows r (List.mem_cons_of_mem _ hr)

theorem minted_renewRow {env : MintEnv} {given : Overrides}
    (h : (renewRow env w row given).minted = some path) :
    ∃ paths, row.renewalPaths given = some paths ∧ paths.cert = path := by
  rw [renewRow] at h
  split at h
  · cases h
  · next paths hpaths =>
    split at h
    · cases h
    · exact ⟨paths, hpaths, Option.some.inj (minted_writeAndRecord.symm.trans h)⟩

/-- A walk mints for the paths of the rows that it looks at. -/
theorem minted_renewAll {env : ℕ → MintEnv} {rows : List CertificateRow}
    (h : path ∈ (renewAll env w rows).2) :
    ∃ row ∈ rows, ∃ paths, row.renewalPaths {} = some paths ∧ paths.cert = path := by
  induction rows generalizing w with
  | nil => cases h
  | cons row rows ih =>
    have hhead (hm : path ∈ (renewRow (env row.id) w row {}).minted.toList) :
        ∃ r ∈ row :: rows, ∃ paths, r.renewalPaths {} = some paths ∧ paths.cert = path :=
      ⟨row, List.mem_cons_self, minted_renewRow (Option.mem_toList.mp hm)⟩
    rw [renewAll] at h
    split at h
    · exact hhead h
    · rcases List.mem_append.mp h with hm | hm
      · exact hhead hm
      · obtain ⟨r, hr, hpaths⟩ := ih hm
        exact ⟨r, List.mem_cons_of_mem _ hr, hpaths⟩

theorem dead_issue {dir : Directory} {env : MintEnv} {opts : IssueOptions} (hw : Dead w path)
    (hok : stored opts.outCert ≠ some path) : Dead (certsIssue dir env w opts).world path := by
  have hends := issueEnds_certsIssue dir env w opts
  generalize (certsIssue dir env w opts).world = w' at hends ⊢
  cases hends with
  | nothing => exact hw
  | archived =>
    rw [Dead, registry_afterWrite]
    exact hw
  | recorded _ _ _ _ _ _ _ _ hinsert =>
    refine dead_of_insert hw rfl (fun hcert ↦ ?_) hinsert rfl
    exact absurd hcert hok
  | written => exact dead_writeAndRecord hw rfl rfl hok

theorem dead_markRevoked {id : ℕ} {now : Datetime} (hw : Dead w path) :
    Dead { w with registry :=
      w.registry.modify id (.markRevoked now) (CertificateRow.pk_markRevoked now) } path :=
  dead_of_live hw fun _ hr _ ↦ .inl (live_of_revoke.mp hr).1

theorem dead_answered {answer : Except HttpError CertTable} (hw : Dead w path)
    (h : ∀ t, answer = .ok t → Dead { w with registry := t } path) :
    Dead (answered w answer) path := by
  cases answer with
  | error e => exact hw
  | ok t => exact h t rfl

/-- A path that is dead stays dead while it is not named. -/
theorem dead_step {a : Action} (hw : Dead w path) (hok : ¬Names path w a)
    (h : step w a = some w') : Dead w' path := by
  cases h
  cases a with
  | issue dir env opts => exact dead_issue hw hok
  | renewId env certId given dryRun =>
    rw [act, certsRenewId]
    split
    · exact hw
    · next row hrow =>
      split
      · exact hw
      · refine dead_renewRow hw fun paths hpaths hcert ↦ hok ⟨row, hrow, ?_⟩
        rw [cert_of_renewalPaths hpaths, hcert]
  | renewDue env thresholdPct now dryRun =>
    rw [act, certsRenewDue]
    split
    · exact hw
    · exact dead_renewAll hw fun row hrow _ ↦ hw.ne_of_renewalPaths (mem_of_dueRows hrow)
  | revoke serial now crlUpdated =>
    rw [act, certsRevoke]
    split
    · exact hw
    · split
      · exact dead_markRevoked hw
      · exact hw
  | apiIssue dir ctx payload =>
    refine dead_answered hw fun t ht ↦ ?_
    obtain ⟨leaf, operatorId, tenantId, hinsert⟩ := insert_of_issueCert ht
    refine dead_of_insert hw rfl (fun hpath ↦ ?_) hinsert rfl
    cases hpath
  | apiRenew ctx certId =>
    refine dead_answered hw fun t ht ↦ ?_
    obtain ⟨row, leaf, hrow, hlive, hinsert⟩ := insert_of_renewCert ht
    refine dead_of_insert hw rfl (fun hpath ↦ ?_) hinsert rfl
    -- the new row has the three paths of the old one
    exact hw row (mem_live.mpr ⟨Table.mem_of_get hrow, hlive⟩) hpath
  | apiRevoke ctx certId =>
    refine dead_answered hw fun t ht ↦ ?_
    obtain ⟨⟨t', change⟩, hrevoke, rfl⟩ := map_eq_ok_iff.mp ht
    rcases revokeCert_cases hrevoke with ⟨rfl, -⟩ | ⟨row, -, -, rfl, -⟩
    · exact hw
    · exact dead_markRevoked hw

theorem neverRenewed_of_dead (hw : Dead w path) : NeverRenewed w path := by
  intro as w' hok h env thresholdPct now dryRun hminted
  have hw' : Dead w' path :=
    Run.run_invariant (fun _ _ _ hw hok hstep ↦ dead_step hw hok hstep) hw hok h
  rw [certsRenewDue] at hminted
  split at hminted
  · cases hminted
  · obtain ⟨row, hrow, paths, hpaths, hcert⟩ := minted_renewAll hminted
    exact hw'.ne_of_renewalPaths (mem_of_dueRows hrow) hpaths hcert

end

/-! ### A path that can be renewed again

Revoke every newer row of the path, and let the walk run at a moment at which the row is due. -/

section

variable {w w' : World} {path : String} {row : CertificateRow}

/-- A request by an admin, for revocations. -/
def adminContext : CertContext where
  role := some .admin
  env := { now := 0, mint := fun _ _ _ _ ↦ .error .runtimeError }
  repr := id

theorem live_apiRevoke {id : ℕ} {r : CertificateRow} :
    r ∈ (act w (.apiRevoke adminContext id)).registry.live ↔ r ∈ w.registry.live ∧ r.id ≠ id := by
  cases hget : w.registry.certificates.get id with
  | none =>
    have hact : act w (.apiRevoke adminContext id) = w := by
      simp [act, revokeCert, CertTable.getOr404, getOr404, hget, requireAdmin, adminContext,
        Except.map, answered, bind, Except.bind]
    rw [hact]
    refine ⟨fun hr ↦ ⟨hr, ?_⟩, And.left⟩
    exact Table.get_eq_none_iff.mp hget r (mem_live.mp hr).1
  | some row =>
    have hid : row.id = id := Table.pk_of_get hget
    cases hrevoked : row.revoked with
    | true =>
      have hact : act w (.apiRevoke adminContext id) = w := by
        simp [act, revokeCert, CertTable.getOr404, getOr404, hget, requireAdmin, adminContext,
          hrevoked, Except.map, answered, bind, Except.bind]
      rw [hact]
      refine ⟨fun hr ↦ ⟨hr, fun hrid ↦ ?_⟩, And.left⟩
      have heq : r = row :=
        Table.eq_of_pk_eq (mem_live.mp hr).1 (Table.mem_of_get hget) (hrid.trans hid.symm)
      rw [heq] at hr
      rw [(mem_live.mp hr).2] at hrevoked
      cases hrevoked
    | false =>
      have hact : (act w (.apiRevoke adminContext id)).registry =
          w.registry.modify row.id (.markRevoked 0) (CertificateRow.pk_markRevoked 0) := by
        simp [act, revokeCert, CertTable.getOr404, getOr404, hget, requireAdmin, adminContext,
          hrevoked, Except.map, answered, bind, Except.bind]
      rw [hact, live_of_revoke, hid]

/-- Any rows can be revoked, one after the other. -/
theorem exists_revoked (w : World) (path : String) (ids : List ℕ) :
    ∃ as w', Run.Meets step (fun w a ↦ ¬Names path w a) w as ∧ Run.run step w as = some w' ∧
      ∀ r, r ∈ w'.registry.live ↔ r ∈ w.registry.live ∧ r.id ∉ ids := by
  induction ids generalizing w with
  | nil => exact ⟨[], w, trivial, rfl, fun r ↦ by simp⟩
  | cons id ids ih =>
    obtain ⟨as, w', hok, hrun, hlive⟩ := ih (act w (.apiRevoke adminContext id))
    refine ⟨.apiRevoke adminContext id :: as, w', ⟨fun h ↦ h, ?_⟩, ?_, fun r ↦ ?_⟩
    · rintro _ ⟨⟩
      exact hok
    · exact (Run.run_cons_eq_some step).mpr ⟨_, rfl, hrun⟩
    · rw [hlive, live_apiRevoke, List.mem_cons, not_or, and_assoc]

/-- A step of the loop of `_drop_superseded`, for one path. -/
def newer (path : String) (newest : ℕ) (row : CertificateRow) : ℕ :=
  if row.certPath = some path then max newest row.id else newest

theorem le_newer (n : ℕ) : n ≤ newer path n row := by
  rw [newer]
  split <;> omega

theorem le_foldl_newer (rows : List CertificateRow) (n : ℕ) : n ≤ rows.foldl (newer path) n := by
  induction rows generalizing n with
  | nil => exact le_rfl
  | cons row rows ih => exact (le_newer n).trans (ih _)

theorem id_le_foldl_newer {rows : List CertificateRow} (hrow : row ∈ rows)
    (hpath : row.certPath = some path) (n : ℕ) : row.id ≤ rows.foldl (newer path) n := by
  induction rows generalizing n with
  | nil => cases hrow
  | cons r rows ih =>
    rcases List.mem_cons.mp hrow with rfl | hrow
    · refine le_trans ?_ (le_foldl_newer rows _)
      rw [newer, if_pos hpath]
      omega
    · exact ih hrow _

theorem foldl_newer_le {rows : List CertificateRow} {m : ℕ}
    (h : ∀ r ∈ rows, r.certPath = some path → r.id ≤ m) {n : ℕ} (hn : n ≤ m) :
    rows.foldl (newer path) n ≤ m := by
  induction rows generalizing n with
  | nil => exact hn
  | cons r rows ih =>
    refine ih (fun r' hr' ↦ h r' (List.mem_cons_of_mem _ hr')) ?_
    rw [newer]
    split
    · next hpath =>
      have hle := h r List.mem_cons_self hpath
      omega
    · exact hn

/-- The newest row of a path is not dropped. -/
theorem mem_dropSuperseded {t : CertTable} (h : Newest t path row) :
    row ∈ dropSuperseded t.live := by
  refine List.mem_filter.mpr ⟨h.live, ?_⟩
  rw [h.names]
  refine beq_iff_eq.mpr (le_antisymm ?_ ?_)
  · exact id_le_foldl_newer h.live h.names 0
  · exact foldl_newer_le h.newest (Nat.zero_le _)

theorem rowIsDue_at_notBefore (row : CertificateRow) : rowIsDue row 0 row.notBefore = true := by
  rw [rowIsDue]
  split
  · rfl
  · simp

/-- The PKI backend serves one row, and fails on all others. -/
def onlyFor (id : ℕ) (certId : ℕ) : MintEnv where
  now := 0
  mint := fun _ _ _ _ ↦ if certId = id then .ok ⟨0, "", [], 0, 0⟩ else .error .runtimeError

theorem minted_onlyFor {paths : OutPaths} (h : row.renewalPaths {} = some paths) :
    (renewRow (onlyFor row.id row.id) w row {}).minted = some paths.cert := by
  rw [renewRow, h]
  simp [onlyFor, MintEnv.mintLeaf, World.writeAndRecord]

theorem skipped_onlyFor {id : ℕ} (h : row.id ≠ id) :
    (renewRow (onlyFor id row.id) w row {}).raised ≠ some .other := by
  rw [renewRow]
  split
  · simp
  · simp [onlyFor, MintEnv.mintLeaf, h]

theorem mem_minted_renewAll {rows : List CertificateRow} {paths : OutPaths} (hrow : row ∈ rows)
    (hpaths : row.renewalPaths {} = some paths) (hid : ∀ r ∈ rows, r.id = row.id → r = row) :
    paths.cert ∈ (renewAll (onlyFor row.id) w rows).2 := by
  induction rows generalizing w with
  | nil => cases hrow
  | cons r rows ih =>
    rw [renewAll]
    by_cases hr : r.id = row.id
    · have heq := hid r List.mem_cons_self hr
      subst heq
      have hminted : paths.cert ∈ (renewRow (onlyFor r.id r.id) w r {}).minted.toList := by
        rw [minted_onlyFor hpaths]
        exact List.mem_singleton_self _
      split
      · exact hminted
      · exact List.mem_append_left _ hminted
    · rw [if_neg (skipped_onlyFor hr)]
      have hrow' : row ∈ rows := by
        rcases List.mem_cons.mp hrow with rfl | hrow
        · exact absurd rfl hr
        · exact hrow
      exact List.mem_append_right _ (ih hrow' fun r' hr' ↦ hid r' (List.mem_cons_of_mem _ hr'))

theorem dead_of_neverRenewed (h : NeverRenewed w path) : Dead w path := by
  intro row hrow hpath
  by_contra hsome
  obtain ⟨paths, hpaths⟩ := Option.ne_none_iff_exists'.mp hsome
  have hcert : paths.cert = path :=
    Option.some.inj ((cert_of_renewalPaths hpaths).symm.trans hpath)
  obtain ⟨as, w', hok, hrun, hlive⟩ := exists_revoked w path
    ((w.registry.live.filter fun r ↦ r.certPath = some path ∧ row.id < r.id).map (·.id))
  -- the rows of the path that are left are not newer than `row`
  have hnewest : Newest w'.registry path row := by
    refine ⟨(hlive row).mpr ⟨hrow, ?_⟩, hpath, fun r hr hrpath ↦ ?_⟩
    · rw [List.mem_map]
      rintro ⟨r, hr, hid⟩
      have hlt := (List.mem_filter.mp hr).2
      simp only [decide_eq_true_eq] at hlt
      omega
    · obtain ⟨hold, hnot⟩ := (hlive r).mp hr
      by_contra hlt
      refine hnot (List.mem_map.mpr ⟨r, List.mem_filter.mpr ⟨hold, ?_⟩, rfl⟩)
      simp only [decide_eq_true_eq]
      exact ⟨hrpath, by omega⟩
  have hdue : row ∈ dueRows w'.registry 0 row.notBefore :=
    List.mem_filter.mpr ⟨mem_dropSuperseded hnewest, rowIsDue_at_notBefore row⟩
  refine h as w' hok hrun (onlyFor row.id) 0 row.notBefore false ?_
  rw [← hcert]
  refine mem_minted_renewAll hdue hpaths fun r hr hid ↦ ?_
  exact Table.eq_of_pk_eq (mem_live.mp (mem_of_dueRows hr)).1 (mem_live.mp hnewest.live).1 hid

/-- **A revoked path is never renewed exactly when no row of it can be.**  From any moment on, as
the one at which the newest row of a path has been revoked (`Retired`), no later walk mints a leaf
for the path if and only if no row of it that has its three paths is left that is not revoked. -/
theorem revoked_path_is_never_renewed_iff : NeverRenewed w path ↔ Dead w path :=
  ⟨dead_of_neverRenewed, neverRenewed_of_dead⟩

end

/-! ## The certificate of the API -/

/-- Issued with serial 7 and renewed with serial 8, and then the renewed one is revoked. -/
def revokeRenewed : List Action :=
  [issueApi, .renewId (handsOut 8 60) 1 {} false, .apiRevoke adminContext 2]

/-- The same for the certificate that was never renewed. -/
def revokeIssued : List Action := [issueApi, .apiRevoke adminContext 1]

/-- When the only certificate of the path is revoked, it stays that way. -/
theorem revoked_path_is_never_renewed_iff_issued :
    ∃ w, Run.run step emptyWorld revokeIssued = some w ∧ Retired w "/etc/wg/api.pem" ∧
      NeverRenewed w "/etc/wg/api.pem" := by
  refine ⟨_, rfl, ?_⟩
  set w := act (act emptyWorld issueApi) (.apiRevoke adminContext 1) with hw
  have hrows : w.registry.certificates.rows = [apiRow.markRevoked 0] := by
    rw [hw]
    decide +kernel
  have hretired : Retired w "/etc/wg/api.pem" := by
    rw [Retired, hrows]
    exact ⟨_, List.mem_singleton_self _, rfl, rfl, by simp⟩
  have hdead : Dead w "/etc/wg/api.pem" := by
    intro row hrow
    have hmem := mem_live.mp hrow
    rw [hrows, List.mem_singleton] at hmem
    obtain ⟨rfl, hlive⟩ := hmem
    cases hlive
  exact ⟨hretired, revoked_path_is_never_renewed_iff.mpr hdead⟩

/-- A walk after twenty days, with the threshold at the halfway mark, renews the certificate that
the revoked one had replaced. -/
theorem renewed_after_revocation :
    ∃ w, Run.run step emptyWorld revokeRenewed = some w ∧ Retired w "/etc/wg/api.pem" ∧
      "/etc/wg/api.pem" ∈ (certsRenewDue (fun _ ↦ handsOut 9 1728000) w 50 1728000 false).2 ∧
      ¬NeverRenewed w "/etc/wg/api.pem" := by
  refine ⟨_, rfl, ?_⟩
  set w := act (act (act emptyWorld issueApi) (.renewId (handsOut 8 60) 1 {} false))
    (.apiRevoke adminContext 2) with hw
  have hrows : w.registry.certificates.rows = [apiRow, { apiRow with
      id := 2, serial := "8", notBefore := 60, notAfter := 2592060, createdAt := 60
      revoked := true, revokedAt := some 0 }] := by
    rw [hw]
    decide +kernel
  have hretired : Retired w "/etc/wg/api.pem" := by
    rw [Retired, hrows]
    exact ⟨_, List.mem_cons_of_mem _ (List.mem_singleton_self _), rfl, rfl, by decide⟩
  have hminted : "/etc/wg/api.pem" ∈
      (certsRenewDue (fun _ ↦ handsOut 9 1728000) w 50 1728000 false).2 := by
    rw [hw]
    decide +kernel
  exact ⟨hretired, hminted, fun h ↦ h [] w trivial rfl _ _ _ _ hminted⟩

end WgManager.CertRenewal
