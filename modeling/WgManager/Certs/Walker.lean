import WgManager.Certs.Retirement
import WgManager.Certs.Identity

/-!
# The walk of `certs renew --due`

The walk renews the rows that are due, of each path only the newest, and goes on to the next row
when the renewal of one raises a `RuntimeError`.  A renewal leaves its old row in the registry, next
to the new one, so whether the next walk is quiet rests on `_drop_superseded`.

* **`walk_renews_each_path_once`**: a walk mints at most one leaf for each path, and only when the
  newest row of the path is due and has its three paths; and a walk after it, at the same time,
  leaves alone what it has renewed.
* **`walk_renews_all_iff`**: a row whose own steps all succeed is renewed unless an earlier one
  meets something else than a `RuntimeError`.  A file that cannot be written is an `OSError`, and a
  commit that fails an error of the database, so that either of them ends the walk.
-/

set_option autoImplicit false

namespace WgManager.CertWalk

open CertRenewal CertIdentity

/-- The rows that the loop comes to, each with what its renewal does. -/
def walk (env : ℕ → MintEnv) : World → List CertificateRow → List (CertificateRow × Minting)
  | _, [] => []
  | w, row :: rows =>
    let m := renewRow (env row.id) w row {}
    (row, m) :: if m.raised = some .other then [] else walk env m.world rows

/-- The same for a whole command. -/
def walkDue (env : ℕ → MintEnv) (w : World) (thresholdPct : ℚ) (now : Datetime) (dryRun : Bool) :
    List (CertificateRow × Minting) :=
  if dryRun then [] else walk env w (dueRows w.registry thresholdPct now)

section

variable {w : World} {env : ℕ → MintEnv} {row r : CertificateRow} {path : String}
  {rows : List CertificateRow} {thresholdPct : ℚ} {now : Datetime} {dryRun : Bool} {m : Minting}

/-! ## What the walk does -/

/-- The leaves of a walk are those of its renewals. -/
theorem minted_eq_walk (env : ℕ → MintEnv) (w : World) (rows : List CertificateRow) :
    (renewAll env w rows).2 = (walk env w rows).flatMap fun v ↦ v.2.minted.toList := by
  induction rows generalizing w with
  | nil => rfl
  | cons row rows ih =>
    rw [renewAll, walk]
    dsimp only
    split
    · simp
    · rw [List.flatMap_cons, ← ih]

theorem cert_of_minted {env : MintEnv} (h : (renewRow env w row {}).minted = some path) :
    row.certPath = some path := by
  obtain ⟨paths, hpaths, rfl⟩ := minted_renewRow h
  exact cert_of_renewalPaths hpaths

/-- A renewal mints for the path of its own row. -/
theorem minted_toList_sublist (env : MintEnv) (w : World) (row : CertificateRow) :
    (renewRow env w row {}).minted.toList.Sublist row.certPath.toList := by
  cases hm : (renewRow env w row {}).minted with
  | none => exact List.nil_sublist _
  | some path => rw [cert_of_minted hm]

theorem walk_minted_sublist (env : ℕ → MintEnv) (w : World) (rows : List CertificateRow) :
    ((walk env w rows).flatMap fun v ↦ v.2.minted.toList).Sublist
      (rows.flatMap fun row ↦ row.certPath.toList) := by
  induction rows generalizing w with
  | nil => exact .slnil
  | cons row rows ih =>
    rw [walk, List.flatMap_cons, List.flatMap_cons]
    refine (minted_toList_sublist _ w row).append ?_
    split
    · exact List.nil_sublist _
    · exact ih _

/-- Each row mints for its own path, and at most once. -/
theorem minted_sublist (env : ℕ → MintEnv) (w : World) (rows : List CertificateRow) :
    (renewAll env w rows).2.Sublist (rows.filterMap CertificateRow.certPath) := by
  rw [minted_eq_walk, List.filterMap_eq_flatMap_toList]
  exact walk_minted_sublist env w rows

/-! ## Each path once -/

/-- A row that is due and names a path is the newest that does. -/
theorem newest_of_due {t : CertTable} (h : row ∈ dueRows t thresholdPct now)
    (hpath : row.certPath = some path) : Newest t path row := by
  have hkept := (List.mem_filter.mp (List.mem_filter.mp h).1).2
  rw [hpath] at hkept
  refine ⟨mem_of_dueRows h, hpath, fun r hr hr' ↦ ?_⟩
  rw [beq_iff_eq.mp hkept]
  exact id_le_foldl_newer hr hr' 0

theorem newest_unique {t : CertTable} (h : Newest t path row) (h' : Newest t path r) :
    row = r := by
  refine Table.eq_of_pk_eq (mem_live.mp h.live).1 (mem_live.mp h'.live).1 ?_
  exact Nat.le_antisymm (h'.newest row h.live h.names) (h.newest r h'.live h'.names)

theorem nodup_paths_of_due (t : CertTable) (thresholdPct : ℚ) (now : Datetime) :
    ((dueRows t thresholdPct now).filterMap CertificateRow.certPath).Nodup := by
  have hids : (dueRows t thresholdPct now).Pairwise fun r r' ↦ r.id ≠ r'.id := by
    have hsub : (dueRows t thresholdPct now).Sublist t.certificates.rows :=
      List.filter_sublist.trans (List.filter_sublist.trans List.filter_sublist)
    exact (List.pairwise_map.mp t.certificates.nodup).sublist hsub
  refine List.pairwise_filterMap.mpr (hids.imp_of_mem ?_)
  rintro r r' hr hr' hne path hpath _ hpath' rfl
  exact hne (congrArg _ (newest_unique (newest_of_due hr hpath) (newest_of_due hr' hpath')))

/-- What a walk mints for is a path whose newest row is due. -/
theorem newest_of_minted (h : path ∈ (certsRenewDue env w thresholdPct now dryRun).2) :
    ∃ row, Newest w.registry path row ∧ rowIsDue row thresholdPct now = true := by
  rw [certsRenewDue] at h
  split at h
  · cases h
  · obtain ⟨row, hrow, hpath⟩ := List.mem_filterMap.mp ((minted_sublist env w _).subset h)
    exact ⟨row, newest_of_due hrow hpath, (List.mem_filter.mp hrow).2⟩

/-! ## What a renewal does -/

/-- The steps of a renewal all succeed, as far as they are its own. -/
structure Sound (env : MintEnv) (row : CertificateRow) : Prop where
  paths : ∃ paths, row.renewalPaths {} = some paths
  minted : ∃ leaf, renewLeaf env row = .ok leaf
  cert : env.writeCert = .written
  key : env.writeKey = .written
  chain : env.writeChain = .written
  commit : env.commits = true

/-- A renewal that meets an error of the file system or of the database, or an exception of the PKI
backend that is no `PKIError`. -/
structure Halts (env : MintEnv) (row : CertificateRow) : Prop where
  paths : ∃ paths, row.renewalPaths {} = some paths
  fails : renewLeaf env row = .error .other ∨
    (∃ leaf, renewLeaf env row = .ok leaf) ∧
      (env.writeCert ≠ .written ∨ env.writeKey ≠ .written ∨ env.writeChain ≠ .written ∨
        env.commits = false)

theorem Halts.not_sound {env : MintEnv} (h : Halts env row) : ¬Sound env row := by
  intro hsound
  rcases h.fails with herror | ⟨-, hcert | hkey | hchain | hcommit⟩
  · obtain ⟨leaf, hleaf⟩ := hsound.minted
    rw [hleaf] at herror
    cases herror
  · exact hcert hsound.cert
  · exact hkey hsound.key
  · exact hchain hsound.chain
  · rw [hsound.commit] at hcommit
    cases hcommit

/-- The row that a renewal records, but for its key. -/
def renewedRow (env : MintEnv) (row : CertificateRow) (leaf : Leaf) (paths : OutPaths) :
    CertificateRow :=
  leaf.row row.certType row.operatorId none env.now (some paths.cert) (some paths.key)
    (some paths.chain)

/-- **How a renewal ends.**  It is skipped; or it ends the walk, and leaves the registry as it was;
or it is recorded. -/
theorem renewRow_ends (w : World) (env : MintEnv) (row : CertificateRow) :
    ((renewRow env w row {}).raised = some .runtimeError ∧ (renewRow env w row {}).world = w ∧
      ¬Sound env row ∧ ¬Halts env row) ∨
    ((renewRow env w row {}).raised = some .other ∧
      (renewRow env w row {}).world.registry = w.registry ∧
      (Halts env row ∨ ∃ leaf paths, renewLeaf env row = .ok leaf ∧
        w.registry.insert (renewedRow env row leaf paths) = none)) ∨
    ((renewRow env w row {}).raised = none ∧ Sound env row ∧
      ∃ leaf paths, renewLeaf env row = .ok leaf ∧ row.renewalPaths {} = some paths ∧
        (renewRow env w row {}).minted = some paths.cert ∧
        w.registry.insert (renewedRow env row leaf paths) =
          some (renewRow env w row {}).world.registry) := by
  rw [renewRow]
  split
  · next hpaths =>
    have hnone : ¬∃ paths, row.renewalPaths {} = some paths := by simp [hpaths]
    exact .inl ⟨rfl, rfl, fun h ↦ hnone h.paths, fun h ↦ hnone h.paths⟩
  · next paths hpaths =>
    split
    · next fault hleaf =>
      have hleaf : renewLeaf env row = .error fault := hleaf
      cases fault with
      | runtimeError =>
        refine .inl ⟨rfl, rfl, fun h ↦ ?_, fun h ↦ ?_⟩
        · obtain ⟨leaf, hok⟩ := h.minted
          cases hleaf.symm.trans hok
        · rcases h.fails with hother | ⟨⟨leaf, hok⟩, -⟩
          · cases hleaf.symm.trans hother
          · cases hleaf.symm.trans hok
      | other => exact .inr (.inl ⟨rfl, rfl, .inl ⟨⟨paths, hpaths⟩, .inl hleaf⟩⟩)
    · next leaf hleaf =>
      have hleaf : renewLeaf env row = .ok leaf := hleaf
      rcases writeAndRecord_ends w env leaf paths (renewedRow env row leaf paths) with
        ⟨hraised, hreg, hfails⟩ | ⟨hraised, hinsert, hminted, hcert, hkey, hchain, hcommits⟩
      · refine .inr (.inl ⟨hraised, hreg, ?_⟩)
        rcases hfails with hcert | hkey | hchain | hcommits | hinsert
        · exact .inl ⟨⟨paths, hpaths⟩, .inr ⟨⟨leaf, hleaf⟩, .inl hcert⟩⟩
        · exact .inl ⟨⟨paths, hpaths⟩, .inr ⟨⟨leaf, hleaf⟩, .inr (.inl hkey)⟩⟩
        · exact .inl ⟨⟨paths, hpaths⟩, .inr ⟨⟨leaf, hleaf⟩, .inr (.inr (.inl hchain))⟩⟩
        · exact .inl ⟨⟨paths, hpaths⟩, .inr ⟨⟨leaf, hleaf⟩, .inr (.inr (.inr hcommits))⟩⟩
        · exact .inr ⟨leaf, paths, hleaf, hinsert⟩
      · exact .inr (.inr ⟨hraised, ⟨⟨paths, hpaths⟩, ⟨leaf, hleaf⟩, hcert, hkey, hchain, hcommits⟩,
          leaf, paths, hleaf, hpaths, hminted, hinsert⟩)

/-! ## The registry along a walk -/

/-- Rows have been added, and nothing else. -/
structure Grows (t t' : CertTable) : Prop where
  rows : ∀ r ∈ t.certificates.rows, r ∈ t'.certificates.rows
  nextId : t.nextId ≤ t'.nextId

theorem Grows.refl (t : CertTable) : Grows t t := ⟨fun _ hr ↦ hr, Nat.le_refl _⟩

theorem Grows.trans {t t' t'' : CertTable} (h : Grows t t') (h' : Grows t' t'') : Grows t t'' :=
  ⟨fun r hr ↦ h'.rows r (h.rows r hr), Nat.le_trans h.nextId h'.nextId⟩

theorem grows_of_insert {t t' : CertTable} (h : t.insert row = some t') : Grows t t' := by
  refine ⟨fun r hr ↦ (mem_of_insert h).mpr (.inl hr), ?_⟩
  rw [CertTable.insert] at h
  split at h
  · cases h
  · cases h
    exact Nat.le_succ _

theorem grows_renewRow (w : World) (env : MintEnv) (row : CertificateRow) :
    Grows w.registry (renewRow env w row {}).world.registry := by
  rcases renewRow_ends w env row with ⟨-, hworld, -⟩ | ⟨-, hreg, -⟩ | ⟨-, -, _, _, -, -, -, hinsert⟩
  · rw [hworld]
    exact .refl _
  · rw [hreg]
    exact .refl _
  · exact grows_of_insert hinsert

theorem grows_renewAll (w : World) (env : ℕ → MintEnv) (rows : List CertificateRow) :
    Grows w.registry (renewAll env w rows).1.registry := by
  induction rows generalizing w with
  | nil => exact .refl _
  | cons row rows ih =>
    have hrow := grows_renewRow w (env row.id) row
    rw [renewAll]
    split
    · exact hrow
    · exact hrow.trans (ih _)

/-- A renewal of the walk that raises nothing leaves a new row for its path. -/
theorem fresh_of_walk (h : (row, m) ∈ walk env w rows) (hraised : m.raised = none)
    (hminted : m.minted = some path) : ∃ r ∈ (renewAll env w rows).1.registry.live,
      w.registry.nextId ≤ r.id ∧ r.certPath = some path := by
  induction rows generalizing w with
  | nil => cases h
  | cons r rows ih =>
    rw [walk] at h
    rcases List.mem_cons.mp h with heq | htail
    · cases heq
      rcases renewRow_ends w (env row.id) row with
        ⟨hrt, -⟩ | ⟨hother, -⟩ | ⟨-, -, leaf, paths, -, hpaths, hcert, hinsert⟩
      · rw [hraised] at hrt
        cases hrt
      · rw [hraised] at hother
        cases hother
      · rw [renewAll, hraised, if_neg (by simp)]
        cases hminted.symm.trans hcert
        have hne := (stored_eq_some.mp (cert_of_minted hcert)).2
        refine ⟨_, mem_live.mpr ⟨(grows_renewAll _ env rows).rows _
          ((mem_of_insert hinsert).mpr (.inr rfl)), rfl⟩, Nat.le_refl _, ?_⟩
        exact stored_eq_some.mpr ⟨rfl, hne⟩
    · split at htail
      · cases htail
      · next hgoes =>
        obtain ⟨r', hr', hid, hpath⟩ := ih htail
        rw [renewAll, if_neg hgoes]
        exact ⟨r', hr', Nat.le_trans (grows_renewRow w (env r.id) r).nextId hid, hpath⟩

theorem renewal_of_walk (h : (row, m) ∈ walk env w rows) :
    ∃ w', m = renewRow (env row.id) w' row {} := by
  induction rows generalizing w with
  | nil => cases h
  | cons r rows ih =>
    rw [walk] at h
    rcases List.mem_cons.mp h with heq | htail
    · cases heq
      exact ⟨w, rfl⟩
    · split at htail
      · cases htail
      · exact ih htail

/-- A row with a part of its lifetime left that the threshold allows is not due. -/
theorem rowIsDue_eq_false (hwindow : row.notBefore < row.notAfter)
    (helapsed : ((now - row.notBefore : ℤ) : ℚ) / ((row.notAfter - row.notBefore : ℤ) : ℚ) * 100 <
      thresholdPct) : rowIsDue row thresholdPct now = false := by
  have hpos : ¬row.notAfter - row.notBefore ≤ 0 := not_le.mpr (sub_pos.mpr hwindow)
  rw [rowIsDue, if_neg hpos]
  exact decide_eq_false (not_le.mpr helapsed)

/-- **The walk does each path once and then rests.**  A run of `certs renew --due` mints at most one
leaf for a path, none for a path whose newest row that is not revoked is not due, and none for a row
that lacks one of its three paths.  When less of the lifetime of each new leaf has elapsed than the
threshold, a second run at the same time mints nothing for the paths that the first has renewed. -/
theorem walk_renews_each_path_once (env env' : ℕ → MintEnv) (w : World) (thresholdPct : ℚ)
    (now : Datetime) (dryRun dryRun' : Bool) :
    (certsRenewDue env w thresholdPct now dryRun).2.Nodup ∧
      (∀ path row, Newest w.registry path row → rowIsDue row thresholdPct now = false →
        path ∉ (certsRenewDue env w thresholdPct now dryRun).2) ∧
      (∀ row m, (row, m) ∈ walkDue env w thresholdPct now dryRun → row.renewalPaths {} = none →
        m.minted = none) ∧
      ((∀ row ∈ (certsRenewDue env w thresholdPct now dryRun).1.registry.live,
          w.registry.nextId ≤ row.id → row.notBefore < row.notAfter ∧
            ((now - row.notBefore : ℤ) : ℚ) / ((row.notAfter - row.notBefore : ℤ) : ℚ) * 100 <
              thresholdPct) →
        ∀ row m path, (row, m) ∈ walkDue env w thresholdPct now dryRun → m.raised = none →
          m.minted = some path →
          path ∉ (certsRenewDue env' (certsRenewDue env w thresholdPct now dryRun).1 thresholdPct
            now dryRun').2) := by
  refine ⟨?_, fun path row hrow hdue hmem ↦ ?_, fun row m hm hpaths ↦ ?_,
    fun hfresh row m path hm hraised hminted hmem ↦ ?_⟩
  · rw [certsRenewDue]
    split
    · exact List.nodup_nil
    · exact (nodup_paths_of_due w.registry thresholdPct now).sublist (minted_sublist env w _)
  · obtain ⟨row', hrow', hdue'⟩ := newest_of_minted hmem
    cases newest_unique hrow hrow'
    rw [hdue] at hdue'
    cases hdue'
  · rw [walkDue] at hm
    split at hm
    · cases hm
    · obtain ⟨w', rfl⟩ := renewal_of_walk hm
      refine Option.eq_none_iff_forall_not_mem.mpr fun path hminted ↦ ?_
      obtain ⟨paths, hsome, -⟩ := minted_renewRow hminted
      rw [hpaths] at hsome
      cases hsome
  · rw [walkDue] at hm
    split at hm
    · cases hm
    · next hdry =>
      -- the newest row of the path is as new as the one that the first run has left
      obtain ⟨r, hr, hid, hpath⟩ := fresh_of_walk hm hraised hminted
      obtain ⟨newest, hnewest, hdue⟩ := newest_of_minted hmem
      rw [certsRenewDue, if_neg hdry] at hfresh hnewest
      have hle := hnewest.newest r hr hpath
      obtain ⟨hwindow, helapsed⟩ := hfresh newest hnewest.live (Nat.le_trans hid hle)
      rw [rowIsDue_eq_false hwindow helapsed] at hdue
      cases hdue

end

/-- The certificate of the API at the end of its thirty days: it is renewed, and then left alone. -/
theorem walk_renews_each_path_once_api :
    (certsRenewDue (fun _ ↦ handsOut 8 2592000) (act emptyWorld issueApi) 50 2592000 false).2 =
        ["/etc/wg/api.pem"] ∧
      "/etc/wg/api.pem" ∉ (certsRenewDue (fun _ ↦ handsOut 9 2592000)
        (certsRenewDue (fun _ ↦ handsOut 8 2592000) (act emptyWorld issueApi) 50 2592000 false).1
        50 2592000 false).2 := by
  have honce := walk_renews_each_path_once (fun _ ↦ handsOut 8 2592000)
    (fun _ ↦ handsOut 9 2592000) (act emptyWorld issueApi) 50 2592000 false false
  have hminted : (certsRenewDue (fun _ ↦ handsOut 8 2592000) (act emptyWorld issueApi) 50 2592000
      false).2 = ["/etc/wg/api.pem"] := by decide +kernel
  have hdue : dueRows (act emptyWorld issueApi).registry 50 2592000 = [apiRow] := by
    decide +kernel
  have hwalk : (apiRow, renewRow (handsOut 8 2592000) (act emptyWorld issueApi) apiRow {}) ∈
      walkDue (fun _ ↦ handsOut 8 2592000) (act emptyWorld issueApi) 50 2592000 false := by
    rw [walkDue, if_neg Bool.false_ne_true, hdue]
    exact List.mem_cons_self
  refine ⟨hminted, honce.2.2.2 ?_ apiRow _ "/etc/wg/api.pem" hwalk (by decide +kernel)
    (by decide +kernel)⟩
  decide +kernel

/-! ## One bad certificate -/

/-- The PKI backend hands out no serial twice. -/
structure UniqueSerials (env : ℕ → MintEnv) (t : CertTable) (rows : List CertificateRow) :
    Prop where
  new : ∀ row ∈ rows, ∀ leaf, renewLeaf (env row.id) row = .ok leaf →
    ∀ r ∈ t.certificates.rows, r.serial ≠ toString leaf.serial
  distinct : rows.Pairwise fun row row' ↦ ∀ leaf leaf', renewLeaf (env row.id) row = .ok leaf →
    renewLeaf (env row'.id) row' = .ok leaf' → toString leaf.serial ≠ toString leaf'.serial

/-- The leaf of the row has been renewed, and the registry knows. -/
def Recorded (t : CertTable) (env : MintEnv) (row : CertificateRow) : Prop :=
  ∃ leaf paths id, renewLeaf env row = .ok leaf ∧ row.renewalPaths {} = some paths ∧
    { renewedRow env row leaf paths with id } ∈ t.certificates.rows

section

variable {w : World} {env : ℕ → MintEnv} {row : CertificateRow} {rows : List CertificateRow}
  {t t' : CertTable}

theorem Recorded.of_grows {env : MintEnv} (h : Recorded t env row) (hgrows : Grows t t') :
    Recorded t' env row := by
  obtain ⟨leaf, paths, id, hleaf, hpaths, hmem⟩ := h
  exact ⟨leaf, paths, id, hleaf, hpaths, hgrows.rows _ hmem⟩

theorem not_recorded {env : MintEnv} (hnew : ∀ leaf, renewLeaf env row = .ok leaf →
    ∀ r ∈ t.certificates.rows, r.serial ≠ toString leaf.serial) : ¬Recorded t env row := by
  rintro ⟨leaf, paths, id, hleaf, -, hmem⟩
  exact hnew leaf hleaf _ hmem rfl

theorem uniqueSerials_of_renewRow (h : UniqueSerials env w.registry (row :: rows)) :
    UniqueSerials env (renewRow (env row.id) w row {}).world.registry rows := by
  obtain ⟨hfirst, hdistinct⟩ := List.pairwise_cons.mp h.distinct
  refine ⟨fun row' hrow' leaf' hleaf' r hr ↦ ?_, hdistinct⟩
  have hold := h.new row' (List.mem_cons_of_mem row hrow') leaf' hleaf'
  rcases renewRow_ends w (env row.id) row with
    ⟨-, hworld, -⟩ | ⟨-, hreg, -⟩ | ⟨-, -, leaf, paths, hleaf, -, -, hinsert⟩
  · exact hold r (hworld ▸ hr)
  · exact hold r (hreg ▸ hr)
  · rcases (mem_of_insert hinsert).mp hr with hr | rfl
    · exact hold r hr
    · exact hfirst row' hrow' leaf leaf' hleaf hleaf'

/-- The first row of a walk, when no serial is handed out twice: either it ends the walk and leaves
the registry as it was, or it does not, and is recorded when its steps succeed. -/
theorem head_of_walk (h : UniqueSerials env w.registry (row :: rows)) :
    (Halts (env row.id) row ∧ (renewAll env w (row :: rows)).1.registry = w.registry) ∨
    (¬Halts (env row.id) row ∧ (renewAll env w (row :: rows)).1 =
        (renewAll env (renewRow (env row.id) w row {}).world rows).1 ∧
      (Sound (env row.id) row →
        Recorded (renewRow (env row.id) w row {}).world.registry (env row.id) row)) := by
  rw [renewAll]
  rcases renewRow_ends w (env row.id) row with ⟨hraised, hworld, hsound, hhalts⟩ |
    ⟨hraised, hreg, hfails⟩ | ⟨hraised, hsound, leaf, paths, hleaf, hpaths, -, hinsert⟩
  · rw [hraised, if_neg (by simp)]
    exact .inr ⟨hhalts, rfl, fun h ↦ absurd h hsound⟩
  · rw [hraised, if_pos rfl]
    refine .inl ⟨hfails.resolve_right ?_, hreg⟩
    rintro ⟨leaf, paths, hleaf, hnone⟩
    have hsome : (w.registry.insert (renewedRow (env row.id) row leaf paths)).isSome :=
      insert_isSome rfl (h.new row List.mem_cons_self leaf hleaf)
    rw [hnone] at hsome
    cases hsome
  · rw [hraised, if_neg (by simp)]
    refine .inr ⟨fun hhalts ↦ hhalts.not_sound hsound, rfl, fun _ ↦ ?_⟩
    exact ⟨leaf, paths, w.registry.nextId, hleaf, hpaths, (mem_of_insert hinsert).mpr (.inr rfl)⟩

theorem renewAll_isolates_iff (h : UniqueSerials env w.registry rows) :
    (∀ row ∈ rows, Sound (env row.id) row →
        Recorded (renewAll env w rows).1.registry (env row.id) row) ↔
      rows.Pairwise fun earlier later ↦
        Halts (env earlier.id) earlier → ¬Sound (env later.id) later := by
  induction rows generalizing w with
  | nil => simp
  | cons row rows ih =>
    rw [List.pairwise_cons]
    rcases head_of_walk h with ⟨hhalts, hreg⟩ | ⟨hhalts, hrest, hrow⟩
    · -- the walk ends here, and none of the rows after it is recorded
      rw [hreg]
      constructor
      · intro hall
        have hnone (r : CertificateRow) (hr : r ∈ rows) : ¬Sound (env r.id) r := by
          intro hsound
          exact not_recorded (h.new r (List.mem_cons_of_mem row hr))
            (hall r (List.mem_cons_of_mem row hr) hsound)
        exact ⟨fun r hr _ ↦ hnone r hr,
          List.pairwise_of_forall_mem_list fun _ _ r hr _ ↦ hnone r hr⟩
      · rintro ⟨hnone, -⟩ r hr hsound
        rcases List.mem_cons.mp hr with rfl | hr
        · exact absurd hsound hhalts.not_sound
        · exact absurd hsound (hnone r hr hhalts)
    · rw [hrest, List.forall_mem_cons, ih (uniqueSerials_of_renewRow h)]
      refine and_congr ⟨fun _ r _ hh ↦ absurd hh hhalts, fun _ hsound ↦ ?_⟩ Iff.rfl
      exact (hrow hsound).of_grows (grows_renewAll _ env rows)

/-- **When one bad certificate does not stop the others.**  A run of `certs renew --due` renews and
records every row that is due and whose own steps all succeed, if and only if no such row comes
after one that meets an error of the file system or of the database. -/
theorem walk_renews_all_iff (thresholdPct : ℚ) (now : Datetime)
    (h : UniqueSerials env w.registry (dueRows w.registry thresholdPct now)) :
    (∀ row ∈ dueRows w.registry thresholdPct now, Sound (env row.id) row →
        Recorded (certsRenewDue env w thresholdPct now false).1.registry (env row.id) row) ↔
      (dueRows w.registry thresholdPct now).Pairwise fun earlier later ↦
        Halts (env earlier.id) earlier → ¬Sound (env later.id) later := by
  rw [certsRenewDue, if_neg Bool.false_ne_true]
  exact renewAll_isolates_iff h

end

/-- The API and the database each have a certificate. -/
def twoCerts : World :=
  act (act emptyWorld issueApi) (.issue ⟨fun _ ↦ none, fun _ ↦ none⟩ (handsOut 17 0)
    { certType := .mysql, commonName := "mysql", outCert := some "/etc/mysql/server.pem"
      outKey := some "/etc/mysql/server.key", outChain := some "/etc/mysql/chain.pem" })

/-- The row of the second. -/
def mysqlRow : CertificateRow where
  id := 2
  serial := "17"
  certType := .mysql
  commonName := "mysql"
  sans := "mysql,127.0.0.1,localhost"
  notBefore := 0
  notAfter := 2592000
  createdAt := 0
  outCertPath := some "/etc/mysql/server.pem"
  outKeyPath := some "/etc/mysql/server.key"
  outChainPath := some "/etc/mysql/chain.pem"

theorem rows_twoCerts : twoCerts.registry.certificates.rows = [apiRow, mysqlRow] := by
  decide +kernel

theorem due_twoCerts : dueRows twoCerts.registry 50 2592000 = [apiRow, mysqlRow] := by
  decide +kernel

/-- What the walk meets: something at the first row, and nothing at the second. -/
def meets (first : MintEnv) (certId : ℕ) : MintEnv :=
  if certId = 1 then first else handsOut 18 2592000

theorem sound_mysqlRow (first : MintEnv) : Sound (meets first mysqlRow.id) mysqlRow :=
  ⟨⟨_, rfl⟩, ⟨_, rfl⟩, rfl, rfl, rfl, rfl⟩

theorem uniqueSerials_twoCerts {first : MintEnv}
    (hfirst : ∀ leaf, renewLeaf first apiRow = .ok leaf → leaf.serial = 8) :
    UniqueSerials (meets first) twoCerts.registry (dueRows twoCerts.registry 50 2592000) := by
  rw [due_twoCerts]
  constructor
  · intro row hrow leaf hleaf r hr
    rw [rows_twoCerts] at hr
    have hserial : leaf.serial = 8 ∨ leaf.serial = 18 := by
      rcases List.mem_pair.mp hrow with rfl | rfl
      · exact .inl (hfirst leaf hleaf)
      · cases hleaf
        exact .inr rfl
    rcases hserial with hserial | hserial
    · rw [hserial]
      exact (by decide : ∀ r ∈ [apiRow, mysqlRow], r.serial ≠ toString 8) r hr
    · rw [hserial]
      exact (by decide : ∀ r ∈ [apiRow, mysqlRow], r.serial ≠ toString 18) r hr
  · rw [List.pairwise_pair]
    intro leaf leaf' hleaf hleaf'
    cases hleaf'
    rw [hfirst leaf hleaf]
    decide

/-- The PKI backend refuses the first, and the second is renewed. -/
def refused : MintEnv where
  now := 2592000
  mint := fun _ _ _ _ ↦ .error .runtimeError

theorem walk_renews_all_iff_refused :
    Recorded (certsRenewDue (meets refused) twoCerts 50 2592000 false).1.registry
      (meets refused 2) mysqlRow := by
  have hserials : UniqueSerials (meets refused) twoCerts.registry
      (dueRows twoCerts.registry 50 2592000) := uniqueSerials_twoCerts (by rintro leaf ⟨⟩)
  refine (walk_renews_all_iff 50 2592000 hserials).mpr ?_ mysqlRow (by rw [due_twoCerts]; simp)
    (sound_mysqlRow refused)
  rw [due_twoCerts, List.pairwise_pair]
  rintro ⟨-, hother | ⟨⟨leaf, hleaf⟩, -⟩⟩
  · cases hother
  · cases hleaf

/-- The directory of the first certificate cannot be created. -/
def unwritable : MintEnv := { handsOut 8 2592000 with writeCert := .failed false }

/-- It cannot be written, and the second is not renewed. -/
theorem unwritable_path_stops_walk :
    ¬∀ env w thresholdPct now,
      UniqueSerials env w.registry (dueRows w.registry thresholdPct now) →
        ∀ row ∈ dueRows w.registry thresholdPct now, Sound (env row.id) row →
          Recorded (certsRenewDue env w thresholdPct now false).1.registry (env row.id) row := by
  intro hall
  have hserials : UniqueSerials (meets unwritable) twoCerts.registry
      (dueRows twoCerts.registry 50 2592000) :=
    uniqueSerials_twoCerts (by rintro leaf ⟨⟩; rfl)
  refine not_recorded ?_ (hall (meets unwritable) twoCerts 50 2592000 hserials mysqlRow
    (by rw [due_twoCerts]; simp) (sound_mysqlRow unwritable))
  rintro leaf ⟨⟩
  have hrows : (certsRenewDue (meets unwritable) twoCerts 50 2592000
      false).1.registry.certificates.rows = [apiRow, mysqlRow] := by decide +kernel
  rw [hrows]
  exact (by decide : ∀ r ∈ [apiRow, mysqlRow], r.serial ≠ toString 18)

end WgManager.CertWalk
