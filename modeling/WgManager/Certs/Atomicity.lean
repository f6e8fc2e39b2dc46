import WgManager.Certs.Renewal

/-!
# A renewal that fails half way

`certs renew` re-mints a leaf in place: `_renew_row` overwrites the certificate, the key and the
chain one after the other and then commits the new row, on which `_drop_superseded` relies ("only
the newest row per path describes the file actually on disk").  A service that restarts after a
renewal has failed should find a certificate, a key and a chain that go together, and the registry
should know that certificate (`Intact`).

The writes are in place, so only a failure that comes before the first of them has touched the file
leaves things as they were.  **`failed_renewal_intact_iff`** says that this is exact, and
`key_write_fails` is a service left with a new certificate and an old key.
-/

set_option autoImplicit false

namespace WgManager.CertRenewal

/-- The three files are the leaf with the serial, its key and its chain. -/
structure Triple (w : World) (files : OutPaths) (serial : ℕ) : Prop where
  cert : w.file files.cert = some (.leaf serial)
  key : w.file files.key = some (.key serial)
  chain : w.file files.chain = some .chain

/-- The newest row for a path, revoked or not. -/
structure NewestRecord (t : CertTable) (path : String) (row : CertificateRow) : Prop where
  mem : row ∈ t.certificates.rows
  names : row.certPath = some path
  newest : ∀ r ∈ t.certificates.rows, r.certPath = some path → r.id ≤ row.id

/-- The serial is that of the newest row for the path. -/
def OnRecord (t : CertTable) (path : String) (serial : ℕ) : Prop :=
  ∃ row, NewestRecord t path row ∧ row.serial = toString serial

/-- The three files that the paths lead to go together, and their leaf is that of the newest row. -/
def Intact (place : String → String) (w : World) (paths : OutPaths) : Prop :=
  ∃ serial, Triple w (paths.follow place) serial ∧ OnRecord w.registry paths.cert serial

/-- The PKI backend hands out no serial twice. -/
def NewSerials (env : MintEnv) (t : CertTable) : Prop :=
  ∀ leaf, Mints env leaf → ∀ row ∈ t.certificates.rows, row.serial ≠ toString leaf.serial

section

variable {w : World} {env : MintEnv} {row : CertificateRow} {paths files : OutPaths} {leaf : Leaf}
  {serial : ℕ} {place : String → String}

/-- One file cannot be two of the three. -/
theorem Triple.distinct (h : Triple w files serial) :
    files.cert ≠ files.key ∧ files.cert ≠ files.chain := by
  have hcert := h.cert
  constructor
  · intro heq
    rw [heq, h.key] at hcert
    cases hcert
  · intro heq
    rw [heq, h.chain] at hcert
    cases hcert

theorem Triple.serial_eq {serial' : ℕ} (h : Triple w files serial) (h' : Triple w files serial') :
    serial' = serial := by
  have hcert := h'.cert
  rw [h.cert] at hcert
  cases hcert
  rfl

/-- While the files stay, all depends on the registry. -/
theorem intact_iff_of_triple (h : Triple w (paths.follow place) serial) :
    Intact place w paths ↔ OnRecord w.registry paths.cert serial := by
  constructor
  · rintro ⟨serial', htriple, hrecord⟩
    rw [h.serial_eq htriple] at hrecord
    exact hrecord
  · intro hrecord
    exact ⟨serial, h, hrecord⟩

/-- A write that has touched the file leaves the new content or nothing of use. -/
theorem file_of_touched (w : World) (file : String) (content : Content) {write : Write}
    (h : write ≠ .failed false) :
    (w.afterWrite file content write).file file = some content ∨
      (w.afterWrite file content write).file file = some .torn := by
  rcases write with _ | (_ | _) | _
  · exact .inl (Function.update_self ..)
  · exact absurd rfl h
  · exact .inr (Function.update_self ..)
  · exact .inl (Function.update_self ..)

/-- **What a failed minting leaves**: the registry as it was, and the files too when the first write
has not touched its file; else the file of the certificate is new or torn. -/
theorem writeAndRecord_failed (hkey : env.place paths.cert ≠ env.place paths.key)
    (hchain : env.place paths.cert ≠ env.place paths.chain)
    (hfails : (w.writeAndRecord env leaf paths row).raised ≠ none) :
    (w.writeAndRecord env leaf paths row).world.registry = w.registry ∧
      (env.writeCert = .failed false ∧ (w.writeAndRecord env leaf paths row).world = w ∨
        env.writeCert ≠ .failed false ∧
          ((w.writeAndRecord env leaf paths row).world.file (env.place paths.cert) =
              some (.leaf leaf.serial) ∨
            (w.writeAndRecord env leaf paths row).world.file (env.place paths.cert) =
              some .torn)) := by
  rcases writeAndRecord_ends w env leaf paths row with ⟨-, hreg, -⟩ | ⟨hnone, -⟩
  · by_cases huntouched : env.writeCert = .failed false
    · exact ⟨hreg, .inl ⟨huntouched, writeAndRecord_untouched huntouched⟩⟩
    · -- the file of the certificate is touched, and no later write is to it
      rw [file_of_first_write hkey hchain]
      exact ⟨hreg, .inr ⟨huntouched,
        file_of_touched w (env.place paths.cert) (.leaf leaf.serial) huntouched⟩⟩
  · exact absurd hnone hfails

/-- A leaf that is not recorded does not make an intact triple. -/
theorem not_intact_of_new (hregistry : ∀ r ∈ w.registry.certificates.rows,
      r.serial ≠ toString leaf.serial)
    (hcert : w.file (place paths.cert) = some (.leaf leaf.serial) ∨
      w.file (place paths.cert) = some .torn) :
    ¬Intact place w paths := by
  rintro ⟨serial, htriple, row, hrow, hserial⟩
  have hfile : w.file (place paths.cert) = some (.leaf serial) := htriple.cert
  rw [hfile] at hcert
  rcases hcert with hcert | hcert
  · cases hcert
    exact hregistry row hrow.mem hserial
  · cases hcert

end

/-- **A failed renewal leaves an intact triple just when it has not begun to write.**  For every
world, every row whose three files go together, wherever its paths lead, every answer of the PKI
backend and every way in which the writes and the commit may end: when `_renew_row` fails, the three
files go together afterwards and their leaf is that of the newest row for the path, exactly when the
leaf could not be signed or the first write failed before it touched its file, and the leaf was that
of the newest row before. -/
theorem failed_renewal_intact_iff (w : World) (env : MintEnv) (row : CertificateRow)
    (paths : OutPaths) (serial : ℕ) (hpaths : row.renewalPaths {} = some paths)
    (htriple : Triple w (paths.follow env.place) serial) (hserials : NewSerials env w.registry)
    (hfails : (renewRow env w row {}).raised ≠ none) :
    Intact env.place (renewRow env w row {}).world paths ↔
      ((∃ fault, env.mintLeaf row.certType row.commonName row.sanList row.ttlSeconds =
          .error fault) ∨ env.writeCert = .failed false) ∧
        OnRecord w.registry paths.cert serial := by
  rw [renewRow, hpaths] at hfails ⊢
  dsimp only at hfails ⊢
  cases hmint : env.mintLeaf row.certType row.commonName row.sanList row.ttlSeconds with
  | error fault =>
    rw [intact_iff_of_triple htriple]
    exact (and_iff_right (.inl ⟨fault, rfl⟩)).symm
  | ok leaf =>
    rw [hmint] at hfails
    obtain ⟨hkey, hchain⟩ := htriple.distinct
    obtain ⟨hregistry, ⟨huntouched, hworld⟩ | ⟨htouched, hcert⟩⟩ :=
      writeAndRecord_failed hkey hchain hfails
    · rw [hworld, intact_iff_of_triple htriple]
      exact (and_iff_right (.inr huntouched)).symm
    · refine iff_of_false (not_intact_of_new ?_ hcert) ?_
      · rw [hregistry]
        exact hserials leaf ⟨_, _, _, _, hmint⟩
      · rintro ⟨⟨fault, hfault⟩ | huntouched, -⟩
        · cases hfault
        · exact htouched huntouched

/-! ## The certificate of the API -/

/-- Its files. -/
def apiPaths : OutPaths := ⟨"/etc/wg/api.pem", "/etc/wg/api.key", "/etc/wg/chain.pem"⟩

theorem triple_issueApi : Triple (act emptyWorld issueApi) apiPaths 7 :=
  ⟨by decide +kernel, by decide +kernel, by decide +kernel⟩

theorem onRecord_issueApi : OnRecord (act emptyWorld issueApi).registry apiPaths.cert 7 := by
  refine ⟨apiRow, ⟨?_, by decide, ?_⟩, by decide⟩
  · rw [rows_issueApi]
    exact List.mem_singleton_self _
  · rw [rows_issueApi]
    intro r hr _
    rw [List.mem_singleton.mp hr]

/-- The directory of the certificate is gone and cannot be created. -/
def noCertDir : MintEnv := { handsOut 8 60 with writeCert := .failed false }

/-- That of the key. -/
def noKeyDir : MintEnv := { handsOut 8 60 with writeKey := .failed false }

theorem newSerials_noCertDir : NewSerials noCertDir (act emptyWorld issueApi).registry := by
  rintro leaf ⟨_, _, _, _, hmint⟩ r hr
  have hserial : leaf.serial = 8 := by
    cases hmint
    rfl
  rw [rows_issueApi, List.mem_singleton] at hr
  rw [hr, hserial]
  decide

/-- The renewal fails, and nothing has happened. -/
theorem failed_renewal_intact_iff_noCertDir :
    (renewRow noCertDir (act emptyWorld issueApi) apiRow {}).raised = some .other ∧
    Intact id (renewRow noCertDir (act emptyWorld issueApi) apiRow {}).world apiPaths := by
  have hfails : (renewRow noCertDir (act emptyWorld issueApi) apiRow {}).raised = some .other := by
    decide +kernel
  refine ⟨hfails, (failed_renewal_intact_iff _ noCertDir apiRow apiPaths 7 rfl triple_issueApi
    newSerials_noCertDir ?_).mpr ⟨.inr rfl, onRecord_issueApi⟩⟩
  rw [hfails]
  decide

/-- The key cannot be written: the new certificate stands next to the key of the old one. -/
theorem key_write_fails :
    Triple (act emptyWorld issueApi) apiPaths 7 ∧
    OnRecord (act emptyWorld issueApi).registry apiPaths.cert 7 ∧
    (renewRow noKeyDir (act emptyWorld issueApi) apiRow {}).raised = some .other ∧
    (renewRow noKeyDir (act emptyWorld issueApi) apiRow {}).world.file apiPaths.cert =
      some (.leaf 8) ∧
    (renewRow noKeyDir (act emptyWorld issueApi) apiRow {}).world.file apiPaths.key =
      some (.key 7) ∧
    ¬Intact id (renewRow noKeyDir (act emptyWorld issueApi) apiRow {}).world apiPaths := by
  have hcert : (renewRow noKeyDir (act emptyWorld issueApi) apiRow {}).world.file apiPaths.cert =
      some (.leaf 8) := by
    decide +kernel
  have hkey : (renewRow noKeyDir (act emptyWorld issueApi) apiRow {}).world.file apiPaths.key =
      some (.key 7) := by
    decide +kernel
  refine ⟨triple_issueApi, onRecord_issueApi, by decide +kernel, hcert, hkey, ?_⟩
  rintro ⟨serial, htriple, -⟩
  have hleaf := hcert.symm.trans htriple.cert
  have hkeyOf := hkey.symm.trans htriple.key
  cases hleaf
  cases hkeyOf

end WgManager.CertRenewal
