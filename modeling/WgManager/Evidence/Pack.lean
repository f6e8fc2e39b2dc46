import WgManager.Audit.Stream
import WgManager.Evidence
import WgManager.Models

/-!
# Evidence packs verify themselves

`build_pack` of `evidence.py` makes eight files: five JSON documents, the slice of Vault's audit
log, `MANIFEST.md`, and `SHA256SUMS` with the digests of the other seven.  An auditor who has
extracted a pack runs `sha256sum -c SHA256SUMS` in its directory.

`checks_iff` says of any files with a `SHA256SUMS` written for them when that command is satisfied:
just when every file is there with the digest it had.  `pack_verifies` puts this together for a
pack: as long as SHA-256 does not collide on what was changed, a directory verifies just when its
seven files are those of the pack, and then the five documents read from it are those that were
dumped.  Three of them are dumps of tables, and `pack_tells_tables` says what of the tables is in
them.
-/

set_option autoImplicit false

namespace WgManager.Evidence

open Audit JsonText PyBytes

/-! ## The checksums -/

/-- A digit of a digest. -/
def isHex (c : Char) : Bool := c.isDigit || ('a' ≤ c && c ≤ 'f')

/-- `hashlib.sha256(_).hexdigest()`: 64 digits. -/
structure Sha256 where
  hexdigest : Bytes → String
  length : ∀ bytes, (hexdigest bytes).toList.length = 64
  digits : ∀ bytes, (hexdigest bytes).toList.all isHex

/-- A line of `SHA256SUMS`. -/
def sumLine (sha : Sha256) (file : String × Bytes) : List Char :=
  (sha.hexdigest file.2).toList ++ ' ' :: ' ' :: file.1.toList

/-- `_build_sha256sums`: a line for each file but `SHA256SUMS`, sorted by name. -/
def buildSha256sums (sha : Sha256) (files : List (String × Bytes)) : String :=
  let listed := (files.mergeSort fun a b ↦ a.1 ≤ b.1).filter fun file ↦ file.1 ≠ "SHA256SUMS"
  String.ofList (['\n'].intercalate (listed.map (sumLine sha)) ++ ['\n'])

/-- What `sha256sum -c` makes of a line: a digest, a blank, another one or a star, and a name.
`none` is a line that is not of this form. -/
def splitLine (line : List Char) : Option (String × String) :=
  let digest := line.take 64
  match line.drop 64 with
  | ' ' :: mode :: name =>
    if digest.length = 64 && digest.all isHex && (mode = ' ' || mode = '*') && name ≠ [] then
      some (String.ofList digest, String.ofList name)
    else none
  | _ => none

/-- `sha256sum -c` in the directory `dir`: there is a line to check, and every such line names a
file that is there and has the digest. -/
def sha256sumCheck (sha : Sha256) (dir : String → Option Bytes) (sums : String) : Bool :=
  let entries := (Lines.lines sums.toList).filterMap splitLine
  !entries.isEmpty && entries.all fun entry ↦
    (dir entry.2).any fun bytes ↦ sha.hexdigest bytes == entry.1

section

variable (sha : Sha256)

theorem splitLine_sumLine {file : String × Bytes} (hname : file.1 ≠ "") :
    splitLine (sumLine sha file) = some (sha.hexdigest file.2, file.1) := by
  have hlen := sha.length file.2
  have hne : file.1.toList ≠ [] := by simpa using hname
  have htake : (sumLine sha file).take 64 = (sha.hexdigest file.2).toList := by
    rw [sumLine, List.take_append_of_le_length (by omega), List.take_of_length_le (by omega)]
  have hdrop : (sumLine sha file).drop 64 = ' ' :: ' ' :: file.1.toList := by
    rw [sumLine, List.drop_append_of_le_length (by omega), List.drop_of_length_le (by omega),
      List.nil_append]
  rw [splitLine, hdrop]
  simp only [htake, hlen]
  simp [sha.digits file.2, hne]

theorem newline_not_mem_sumLine {file : String × Bytes} (hname : '\n' ∉ file.1.toList) :
    '\n' ∉ sumLine sha file := by
  have hdigest : '\n' ∉ (sha.hexdigest file.2).toList := by
    intro hmem
    have := List.all_eq_true.mp (sha.digits file.2) _ hmem
    simp [isHex] at this
  simp [sumLine, hdigest, hname]

/-- The lines that are checked are those that were written. -/
theorem entries_buildSha256sums {files : List (String × Bytes)}
    (hnames : ∀ file ∈ files, file.1 ≠ "" ∧ '\n' ∉ file.1.toList) (entry : String × String) :
    entry ∈ (Lines.lines (buildSha256sums sha files).toList).filterMap splitLine ↔
      ∃ file ∈ files, file.1 ≠ "SHA256SUMS" ∧ entry = (sha.hexdigest file.2, file.1) := by
  let listed := (files.mergeSort fun a b ↦ a.1 ≤ b.1).filter fun file ↦ file.1 ≠ "SHA256SUMS"
  have hlisted : ∀ file, file ∈ listed ↔ file ∈ files ∧ file.1 ≠ "SHA256SUMS" := by
    simp [listed]
  have hlines : Lines.lines (buildSha256sums sha files).toList =
      Lines.lines (['\n'].intercalate (listed.map (sumLine sha))) ++ [[]] := by
    rw [buildSha256sums, String.toList_ofList, Lines.lines_append_newline]
    rfl
  rw [hlines, List.filterMap_append]
  have hnil : ([[]] : List (List Char)).filterMap splitLine = [] := rfl
  rw [hnil, List.append_nil]
  by_cases hempty : listed = []
  · have hnone : ∀ file ∈ files, file.1 = "SHA256SUMS" := by
      intro file hfile
      by_contra hne
      have := (hlisted file).mpr ⟨hfile, hne⟩
      simp [hempty] at this
    rw [hempty]
    constructor
    · intro h
      simp [Lines.lines, splitLine] at h
    · rintro ⟨file, hfile, hne, -⟩
      exact absurd (hnone file hfile) hne
  · have hsplit : Lines.lines (['\n'].intercalate (listed.map (sumLine sha))) =
        listed.map (sumLine sha) := by
      refine List.splitOn_intercalate '\n' ?_ (by simpa using hempty)
      intro line hline
      obtain ⟨file, hfile, rfl⟩ := List.mem_map.mp hline
      exact newline_not_mem_sumLine sha (hnames file ((hlisted file).mp hfile).1).2
    rw [hsplit, List.filterMap_map]
    simp only [List.mem_filterMap, Function.comp_apply]
    constructor
    · rintro ⟨file, hfile, hentry⟩
      obtain ⟨hmem, hne⟩ := (hlisted file).mp hfile
      rw [splitLine_sumLine sha (hnames file hmem).1] at hentry
      exact ⟨file, hmem, hne, (Option.some.inj hentry).symm⟩
    · rintro ⟨file, hmem, hne, rfl⟩
      exact ⟨file, (hlisted file).mpr ⟨hmem, hne⟩, splitLine_sumLine sha (hnames file hmem).1⟩

/-- **When a directory verifies.**  There is a file to check, and every one of them is in the
directory with the digest that it had. -/
theorem checks_iff {files : List (String × Bytes)}
    (hnames : ∀ file ∈ files, file.1 ≠ "" ∧ '\n' ∉ file.1.toList) (dir : String → Option Bytes) :
    sha256sumCheck sha dir (buildSha256sums sha files) = true ↔
      (∃ file ∈ files, file.1 ≠ "SHA256SUMS") ∧ ∀ file ∈ files, file.1 ≠ "SHA256SUMS" →
        ∃ bytes, dir file.1 = some bytes ∧ sha.hexdigest bytes = sha.hexdigest file.2 := by
  have hentries := entries_buildSha256sums sha hnames
  rw [sha256sumCheck]
  simp only [Bool.and_eq_true, Bool.not_eq_true', List.isEmpty_eq_false_iff_exists_mem,
    List.all_eq_true, hentries, Option.any_eq_true, beq_iff_eq]
  constructor
  · rintro ⟨⟨_, file, hfile, hne, -⟩, hall⟩
    exact ⟨⟨file, hfile, hne⟩, fun file hfile hne ↦ hall _ ⟨file, hfile, hne, rfl⟩⟩
  · rintro ⟨⟨file, hfile, hne⟩, hall⟩
    refine ⟨⟨_, file, hfile, hne, rfl⟩, ?_⟩
    rintro _ ⟨file, hfile, hne, rfl⟩
    exact hall file hfile hne

end

/-! ## The documents -/

/-- What the three dumps have in common: some fields, the number of rows, and the rows. -/
def dumpRows (head : List (String × Json)) (rows : List (List (String × Json))) : Json :=
  .obj (head ++ [("row_count", .int rows.length), ("rows", .arr (rows.map .obj))])

/-- A number of a column, which has at most 64 bits. -/
abbrev Number := Fin (2 ^ 64)

/-- An `auditevent` row: its id, its time, and the columns that `persist` sets. -/
structure AuditRow where
  id : Number
  ts : Datetime
  event : EventRow
  resourceId_lt : ∀ n ∈ event.resourceId, n < 2 ^ 64

section

variable (isoformat : Datetime → String)

def auditFields (r : AuditRow) : List (String × Json) :=
  [("id", .int r.id.val), ("ts", .str (isoformat r.ts)), ("event", .str r.event.event),
    ("actor_cn", strOrNull r.event.actorCn), ("actor_role", strOrNull r.event.actorRole),
    ("resource_type", .str r.event.resourceType), ("resource_id", idOrNull r.event.resourceId),
    ("action", .str r.event.action), ("before_hash", strOrNull r.event.beforeHash),
    ("after_hash", strOrNull r.event.afterHash), ("request_id", strOrNull r.event.requestId),
    ("payload", strOrNull r.event.payload)]

/-- The rows of the last days, oldest first. -/
def auditWindow (rows : List AuditRow) (now : Datetime) (sinceDays : ℕ) : List AuditRow :=
  (rows.filter fun r ↦ r.ts ≥ now - 86400 * sinceDays).mergeSort fun a b ↦ a.ts ≤ b.ts

/-- `dump_audit_events`. -/
def dumpAuditEvents (rows : List AuditRow) (now : Datetime) (sinceDays : ℕ) : Json :=
  dumpRows [("since_days", .int sinceDays), ("generated_at", .str (isoformat now))]
    ((auditWindow rows now sinceDays).map (auditFields isoformat))

/-- A `certificate` row. -/
structure CertificateRow where
  id : Number
  serial : String
  certType : String
  commonName : String
  sans : Option String
  operatorId : Option Number
  notBefore : Datetime
  notAfter : Datetime
  revoked : Bool
  revokedAt : Option Datetime
  createdAt : Datetime
  outCertPath : Option String
  outKeyPath : Option String
  outChainPath : Option String

def certificateFields (r : CertificateRow) : List (String × Json) :=
  [("id", .int r.id.val), ("serial", .str r.serial), ("cert_type", .str r.certType),
    ("common_name", .str r.commonName), ("sans", strOrNull r.sans),
    ("operator_id", idOrNull (r.operatorId.map Fin.val)),
    ("not_before", .str (isoformat r.notBefore)), ("not_after", .str (isoformat r.notAfter)),
    ("revoked", .bool r.revoked),
    ("revoked_at", strOrNull (r.revokedAt.map isoformat)),
    ("created_at", .str (isoformat r.createdAt)), ("out_cert_path", strOrNull r.outCertPath),
    ("out_key_path", strOrNull r.outKeyPath), ("out_chain_path", strOrNull r.outChainPath)]

/-- `dump_certificates`: all rows, in the order of their ids. -/
def dumpCertificates (rows : List CertificateRow) (now : Datetime) : Json :=
  dumpRows [("generated_at", .str (isoformat now))]
    ((rows.mergeSort fun a b ↦ a.id ≤ b.id).map (certificateFields isoformat))

/-- An `operator` row. -/
structure OperatorRow where
  id : Number
  cn : String
  role : String
  status : String
  createdAt : Datetime

def operatorFields (r : OperatorRow) : List (String × Json) :=
  [("id", .int r.id.val), ("cn", .str r.cn), ("role", .str r.role), ("status", .str r.status),
    ("created_at", .str (isoformat r.createdAt))]

/-- `dump_operators`: all rows, in the order of their ids. -/
def dumpOperators (rows : List OperatorRow) (now : Datetime) : Json :=
  dumpRows [("generated_at", .str (isoformat now))]
    ((rows.mergeSort fun a b ↦ a.id ≤ b.id).map (operatorFields isoformat))

end

/-- A document that can be written and read back. -/
structure Document where
  json : Json
  readable : Readable json

/-! ### The dumps can be read back -/

section

variable {isoformat : Datetime → String}

theorem readable_str (s : String) : Readable (.str s) := ⟨trivial, trivial, rfl⟩

theorem readable_bool (b : Bool) : Readable (.bool b) := ⟨trivial, trivial, rfl⟩

/-- A number of 64 bits has far less digits than Python refuses to read. -/
theorem readable_int {n : ℕ} (h : n < 2 ^ 64) : Readable (.int n) := by
  have hlen : (Nat.toDigits 10 n).length ≤ 20 :=
    (Nat.length_toDigits_le_iff (by decide) (by decide)).mpr (h.trans (by decide))
  refine ⟨trivial, trivial, ?_⟩
  rw [writable, decide_eq_true_iff, Int.natAbs_natCast]
  omega

theorem readable_strOrNull (s : Option String) : Readable (strOrNull s) := by
  cases s <;> exact ⟨trivial, trivial, rfl⟩

theorem readable_idOrNull {n : Option ℕ} (h : ∀ k ∈ n, k < 2 ^ 64) : Readable (idOrNull n) := by
  cases n with
  | none => exact ⟨trivial, trivial, rfl⟩
  | some k => exact readable_int (h k rfl)

theorem readable_auditFields (r : AuditRow) : Readable (.obj (auditFields isoformat r)) := by
  rw [readable_obj_iff]
  refine ⟨by simp [auditFields], ?_⟩
  simp only [auditFields, List.forall_mem_cons, List.not_mem_nil, false_imp_iff, implies_true,
    and_true, readable_str, readable_strOrNull, readable_int r.id.isLt,
    readable_idOrNull r.resourceId_lt]

theorem readable_certificateFields (r : CertificateRow) :
    Readable (.obj (certificateFields isoformat r)) := by
  have hoperator : ∀ k ∈ r.operatorId.map Fin.val, k < 2 ^ 64 := by
    simp only [Option.mem_def, Option.map_eq_some_iff]
    rintro _ ⟨n, -, rfl⟩
    exact n.isLt
  rw [readable_obj_iff]
  refine ⟨by simp [certificateFields], ?_⟩
  simp only [certificateFields, List.forall_mem_cons, List.not_mem_nil, false_imp_iff,
    implies_true, and_true, readable_str, readable_bool, readable_strOrNull,
    readable_int r.id.isLt, readable_idOrNull hoperator]

theorem readable_operatorFields (r : OperatorRow) :
    Readable (.obj (operatorFields isoformat r)) := by
  rw [readable_obj_iff]
  refine ⟨by simp [operatorFields], ?_⟩
  simp only [operatorFields, List.forall_mem_cons, List.not_mem_nil, false_imp_iff, implies_true,
    and_true, readable_str, readable_int r.id.isLt]

/-- What the three dumps have in common can be read back if the rows can. -/
theorem readable_dumpRows {head : List (String × Json)} {rows : List (List (String × Json))}
    (hhead : Readable (.obj head)) (hkeys : ∀ key ∈ head.map Prod.fst, key ∉ ["row_count", "rows"])
    (hrows : ∀ row ∈ rows, Readable (.obj row)) (hlen : rows.length < 2 ^ 64) :
    Readable (dumpRows head rows) := by
  obtain ⟨hnodup, hall⟩ := readable_obj_iff.mp hhead
  have harr : Readable (.arr (rows.map .obj)) := readable_arr_iff.mpr (by simpa using hrows)
  rw [dumpRows, readable_obj_iff]
  constructor
  · rw [List.map_append, List.nodup_append]
    refine ⟨hnodup, by simp, ?_⟩
    rintro key hmem other hother rfl
    exact hkeys key hmem (by simpa using hother)
  · intro field hfield
    rcases List.mem_append.mp hfield with hfield | hfield
    · exact hall field hfield
    · simp only [List.mem_cons, List.not_mem_nil, or_false] at hfield
      rcases hfield with rfl | rfl
      · exact readable_int hlen
      · exact harr

/-- The rows of a dump, in the document that is read back. -/
theorem getItem_rows {head : List (String × Json)} {rows : List (List (String × Json))}
    (h : Readable (dumpRows head rows)) (hkey : "rows" ∉ head.map Prod.fst) :
    (dumpRows head rows).sortKeys.getItem "rows" =
      some (.arr (rows.map fun row ↦ (Json.obj row).sortKeys)) := by
  have hnone : head.lookup "rows" = none := by
    rw [List.lookup_eq_none_iff]
    intro field hfield
    have hne : field.1 ≠ "rows" := fun heq ↦ hkey (heq ▸ List.mem_map_of_mem hfield)
    simpa using hne.symm
  rw [dumpRows, Json.getItem_sortKeys (readable_obj_iff.mp h).1, List.lookup_append, hnone,
    Option.none_or]
  change some (Json.sortKeys (.arr (rows.map .obj))) = _
  rw [Json.sortKeys, Json.sortItems_eq_map, List.map_map]
  rfl

end

/-- `json.dumps(doc, indent=2, sort_keys=True).encode("utf-8")` -/
def Document.bytes (doc : Document) : Bytes :=
  encodeUtf8 (String.ofList (layout (fun _ ↦ []) .indented 0 doc.json.sortKeys))

/-- What a reader of the bytes of a file gets. -/
def readJson (bytes : Bytes) : Option Json := (decodeUtf8 bytes).bind loads

theorem readJson_bytes (doc : Document) : readJson doc.bytes = some doc.json.sortKeys := by
  have h := readable_sortKeys doc.readable
  rw [readJson, Document.bytes, decodeUtf8_encodeUtf8, Option.bind_some]
  exact loads_layout _ _ h.noFloat h.distinctKeys h.writable

/-! ## The pack -/

/-- `_ARTIFACT_DESCRIPTIONS` -/
def artifactDescriptions : List (String × String) :=
  [("audit_events.json", "Application mutation audit log from the MySQL ``auditevent`` " ++
      "table, filtered to the last N days. One row per " ++
      "create/update/delete/revoke/rotate event on a managed " ++
      "resource (server / client / sshkey / certificate / crypto)."),
    ("certificates.json", "Full ``certificate`` table dump (live + revoked). Each row " ++
      "carries serial / CN / SANs / type / validity window / revocation flag — no PEM material."),
    ("operators.json", "Full ``operator`` registry dump (active + disabled). One " ++
      "row per registered admin / operator / auditor."),
    ("vault_audit.log", "Vault audit log file (default ``/vault/logs/audit.log``) " ++
      "sliced to the last N days by parsing each line's ``time`` " ++
      "field. One JSON object per line, same shape Vault writes."),
    ("vault_audit_integrity.json", "Structural integrity report over the included Vault audit " ++
      "log slice. Vault does NOT ship cryptographic chain across " ++
      "records — this report counts lines, malformed JSON, missing " ++
      "``time`` fields, and unpaired request/response records."),
    ("system.json", "Deployment context: wg-manager version, git commit, alembic " ++
      "head revision, the since-days window applied to the time-filtered files."),
    ("MANIFEST.md", "This file — operator-facing index of the pack."),
    ("SHA256SUMS", "GNU coreutils-shape SHA-256 line per other file. Verify with " ++
      "``sha256sum -c SHA256SUMS`` after extraction.")]

/-- `_build_manifest` -/
def buildManifest (files : List (String × Bytes)) (sinceDays : ℕ) (dirName : String) : String :=
  let listed := artifactDescriptions.filter fun d ↦
    files.any (fun file ↦ file.1 == d.1) || d.1 == "MANIFEST.md" || d.1 == "SHA256SUMS"
  "\n".intercalate
    (["# Evidence pack — " ++ dirName, "",
      "SOC 2-style evidence pack generated by `wg-manager evidence pack`.",
      "Last " ++ toString sinceDays ++
        " days of audit events; full cert + operator inventory.",
      "", "## Files", ""] ++
    listed.map (fun d ↦ "- **`" ++ d.1 ++ "`** — " ++ d.2) ++
    ["", "## Verification", "",
      "After extracting, verify the contents have not been tampered with:", "",
      "```bash", "cd " ++ dirName, "sha256sum -c SHA256SUMS", "```", "",
      "Every entry should report `OK`. A mismatch means the pack was " ++
        "modified after generation.", "",
      "## Vault audit-log integrity scope", "",
      "`vault_audit_integrity.json` reports **structural** integrity " ++
        "only (per-line JSON parseability, `time` field presence, " ++
        "request/response `request.id` pairing). Vault does not ship a " ++
        "cryptographic chain across audit records — see " ++
        "[`docs/runbooks/backup-restore.md`](../docs/runbooks/backup-restore.md) " ++
        "and [`docs/vault-cookbook.md`](../docs/vault-cookbook.md) §6 " ++
        "for the operator-side guarantees you actually have."]) ++ "\n"

/-- What a pack is made of. -/
structure Sources where
  audit : Document
  certs : Document
  ops : Document
  integrity : Document
  system : Document
  slicedLog : String
  sinceDays : ℕ
  dirName : String

/-- The tables that are dumped. -/
structure Tables where
  auditEvents : List AuditRow
  certificates : List CertificateRow
  operators : List OperatorRow
  auditEvents_lt : auditEvents.length < 2 ^ 64
  certificates_lt : certificates.length < 2 ^ 64
  operators_lt : operators.length < 2 ^ 64

section

variable (isoformat : Datetime → String) (t : Tables) (now : Datetime) {sinceDays : ℕ}

theorem readable_dumpAuditEvents (hdays : sinceDays < 2 ^ 64) :
    Readable (dumpAuditEvents isoformat t.auditEvents now sinceDays) := by
  refine readable_dumpRows (readable_obj_iff.mpr ⟨by simp, ?_⟩) (by simp) ?_ ?_
  · simp [readable_str, readable_int hdays]
  · intro row hrow
    obtain ⟨r, -, rfl⟩ := List.mem_map.mp hrow
    exact readable_auditFields r
  · have hwindow : (auditWindow t.auditEvents now sinceDays).length ≤ t.auditEvents.length := by
      rw [auditWindow, List.length_mergeSort]
      exact List.length_filter_le _ _
    rw [List.length_map]
    exact hwindow.trans_lt t.auditEvents_lt

theorem readable_dumpCertificates : Readable (dumpCertificates isoformat t.certificates now) := by
  refine readable_dumpRows (readable_obj_iff.mpr ⟨by simp, ?_⟩) (by simp) ?_ ?_
  · simp [readable_str]
  · intro row hrow
    obtain ⟨r, -, rfl⟩ := List.mem_map.mp hrow
    exact readable_certificateFields r
  · rw [List.length_map, List.length_mergeSort]
    exact t.certificates_lt

theorem readable_dumpOperators : Readable (dumpOperators isoformat t.operators now) := by
  refine readable_dumpRows (readable_obj_iff.mpr ⟨by simp, ?_⟩) (by simp) ?_ ?_
  · simp [readable_str]
  · intro row hrow
    obtain ⟨r, -, rfl⟩ := List.mem_map.mp hrow
    exact readable_operatorFields r
  · rw [List.length_map, List.length_mergeSort]
    exact t.operators_lt

/-- The sources of a pack, with the dumps of the tables. -/
def Tables.sources (hdays : sinceDays < 2 ^ 64) (integrity system : Document)
    (slicedLog dirName : String) : Sources where
  audit := ⟨_, readable_dumpAuditEvents isoformat t now hdays⟩
  certs := ⟨_, readable_dumpCertificates isoformat t now⟩
  ops := ⟨_, readable_dumpOperators isoformat t now⟩
  integrity := integrity
  system := system
  slicedLog := slicedLog
  sinceDays := sinceDays
  dirName := dirName

end

/-- The files of the sources. -/
def Sources.files (s : Sources) : List (String × Bytes) :=
  [("audit_events.json", s.audit.bytes), ("certificates.json", s.certs.bytes),
    ("operators.json", s.ops.bytes), ("vault_audit.log", encodeUtf8 s.slicedLog),
    ("vault_audit_integrity.json", s.integrity.bytes), ("system.json", s.system.bytes)]

/-- The files that `SHA256SUMS` covers. -/
def Sources.covered (s : Sources) : List (String × Bytes) :=
  s.files ++ [("MANIFEST.md", encodeUtf8 (buildManifest s.files s.sinceDays s.dirName))]

/-- The files of `build_pack`, without the directory they stand in. -/
def buildPack (sha : Sha256) (s : Sources) : List (String × Bytes) :=
  s.covered ++ [("SHA256SUMS", encodeUtf8 (buildSha256sums sha s.covered))]

/-- SHA-256 does not collide between a file of the pack and what a directory has in its place. -/
def NoCollision (sha : Sha256) (s : Sources) (dir : String → Option Bytes) : Prop :=
  ∀ file ∈ s.covered, ∀ bytes ∈ dir file.1,
    sha.hexdigest bytes = sha.hexdigest file.2 → bytes = file.2

/-- `sha256sum -c SHA256SUMS` in a directory. -/
def verifies (sha : Sha256) (dir : String → Option Bytes) : Bool :=
  ((dir "SHA256SUMS").bind decodeUtf8).any fun sums ↦ sha256sumCheck sha dir sums

theorem covered_names (s : Sources) : s.covered.map Prod.fst =
    ["audit_events.json", "certificates.json", "operators.json", "vault_audit.log",
      "vault_audit_integrity.json", "system.json", "MANIFEST.md"] := rfl

theorem covered_names_ok (s : Sources) : ∀ file ∈ s.covered,
    file.1 ≠ "SHA256SUMS" ∧ file.1 ≠ "" ∧ '\n' ∉ file.1.toList := by
  have hall : ∀ name ∈ ["audit_events.json", "certificates.json", "operators.json",
      "vault_audit.log", "vault_audit_integrity.json", "system.json", "MANIFEST.md"],
      name ≠ "SHA256SUMS" ∧ name ≠ "" ∧ '\n' ∉ name.toList := by decide
  intro file hfile
  refine hall file.1 ?_
  rw [← covered_names s]
  exact List.mem_map_of_mem hfile

theorem lookup_covered_sums (s : Sources) : s.covered.lookup "SHA256SUMS" = none := by
  rw [List.lookup_eq_none_iff]
  intro file hfile
  simpa using Ne.symm (covered_names_ok s file hfile).1

theorem lookup_buildPack (sha : Sha256) (s : Sources) {file : String × Bytes}
    (hfile : file ∈ s.covered) : (buildPack sha s).lookup file.1 = some file.2 := by
  have hnodup : (s.covered.map Prod.fst).Nodup := by
    rw [covered_names]
    decide
  have hfound := Json.lookup_map_of_nodup (f := Prod.snd) hnodup hfile
  have hself : (s.covered.map fun f ↦ (f.1, f.2)) = s.covered := List.map_id _
  rw [buildPack, List.lookup_append, ← hself, hfound, Option.some_or]

section

variable {sha : Sha256} {s : Sources} {dir : String → Option Bytes}

/-- What is compared in a directory that has the `SHA256SUMS` of a pack. -/
theorem verifies_iff_digests (hsums : dir "SHA256SUMS" = (buildPack sha s).lookup "SHA256SUMS") :
    verifies sha dir = true ↔ ∀ file ∈ s.covered,
      ∃ bytes, dir file.1 = some bytes ∧ sha.hexdigest bytes = sha.hexdigest file.2 := by
  have hlookup : (buildPack sha s).lookup "SHA256SUMS" =
      some (encodeUtf8 (buildSha256sums sha s.covered)) := by
    rw [buildPack, List.lookup_append, lookup_covered_sums s]
    simp
  have hnames : ∀ file ∈ s.covered, file.1 ≠ "" ∧ '\n' ∉ file.1.toList :=
    fun file hfile ↦ (covered_names_ok s file hfile).2
  rw [verifies, hsums, hlookup, Option.bind_some, decodeUtf8_encodeUtf8, Option.any_some,
    checks_iff sha hnames]
  constructor
  · exact fun h file hfile ↦ h.2 file hfile (covered_names_ok s file hfile).1
  · have hmem : ("audit_events.json", s.audit.bytes) ∈ s.covered := List.mem_cons_self
    exact fun h ↦ ⟨⟨_, hmem, (covered_names_ok s _ hmem).1⟩, fun file hfile _ ↦ h file hfile⟩

/-- Equal digests are those of equal files. -/
theorem verifies_iff (hsums : dir "SHA256SUMS" = (buildPack sha s).lookup "SHA256SUMS")
    (hfree : NoCollision sha s dir) :
    verifies sha dir = true ↔ ∀ file ∈ s.covered, dir file.1 = some file.2 := by
  rw [verifies_iff_digests hsums]
  constructor
  · intro h file hfile
    obtain ⟨bytes, hbytes, hdigest⟩ := h file hfile
    rw [hbytes, hfree file hfile bytes hbytes hdigest]
  · exact fun h file hfile ↦ ⟨file.2, h file hfile, rfl⟩

/-- What is read in a directory that has the files of a pack. -/
theorem read_covered (hall : ∀ file ∈ s.covered, dir file.1 = some file.2) :
    (dir "audit_events.json").bind readJson = some s.audit.json.sortKeys ∧
      (dir "certificates.json").bind readJson = some s.certs.json.sortKeys ∧
      (dir "operators.json").bind readJson = some s.ops.json.sortKeys ∧
      (dir "vault_audit_integrity.json").bind readJson = some s.integrity.json.sortKeys ∧
      (dir "system.json").bind readJson = some s.system.json.sortKeys ∧
      (dir "vault_audit.log").bind decodeUtf8 = some s.slicedLog := by
  simp only [Sources.covered, Sources.files, List.cons_append, List.nil_append,
    List.forall_mem_cons] at hall
  obtain ⟨haudit, hcerts, hops, hlog, hintegrity, hsystem, -⟩ := hall
  simp [haudit, hcerts, hops, hlog, hintegrity, hsystem, readJson_bytes, decodeUtf8_encodeUtf8]

end

/-- **An evidence pack verifies itself.**  In a directory that has the `SHA256SUMS` of a pack, and
where SHA-256 does not collide, `sha256sum -c` is satisfied just when the seven other files are
there as `build_pack` wrote them; the pack itself, extracted, is such a directory; and the five
documents that are read from it are those that were dumped, with sorted keys. -/
theorem pack_verifies (sha : Sha256) (s : Sources) (dir : String → Option Bytes)
    (hsums : dir "SHA256SUMS" = (buildPack sha s).lookup "SHA256SUMS")
    (hfree : NoCollision sha s dir) :
    (verifies sha dir = true ↔ ∀ file ∈ s.covered, dir file.1 = some file.2) ∧
      verifies sha (fun name ↦ (buildPack sha s).lookup name) = true ∧
      (verifies sha dir = true →
        (dir "audit_events.json").bind readJson = some s.audit.json.sortKeys ∧
        (dir "certificates.json").bind readJson = some s.certs.json.sortKeys ∧
        (dir "operators.json").bind readJson = some s.ops.json.sortKeys ∧
        (dir "vault_audit_integrity.json").bind readJson = some s.integrity.json.sortKeys ∧
        (dir "system.json").bind readJson = some s.system.json.sortKeys ∧
        (dir "vault_audit.log").bind decodeUtf8 = some s.slicedLog) := by
  refine ⟨verifies_iff hsums hfree, ?_, fun hverifies ↦ ?_⟩
  · exact (verifies_iff_digests rfl).mpr fun file hfile ↦
      ⟨file.2, lookup_buildPack sha s hfile, rfl⟩
  · exact read_covered ((verifies_iff hsums hfree).mp hverifies)

/-- The rows of a dump in a directory. -/
def rowsIn (dir : String → Option Bytes) (name : String) : Option Json := do
  let bytes ← dir name
  let doc ← readJson bytes
  doc.getItem "rows"

theorem rowsIn_eq {dir : String → Option Bytes} {name : String} {doc : Json}
    (h : (dir name).bind readJson = some doc) : rowsIn dir name = doc.getItem "rows" := by
  obtain ⟨bytes, hbytes, hdoc⟩ := Option.bind_eq_some_iff.mp h
  rw [rowsIn, hbytes]
  change (readJson bytes).bind (·.getItem "rows") = _
  rw [hdoc, Option.bind_some]

/-- **A pack that verifies tells the tables.**  In a directory that verifies as the pack of some
tables, the three dumps have exactly the audit events of the last days, oldest first, and the
certificates and operators in the order of their ids, with all of the columns that are dumped. -/
theorem pack_tells_tables (sha : Sha256) (isoformat : Datetime → String) (t : Tables)
    (now : Datetime) {sinceDays : ℕ} (hdays : sinceDays < 2 ^ 64) (integrity system : Document)
    (slicedLog dirName : String) (dir : String → Option Bytes)
    (hsums : dir "SHA256SUMS" =
      (buildPack sha (t.sources isoformat now hdays integrity system slicedLog dirName)).lookup
        "SHA256SUMS")
    (hfree : NoCollision sha (t.sources isoformat now hdays integrity system slicedLog dirName) dir)
    (hverifies : verifies sha dir = true) :
    rowsIn dir "audit_events.json" = some (.arr ((auditWindow t.auditEvents now sinceDays).map
      fun r ↦ (Json.obj (auditFields isoformat r)).sortKeys)) ∧
    rowsIn dir "certificates.json" = some (.arr ((t.certificates.mergeSort fun a b ↦
      a.id ≤ b.id).map fun r ↦ (Json.obj (certificateFields isoformat r)).sortKeys)) ∧
    rowsIn dir "operators.json" = some (.arr ((t.operators.mergeSort fun a b ↦
      a.id ≤ b.id).map fun r ↦ (Json.obj (operatorFields isoformat r)).sortKeys)) := by
  obtain ⟨haudit, hcerts, hops, -⟩ := read_covered ((verifies_iff hsums hfree).mp hverifies)
  have hauditRows := getItem_rows (readable_dumpAuditEvents isoformat t now hdays) (by simp)
  have hcertRows := getItem_rows (readable_dumpCertificates isoformat t now) (by simp)
  have hopRows := getItem_rows (readable_dumpOperators isoformat t now) (by simp)
  rw [List.map_map] at hauditRows hcertRows hopRows
  exact ⟨(rowsIn_eq haudit).trans hauditRows, (rowsIn_eq hcerts).trans hcertRows,
    (rowsIn_eq hops).trans hopRows⟩

/-- The digests of no bytes, of `{}`, and of the manifest of `emptySources`. -/
def exampleDigest : ℕ → String
  | 0 => "e3b0c44298fc1c149afbf4c8996fb92427ae41e4649b934ca495991b7852b855"
  | 2 => "44136fa355b3678a1146ad16f7e8649e94fb4fc21fe77e8310c060f61caaff8a"
  | _ => "d23ec9481d90a69b89fac28c1d41c1f747d5e0ca3e11230afccc60fa44df074b"

theorem exampleDigest_ok (n : ℕ) :
    (exampleDigest n).toList.length = 64 ∧ (exampleDigest n).toList.all isHex := by
  unfold exampleDigest
  split <;> decide +kernel

/-- SHA-256 on the files of `emptySources`, which are told apart by their lengths. -/
def exampleSha : Sha256 where
  hexdigest bytes := exampleDigest bytes.length
  length bytes := (exampleDigest_ok bytes.length).1
  digits bytes := (exampleDigest_ok bytes.length).2

/-- A document without fields. -/
def emptyDocument : Document where
  json := .obj []
  readable := readable_obj_iff.mpr (by simp)

/-- A pack of empty documents. -/
def emptySources : Sources :=
  ⟨emptyDocument, emptyDocument, emptyDocument, emptyDocument, emptyDocument, "", 30, "pack"⟩

/-- The pack, extracted. -/
theorem pack_verifies_empty :
    verifies exampleSha (fun name ↦ (buildPack exampleSha emptySources).lookup name) = true ∧
      ((buildPack exampleSha emptySources).lookup "operators.json").bind readJson =
        some emptySources.ops.json.sortKeys := by
  have hfree : NoCollision exampleSha emptySources
      (fun name ↦ (buildPack exampleSha emptySources).lookup name) := by
    intro file hfile bytes hbytes _
    have hfound := lookup_buildPack exampleSha emptySources hfile
    exact (Option.some.inj (hfound.symm.trans hbytes)).symm
  obtain ⟨-, hself, hread⟩ := pack_verifies exampleSha emptySources _ rfl hfree
  exact ⟨hself, (hread hself).2.2.1⟩

end WgManager.Evidence
