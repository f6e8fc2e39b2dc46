import WgManager.Lib.Interleave
import WgManager.Lib.UnixFiles
import WgManager.Ssh
import Mathlib.Data.List.DropRight

/-!
# The certificate on a host, and the names its row knows

A session to a managed host is opened under `KnownHostsCAPolicy`: the certificate the host presents
has to name the hostname of its row, or a name that the row has recorded in `host_cert_principals`.
Three things have to stay in step for that — the certificate file on the host, the column `hostname`
and the column `host_cert_principals` — and three operations change them: `PATCH` writes the
hostname, the tasks `provision_server_task` and `rotate_host_cert_task` (and their twins for
clients) write the file, and only when they commit do they write the record.

This file is about one row and its host.  A task is a process that takes the row lock, loads the
row, and carries out its script, one remote call after the other; each call may fail, before or
after it has taken effect, the commit may fail, and the worker may be lost at any time.  A file is
written by `tee`, which first empties it, so that a session that drops then leaves only the
beginning of the new text.  A `PATCH` takes no lock, and can come in between any two of these steps.

`host_stays_reachable` says that the host stays reachable along every run in which a hostname is
changed only when the certificate on the host is recorded, and so is what a run in progress is about
to install, and in which no write of the certificate file is cut short.  `locked_out` is a run in
which a rename comes after a rotation that failed half way, and after which no session passes any
more; in `cut_short` there is no rename, and the file has lost its certificate.
-/

set_option autoImplicit false

namespace PyStr

theorem dropEndWhile_dropWhile (p : Char → Bool) (cs : List Char) :
    (dropEndWhile p (cs.dropWhile p)).dropWhile p = dropEndWhile p (cs.dropWhile p) := by
  have hlead : dropEndWhile p (cs.dropWhile p) <+: cs.dropWhile p :=
    List.rdropWhile_prefix p _
  rw [List.dropWhile_eq_self_iff]
  intro hpos
  -- what is left begins as `cs.dropWhile p` does, and that begins with no character to drop
  have hhead := hlead.getElem hpos
  have hlen : 0 < (cs.dropWhile p).length := lt_of_lt_of_le hpos hlead.length_le
  rw [hhead]
  exact List.dropWhile_get_zero_not p cs hlen

@[simp] theorem strip_strip (s : String) : strip (strip s) = strip s := by
  rw [strip, strip, String.toList_ofList, dropEndWhile_dropWhile]
  exact congrArg String.ofList (List.rdropWhile_idempotent isSpace _)

end PyStr

namespace WgManager.HostCerts

open Unix

/-! ## The row, the certificate and the check -/

/-- The columns of a `Server` or `Client` row that decide which certificate is accepted. -/
structure HostRow where
  hostname : String
  hostCertPrincipals : Option String := none
  deriving DecidableEq

/-- `HostCert`, by the names it is issued for. -/
structure HostCert where
  principals : List String
  deriving DecidableEq

/-- `mint_host_cert`: a certificate for the names that are asked for. -/
def mintHostCert (principals : List String) : HostCert := ⟨principals⟩

/-- The names in `host_cert_principals`, as `_open_runner` reads them: the pieces between commas,
stripped, without blank ones. -/
def knownPrincipals (text : Option String) : List String :=
  ((PyStr.splitOn ',' (text.getD "")).map PyStr.strip).filter (· ≠ "")

/-- The names `SSHRunner` gives to the policy: `(host, *accepted_principals)`. -/
def HostRow.names (row : HostRow) : List String :=
  row.hostname :: knownPrincipals row.hostCertPrincipals

/-- `host_cert_principals` as `_persist_host_cert` writes it. -/
def persistHostCert (cert : HostCert) : Option String := some (",".intercalate cert.principals)

section

variable (lib : Library)

/-- The principal check of `KnownHostsCAPolicy`, in a session that was opened for `row`. -/
def passesPrincipalCheck (row : HostRow) (cert : HostCert) : Bool :=
  (cert.principals.map (normalisePrincipal lib)).any
    (((acceptedNames (some row.names) row.hostname).map (normalisePrincipal lib)).contains ·)

/-- `name` is, after normalisation, one of the names recorded in `text`. -/
def Recorded (text : Option String) (name : String) : Prop :=
  ∃ known ∈ knownPrincipals text, normalisePrincipal lib name = normalisePrincipal lib known

instance (text : Option String) (name : String) : Decidable (Recorded lib text name) :=
  inferInstanceAs (Decidable (∃ known ∈ knownPrincipals text, _ = _))

/-- `name` is, after normalisation, the hostname of the row or one of the recorded names. -/
def Known (row : HostRow) (name : String) : Prop :=
  normalisePrincipal lib name = normalisePrincipal lib row.hostname ∨
    Recorded lib row.hostCertPrincipals name

instance (row : HostRow) (name : String) : Decidable (Known lib row name) :=
  inferInstanceAs (Decidable (_ ∨ _))

variable {lib}

/-- It is the check that the policy makes on the parsed certificate. -/
theorem passesPrincipalCheck_iff {row : HostRow} {cert : HostCert} {policy : KnownHostsCAPolicy}
    {caPublicKey : String}
    (hpolicy : KnownHostsCAPolicy.init lib caPublicKey (some row.names) = .ok policy)
    {offered : SSHCertificate}
    (hoffered : offered.validPrincipals.map lib.decodeReplace = cert.principals) :
    passesPrincipalCheck lib row cert = true ↔
      ∃ p ∈ offered.validPrincipals,
        normalisePrincipal lib (lib.decodeReplace p) ∈ policy.accepted lib row.hostname := by
  rw [issuedFor_iff hpolicy, passesPrincipalCheck, ← hoffered, List.any_map, List.any_map,
    List.any_eq_true]
  refine exists_congr fun p ↦ and_congr_right fun _ ↦ ?_
  rw [Function.comp_apply, Function.comp_apply, List.contains_iff_mem, List.mem_map]
  refine exists_congr fun name ↦ and_congr_right fun _ ↦ ?_
  exact eq_comm

theorem mem_knownPrincipals {text : Option String} {name : String}
    (h : name ∈ knownPrincipals text) : PyStr.strip name ≠ "" := by
  rw [knownPrincipals, List.mem_filter, List.mem_map] at h
  obtain ⟨⟨piece, -, rfl⟩, hne⟩ := h
  rw [PyStr.strip_strip]
  exact of_decide_eq_true hne

/-- A certificate for a known name passes the check.  A blank hostname is the exception: the policy
ignores it. -/
theorem passesPrincipalCheck_of_known {row : HostRow} {cert : HostCert} {name : String}
    (hmem : name ∈ cert.principals) (hknown : Known lib row name)
    (hblank : PyStr.strip row.hostname ≠ "") : passesPrincipalCheck lib row cert = true := by
  obtain ⟨given, hgiven, hstrip, hsame⟩ : ∃ given ∈ row.names, PyStr.strip given ≠ "" ∧
      normalisePrincipal lib name = normalisePrincipal lib given := by
    rcases hknown with hhost | ⟨known, hmem, hsame⟩
    · exact ⟨row.hostname, List.mem_cons_self, hblank, hhost⟩
    · exact ⟨known, List.mem_cons_of_mem _ hmem, mem_knownPrincipals hmem, hsame⟩
  have haccepted : given ∈ acceptedNames (some row.names) row.hostname :=
    List.mem_filter.mpr ⟨hgiven, decide_eq_true hstrip⟩
  rw [passesPrincipalCheck, List.any_map, List.any_eq_true]
  refine ⟨name, hmem, ?_⟩
  rw [Function.comp_apply, List.contains_iff_mem, hsame]
  exact List.mem_map_of_mem haccepted

end

/-! ## The tasks -/

/-- A task that installs a certificate.  A provision may come with the operator's key, and then
begins with a bootstrap session. -/
inductive HostTask
  | provision (bootstrap : Bool)
  | rotate
  deriving DecidableEq

/-- What a task does between loading the row and committing. -/
inductive Op
  /-- Enter the `BootstrapSSHRunner`, which trusts the host on first use. -/
  | openBootstrap
  /-- Enter the `SSHRunner`, under `KnownHostsCAPolicy`. -/
  | openRunner
  /-- `provision_server` or `provision_client`. -/
  | configure
  | readHostPubkey
  | mintHostCert
  | writeCaPub
  | writeHostCert
  | writeDropin
  | reloadSshd
  /-- `_persist_host_cert`: assign the columns in the session. -/
  | persistHostCert
  /-- Leave the runner. -/
  | close
  deriving DecidableEq

/-- `_install_host_cert_files`. -/
def installHostCertFiles : List Op :=
  [.readHostPubkey, .mintHostCert, .writeCaPub, .writeHostCert, .writeDropin, .reloadSshd]

/-- `_run_bootstrap_if_supplied`. -/
def runBootstrapIfSupplied (bootstrap : Bool) : List Op :=
  if bootstrap then .openBootstrap :: installHostCertFiles ++ [.close] else []

/-- The `try` block of a task. -/
def HostTask.script : HostTask → List Op
  | provision bootstrap => runBootstrapIfSupplied bootstrap ++ [.openRunner, .configure] ++
      installHostCertFiles ++ [.persistHostCert, .close]
  | rotate => [.openRunner] ++ installHostCertFiles ++ [.persistHostCert, .close]

/-! ## The files -/

/-- The three files. -/
inductive HostFile
  /-- `HOST_CA_PUB_PATH` -/
  | caPub
  /-- `HOST_CERT_PATH` -/
  | hostCert
  /-- `SSHD_DROPIN_PATH` -/
  | dropin
  deriving DecidableEq

def HostFile.path : HostFile → String
  | caPub => "/etc/ssh/wg-manager-user-ca.pub"
  | hostCert => "/etc/ssh/ssh_host_ed25519_key-cert.pub"
  | dropin => "/etc/ssh/sshd_config.d/wg-manager.conf"

/-- `_SSHD_DROPIN_TEMPLATE`, formatted. -/
def sshdDropin : String :=
  "# Managed by wg-manager (Phase 2c CP3). Do not hand-edit.\n" ++
  "#\n" ++
  "# TrustedUserCAKeys tells sshd to accept user certificates signed by\n" ++
  "# the listed CA(s) as a substitute for entries in authorized_keys.\n" ++
  "# HostCertificate makes sshd present a CA-signed host certificate\n" ++
  "# during the SSH handshake so clients using KnownHostsCAPolicy can\n" ++
  "# verify the host without TOFU.\n" ++
  s!"TrustedUserCAKeys {HostFile.caPub.path}\n" ++
  s!"HostCertificate {HostFile.hostCert.path}\n"

/-- The CA, and the host with its `sshd`. -/
structure Site where
  caPublicKey : String
  /-- `cert_pem` of a certificate for these names; nothing else in it matters here. -/
  certPem : List String → String
  /-- The mask of the shell that runs `tee`. -/
  umask : ℕ
  /-- The certificate in a text, if it is one. -/
  readCert : List Char → Option HostCert

/-- A certificate that is written as the tasks do is read back. -/
def Site.ReadsBack (site : Site) : Prop :=
  ∀ name, site.readCert (site.certPem [name] ++ "\n").toList = some ⟨[name]⟩

/-- The files on the host. -/
abbrev Files := HostFile → Option File

/-- `tee`, when it has got this text. -/
def Site.tee (site : Site) (file : HostFile) (text : List Char) (files : Files) : Files :=
  write text file (truncate site.umask file files)

/-- `write_file` with mode 644. -/
def Site.writeFile (site : Site) (file : HostFile) (text : List Char) (files : Files) : Files :=
  chmod 0o644 file (site.tee file text files)

@[simp] theorem Site.text_writeFile_same (site : Site) (file : HostFile) (text : List Char)
    (files : Files) : (site.writeFile file text files file).map File.text = some text := by
  simp [Site.writeFile, Site.tee]

@[simp] theorem Site.tee_of_ne (site : Site) {file other : HostFile} (h : other ≠ file)
    (text : List Char) (files : Files) : site.tee file text files other = files other := by
  simp [Site.tee, h]

@[simp] theorem Site.writeFile_of_ne (site : Site) {file other : HostFile} (h : other ≠ file)
    (text : List Char) (files : Files) : site.writeFile file text files other = files other := by
  simp [Site.writeFile, h]

/-! ## The runs of the tasks -/

/-- What the tasks, the handlers and the host share. -/
structure Shared where
  /-- The committed row. -/
  row : HostRow
  files : Files := fun _ ↦ none
  /-- The process that holds the row lock. -/
  lock : Option ℕ := none
  /-- Whether a provision was ever committed.  No step reads it. -/
  provisioned : Bool := false

/-- What the certificate file on the host holds. -/
def Shared.hostCert (site : Site) (g : Shared) : Option HostCert :=
  (g.files .hostCert).bind fun f ↦ site.readCert f.text

/-- A task inside its `try` block: the row as it was loaded, and what is left of the script. -/
structure Work where
  task : HostTask
  row : HostRow
  todo : List Op
  deriving DecidableEq

namespace Work

/-- The certificate a run mints: for the hostname it has loaded. -/
def cert (w : Work) : HostCert := HostCerts.mintHostCert [w.row.hostname]

/-- The columns have been assigned: the next commit writes them. -/
def Persisted (w : Work) : Prop := Op.persistHostCert ∉ w.todo

instance (w : Work) : Decidable w.Persisted := inferInstanceAs (Decidable (_ ∉ _))

/-- What a call writes. -/
def content (site : Site) (w : Work) : Op → Option (HostFile × String)
  | .writeCaPub => some (.caPub, site.caPublicKey ++ "\n")
  | .writeHostCert => some (.hostCert, site.certPem w.cert.principals ++ "\n")
  | .writeDropin => some (.dropin, sshdDropin)
  | _ => none

/-- What a call does on the host. -/
def effect (site : Site) (w : Work) (op : Op) (g : Shared) : Shared :=
  match w.content site op with
  | none => g
  | some (file, text) => { g with files := site.writeFile file text.toList g.files }

/-- What a call does on the host when the session drops after `n` characters of what it writes. -/
def cut (site : Site) (w : Work) (op : Op) (n : ℕ) (g : Shared) : Shared :=
  match w.content site op with
  | none => g
  | some (file, text) => { g with files := site.tee file (text.toList.take n) g.files }

/-- `session.commit()`, with the columns that were assigned. -/
def commit (w : Work) (g : Shared) : Shared :=
  if w.Persisted then { g with row.hostCertPrincipals := persistHostCert w.cert } else g

end Work

inductive Proc
  | waiting (task : HostTask)
  | locked (task : HostTask)
  | working (w : Work)
  /-- In the `except` branch. -/
  | failed (w : Work)
  /-- Only the lock is left to be released. -/
  | finished
  deriving DecidableEq

/-- How far a call had come that fails. -/
inductive Failure
  | before
  /-- `tee` had emptied its file and written the first `n` characters. -/
  | during (n : ℕ)
  | after
  deriving DecidableEq

inductive Action
  /-- `PATCH` with a new hostname. -/
  | patch (hostname : String)
  | deliver (task : HostTask)
  | acquire
  /-- The lock was not granted. -/
  | skip
  | load
  /-- The next call of the script goes through.  `presented` is the certificate sshd presents, when
  the call opens a session; it is the one sshd has last loaded. -/
  | perform (presented : HostCert)
  /-- The next call fails. -/
  | fail (failure : Failure)
  /-- The commit at the end of the task; `ok` says whether it goes through. -/
  | commit (ok : Bool)
  /-- The `except` branch: `_mark_error` if the task provisions, and `ok` says whether its commit
  goes through. -/
  | giveUp (ok : Bool)
  | release
  /-- The worker is lost, and its lock with it. -/
  | lost
  deriving DecidableEq

/-- One step of process `i`, or of the handler that it stands for while it has not started. -/
def procStep (lib : Library) (site : Site) (i : ℕ) (g : Shared) :
    Option Proc → Action → Option (Shared × Option Proc)
  | none, .patch hostname => some ({ g with row.hostname := hostname }, none)
  | none, .deliver task => some (g, some (.waiting task))
  | some (.waiting task), .acquire =>
    if g.lock = none then some ({ g with lock := some i }, some (.locked task)) else none
  | some (.waiting _), .skip => some (g, none)
  | some (.locked task), .load => some (g, some (.working ⟨task, g.row, task.script⟩))
  | some (.working ⟨task, row, op :: rest⟩), .perform presented =>
    if op = .openRunner ∧ passesPrincipalCheck lib row presented = false then none
    else some (Work.effect site ⟨task, row, rest⟩ op g, some (.working ⟨task, row, rest⟩))
  | some (.working ⟨task, row, op :: rest⟩), .fail .after =>
    some (Work.effect site ⟨task, row, rest⟩ op g, some (.failed ⟨task, row, rest⟩))
  | some (.working ⟨task, row, op :: rest⟩), .fail (.during n) =>
    some (Work.cut site ⟨task, row, rest⟩ op n g, some (.failed ⟨task, row, op :: rest⟩))
  | some (.working ⟨task, row, op :: rest⟩), .fail .before =>
    some (g, some (.failed ⟨task, row, op :: rest⟩))
  | some (.working ⟨task, row, []⟩), .commit true =>
    let g' := Work.commit ⟨task, row, []⟩ g
    some ({ g' with provisioned := g.provisioned || task ≠ .rotate }, some .finished)
  | some (.working ⟨_, _, []⟩), .commit false => some (g, some .finished)
  | some (.failed w), .giveUp ok =>
    some (if w.task ≠ .rotate ∧ ok = true then w.commit g else g, some .finished)
  | some .finished, .release => some ({ g with lock := none }, none)
  | some (.waiting _), .lost => some (g, none)
  | some _, .lost => some ({ g with lock := none }, none)
  | _, _ => none

abbrev System := Config Shared Proc

def step (lib : Library) (site : Site) : System → ℕ × Action → Option System :=
  Config.step (procStep lib site)

/-- A registered row before its first task.  The host may carry any files. -/
def initial (row : HostRow) (files : Files) : System where
  shared := { row, files }
  proc _ := none

/-! ## What keeps a host reachable -/

namespace Work

variable {w : Work}

theorem commit_of_persisted (h : w.Persisted) (g : Shared) :
    w.commit g = { g with row.hostCertPrincipals := persistHostCert w.cert } := if_pos h

theorem mem_todo_of_suffix {ops rest : List Op} {op : Op}
    (h : w.todo <:+ ops ++ op :: rest) : op ∈ w.todo ∨ w.todo <:+ rest := by
  rcases List.suffix_or_suffix_of_suffix h (List.suffix_append ops (op :: rest)) with hle | hge
  · rcases List.suffix_cons_iff.mp hle with heq | hrest
    · exact .inl (heq ▸ List.mem_cons_self)
    · exact .inr hrest
  · exact .inl (hge.subset List.mem_cons_self)

/-- The certificate is written before the columns are assigned. -/
theorem written_of_persisted (hsuffix : w.todo <:+ w.task.script) (h : w.Persisted) :
    Op.writeHostCert ∉ w.todo := by
  obtain ⟨ops, hops⟩ : ∃ ops, w.task.script = ops ++ Op.persistHostCert :: [.close] := by
    cases w.task with
    | provision bootstrap => exact ⟨_, rfl⟩
    | rotate => exact ⟨_, rfl⟩
  rw [hops] at hsuffix
  rcases mem_todo_of_suffix hsuffix with hmem | hclose
  · exact absurd hmem h
  · intro hwrite
    exact absurd (hclose.subset hwrite) (by decide)

end Work

theorem writeHostCert_mem_script (task : HostTask) : Op.writeHostCert ∈ task.script := by
  cases task with
  | provision bootstrap => cases bootstrap <;> decide
  | rotate => decide

/-- The run that a process may still bring to effect, on the host or in the record. -/
def Proc.pending : Proc → Option Work
  | working w => some w
  | failed w => if w.Persisted then some w else none
  | _ => none

/-- The hostname a `PATCH` sets. -/
def Action.patched : Action → Option String
  | patch hostname => some hostname
  | _ => none

def Proc.HoldsLock : Proc → Prop
  | waiting _ => False
  | _ => True

/-- Whether the next call of a process writes the certificate file. -/
def Proc.writesHostCert : Proc → Bool
  | working ⟨_, _, op :: _⟩ => op == .writeHostCert
  | _ => false

/-- Whether a step cuts a write short. -/
def Action.cutsWrite : Action → Bool
  | fail (.during _) => true
  | _ => false

section

variable (lib : Library) (site : Site)

/-- The certificate file on the host names a host that the row knows. -/
def Covered (g : Shared) : Prop :=
  ∃ cert ∈ g.hostCert site, ∃ name ∈ cert.principals, Known lib g.row name

instance (g : Shared) : Decidable (Covered lib site g) :=
  inferInstanceAs (Decidable (∃ cert ∈ g.hostCert site, _))

/-- The certificate file on the host has a recorded name. -/
def CertRecorded (g : Shared) : Prop :=
  ∃ cert ∈ g.hostCert site, ∃ name ∈ cert.principals, Recorded lib g.row.hostCertPrincipals name

instance (g : Shared) : Decidable (CertRecorded lib site g) :=
  inferInstanceAs (Decidable (∃ cert ∈ g.hostCert site, _))

/-- The name that a run certifies is one of the names it records.  A hostname with a comma in it is
not. -/
def Work.Records (w : Work) : Prop := Recorded lib (persistHostCert w.cert) w.row.hostname

instance (w : Work) : Decidable (w.Records lib) :=
  inferInstanceAs (Decidable (Recorded lib _ _))

/-- When a `PATCH` may change the hostname: the certificate on the host is recorded, and a run that
holds the row lock and may still install its certificate, or record it, is for a recorded name
too.  Neither matters if the hostname stays the same after normalisation, and what is on the host
does not matter before the first provision. -/
def RenameOk (s : System) (e : ℕ × Action) : Prop :=
  ∀ hostname ∈ e.2.patched,
    normalisePrincipal lib hostname = normalisePrincipal lib s.shared.row.hostname ∨
      (s.shared.provisioned = true → CertRecorded lib site s.shared) ∧
        ∀ i ∈ s.shared.lock, ∀ p ∈ s.proc i, ∀ w ∈ p.pending, w.Records lib ∧
          (s.shared.provisioned = true →
            Recorded lib s.shared.row.hostCertPrincipals w.row.hostname)

instance (s : System) (e : ℕ × Action) : Decidable (RenameOk lib site s e) :=
  inferInstanceAs (Decidable (∀ hostname ∈ e.2.patched, _ ∨ _))

/-- Once the node is provisioned, no write of its certificate file is cut short. -/
def WritesWhole (s : System) (e : ℕ × Action) : Prop :=
  s.shared.provisioned = true → e.2.cutsWrite = true → ∀ p ∈ s.proc e.1, p.writesHostCert = false

instance (s : System) (e : ℕ × Action) : Decidable (WritesWhole s e) :=
  inferInstanceAs (Decidable (_ → _ → ∀ p ∈ s.proc e.1, _))

/-- What every step has to meet. -/
def StepOk (s : System) (e : ℕ × Action) : Prop := RenameOk lib site s e ∧ WritesWhole s e

instance (s : System) (e : ℕ × Action) : Decidable (StepOk lib site s e) :=
  inferInstanceAs (Decidable (_ ∧ _))

/-- What holds of a run before it has come to its end. -/
structure WorkOk (g : Shared) (w : Work) : Prop where
  suffix : w.todo <:+ w.task.script
  /-- Once nothing is left to be written, its certificate is on the host. -/
  written : Op.writeHostCert ∈ w.todo ∨ g.hostCert site = some w.cert
  /-- The row knows the name that the run certifies, -/
  known : g.provisioned = true → Known lib g.row w.row.hostname
  /-- and will know it when the run has recorded it. -/
  records : normalisePrincipal lib w.row.hostname = normalisePrincipal lib g.row.hostname ∨
    w.Records lib

structure ProcOk (i : ℕ) (g : Shared) (p : Proc) : Prop where
  lock : p.HoldsLock → g.lock = some i
  work : ∀ w, p.pending = some w → WorkOk lib site g w

/-- The invariant of the shared state. -/
def SharedOk (g : Shared) : Prop := g.provisioned = true → Covered lib site g

end

section

variable {lib : Library} {site : Site} {g : Shared} {w : Work} {i j : ℕ} {p : Proc}

/-- A process that does not hold the lock does not depend on what is shared. -/
theorem ProcOk.of_lock_ne (h : ProcOk lib site j g p) (hlock : g.lock ≠ some j) (g' : Shared) :
    ProcOk lib site j g' p := by
  have hwait : ¬p.HoldsLock := fun hp ↦ hlock (h.lock hp)
  cases p with
  | waiting task => exact ⟨fun hp ↦ hp.elim, fun w hw ↦ nomatch hw⟩
  | locked task => exact absurd trivial hwait
  | working w => exact absurd trivial hwait
  | failed w => exact absurd trivial hwait
  | finished => exact absurd trivial hwait

theorem covered_cert (hcert : g.hostCert site = some w.cert)
    (hknown : Known lib g.row w.row.hostname) : Covered lib site g :=
  ⟨w.cert, hcert, w.row.hostname, List.mem_singleton_self _, hknown⟩

/-- What a step changes that is no write of the certificate, nothing here depends on. -/
structure SameHost (site : Site) (g g' : Shared) : Prop where
  row : g'.row = g.row
  hostCert : g'.hostCert site = g.hostCert site
  lock : g'.lock = g.lock
  provisioned : g'.provisioned = g.provisioned

theorem SameHost.sharedOk {g' : Shared} (h : SameHost site g g') (hg : SharedOk lib site g) :
    SharedOk lib site g' := by
  rw [SharedOk, Covered, h.provisioned, h.hostCert, h.row]
  exact hg

theorem SameHost.workOk {g' : Shared} (h : SameHost site g g') (hw : WorkOk lib site g w) :
    WorkOk lib site g' w where
  suffix := hw.suffix
  written := h.hostCert ▸ hw.written
  known := h.row ▸ h.provisioned ▸ hw.known
  records := h.row ▸ hw.records

theorem row_effect (op : Op) : (w.effect site op g).row = g.row := by
  rw [Work.effect]
  split <;> rfl

theorem lock_effect (op : Op) : (w.effect site op g).lock = g.lock := by
  rw [Work.effect]
  split <;> rfl

theorem provisioned_effect (op : Op) : (w.effect site op g).provisioned = g.provisioned := by
  rw [Work.effect]
  split <;> rfl

/-- The certificate that is written whole is the one on the host. -/
theorem hostCert_effect (hsite : site.ReadsBack) (w : Work) (g : Shared) :
    (w.effect site .writeHostCert g).hostCert site = some w.cert := by
  obtain ⟨f, hf, htext⟩ := Option.map_eq_some_iff.mp (site.text_writeFile_same .hostCert
    (site.certPem w.cert.principals ++ "\n").toList g.files)
  show (site.writeFile .hostCert _ g.files .hostCert).bind _ = _
  rw [hf, Option.bind_some, htext]
  exact hsite w.row.hostname

theorem file_ne_of_content {op : Op} {file : HostFile} {text : String} (hop : op ≠ .writeHostCert)
    (h : w.content site op = some (file, text)) : HostFile.hostCert ≠ file := by
  rintro rfl
  cases op <;> simp_all [Work.content]

/-- The other calls leave it alone, -/
theorem sameHost_effect (site : Site) (w : Work) (g : Shared) {op : Op}
    (hop : op ≠ .writeHostCert) : SameHost site g (w.effect site op g) := by
  refine ⟨row_effect op, ?_, lock_effect op, provisioned_effect op⟩
  rw [Work.effect]
  split
  · rfl
  · next hcontent =>
    simp only [Shared.hostCert, site.writeFile_of_ne (file_ne_of_content hop hcontent)]

/-- also when they are cut short. -/
theorem sameHost_cut (site : Site) (w : Work) (g : Shared) {op : Op}
    (hop : op ≠ .writeHostCert) (n : ℕ) : SameHost site g (w.cut site op n g) := by
  rw [Work.cut]
  split
  · exact ⟨rfl, rfl, rfl, rfl⟩
  · next hcontent =>
    refine ⟨rfl, ?_, rfl, rfl⟩
    simp only [Shared.hostCert, site.tee_of_ne (file_ne_of_content hop hcontent)]

/-- A call of the script keeps the host covered, and the run in order. -/
theorem effect_ok (hsite : site.ReadsBack) {task : HostTask} {row : HostRow} {op : Op}
    {rest : List Op} (hg : SharedOk lib site g) (hw : WorkOk lib site g ⟨task, row, op :: rest⟩) :
    SharedOk lib site (Work.effect site ⟨task, row, rest⟩ op g) ∧
      WorkOk lib site (Work.effect site ⟨task, row, rest⟩ op g) ⟨task, row, rest⟩ := by
  have hsuffix : rest <:+ task.script := (List.suffix_cons op rest).trans hw.suffix
  by_cases hop : op = .writeHostCert
  · subst hop
    have hcert := hostCert_effect hsite ⟨task, row, rest⟩ g
    exact ⟨fun hp ↦ covered_cert hcert (hw.known hp), hsuffix, .inr hcert, hw.known, hw.records⟩
  · have hsame := sameHost_effect site ⟨task, row, rest⟩ g hop
    refine ⟨hsame.sharedOk hg, hsame.workOk ⟨hsuffix, ?_, hw.known, hw.records⟩⟩
    rcases hw.written with hmem | hcert
    · exact .inl ((List.mem_cons.mp hmem).resolve_left (Ne.symm hop))
    · exact .inr hcert

/-- A write that is cut short does no harm, unless the node is provisioned and it is the write of
the certificate. -/
theorem cut_ok {task : HostTask} {row : HostRow} {op : Op} {rest : List Op} (n : ℕ)
    (hwhole : g.provisioned = true → op ≠ .writeHostCert) (hg : SharedOk lib site g)
    (hw : WorkOk lib site g ⟨task, row, op :: rest⟩) :
    SharedOk lib site (Work.cut site ⟨task, row, rest⟩ op n g) ∧
      WorkOk lib site (Work.cut site ⟨task, row, rest⟩ op n g) ⟨task, row, op :: rest⟩ := by
  by_cases hop : op = .writeHostCert
  · subst hop
    have hfirst : g.provisioned ≠ true := fun hp ↦ hwhole hp rfl
    exact ⟨fun hp ↦ absurd hp hfirst, hw.suffix, .inl List.mem_cons_self, hw.known, hw.records⟩
  · have hsame := sameHost_cut site ⟨task, row, rest⟩ g hop n
    exact ⟨hsame.sharedOk hg, hsame.workOk hw⟩

theorem lock_cut (op : Op) (n : ℕ) : (w.cut site op n g).lock = g.lock := by
  rw [Work.cut]
  split <;> rfl

/-- Once the record is committed, the certificate on the host is one the row knows. -/
theorem commit_covered (hw : WorkOk lib site g w) (hp : w.Persisted) :
    Covered lib site (w.commit g) := by
  have hcert : g.hostCert site = some w.cert :=
    hw.written.resolve_left (Work.written_of_persisted hw.suffix hp)
  rw [Work.commit_of_persisted hp]
  exact covered_cert (w := w) hcert hw.records

theorem lock_commit : (w.commit g).lock = g.lock := by
  rw [Work.commit]
  split <;> rfl

/-- What a rename has to leave alone. -/
theorem Known.rename {name hostname : String} (hknown : Known lib g.row name)
    (h : normalisePrincipal lib hostname = normalisePrincipal lib g.row.hostname ∨
      Recorded lib g.row.hostCertPrincipals name) :
    Known lib { g.row with hostname } name := by
  rcases h with hsame | hrecorded
  · rcases hknown with hhost | hrecorded
    · exact .inl (hhost.trans hsame.symm)
    · exact .inr hrecorded
  · exact .inr hrecorded

/-- A `PATCH` that meets the condition. -/
theorem patch_ok {s : System} {hostname : String}
    (hs : Config.Inv (SharedOk lib site) (ProcOk lib site) s)
    (hok : RenameOk lib site s (i, .patch hostname)) :
    SharedOk lib site { s.shared with row.hostname := hostname } ∧
      ∀ j p, s.proc j = some p →
        ProcOk lib site j { s.shared with row.hostname := hostname } p := by
  have hrename := hok hostname rfl
  constructor
  · intro hprovisioned
    obtain ⟨cert, hcert, name, hname, hknown⟩ := hs.shared hprovisioned
    rcases hrename with hsame | ⟨hrecorded, -⟩
    · exact ⟨cert, hcert, name, hname, hknown.rename (.inl hsame)⟩
    · obtain ⟨cert, hcert, name, hname, hname'⟩ := hrecorded hprovisioned
      exact ⟨cert, hcert, name, hname, .inr hname'⟩
  · intro j p hp
    have hproc := hs.proc j p hp
    refine ⟨hproc.lock, fun w hw ↦ ?_⟩
    have hwork := hproc.work w hw
    have hholds : p.HoldsLock := by
      cases p with
      | waiting task => cases hw
      | _ => trivial
    rcases hrename with hsame | ⟨-, hpending⟩
    · refine ⟨hwork.suffix, hwork.written, fun h ↦ (hwork.known h).rename (.inl hsame), ?_⟩
      exact hwork.records.imp_left fun h ↦ h.trans hsame.symm
    · obtain ⟨hrecords, hrecorded⟩ := hpending j (hproc.lock hholds) p hp w hw
      exact ⟨hwork.suffix, hwork.written, fun h ↦ .inr (hrecorded h), .inr hrecords⟩

theorem procStep_patch {q p' : Option Proc} {hostname : String} {g' : Shared}
    (h : procStep lib site i g q (.patch hostname) = some (g', p')) :
    q = none ∧ p' = none ∧ g' = { g with row.hostname := hostname } := by
  unfold procStep at h
  split at h <;> simp_all

/-- A process with nothing to do on the host. -/
theorem procOk_idle {p : Proc} (hlock : p.HoldsLock → g.lock = some i) (hp : p.pending = none) :
    ProcOk lib site i g p where
  lock := hlock
  work w hw := by
    rw [hp] at hw
    cases hw

theorem procOk_working (hlock : g.lock = some i) (hw : WorkOk lib site g w) :
    ProcOk lib site i g (.working w) where
  lock _ := hlock
  work := by
    rintro _ ⟨⟩
    exact hw

/-- What a failed task still has to do, it has if it has come far enough. -/
theorem procOk_failed (hlock : g.lock = some i) (hw : WorkOk lib site g w) :
    ProcOk lib site i g (.failed w) where
  lock _ := hlock
  work _ hpending := by
    rw [Proc.pending, Option.ite_none_right_eq_some] at hpending
    obtain ⟨-, ⟨⟩⟩ := hpending
    exact hw

/-- What a task that gives up may still commit: the record of a certificate that is on the host. -/
theorem giveUp_ok (hg : SharedOk lib site g) (hfailed : ProcOk lib site i g (.failed w)) :
    SharedOk lib site (w.commit g) := by
  by_cases hp : w.Persisted
  · intro _
    exact commit_covered (hfailed.work w (if_pos hp)) hp
  · rw [Work.commit, if_neg hp]
    exact hg

/-- A step that leaves its process in order. -/
theorem own_some {g' : Shared} {p : Proc} (hg : SharedOk lib site g')
    (hp : ProcOk lib site i g' p) (hlock : g' = g ∨ g.lock = none ∨ g.lock = some i) :
    SharedOk lib site g' ∧ (∀ q, some p = some q → ProcOk lib site i g' q) ∧
      (g' = g ∨ g.lock = none ∨ g.lock = some i) := by
  refine ⟨hg, ?_, hlock⟩
  rintro _ ⟨⟩
  exact hp

/-- A step of a task: the process that takes it stays in order, and what is shared changes only when
it takes the lock or holds it. -/
theorem own_ok (hsite : site.ReadsBack) {q p' : Option Proc} {a : Action} {g' : Shared}
    (h : procStep lib site i g q a = some (g', p')) (ha : a.patched = none)
    (hwhole : g.provisioned = true → a.cutsWrite = true → ∀ p ∈ q, p.writesHostCert = false)
    (hg : SharedOk lib site g)
    (hq : ∀ p, q = some p → ProcOk lib site i g p) :
    SharedOk lib site g' ∧ (∀ p, p' = some p → ProcOk lib site i g' p) ∧
      (g' = g ∨ g.lock = none ∨ g.lock = some i) := by
  unfold procStep at h
  split at h
  · cases ha
  · -- a task is delivered
    cases h
    exact own_some hg (procOk_idle False.elim rfl) (.inl rfl)
  · -- it gets the lock
    split at h
    · next hfree =>
      cases h
      exact own_some hg (procOk_idle (fun _ ↦ rfl) rfl) (.inr (.inl hfree))
    · cases h
  · cases h
    exact ⟨hg, nofun, .inl rfl⟩
  · -- it loads the row
    have hlock := (hq _ rfl).lock trivial
    cases h
    refine own_some hg (procOk_working hlock ?_) (.inl rfl)
    exact ⟨List.suffix_rfl, .inl (writeHostCert_mem_script _), fun _ ↦ .inl rfl, .inl rfl⟩
  · -- a call goes through
    split at h
    · cases h
    · have hlock := (hq _ rfl).lock trivial
      have heffect := effect_ok hsite hg ((hq _ rfl).work _ rfl)
      cases h
      exact own_some heffect.1 (procOk_working ((lock_effect _).trans hlock) heffect.2)
        (.inr (.inr hlock))
  · -- a call fails, after it has taken effect
    have hlock := (hq _ rfl).lock trivial
    have heffect := effect_ok hsite hg ((hq _ rfl).work _ rfl)
    cases h
    exact own_some heffect.1 (procOk_failed ((lock_effect _).trans hlock) heffect.2)
      (.inr (.inr hlock))
  · -- a call is cut short
    next task row op rest n =>
    have hlock : g.lock = some i := (hq _ rfl).lock trivial
    have hwork := (hq _ rfl).work _ rfl
    have hother : g.provisioned = true → op ≠ .writeHostCert := by
      rintro hp rfl
      exact absurd (hwhole hp rfl _ rfl) (by simp [Proc.writesHostCert])
    obtain ⟨hshared, hwork⟩ := cut_ok n hother hg hwork
    cases h
    exact own_some hshared (procOk_failed ((lock_cut _ _).trans hlock) hwork) (.inr (.inr hlock))
  · -- a call fails
    have hproc := hq _ rfl
    cases h
    exact own_some hg (procOk_failed (hproc.lock trivial) (hproc.work _ rfl)) (.inl rfl)
  · -- the task commits
    have hproc := hq _ rfl
    have hcovered := commit_covered (hproc.work _ rfl) List.not_mem_nil
    cases h
    exact own_some (fun _ ↦ hcovered)
      (procOk_idle (fun _ ↦ lock_commit.trans (hproc.lock trivial)) rfl)
      (.inr (.inr (hproc.lock trivial)))
  · -- its commit fails
    have hproc := hq _ rfl
    cases h
    exact own_some hg (procOk_idle (fun _ ↦ hproc.lock trivial) rfl) (.inl rfl)
  · -- it gives up
    next w ok =>
    have hproc := hq _ rfl
    have hlock : g.lock = some i := hproc.lock trivial
    cases h
    split
    · exact own_some (giveUp_ok hg hproc) (procOk_idle (fun _ ↦ lock_commit.trans hlock) rfl)
        (.inr (.inr hlock))
    · exact own_some hg (procOk_idle (fun _ ↦ hlock) rfl) (.inl rfl)
  · have hlock := (hq _ rfl).lock trivial
    cases h
    exact ⟨hg, nofun, .inr (.inr hlock)⟩
  · cases h
    exact ⟨hg, nofun, .inl rfl⟩
  · -- its worker is lost
    next p hwait =>
    have hlock : g.lock = some i := (hq p rfl).lock (by
      cases p with
      | waiting task => exact absurd rfl (hwait task)
      | _ => trivial)
    cases h
    exact ⟨hg, nofun, .inr (.inr hlock)⟩
  · cases h

theorem inv_step (hsite : site.ReadsBack) {s s' : System} {e : ℕ × Action}
    (hs : Config.Inv (SharedOk lib site) (ProcOk lib site) s) (hok : StepOk lib site s e)
    (h : step lib site s e = some s') : Config.Inv (SharedOk lib site) (ProcOk lib site) s' := by
  cases hpatch : e.2.patched with
  | none =>
    refine Config.inv_step hs h fun g' p' hmove ↦ ?_
    obtain ⟨hshared, hown, hlock⟩ := own_ok hsite hmove hpatch hok.2 hs.shared (hs.proc e.1)
    refine ⟨hshared, hown, fun j q hj hq ↦ ?_⟩
    rcases hlock with rfl | hfree | hheld
    · exact hq
    · exact hq.of_lock_ne (by simp [hfree]) g'
    · exact hq.of_lock_ne (by simpa [hheld] using hj.symm) g'
  | some hostname =>
    obtain ⟨i, a⟩ := e
    cases a <;> cases hpatch
    obtain ⟨g', p', hmove, rfl⟩ := Config.step_eq_some.mp h
    obtain ⟨hshared, hprocs⟩ := patch_ok hs hok.1
    obtain ⟨hi, rfl, rfl⟩ := procStep_patch hmove
    refine ⟨hshared, fun j q hq ↦ hprocs j q ?_⟩
    rwa [← hi, Function.update_eq_self] at hq

theorem inv_initial (row : HostRow) (files : Files) :
    Config.Inv (SharedOk lib site) (ProcOk lib site) (initial row files) :=
  ⟨nofun, nofun⟩

/-- **A host stays reachable.**  In every run whose renames all meet the condition, and in which no
write of the certificate is cut short once the node is provisioned: from the first committed
provision on, some name of the certificate on the host is the hostname of the row or one of the
recorded names.  So the next session passes the principal check, which is the one that the policy of
the session makes on the certificate it is offered. -/
theorem host_stays_reachable (hsite : site.ReadsBack) {row : HostRow} {files : Files} {s : System}
    {es : List (ℕ × Action)}
    (hok : Run.Meets (step lib site) (StepOk lib site) (initial row files) es)
    (h : Run.run (step lib site) (initial row files) es = some s)
    (hprovisioned : s.shared.provisioned = true) :
    ∃ cert, s.shared.hostCert site = some cert ∧
      (∃ name ∈ cert.principals, Known lib s.shared.row name) ∧
      (PyStr.strip s.shared.row.hostname ≠ "" →
        passesPrincipalCheck lib s.shared.row cert = true ∧
        ∀ caPublicKey policy,
          KnownHostsCAPolicy.init lib caPublicKey (some s.shared.row.names) = .ok policy →
          ∀ offered : SSHCertificate,
            offered.validPrincipals.map lib.decodeReplace = cert.principals →
            ∃ p ∈ offered.validPrincipals, normalisePrincipal lib (lib.decodeReplace p) ∈
              policy.accepted lib s.shared.row.hostname) := by
  have hinv : Config.Inv (SharedOk lib site) (ProcOk lib site) s :=
    Run.run_invariant (fun _ _ _ hs hok h ↦ inv_step hsite hs hok h) (inv_initial row files) hok h
  obtain ⟨cert, hcert, name, hname, hknown⟩ := hinv.shared hprovisioned
  refine ⟨cert, hcert, ⟨name, hname, hknown⟩, fun hblank ↦ ?_⟩
  have hpasses := passesPrincipalCheck_of_known hname hknown hblank
  exact ⟨hpasses, fun caPublicKey policy hpolicy offered hoffered ↦
    (passesPrincipalCheck_iff hpolicy hoffered).mp hpasses⟩

end

/-! ## A run that keeps the host, and one that loses it -/

def exampleRow : HostRow := ⟨"hub.example", none⟩

/-- Names in the place of certificates, for examples. -/
def exampleSite : Site where
  caPublicKey := exampleCaPublicKey
  certPem names := names.headD ""
  umask := 0o022
  readCert text :=
    if text.getLast? = some '\n' then some ⟨[String.ofList text.dropLast]⟩ else none

theorem exampleSite_readsBack : exampleSite.ReadsBack := by
  intro name
  have htext : (exampleSite.certPem [name] ++ "\n").toList = name.toList ++ ['\n'] :=
    String.toList_append
  rw [htext]
  simp [exampleSite]

/-- A task of process `i` that goes through, on a host that presents `presented`. -/
def completed (i : ℕ) (task : HostTask) (presented : HostCert) : List (ℕ × Action) :=
  [(i, .deliver task), (i, .acquire), (i, .load)] ++
    List.replicate task.script.length (i, .perform presented) ++ [(i, .commit true), (i, .release)]

/-- A rotation of process `i` that comes through its first `n` calls, and fails at the next one. -/
def rotationCutShort (i n : ℕ) (failure : Failure) (presented : HostCert) : List (ℕ × Action) :=
  [(i, .deliver .rotate), (i, .acquire), (i, .load)] ++
    List.replicate n (i, .perform presented) ++
      [(i, .fail failure), (i, .giveUp false), (i, .release)]

/-- The hub is provisioned, renamed, certified for its new name, and renamed again. -/
def renamedTwice : List (ℕ × Action) :=
  completed 1 (.provision true) ⟨["hub.example"]⟩ ++ [(2, .patch "hub-a.example")] ++
    completed 3 .rotate ⟨["hub.example"]⟩ ++ [(4, .patch "hub-b.example")]

/-- The same, with a rotation that fails half way: the certificate for the new name is on the host,
and nobody has recorded it. -/
def renamedTooEarly : List (ℕ × Action) :=
  completed 1 (.provision true) ⟨["hub.example"]⟩ ++ [(2, .patch "hub-a.example")] ++
    rotationCutShort 3 5 .before ⟨["hub.example"]⟩ ++ [(4, .patch "hub-b.example")]

/-- The session of a rotation drops when `tee` has emptied the certificate file. -/
def sessionDropped : List (ℕ × Action) :=
  completed 1 (.provision true) ⟨["hub.example"]⟩ ++
    rotationCutShort 3 4 (.during 0) ⟨["hub.example"]⟩

/-- The run of an example. -/
def runOf (es : List (ℕ × Action)) : Option System :=
  Run.run (step exampleLibrary exampleSite) (initial exampleRow fun _ ↦ none) es

theorem host_stays_reachable_renamedTwice :
    ∃ s, runOf renamedTwice = some s ∧
      ∃ cert, s.shared.hostCert exampleSite = some cert ∧
        (∃ name ∈ cert.principals, Known exampleLibrary s.shared.row name) ∧
        (PyStr.strip s.shared.row.hostname ≠ "" →
          passesPrincipalCheck exampleLibrary s.shared.row cert = true) := by
  have hok : Run.Meets (step exampleLibrary exampleSite) (StepOk exampleLibrary exampleSite)
      (initial exampleRow fun _ ↦ none) renamedTwice := by decide +kernel
  have hrun : (runOf renamedTwice).any (·.shared.provisioned) = true := by decide +kernel
  obtain ⟨s, hs, hprovisioned⟩ := (Option.any_eq_true _ _).mp hrun
  obtain ⟨cert, hcert, hknown, hpasses⟩ :=
    host_stays_reachable exampleSite_readsBack hok hs hprovisioned
  exact ⟨s, hs, cert, hcert, hknown, fun hblank ↦ (hpasses hblank).1⟩

/-- **A rename locks the control plane out**: the row knows `hub.example` and `hub-b.example`, and
the certificate on the host is for `hub-a.example`. -/
theorem locked_out :
    ∃ s, runOf renamedTooEarly = some s ∧ s.shared.provisioned = true ∧
      ¬Covered exampleLibrary exampleSite s.shared ∧
      ∀ cert ∈ s.shared.hostCert exampleSite,
        passesPrincipalCheck exampleLibrary s.shared.row cert = false := by
  have hrun : (runOf renamedTooEarly).any (fun s ↦ s.shared.provisioned = true ∧
      ¬Covered exampleLibrary exampleSite s.shared ∧
        ∀ cert ∈ s.shared.hostCert exampleSite,
          passesPrincipalCheck exampleLibrary s.shared.row cert = false) = true := by
    decide +kernel
  obtain ⟨s, hs, hlost⟩ := (Option.any_eq_true _ _).mp hrun
  exact ⟨s, hs, of_decide_eq_true hlost⟩

/-- Without any rename, a write of the certificate that is cut short leaves no name on the host. -/
theorem cut_short :
    ∃ s, runOf sessionDropped = some s ∧ s.shared.provisioned = true ∧
      s.shared.hostCert exampleSite = none := by
  have hrun : (runOf sessionDropped).any (fun s ↦ s.shared.provisioned = true ∧
      s.shared.hostCert exampleSite = none) = true := by decide +kernel
  obtain ⟨s, hs, hlost⟩ := (Option.any_eq_true _ _).mp hrun
  exact ⟨s, hs, of_decide_eq_true hlost⟩

end WgManager.HostCerts
