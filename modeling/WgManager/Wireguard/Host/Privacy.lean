import WgManager.Wireguard.Host

/-!
# What another account of the host can read

The mode of a file in `/etc/wireguard` does not matter, because the directory is closed to everyone
but root before the first file comes into it.  In a run this is so since its own `chmod`, or since
it has found a private key; until then it creates nothing there (`Careful`).  Outside the directory
there are the template and the file for `sysctl`, which no private key ever gets into.
-/

set_option autoImplicit false

namespace WgManager.Host

open Unix

/-! ## The directory -/

/-- After these steps the directory is closed. -/
def Op.secures : Op → Bool
  | .chmodDir | .readKey => true
  | _ => false

/-- The steps that can bring a file into the directory. -/
def Op.creates : Op → Bool
  | .testKey | .openKey | .openPublickey | .openConf _ => true
  | _ => false

/-- The directory is closed before anything is created in it. -/
def Careful (ops : List Op) : Prop := ∀ op ∈ ops.takeWhile (!·.secures), op.creates = false

theorem careful_ops (job : Job) : Careful job.ops := by
  cases job <;> simp [Careful, Job.ops, Job.commands, provisionServer, provisionClient,
    reconfigureServer, writeServerConfig, installWireguard, ensureKeypair, writeConfig, sudoRun,
    Op.secures, Op.creates]

section

variable {P : List Char → Prop} {programs : Programs} {input : List Char} {m : Machine} {p q : Proc}
  {op : Op} {ops : List Op} {path : Path} {f : File}

theorem Careful.tail (h : Careful (op :: ops)) (hop : op.secures = false) :
    op.creates = false ∧ Careful ops := by
  simpa [Careful, hop] using h

/-- Closed once, the directory stays closed. -/
theorem closed_exec (h : m.Closed) : (op.exec programs input m p).1.Closed := by
  rw [Machine.Closed] at h ⊢
  rw [dir_exec, h]
  split <;> [rfl; (split <;> rfl)]

/-- The other steps create no file in it. -/
theorem file_exec_eq_none (hop : op.creates = false) (hpath : path.inside = true)
    (h : m.file path = none) : (op.exec programs input m p).1.file path = none := by
  by_cases hown : op.path? = some path
  · cases op
    case genkey =>
      cases hown
      simp only [Op.exec, attempt_fst]
      split <;> simp [Machine.writeFile, h]
    case chmodKey =>
      cases hown
      simp [Op.exec, attempt_fst, Machine.chmodFile, h]
    case pubkey =>
      cases hown
      simp [Op.exec, Machine.writeFile, h]
    case sed interface =>
      cases hown
      simp only [Op.exec, attempt_fst]
      cases m.file .template <;> simp [Machine.writeFile, h]
    case chmodConf interface =>
      cases hown
      simp [Op.exec, attempt_fst, Machine.chmodFile, h]
    case openKey | openPublickey | openConf => cases hop
    case openTemplate | writeTemplate | removeTemplate | openSysctl | writeSysctl | chmodSysctl =>
      cases hown
      cases hpath
    all_goals cases hown
  · rw [file_exec_of_ne hown, h]

/-- A step in a run that is careful: the directory is closed after it, or nothing is in it. -/
theorem closed_or_empty_exec (hcareful : Careful (op :: ops))
    (h : m.Closed ∨ ∀ path, path.inside = true → m.file path = none) :
    ((op.exec programs input m p).1.Closed ∨ ∀ path, path.inside = true →
        (op.exec programs input m p).1.file path = none) ∧
      ((op.exec programs input m p).2.isSome → (op.exec programs input m p).1.Closed ∨
        op.creates = false ∧ Careful ops) := by
  rcases h with hclosed | hempty
  · exact ⟨.inl (closed_exec hclosed), fun _ ↦ .inl (closed_exec hclosed)⟩
  · cases hsecures : op.secures with
    | false =>
      obtain ⟨hop, hcareful⟩ := hcareful.tail hsecures
      exact ⟨.inr fun path hpath ↦ file_exec_eq_none hop hpath (hempty path hpath),
        fun _ ↦ .inr ⟨hop, hcareful⟩⟩
    | true =>
      cases op
      case chmodDir =>
        cases hdir : m.dir with
        | none => exact ⟨.inr (by simpa [Op.exec, attempt, hdir] using hempty),
            by simp [Op.exec, attempt, hdir]⟩
        | some mode =>
          have hclosed : (Op.chmodDir.exec programs input m p).1.Closed := by
            simp [Op.exec, attempt, hdir, Machine.Closed]
          exact ⟨.inl hclosed, fun _ ↦ .inl hclosed⟩
      case readKey =>
        have hnone : m.file .privatekey = none := hempty .privatekey rfl
        exact ⟨.inr (by simpa [Op.exec, attempt, hnone] using hempty),
          by simp [Op.exec, attempt, hnone]⟩
      all_goals simp [Op.secures] at hsecures

/-- The files that anyone may read. -/
def Harmless (P : List Char → Prop) (m : Machine) : Prop :=
  ∀ path f, path.inside = false → m.file path = some f → P f.text

theorem harmless_exec (hnil : P []) (hsysctl : P sysctlText)
    (hconf : ∀ conf, op = .writeTemplate conf → P conf) (h : Harmless P m) :
    Harmless P (op.exec programs input m p).1 := by
  intro path f hpath hf
  by_cases hown : op.path? = some path
  · cases op
    case openTemplate | openSysctl =>
      cases hown
      simp only [Op.exec, attempt_fst, Machine.openFile, Path.inside] at hf
      simp at hf
      simpa [← hf] using hnil
    case writeTemplate conf =>
      cases hown
      simp [Op.exec, Machine.writeFile] at hf
      obtain ⟨g, -, rfl⟩ := hf
      exact hconf conf rfl
    case writeSysctl =>
      cases hown
      simp [Op.exec, Machine.writeFile] at hf
      obtain ⟨g, -, rfl⟩ := hf
      exact hsysctl
    case chmodSysctl =>
      cases hown
      simp only [Op.exec, attempt_fst, Machine.chmodFile] at hf
      cases hfile : m.file .sysctl with
      | none => simp [hfile] at hf
      | some g =>
        simp [hfile] at hf
        subst hf
        exact h .sysctl g rfl hfile
    case removeTemplate =>
      cases hown
      simp [Op.exec] at hf
    case openKey | genkey | chmodKey | openPublickey | pubkey | openConf | sed | chmodConf =>
      cases hown
      cases hpath
    all_goals cases hown
  · rw [file_exec_of_ne hown] at hf
    exact h path f hpath hf

end

section

variable {P : List Char → Prop} {programs : Programs} {c c' : System} {e : ℕ × Action}

/-- Nothing lies open: the directory is closed or empty, and the files outside are harmless. -/
structure Private (P : List Char → Prop) (m : Machine) : Prop where
  closed : m.Closed ∨ ∀ path, path.inside = true → m.file path = none
  harmless : Harmless P m

/-- A run keeps it that way. -/
structure Discreet (P : List Char → Prop) (m : Machine) (p : Proc) : Prop where
  closed : m.Closed ∨ Careful p.ops
  harmless : ∀ conf, Op.writeTemplate conf ∈ p.ops → P conf

/-- A run that starts is given a harmless text to write. -/
def StartsWith (P : List Char → Prop) (_ : System) (e : ℕ × Action) : Prop :=
  ∀ job, e.2 = .start job → P job.conf.toList

theorem conf_of_writeTemplate {job : Job} {conf : List Char} (h : .writeTemplate conf ∈ job.ops) :
    conf = job.conf.toList := by
  cases job <;> simpa [Job.ops, Job.commands, provisionServer, provisionClient, reconfigureServer,
    writeServerConfig, installWireguard, ensureKeypair, ensureInterfaceDown, writeConfig,
    enableIpForwarding, restartInterface, sudoRun, Job.conf] using h

theorem private_step (hnil : P []) (hsysctl : P sysctlText)
    (h : Config.Inv (Private P) (fun _ ↦ Discreet P) c) (hok : StartsWith P c e)
    (hstep : Config.step (act programs) c e = some c') :
    Config.Inv (Private P) (fun _ ↦ Discreet P) c' := by
  refine Config.inv_step h hstep fun m' p' hact ↦ ?_
  rcases act_cases hact with ⟨job, hjob, -, rfl, rfl⟩ | ⟨input, op, ops, pk, k, -, hp, hexec⟩ |
    ⟨-, -, -, rfl, rfl⟩
  · refine ⟨h.shared, fun q hq ↦ ?_, fun _ _ _ hq ↦ hq⟩
    cases hq
    refine ⟨.inr (careful_ops job), fun conf hconf ↦ ?_⟩
    rw [conf_of_writeTemplate hconf]
    exact hok job hjob
  · obtain ⟨rfl, rfl⟩ : (op.exec programs input c.shared ⟨ops, pk, k⟩).1 = m' ∧
        (op.exec programs input c.shared ⟨ops, pk, k⟩).2 = p' := by
      rw [hexec]
      exact ⟨rfl, rfl⟩
    have hmover := h.proc _ _ hp
    have hharmless : Harmless P (op.exec programs input c.shared ⟨ops, pk, k⟩).1 := by
      refine harmless_exec hnil hsysctl (fun conf hconf ↦ ?_) h.shared.harmless
      exact hmover.harmless conf (by simp [hconf])
    have hclosed {q : Proc} (hq : (op.exec programs input c.shared ⟨ops, pk, k⟩).2 = some q) :
        (op.exec programs input c.shared ⟨ops, pk, k⟩).1.Closed ∨ Careful q.ops := by
      rcases hmover.closed with hclosed | hcareful
      · exact .inl (closed_exec hclosed)
      · have hsome := Option.isSome_iff_exists.mpr ⟨q, hq⟩
        rcases (closed_or_empty_exec hcareful h.shared.closed).2 hsome with
          hclosed | ⟨hop, hcareful⟩
        · exact .inl hclosed
        · have hrest := ops_exec hq
          rw [if_neg (by rintro ⟨rfl, -⟩; cases hop)] at hrest
          exact .inr (hrest ▸ hcareful)
    refine ⟨⟨?_, hharmless⟩, fun q hq ↦ ⟨hclosed hq, fun conf hconf ↦ ?_⟩, fun j q _ hq ↦
      ⟨hq.closed.imp_left closed_exec, hq.harmless⟩⟩
    · rcases hmover.closed with hclosed | hcareful
      · exact .inl (closed_exec hclosed)
      · exact (closed_or_empty_exec hcareful h.shared.closed).1
    · rw [ops_exec hq] at hconf
      refine hmover.harmless conf (List.mem_cons_of_mem _ ?_)
      split at hconf
      · simpa using hconf
      · exact hconf
  · refine ⟨h.shared, ?_, fun _ _ _ hq ↦ hq⟩
    intro q hq
    cases hq

/-- **What another account of the host can read.**  On a host whose `/etc/wireguard` is closed or
has none of the files, and whatever runs are started there, interleaved and cut: a file that an
account other than root can read has a text with every property `P` that the rendered texts have,
and the empty text, the line for `sysctl`, and the files outside the directory that were there.  So
if none of these contains the private key, neither does the file. -/
theorem others_read_no_key {m : Machine} {es : List (ℕ × Action)}
    (hdir : m.Closed ∨ ∀ path, path.inside = true → m.file path = none)
    (houtside : ∀ path f, path.inside = false → m.file path = some f → P f.text)
    (hnil : P []) (hsysctl : P sysctlText)
    (hok : Run.Meets (Config.step (act programs)) (StartsWith P) m.idle es)
    (h : run programs m.idle es = some c) {path : Path} {f : File}
    (hf : c.shared.file path = some f) (hread : c.shared.readable path f = true) : P f.text := by
  have hidle : Config.Inv (Private P) (fun _ ↦ Discreet P) m.idle :=
    ⟨⟨hdir, houtside⟩, fun i q hq ↦ by cases hq⟩
  have hinv : Config.Inv (Private P) (fun _ ↦ Discreet P) c := Run.run_invariant
    (I := Config.Inv (Private P) fun _ ↦ Discreet P)
    (fun _ _ _ hc hok hstep ↦ private_step hnil hsysctl hc hok hstep) hidle hok h
  cases hinside : path.inside with
  | false => exact hinv.shared.harmless path f hinside hf
  | true =>
    rcases hinv.shared.closed with hclosed | hempty
    · rw [Machine.readable, hinside, hclosed] at hread
      simp [othersEnter] at hread
    · rw [hempty path hinside] at hf
      cases hf

end

/-- Only a start is looked at. -/
theorem meets_startsWith_steps {P : List Char → Prop} {programs : Programs} {c : System} {i n : ℕ}
    {input : List Char} : Run.Meets (Config.step (act programs)) (StartsWith P) c
      (List.replicate n (i, .step input)) := by
  induction n generalizing c with
  | zero => trivial
  | succ n ih =>
    refine ⟨?_, fun c' _ ↦ ih⟩
    intro job hjob
    cases hjob

/-- The run of a job up to the step before it sets the mode of the configuration. -/
def privateRun : List (ℕ × Action) :=
  (0, .start exampleJob) :: List.replicate 18 (0, .step exampleKey)

theorem plus_not_mem_conf : '+' ∉ exampleJob.conf.toList := by
  rw [show exampleJob.conf = renderServerConfig exampleHub [] from rfl, renderServerConfig_unlines,
    Lines.mem_unlines (by decide)]
  decide +kernel

/-- The key of the example has a `+` in it, and the configuration has none.  Where the run is
halted, the private key and the configuration with it are there, and nobody else can read a `+`. -/
theorem others_read_no_key_halted : ∃ c,
    run examplePrograms freshHost.idle privateRun = some c ∧ c.shared.key = exampleKey ∧
    '+' ∈ exampleKey ∧ (c.shared.file (.conf "wg0")).map File.mode = some 0o644 ∧
    ∀ path f, c.shared.file path = some f → c.shared.readable path f = true → '+' ∉ f.text := by
  obtain ⟨c, hc, hkey, hmode⟩ : ∃ c, run examplePrograms freshHost.idle privateRun = some c ∧
      c.shared.key = exampleKey ∧ (c.shared.file (.conf "wg0")).map File.mode = some 0o644 :=
    ⟨_, rfl, rfl, rfl⟩
  refine ⟨c, hc, hkey, by decide +kernel, hmode, fun path f hf hread ↦ ?_⟩
  have hok : Run.Meets (Config.step (act examplePrograms)) (StartsWith fun text ↦ '+' ∉ text)
      freshHost.idle privateRun := by
    refine ⟨?_, fun c' _ ↦ meets_startsWith_steps⟩
    rintro job ⟨⟩
    exact plus_not_mem_conf
  exact others_read_no_key (.inr fun _ _ ↦ rfl) (by rintro _ _ _ ⟨⟩) (by simp)
    (by decide +kernel) hok hc hf hread

end WgManager.Host