import WgManager.Wireguard.Host
import Mathlib.Logic.Relation

/-!
# A job that is not disturbed

A run that has the host to itself can be followed from command to command.  For each function of
`wireguard.py` there is what it makes of the machine (`Machine.keyed`, `Machine.cleared` and so on)
and the lemma that its commands come to that; `job_settles` puts them together.
-/

set_option autoImplicit false

namespace WgManager.Host

open Unix

/-! ## What the commands come to -/

/-- One step of a run that has the host to itself. -/
def Alone (programs : Programs) (input : List Char) (a b : Machine × Proc) : Prop :=
  ∃ op ops, a.2.ops = op :: ops ∧
    op.exec programs input a.1 { a.2 with ops := ops } = (b.1, some b.2)

/-- `b` comes after `a` in a run that has the host to itself. -/
abbrev Later (programs : Programs) (input : List Char) :
    Machine × Proc → Machine × Proc → Prop := Relation.ReflTransGen (Alone programs input)

/-- The steps of some commands. -/
def opsOf (commands : List Command) : List Op := commands.flatMap Command.ops

/-- The machine after `_ensure_keypair`. -/
def Machine.keyed (programs : Programs) (input : List Char) (m : Machine) : Machine :=
  let text := if m.key = [] then input else m.key
  { m with
    dir := some 0o700
    file := Function.update (Function.update m.file .privatekey (some ⟨text, 0o600⟩)) .publickey
      (some ⟨programs.pubkey text,
        ((m.file .publickey).map File.mode).getD (masked m.umask 0o666)⟩) }

/-- The machine after `_ensure_interface_down`. -/
def Machine.cleared (interface : String) (m : Machine) : Machine :=
  { m with
    link := Function.update m.link interface none
    unit := Function.update m.unit interface false }

/-- The machine after the four commands that write a configuration. -/
def Machine.configured (conf interface : String) (m : Machine) : Machine :=
  { m with
    file := Function.update (Function.update m.file .template none) (.conf interface)
      (some ⟨substitute (stripNewlines m.key) conf.toList, 0o600⟩) }

/-- The machine after `_enable_ip_forwarding`. -/
def Machine.forwards (m : Machine) : Machine :=
  { m with
    forwarding := true
    file := Function.update m.file .sysctl (some ⟨sysctlText, 0o644⟩) }

/-- The machine after `_restart_interface`, when it is brought up with `text`. -/
def Machine.restarted (interface : String) (text : List Char) (m : Machine) : Machine :=
  { m with
    link := Function.update m.link interface (some text)
    unit := Function.update m.unit interface true
    enabled := Function.update m.enabled interface true }

section

variable {programs : Programs} {input : List Char} {m m' : Machine} {p : Proc} {op : Op}
  {ops : List Op} {pk : Option (List Char)} {k : Option String} {interface conf : String}

/-- The next step, and what comes after it. -/
theorem later_step {b : Machine × Proc} {q : Proc}
    (hexec : op.exec programs input m ⟨ops, pk, k⟩ = (m', some q))
    (h : Later programs input (m', q) b) : Later programs input (m, ⟨op :: ops, pk, k⟩) b :=
  Relation.ReflTransGen.head ⟨op, ops, rfl, hexec⟩ h

theorem later_installWireguard : Later programs input
    (m, ⟨opsOf installWireguard ++ ops, pk, k⟩) (m, ⟨ops, pk, k⟩) :=
  later_step rfl (later_step rfl .refl)

/-- Once the interface has been taken away, it does not matter what the commands before did to
it. -/
theorem down_cleared : ({ m.down interface with
    link := Function.update (m.down interface).link interface none } : Machine) =
      { m with link := Function.update m.link interface none } := by
  unfold Machine.down
  split <;> simp

theorem stop_cleared : ({ m.stop interface with
    link := Function.update (m.stop interface).link interface none } : Machine) =
      m.cleared interface := by
  cases hunit : m.unit interface with
  | false =>
    have hsame : Function.update m.unit interface false = m.unit := by
      rw [← hunit, Function.update_eq_self]
    rw [Machine.stop, if_neg (by simp [hunit]), Machine.cleared, hsame]
  | true =>
    rw [Machine.stop, if_pos hunit, Machine.cleared, Machine.down]
    split <;> simp

theorem later_ensureInterfaceDown : Later programs input
    (m, ⟨opsOf (ensureInterfaceDown interface) ++ ops, pk, k⟩)
    (m.cleared interface, ⟨ops, pk, k⟩) := by
  have hend : Op.exec programs input ((m.stop interface).down interface) ⟨ops, pk, k⟩
      (.linkDelete interface) = (m.cleared interface, some ⟨ops, pk, k⟩) := by
    rw [← stop_cleared, ← down_cleared]
    rfl
  exact later_step rfl (later_step rfl (later_step hend .refl))

theorem later_enableIpForwarding : Later programs input
    (m, ⟨opsOf enableIpForwarding ++ ops, pk, k⟩) (m.forwards, ⟨ops, pk, k⟩) := by
  have hend : ({ m with
      forwarding := true
      file := chmod 0o644 .sysctl (write sysctlText .sysctl
        (truncate m.umask .sysctl m.file)) } : Machine) = m.forwards := by
    rw [write_truncate]
    simp [Machine.forwards, chmod]
  have hchmod : Op.chmodSysctl.exec programs input { m with
      forwarding := true
      file := write sysctlText .sysctl (truncate m.umask .sysctl m.file) } ⟨ops, pk, k⟩ =
        (m.forwards, some ⟨ops, pk, k⟩) := by
    simp [Op.exec, Machine.chmodFile, attempt, ← hend]
  exact later_step rfl (later_step rfl (later_step rfl (later_step hchmod .refl)))

/-- The two commands of `_ensure_keypair` that see to the private key. -/
theorem later_key (hdir : m.dir.isSome) (hinput : input ≠ []) : Later programs input
    (m, ⟨.testKey :: .chmodKey :: ops, pk, k⟩)
    ({ m with
        file := Function.update m.file .privatekey
          (some ⟨if m.key = [] then input else m.key, 0o600⟩) }, ⟨ops, pk, k⟩) := by
  by_cases hkey : m.key = []
  · have htest : Op.testKey.exec programs input m ⟨.chmodKey :: ops, pk, k⟩ =
        (m, some ⟨.openKey :: .genkey :: .chmodKey :: ops, pk, k⟩) := by simp [Op.exec, hkey]
    have hopen : Op.openKey.exec programs input m ⟨.genkey :: .chmodKey :: ops, pk, k⟩ =
        ({ m with file := truncate 0o77 .privatekey m.file },
          some ⟨.genkey :: .chmodKey :: ops, pk, k⟩) := by
      rw [Op.exec, openFile_eq_some.mpr ⟨fun _ ↦ hdir, rfl⟩, attempt]
    have hdraw : Op.genkey.exec programs input { m with file := truncate 0o77 .privatekey m.file }
        ⟨.chmodKey :: ops, pk, k⟩ = ({ m with
          file := write input .privatekey (truncate 0o77 .privatekey m.file) },
          some ⟨.chmodKey :: ops, pk, k⟩) := by
      rw [Op.exec, if_neg hinput]
      rfl
    refine later_step htest (later_step hopen (later_step hdraw (later_step ?_ .refl)))
    rw [Op.exec, chmodFile_eq_some.mpr ⟨by simp, rfl⟩, attempt, write_truncate]
    simp [chmod, hkey]
  · have htest : Op.testKey.exec programs input m ⟨.chmodKey :: ops, pk, k⟩ =
        (m, some ⟨.chmodKey :: ops, pk, k⟩) := by simp [Op.exec, hkey]
    obtain ⟨f, hf⟩ := Option.isSome_iff_exists.mp (isSome_of_key hkey)
    refine later_step htest (later_step ?_ .refl)
    rw [Op.exec, chmodFile_eq_some.mpr ⟨by simp [hf], rfl⟩, attempt]
    have htext : m.key = f.text := by simp [Machine.key, hf]
    simp [chmod, hf, htext, htext ▸ hkey]

/-- The last command of `_ensure_keypair`. -/
theorem later_pubkey (hdir : m.dir.isSome) (hkey : (m.file .privatekey).isSome) :
    Later programs input (m, ⟨.openPublickey :: .pubkey :: ops, pk, k⟩)
      ({ m with
          file := Function.update m.file .publickey (some ⟨programs.pubkey m.key,
            ((m.file .publickey).map File.mode).getD (masked m.umask 0o666)⟩) },
        ⟨ops, pk, some (PyStr.strip (String.ofList (programs.pubkey m.key)))⟩) := by
  have hopen : Op.openPublickey.exec programs input m ⟨.pubkey :: ops, pk, k⟩ =
      ({ m with file := truncate m.umask .publickey m.file }, some ⟨.pubkey :: ops, pk, k⟩) := by
    rw [Op.exec, openFile_eq_some.mpr ⟨fun _ ↦ hdir, rfl⟩, attempt]
  refine later_step hopen (later_step ?_ .refl)
  simp [Op.exec, Machine.key, Machine.writeFile, write_truncate,
    Option.isSome_iff_ne_none.mp hkey]

theorem later_ensureKeypair (hinput : input ≠ []) : Later programs input
    (m, ⟨opsOf ensureKeypair ++ ops, pk, k⟩)
    (m.keyed programs input, ⟨ops, pk, some (PyStr.strip (String.ofList
      (programs.pubkey (if m.key = [] then input else m.key))))⟩) := by
  have hkeyed : Later programs input ({ m with dir := some 0o700 },
      ⟨.testKey :: .chmodKey :: .openPublickey :: .pubkey :: ops, pk, k⟩) _ :=
    (later_key rfl hinput).trans (later_pubkey rfl (by simp))
  exact later_step rfl (later_step rfl hkeyed)

/-- What the four commands that write a configuration do to the files. -/
theorem files_configured {mask : ℕ} {conf text : List Char} {fs : Path → Option File} :
    remove .template (chmod 0o600 (.conf interface) (write text (.conf interface)
      (truncate mask (.conf interface) (write conf .template (truncate mask .template fs))))) =
    Function.update (Function.update fs .template none) (.conf interface)
      (some ⟨text, 0o600⟩) := by
  funext path
  by_cases hconf : path = .conf interface
  · subst hconf
    simp
  · by_cases htemplate : path = .template
    · subst htemplate
      simp
    · simp [hconf, htemplate]

theorem later_writeConfig (hkey : (m.file .privatekey).isSome) (hdir : m.dir.isSome)
    (hplain : isPlainKey (stripNewlines m.key)) : Later programs input
    (m, ⟨opsOf (writeConfig conf interface) ++ ops, pk, k⟩)
    (m.configured conf interface, ⟨ops, some (stripNewlines m.key), k⟩) := by
  obtain ⟨m', hm'⟩ : ∃ m' : Machine, m' = { m with
    file := write conf.toList .template (truncate m.umask .template m.file) } := ⟨_, rfl⟩
  have hread : Op.readKey.exec programs input m'
      ⟨.openConf interface :: .sed interface :: .chmodConf interface :: .removeTemplate :: ops, pk,
        k⟩ = (m', some ⟨.openConf interface :: .sed interface :: .chmodConf interface ::
          .removeTemplate :: ops, some (stripNewlines m.key), k⟩) := by
    simp [Op.exec, attempt, Machine.key, hm', Option.isSome_iff_ne_none.mp hkey]
  obtain ⟨m₁, hm₁⟩ : ∃ m₁ : Machine, m₁ = { m' with
    file := truncate m.umask (.conf interface) m'.file } := ⟨_, rfl⟩
  have hopen : (Op.openConf interface).exec programs input m'
      ⟨.sed interface :: .chmodConf interface :: .removeTemplate :: ops, some (stripNewlines m.key),
        k⟩ = (m₁, some ⟨.sed interface :: .chmodConf interface :: .removeTemplate :: ops,
          some (stripNewlines m.key), k⟩) := by
    rw [Op.exec, openFile_eq_some.mpr ⟨fun _ ↦ by simpa [hm'] using hdir, rfl⟩, attempt, hm₁, hm']
  obtain ⟨m₂, hm₂⟩ : ∃ m₂ : Machine, m₂ = m₁.writeFile (.conf interface)
    (substitute (stripNewlines m.key) conf.toList) := ⟨_, rfl⟩
  have hsed : (Op.sed interface).exec programs input m₁
      ⟨.chmodConf interface :: .removeTemplate :: ops, some (stripNewlines m.key), k⟩ =
        (m₂, some ⟨.chmodConf interface :: .removeTemplate :: ops, some (stripNewlines m.key),
          k⟩) := by
    simp [Op.exec, attempt, hm₂, hm₁, hm', hplain]
  have hchmod : (Op.chmodConf interface).exec programs input m₂
      ⟨.removeTemplate :: ops, some (stripNewlines m.key), k⟩ =
        ({ m₂ with file := chmod 0o600 (.conf interface) m₂.file },
          some ⟨.removeTemplate :: ops, some (stripNewlines m.key), k⟩) := by
    rw [Op.exec, chmodFile_eq_some.mpr ⟨by simp [hm₂, hm₁, Machine.writeFile], rfl⟩, attempt]
  refine later_step rfl (later_step rfl ?_)
  have hwritten : Later programs input (m', ⟨.readKey :: .openConf interface :: .sed interface ::
      .chmodConf interface :: .removeTemplate :: ops, pk, k⟩)
        (m.configured conf interface, ⟨ops, some (stripNewlines m.key), k⟩) := by
    refine later_step hread (later_step hopen (later_step hsed (later_step hchmod
      (later_step ?_ .refl))))
    simp [Op.exec, hm₂, hm₁, hm', Machine.writeFile, files_configured, Machine.configured]
  rw [hm'] at hwritten
  exact hwritten

/-- `systemctl restart` on a unit that is active, or whose interface is not there. -/
theorem later_restartInterface {f : File} (hfile : m.file (.conf interface) = some f)
    (hlink : m.unit interface = true ∨ m.link interface = none) (hloads : programs.loads f.text) :
    Later programs input (m, ⟨opsOf (restartInterface interface) ++ ops, pk, k⟩)
      (m.restarted interface f.text, ⟨ops, pk, k⟩) := by
  obtain ⟨m', hm'⟩ : ∃ m' : Machine, m' = { m with
    enabled := Function.update m.enabled interface true } := ⟨_, rfl⟩
  have hup : (m'.stop interface).up programs interface = some (m.restarted interface f.text) := by
    cases hunit : m.unit interface with
    | true => simp [hm', Machine.stop, Machine.down, Machine.up, hfile, hunit, hloads,
        Machine.restarted]
    | false =>
      have hnone : m.link interface = none := by simpa [hunit] using hlink
      simp [hm', Machine.stop, Machine.up, hfile, hunit, hnone, hloads, Machine.restarted]
  refine later_step rfl (later_step ?_ .refl)
  rw [Op.exec, ← hm', hup, attempt]
  rfl

end

/-! ## Whole jobs -/

/-- The host is as the job says. -/
structure Settled (job : Job) (m : Machine) : Prop where
  closed : m.Closed
  key : m.key ≠ []
  keyMode : (m.file .privatekey).map File.mode = some 0o600
  conf : m.file (.conf job.interface) =
    some ⟨substitute (stripNewlines m.key) job.conf.toList, 0o600⟩
  template : m.file .template = none
  /-- The interface has been brought up with the configuration that is there. -/
  up : m.link job.interface = some (substitute (stripNewlines m.key) job.conf.toList)
  unit : m.unit job.interface = true
  enabled : m.enabled job.interface = true
  forwarding : ∀ hub, job = .provisionServer hub →
    m.forwarding = true ∧ m.file .sysctl = some ⟨sysctlText, 0o644⟩

/-- `provision_server` and `provision_client` run on any host.  `reconfigure_server` needs what they
leave behind; the interface may have been taken down since. -/
def Ready (job : Job) (m : Machine) : Prop :=
  job.provisions = true ∨ m.Closed ∧ m.key ≠ [] ∧
    (m.file .privatekey).map File.mode = some 0o600 ∧
    (m.unit job.interface = true ∨ m.link job.interface = none)

/-- The private key that a host comes to have. -/
def Machine.keyAfter (input : List Char) (m : Machine) : List Char :=
  if m.key = [] then input else m.key

/-- What belongs to another interface is as it was. -/
def SameElsewhere (interface : String) (m m' : Machine) : Prop :=
  ∀ other, other ≠ interface → m'.link other = m.link other ∧ m'.unit other = m.unit other ∧
    m'.enabled other = m.enabled other ∧ m'.file (.conf other) = m.file (.conf other)

section

variable {programs : Programs} {input : List Char} {m : Machine}

/-- After `_ensure_keypair` and `_ensure_interface_down`. -/
theorem later_front {ops : List Op} {interface : String} (hinput : input ≠ []) :
    Later programs input
      (m, { ops := opsOf installWireguard ++ (opsOf ensureKeypair ++
        (opsOf (ensureInterfaceDown interface) ++ ops)) })
      ((m.keyed programs input).cleared interface, ⟨ops, none, some (PyStr.strip
        (String.ofList (programs.pubkey (m.keyAfter input))))⟩) :=
  later_installWireguard.trans ((later_ensureKeypair hinput).trans later_ensureInterfaceDown)

/-- The commands of a job after the interface has been seen to. -/
def backCommands (forward : Bool) (conf interface : String) : List Command :=
  writeConfig conf interface ++ (if forward then enableIpForwarding else []) ++
    restartInterface interface

/-- The machine after them. -/
def Machine.finished (forward : Bool) (conf interface : String) (m : Machine) : Machine :=
  let written := m.configured conf interface
  (if forward then written.forwards else written).restarted interface
    (substitute (stripNewlines m.key) conf.toList)

theorem later_back {forward : Bool} {conf interface : String} {k : Option String}
    (hclosed : m.Closed) (hkey : m.key ≠ [])
    (hlink : m.unit interface = true ∨ m.link interface = none)
    (hplain : isPlainKey (stripNewlines m.key))
    (hloads : programs.loads (substitute (stripNewlines m.key) conf.toList)) :
    Later programs input (m, ⟨opsOf (backCommands forward conf interface), none, k⟩)
      (m.finished forward conf interface, ⟨[], some (stripNewlines m.key), k⟩) := by
  have hwrite {ops : List Op} : Later programs input
      (m, ⟨opsOf (writeConfig conf interface) ++ ops, none, k⟩)
      (m.configured conf interface, ⟨ops, some (stripNewlines m.key), k⟩) :=
    later_writeConfig (isSome_of_key hkey) (by simp [show m.dir = some 0o700 from hclosed]) hplain
  obtain ⟨f, hf⟩ : ∃ f : File, f = ⟨substitute (stripNewlines m.key) conf.toList, 0o600⟩ := ⟨_, rfl⟩
  have htext : f.text = substitute (stripNewlines m.key) conf.toList := by rw [hf]
  rw [← htext] at hloads
  rw [Machine.finished, ← htext]
  cases forward with
  | false =>
    have hfile : (m.configured conf interface).file (.conf interface) = some f := by
      simp [Machine.configured, hf]
    exact hwrite.trans (later_restartInterface hfile hlink hloads)
  | true =>
    have hfile : (m.configured conf interface).forwards.file (.conf interface) = some f := by
      simp [Machine.configured, Machine.forwards, hf]
    exact hwrite.trans (later_enableIpForwarding.trans (later_restartInterface hfile hlink hloads))

theorem settled_finished {job : Job} {forward : Bool} (hclosed : m.Closed) (hkey : m.key ≠ [])
    (hmode : (m.file .privatekey).map File.mode = some 0o600)
    (hforward : (∃ hub, job = .provisionServer hub) → forward = true) :
    Settled job (m.finished forward job.conf job.interface) ∧
      (m.finished forward job.conf job.interface).key = m.key := by
  have hsame : (m.finished forward job.conf job.interface).key = m.key := by
    cases forward <;> simp [Machine.finished, Machine.restarted, Machine.forwards,
      Machine.configured, Machine.key]
  refine ⟨⟨?_, hsame ▸ hkey, ?_, ?_, ?_, ?_, ?_, ?_, ?_⟩, hsame⟩
  · cases forward <;> exact hclosed
  · cases forward <;> simpa [Machine.finished, Machine.restarted, Machine.forwards,
      Machine.configured] using hmode
  · rw [hsame]
    cases forward <;> simp [Machine.finished, Machine.restarted, Machine.forwards,
      Machine.configured]
  · cases forward <;> simp [Machine.finished, Machine.restarted, Machine.forwards,
      Machine.configured]
  · rw [hsame]
    simp [Machine.finished, Machine.restarted]
  · simp [Machine.finished, Machine.restarted]
  · simp [Machine.finished, Machine.restarted]
  · intro hub hjob
    rw [hforward ⟨hub, hjob⟩]
    simp [Machine.finished, Machine.restarted, Machine.forwards]

theorem sameElsewhere_finished {forward : Bool} {conf interface : String} :
    SameElsewhere interface m (m.finished forward conf interface) := by
  intro other hother
  cases forward <;> simp [Machine.finished, Machine.restarted, Machine.forwards,
    Machine.configured, hother]

theorem sameElsewhere_front {interface : String} :
    SameElsewhere interface m ((m.keyed programs input).cleared interface) := by
  intro other hother
  simp [Machine.keyed, Machine.cleared, hother]

theorem SameElsewhere.trans {m₁ m₂ : Machine} {interface : String}
    (h : SameElsewhere interface m m₁) (h' : SameElsewhere interface m₁ m₂) :
    SameElsewhere interface m m₂ := by
  intro other hother
  obtain ⟨hlink, hunit, henabled, hfile⟩ := h other hother
  obtain ⟨hlink', hunit', henabled', hfile'⟩ := h' other hother
  exact ⟨hlink'.trans hlink, hunit'.trans hunit, henabled'.trans henabled, hfile'.trans hfile⟩

theorem keyAfter_ne_nil (hinput : input ≠ []) : m.keyAfter input ≠ [] := by
  unfold Machine.keyAfter
  split <;> assumption

theorem ops_provisionServer (hub : HubJob) : (Job.provisionServer hub).ops =
    opsOf installWireguard ++ (opsOf ensureKeypair ++
      (opsOf (ensureInterfaceDown hub.server.interface) ++
        opsOf (backCommands true (Job.provisionServer hub).conf hub.server.interface))) := rfl

theorem ops_provisionClient (spoke : SpokeJob) : (Job.provisionClient spoke).ops =
    opsOf installWireguard ++ (opsOf ensureKeypair ++ (opsOf (ensureInterfaceDown "wg0") ++
      opsOf (backCommands false (Job.provisionClient spoke).conf "wg0"))) := rfl

theorem ops_reconfigureServer (hub : HubJob) : (Job.reconfigureServer hub).ops =
    opsOf (backCommands false (Job.reconfigureServer hub).conf hub.server.interface) := rfl

/-- A job that provisions, from its start to its end. -/
theorem later_provision {job : Job} {forward : Bool}
    (hops : job.ops = opsOf installWireguard ++ (opsOf ensureKeypair ++
      (opsOf (ensureInterfaceDown job.interface) ++
        opsOf (backCommands forward job.conf job.interface))))
    (hforward : (∃ hub, job = .provisionServer hub) → forward = true) (hinput : input ≠ [])
    (hplain : isPlainKey (stripNewlines (m.keyAfter input)))
    (hloads : programs.loads (substitute (stripNewlines (m.keyAfter input)) job.conf.toList)) :
    ∃ m' p', Later programs input (m, { ops := job.ops }) (m', p') ∧ p'.ops = [] ∧
      Settled job m' ∧ m'.key = m.keyAfter input ∧
      p'.publicKey = some (PyStr.strip (String.ofList (programs.pubkey m'.key))) ∧
      SameElsewhere job.interface m m' := by
  obtain ⟨m₁, hm₁⟩ : ∃ m₁, m₁ = (m.keyed programs input).cleared job.interface := ⟨_, rfl⟩
  have hkey : m₁.key = m.keyAfter input := by
    simp [hm₁, Machine.cleared, Machine.keyed, Machine.key, Machine.keyAfter]
  have hclosed : m₁.Closed := by
    rw [hm₁]
    rfl
  have hmode : (m₁.file .privatekey).map File.mode = some 0o600 := by
    simp [hm₁, Machine.cleared, Machine.keyed]
  have hne : m₁.key ≠ [] := hkey ▸ keyAfter_ne_nil hinput
  obtain ⟨hsettled, hsame⟩ := settled_finished hclosed hne hmode hforward
  have hfront : Later programs input (m, { ops := job.ops })
      (m₁, ⟨opsOf (backCommands forward job.conf job.interface), none,
        some (PyStr.strip (String.ofList (programs.pubkey m₁.key)))⟩) := by
    rw [hops, hkey, hm₁]
    exact later_front hinput
  have hlink : m₁.link job.interface = none := by simp [hm₁, Machine.cleared]
  rw [← hkey] at hplain hloads
  refine ⟨_, _, hfront.trans (later_back hclosed hne (.inr hlink) hplain hloads), rfl, hsettled,
    hsame.trans hkey, by rw [hsame], ?_⟩
  exact SameElsewhere.trans (hm₁ ▸ sameElsewhere_front) sameElsewhere_finished

/-- `reconfigure_server`, from its start to its end. -/
theorem later_reconfigure {hub : HubJob} (hready : Ready (.reconfigureServer hub) m)
    (hplain : isPlainKey (stripNewlines m.key))
    (hloads : programs.loads (substitute (stripNewlines m.key)
      (Job.reconfigureServer hub).conf.toList)) :
    ∃ m' p', Later programs input (m, { ops := (Job.reconfigureServer hub).ops }) (m', p') ∧
      p'.ops = [] ∧ Settled (.reconfigureServer hub) m' ∧ m'.key = m.key ∧
      SameElsewhere hub.server.interface m m' := by
  obtain ⟨hclosed, hkey, hmode, hlink⟩ := hready.resolve_left (by simp [Job.provisions])
  have hback : Settled (.reconfigureServer hub) (m.finished false _ _) ∧ _ :=
    settled_finished hclosed hkey hmode (by rintro ⟨_, h⟩; cases h)
  obtain ⟨hsettled, hsame⟩ := hback
  refine ⟨_, ⟨[], some (stripNewlines m.key), none⟩, ?_, rfl, hsettled, hsame,
    sameElsewhere_finished⟩
  rw [ops_reconfigureServer]
  exact later_back hclosed hkey hlink hplain hloads

/-- **The end of a job.**  On a host that is ready for it, a job that is not disturbed gets to its
end. -/
theorem later_job {job : Job} (hready : Ready job m) (hinput : input ≠ [])
    (hplain : isPlainKey (stripNewlines (m.keyAfter input)))
    (hloads : programs.loads (substitute (stripNewlines (m.keyAfter input)) job.conf.toList)) :
    ∃ m' p', Later programs input (m, { ops := job.ops }) (m', p') ∧ p'.ops = [] ∧
      Settled job m' ∧ m'.key = m.keyAfter input ∧
      (job.provisions → p'.publicKey =
        some (PyStr.strip (String.ofList (programs.pubkey m'.key)))) ∧
      SameElsewhere job.interface m m' := by
  cases job with
  | provisionServer hub =>
    obtain ⟨m', p', hlater, hend, hsettled, hkey, hpublic, hsame⟩ :=
      later_provision (ops_provisionServer hub) (fun _ ↦ rfl) hinput hplain hloads
    exact ⟨m', p', hlater, hend, hsettled, hkey, fun _ ↦ hpublic, hsame⟩
  | provisionClient spoke =>
    obtain ⟨m', p', hlater, hend, hsettled, hkey, hpublic, hsame⟩ :=
      later_provision (ops_provisionClient spoke) (by rintro ⟨_, h⟩; cases h) hinput hplain hloads
    exact ⟨m', p', hlater, hend, hsettled, hkey, fun _ ↦ hpublic, hsame⟩
  | reconfigureServer hub =>
    have hkeep : m.keyAfter input = m.key :=
      if_neg (hready.resolve_left (by simp [Job.provisions])).2.1
    rw [hkeep] at hplain hloads ⊢
    obtain ⟨m', p', hlater, hend, hsettled, hkey, hsame⟩ :=
      later_reconfigure hready hplain hloads
    exact ⟨m', p', hlater, hend, hsettled, hkey, by simp [Job.provisions], hsame⟩

/-- Steps alone are steps of the system. -/
theorem run_of_later {a b : Machine × Proc} (h : Later programs input a b) {c : System} {i : ℕ}
    (hshared : c.shared = a.1) (hproc : c.proc i = some a.2) :
    ∃ n, run programs c (List.replicate n (i, .step input)) =
      some ⟨b.1, Function.update c.proc i (some b.2)⟩ := by
  induction h using Relation.ReflTransGen.head_induction_on generalizing c with
  | refl =>
    refine ⟨0, ?_⟩
    rw [← hproc, Function.update_eq_self, ← hshared]
    rfl
  | @head a a' hstep _ ih =>
    obtain ⟨op, ops, hops, hexec⟩ := hstep
    have hact : Config.step (act programs) c (i, .step input) =
        some ⟨a'.1, Function.update c.proc i (some a'.2)⟩ := by
      rw [Config.step_eq_some]
      refine ⟨a'.1, some a'.2, ?_, rfl⟩
      obtain ⟨m, ⟨ops', pk, k⟩⟩ := a
      obtain rfl : ops' = op :: ops := hops
      rw [hproc, hshared]
      exact congrArg some hexec
    obtain ⟨n, hrun⟩ := ih (c := ⟨a'.1, Function.update c.proc i (some a'.2)⟩) rfl
      (Function.update_self i (some a'.2) c.proc)
    refine ⟨n + 1, ?_⟩
    rw [List.replicate_succ]
    exact (Run.run_cons_eq_some _).mpr ⟨_, hact, hrun.trans (by simp)⟩

/-- **A job that is not disturbed settles the host.**  Whatever earlier runs have left on a host,
wherever they were cut, and whatever runs are halted on it now: `provision_server` and
`provision_client` get to their end, and so does `reconfigure_server` after one of them.  Then the
configuration on the disk is the rendered one with the private key in place of the placeholder, the
interface is up with just this configuration and comes up with it again, the template is gone, and
the private key is the one that was there, if there was one. -/
theorem job_settles {c : System} {i : ℕ} {job : Job} (hfree : c.proc i = none)
    (hready : Ready job c.shared) (hinput : input ≠ [])
    (hplain : isPlainKey (stripNewlines (c.shared.keyAfter input)))
    (hloads : programs.loads
      (substitute (stripNewlines (c.shared.keyAfter input)) job.conf.toList)) :
    ∃ n c' p, run programs c ((i, .start job) :: List.replicate n (i, .step input)) = some c' ∧
      c'.proc i = some p ∧ p.ops = [] ∧ Settled job c'.shared ∧
      c'.shared.key = c.shared.keyAfter input ∧
      (job.provisions → p.publicKey =
        some (PyStr.strip (String.ofList (programs.pubkey c'.shared.key)))) ∧
      SameElsewhere job.interface c.shared c'.shared := by
  obtain ⟨m', p', hlater, hrest⟩ := later_job hready hinput hplain hloads
  have hstart : Config.step (act programs) c (i, .start job) =
      some ⟨c.shared, Function.update c.proc i (some { ops := job.ops })⟩ := by
    rw [Config.step_eq_some]
    refine ⟨c.shared, some { ops := job.ops }, ?_, rfl⟩
    rw [hfree]
    rfl
  obtain ⟨n, hrun⟩ := run_of_later hlater
    (c := ⟨c.shared, Function.update c.proc i (some { ops := job.ops })⟩) rfl
    (Function.update_self i (some { ops := job.ops }) c.proc)
  exact ⟨n, _, p', (Run.run_cons_eq_some _).mpr ⟨_, hstart, hrun⟩, by simp, hrest⟩

end

end WgManager.Host
