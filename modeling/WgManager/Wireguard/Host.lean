import WgManager.RemoteWrite
import WgManager.Lib.Interleave
import WgManager.Lib.PyStr
import WgManager.Lib.Sed
import WgManager.Lib.UnixFiles

/-!
# What provisioning does to a host

`provision_server`, `provision_client` and `reconfigure_server` are lists of commands that the
control plane has run on a host, one after the other, over SSH.  Any of them can be the last: the
session breaks, a command fails, the worker is killed.  Another run on the same host, for another
row, can be under way.  And the next run finds what the last one left.

`wireguard.py` promises that all this does no harm: the functions are safe to re-run, a private key
that is there is never overwritten, nobody but root can read it.  Here a command is the list of the
smallest things it does to the host, a run of the host takes these steps from any number of runs
in any order, and a run can be cut between any two of them.

* `Host/Keys.lean`: all runs on a host give the same public key, unless two of them are generating
  one at the same time.
* `Host/Privacy.lean`: what another account of the host can read has been rendered from the rows of
  the database, at every moment.
* `Host/Settling.lean`: one run that is not disturbed leaves the host as its rows say, whatever it
  found.

What the programs called here do is taken from their manuals; what `wg pubkey` computes and which
configurations `wg-quick` can load are parameters.  Files are meant, not the arguments of running
processes: `sed` is given the private key as one.
-/

set_option autoImplicit false

namespace WgManager.Host

open Unix

/-! ## The host -/

/-- The files that the commands name. -/
inductive Path
  | privatekey
  | publickey
  /-- `/etc/wireguard/<interface>.conf`. -/
  | conf (interface : String)
  /-- `/tmp/wg0.conf.tpl`. -/
  | template
  /-- `/etc/sysctl.d/99-wg-manager.conf`. -/
  | sysctl
  deriving DecidableEq

/-- Whether a file lies in `/etc/wireguard`. -/
def Path.inside : Path → Bool
  | .privatekey | .publickey | .conf _ => true
  | .template | .sysctl => false

structure Machine where
  /-- The mask of the shells that `sudo` starts. -/
  umask : ℕ
  /-- The permission bits of `/etc/wireguard`, if it is there. -/
  dir : Option ℕ
  file : Path → Option File
  /-- For an interface that is up, the configuration it was brought up with. -/
  link : String → Option (List Char)
  /-- Whether the unit `wg-quick@<interface>` is active. -/
  unit : String → Bool
  enabled : String → Bool
  forwarding : Bool

/-- Whether an account other than root can read a file. -/
def Machine.readable (m : Machine) (path : Path) (f : File) : Bool :=
  othersRead f.mode && (!path.inside || m.dir.any othersEnter)

/-- The directory is closed to all accounts but root. -/
def Machine.Closed (m : Machine) : Prop := m.dir = some 0o700

/-- The private key of the host, as far as there is one. -/
def Machine.key (m : Machine) : List Char := ((m.file .privatekey).map File.text).getD []

/-- The programs whose results the commands go on with. -/
structure Programs where
  /-- What `wg pubkey` prints when it is given this text; nothing if that is no key. -/
  pubkey : List Char → List Char
  /-- Whether `wg-quick up` succeeds with this configuration. -/
  loads : List Char → Bool

/-! ## The commands -/

/-- The smallest steps that the commands take on the host. -/
inductive Op
  /-- What does not touch anything that is modelled here. -/
  | apt
  | mkdir
  | chmodDir
  /-- `test -s` on the private key, and the way on if there is none. -/
  | testKey
  | openKey
  | genkey
  | chmodKey
  | openPublickey
  /-- `wg pubkey < ... | tee ...`, whose output is what `_ensure_keypair` returns. -/
  | pubkey
  | stopUnit (interface : String)
  | down (interface : String)
  | linkDelete (interface : String)
  | openTemplate
  | writeTemplate (conf : List Char)
  /-- `PK=$(cat /etc/wireguard/privatekey)`. -/
  | readKey
  | openConf (interface : String)
  | sed (interface : String)
  | chmodConf (interface : String)
  | removeTemplate
  | sysctl
  | openSysctl
  | writeSysctl
  | chmodSysctl
  | enable (interface : String)
  | restart (interface : String)
  deriving DecidableEq

/-- A command: the text that `exec_command` is given, and the steps it takes. -/
structure Command where
  text : String
  ops : List Op

/-- A command through `SSHRunner.sudo`. -/
def sudoRun (cmd : String) (ops : List Op) : Command := ⟨sudoCommand cmd, ops⟩

def confPath (interface : String) : String := "/etc/wireguard/" ++ interface ++ ".conf"

/-- `_install_wireguard`. -/
def installWireguard : List Command :=
  [sudoRun "apt-get update -y" [.apt],
   sudoRun "DEBIAN_FRONTEND=noninteractive apt-get install -y wireguard iptables" [.apt]]

/-- `_ensure_keypair`. -/
def ensureKeypair : List Command :=
  [sudoRun "mkdir -p /etc/wireguard" [.mkdir],
   sudoRun "chmod 700 /etc/wireguard" [.chmodDir],
   sudoRun ("sh -c 'umask 077; test -s /etc/wireguard/privatekey || " ++
     "wg genkey > /etc/wireguard/privatekey'") [.testKey],
   sudoRun "chmod 600 /etc/wireguard/privatekey" [.chmodKey],
   sudoRun "sh -c 'wg pubkey < /etc/wireguard/privatekey | tee /etc/wireguard/publickey'"
     [.openPublickey, .pubkey]]

/-- `_ensure_interface_down`. -/
def ensureInterfaceDown (interface : String) : List Command :=
  [sudoRun ("systemctl stop wg-quick@" ++ interface) [.stopUnit interface],
   sudoRun ("sh -c 'test -f " ++ confPath interface ++ " && wg-quick down " ++ interface ++
     " || true'") [.down interface],
   sudoRun ("sh -c 'ip link show " ++ interface ++ " >/dev/null 2>&1 && ip link delete " ++
     interface ++ " || true'") [.linkDelete interface]]

/-- The commands with which `_write_server_config` and `provision_client` write a rendered text. -/
def writeConfig (conf interface : String) : List Command :=
  [sudoRun (writeTemplateCommand conf) [.openTemplate, .writeTemplate conf.toList],
   sudoRun ("sh -c 'PK=$(cat /etc/wireguard/privatekey) && " ++
     "sed \"s|\\$(cat /etc/wireguard/privatekey)|$PK|\" /tmp/wg0.conf.tpl > " ++
     confPath interface ++ "'") [.readKey, .openConf interface, .sed interface],
   sudoRun ("chmod 600 " ++ confPath interface) [.chmodConf interface],
   sudoRun "rm -f /tmp/wg0.conf.tpl" [.removeTemplate]]

/-- `_write_server_config`. -/
def writeServerConfig (server : Server) (clients : List Client) : List Command :=
  writeConfig (renderServerConfig server clients) server.interface

/-- `_enable_ip_forwarding`.  `write_file` runs two commands, the first of which is given the text
on its standard input. -/
def enableIpForwarding : List Command :=
  [sudoRun "sysctl -w net.ipv4.ip_forward=1" [.sysctl],
   sudoRun "tee /etc/sysctl.d/99-wg-manager.conf > /dev/null" [.openSysctl, .writeSysctl],
   sudoRun "chmod 644 /etc/sysctl.d/99-wg-manager.conf" [.chmodSysctl]]

def sysctlText : List Char := "net.ipv4.ip_forward=1\n".toList

/-- `_restart_interface`. -/
def restartInterface (interface : String) : List Command :=
  [sudoRun ("systemctl enable wg-quick@" ++ interface) [.enable interface],
   sudoRun ("sh -c 'systemctl restart wg-quick@" ++ interface ++ " || systemctl start wg-quick@" ++
     interface ++ "'") [.restart interface]]

/-- `provision_server`. -/
def provisionServer (server : Server) (clients : List Client) : List Command :=
  installWireguard ++ ensureKeypair ++ ensureInterfaceDown server.interface ++
    writeServerConfig server clients ++ enableIpForwarding ++ restartInterface server.interface

/-- `reconfigure_server`. -/
def reconfigureServer (server : Server) (clients : List Client) : List Command :=
  writeServerConfig server clients ++ restartInterface server.interface

/-- `provision_client`. -/
def provisionClient (client : Client) (server : Server) : List Command :=
  installWireguard ++ ensureKeypair ++ ensureInterfaceDown "wg0" ++
    writeConfig (renderClientConfig client server) "wg0" ++ restartInterface "wg0"

/-! ## Jobs -/

/-- An interface name that stands in the commands as one word, and in a path as one name. -/
def isPlainName (name : String) : Bool :=
  name ≠ "" && name.toList.all fun c ↦ c.isAlphanum || c = '-' || c = '_'

/-- A hub and its peers, with fields that the shells of the host take for nothing else than text. -/
structure HubJob where
  server : Server
  clients : List Client
  plain : isPlainName server.interface
  written : WritesExactly (writeServerConfigCommand server clients)
    (renderServerConfig server clients)

/-- A spoke and its hub. -/
structure SpokeJob where
  client : Client
  server : Server
  written : WritesExactly (provisionClientCommand client server) (renderClientConfig client server)

/-- What the tasks have a host do. -/
inductive Job
  | provisionServer (hub : HubJob)
  | reconfigureServer (hub : HubJob)
  | provisionClient (spoke : SpokeJob)

namespace Job

def commands : Job → List Command
  | .provisionServer hub => Host.provisionServer hub.server hub.clients
  | .reconfigureServer hub => Host.reconfigureServer hub.server hub.clients
  | .provisionClient spoke => Host.provisionClient spoke.client spoke.server

/-- The text that the job renders. -/
def conf : Job → String
  | .provisionServer hub | .reconfigureServer hub => renderServerConfig hub.server hub.clients
  | .provisionClient spoke => renderClientConfig spoke.client spoke.server

def interface : Job → String
  | .provisionServer hub | .reconfigureServer hub => hub.server.interface
  | .provisionClient _ => "wg0"

/-- Whether the job goes through `_ensure_keypair`. -/
def provisions : Job → Bool
  | .reconfigureServer _ => false
  | .provisionServer _ | .provisionClient _ => true

def ops (job : Job) : List Op := job.commands.flatMap Command.ops

end Job

/-! ## Steps -/

/-- A run of a job on the host: the steps that are left, the shell variable `PK`, and what
`_ensure_keypair` has returned. -/
structure Proc where
  ops : List Op
  pk : Option (List Char) := none
  publicKey : Option String := none
  deriving DecidableEq

namespace Machine

/-- The first half of `> path`; `none` when the directory is not there. -/
def openFile (m : Machine) (mask : ℕ) (path : Path) : Option Machine :=
  if path.inside && m.dir.isNone then none
  else some { m with file := truncate mask path m.file }

def writeFile (m : Machine) (path : Path) (text : List Char) : Machine :=
  { m with file := write text path m.file }

/-- `none` when there is no such file. -/
def chmodFile (m : Machine) (mode : ℕ) (path : Path) : Option Machine :=
  if (m.file path).isNone then none else some { m with file := chmod mode path m.file }

/-- What `wg-quick down` does, which needs the configuration. -/
def down (m : Machine) (interface : String) : Machine :=
  if (m.file (.conf interface)).isNone then m
  else { m with link := Function.update m.link interface none }

/-- `systemctl stop`: the unit runs `wg-quick down` if it is active. -/
def stop (m : Machine) (interface : String) : Machine :=
  if m.unit interface then
    { m.down interface with unit := Function.update m.unit interface false }
  else m

/-- `systemctl start` on a unit that is not active: `wg-quick up` needs the configuration, and that
there is no such interface. -/
def up (programs : Programs) (m : Machine) (interface : String) : Option Machine :=
  match m.file (.conf interface), m.link interface with
  | some f, none =>
    if programs.loads f.text then
      some { m with
        link := Function.update m.link interface (some f.text)
        unit := Function.update m.unit interface true }
    else none
  | _, _ => none

end Machine

/-- The placeholder for the private key. -/
def placeholder : List Char := "$(cat /etc/wireguard/privatekey)".toList

/-- `sed "s|...|$PK|"`. -/
def substitute (pk text : List Char) : List Char := Sed.substitute placeholder pk text

/-- Nothing in the text means anything to `sed`. -/
def isPlainKey (pk : List Char) : Bool := pk.all fun c ↦ c ≠ '&' && c ≠ '\\' && c ≠ '|' && c ≠ '\n'

/-- What `$(cat file)` makes of the text of the file. -/
def stripNewlines (text : List Char) : List Char := (text.reverse.dropWhile (· = '\n')).reverse

/-- What a command that can fail comes to: the run goes on, or it ends. -/
def attempt (m : Machine) (result : Option Machine) (p : Proc) : Machine × Option Proc :=
  match result with
  | some m' => (m', some p)
  | none => (m, none)

/-- One step of a run, which has `p` left after it.  `input` is the key that `wg genkey` draws, if
any, and whatever `sed` writes when the key has characters that mean something to it. -/
def Op.exec (programs : Programs) (input : List Char) (m : Machine) (p : Proc) :
    Op → Machine × Option Proc
  | .apt => (m, some p)
  | .mkdir => ({ m with dir := some (m.dir.getD (masked m.umask 0o777)) }, some p)
  | .chmodDir => attempt m (m.dir.map fun _ ↦ { m with dir := some 0o700 }) p
  | .testKey => (m, some (if m.key = [] then { p with ops := .openKey :: .genkey :: p.ops } else p))
  | .openKey => attempt m (m.openFile 0o77 .privatekey) p
  | .genkey => attempt m (if input = [] then none else some (m.writeFile .privatekey input)) p
  | .chmodKey => attempt m (m.chmodFile 0o600 .privatekey) p
  | .openPublickey => attempt m (m.openFile m.umask .publickey) p
  | .pubkey =>
    let out := if (m.file .privatekey).isNone then [] else programs.pubkey m.key
    (m.writeFile .publickey out,
      some { p with publicKey := some (PyStr.strip (String.ofList out)) })
  | .stopUnit interface => (m.stop interface, some p)
  | .down interface => (m.down interface, some p)
  | .linkDelete interface => ({ m with link := Function.update m.link interface none }, some p)
  | .openTemplate => attempt m (m.openFile m.umask .template) p
  | .writeTemplate conf => (m.writeFile .template conf, some p)
  | .readKey => attempt m (if (m.file .privatekey).isNone then none else some m)
    { p with pk := some (stripNewlines m.key) }
  | .openConf interface => attempt m (m.openFile m.umask (.conf interface)) p
  | .sed interface => attempt m ((m.file .template).map fun f ↦ m.writeFile (.conf interface)
      (if isPlainKey (p.pk.getD []) then substitute (p.pk.getD []) f.text else input)) p
  | .chmodConf interface => attempt m (m.chmodFile 0o600 (.conf interface)) p
  | .removeTemplate => ({ m with file := remove .template m.file }, some p)
  | .sysctl => ({ m with forwarding := true }, some p)
  | .openSysctl => attempt m (m.openFile m.umask .sysctl) p
  | .writeSysctl => (m.writeFile .sysctl sysctlText, some p)
  | .chmodSysctl => attempt m (m.chmodFile 0o644 .sysctl) p
  | .enable interface => ({ m with enabled := Function.update m.enabled interface true }, some p)
  | .restart interface => attempt (m.stop interface) ((m.stop interface).up programs interface) p

/-- What can happen to a run. -/
inductive Action
  | start (job : Job)
  /-- It takes its next step. -/
  | step (input : List Char)
  /-- It ends: the session is lost, or a command fails. -/
  | cut

/-- One run of the host. -/
def act (programs : Programs) (_ : ℕ) (m : Machine) :
    Option Proc → Action → Option (Machine × Option Proc)
  | none, .start job => some (m, some { ops := job.ops })
  | some ⟨op :: ops, pk, publicKey⟩, .step input =>
    some (op.exec programs input m ⟨ops, pk, publicKey⟩)
  | some _, .cut => some (m, none)
  | _, _ => none

/-- A host, and the runs on it. -/
abbrev System := Config Machine Proc

abbrev run (programs : Programs) : System → List (ℕ × Action) → Option System :=
  Run.run (Config.step (act programs))

/-- A host on which nothing is under way. -/
def Machine.idle (m : Machine) : System := ⟨m, fun _ ↦ none⟩

/-! ## What a step can change -/

section

variable {programs : Programs} {input : List Char} {m m' : Machine} {p q : Proc} {op : Op}
  {path q' : Path}

/-- The file that a step changes. -/
def Op.path? : Op → Option Path
  | .openKey | .genkey | .chmodKey => some .privatekey
  | .openPublickey | .pubkey => some .publickey
  | .openTemplate | .writeTemplate _ | .removeTemplate => some .template
  | .openConf interface | .sed interface | .chmodConf interface => some (.conf interface)
  | .openSysctl | .writeSysctl | .chmodSysctl => some .sysctl
  | _ => none

theorem openFile_eq_some {mask : ℕ} : m.openFile mask path = some m' ↔
    (path.inside → m.dir.isSome) ∧ m' = { m with file := truncate mask path m.file } := by
  unfold Machine.openFile
  cases path.inside <;> cases m.dir <;> simp [eq_comm]

theorem chmodFile_eq_some {mode : ℕ} : m.chmodFile mode path = some m' ↔
    (m.file path).isSome ∧ m' = { m with file := chmod mode path m.file } := by
  unfold Machine.chmodFile
  cases m.file path <;> simp [eq_comm]

theorem isSome_of_key (h : m.key ≠ []) : (m.file .privatekey).isSome := by
  unfold Machine.key at h
  cases hfile : m.file .privatekey with
  | none => simp [hfile] at h
  | some f => rfl

theorem attempt_fst {result : Option Machine} : (attempt m result p).1 = result.getD m := by
  cases result <;> rfl

theorem eq_of_attempt {result : Option Machine} (h : (attempt m result p).2 = some q) : q = p := by
  cases result with
  | none => simp [attempt] at h
  | some m' => simpa [attempt, eq_comm] using h

theorem exists_of_attempt {result : Option Machine} (h : (attempt m result p).2 = some q) :
    ∃ m', result = some m' := by
  cases result with
  | none => simp [attempt] at h
  | some m' => exact ⟨m', rfl⟩

@[simp] theorem file_stop (interface : String) : (m.stop interface).file = m.file := by
  simp only [Machine.stop, Machine.down]
  split <;> [split <;> rfl; rfl]

@[simp] theorem dir_stop (interface : String) : (m.stop interface).dir = m.dir := by
  simp only [Machine.stop, Machine.down]
  split <;> [split <;> rfl; rfl]

@[simp] theorem file_down (interface : String) : (m.down interface).file = m.file := by
  unfold Machine.down
  split <;> rfl

@[simp] theorem dir_down (interface : String) : (m.down interface).dir = m.dir := by
  unfold Machine.down
  split <;> rfl

@[simp] theorem file_openFile {mask : ℕ} (h : q' ≠ path) :
    ((m.openFile mask path).getD m).file q' = m.file q' := by
  unfold Machine.openFile
  split <;> simp [h]

@[simp] theorem dir_openFile {mask : ℕ} : ((m.openFile mask path).getD m).dir = m.dir := by
  unfold Machine.openFile
  split <;> simp

@[simp] theorem file_chmodFile {mode : ℕ} (h : q' ≠ path) :
    ((m.chmodFile mode path).getD m).file q' = m.file q' := by
  unfold Machine.chmodFile
  split <;> simp [h]

@[simp] theorem dir_chmodFile {mode : ℕ} : ((m.chmodFile mode path).getD m).dir = m.dir := by
  unfold Machine.chmodFile
  split <;> simp

@[simp] theorem file_up {interface : String} :
    ((m.up programs interface).getD m).file = m.file := by
  unfold Machine.up
  split <;> [split <;> rfl; rfl]

@[simp] theorem dir_up {interface : String} : ((m.up programs interface).getD m).dir = m.dir := by
  unfold Machine.up
  split <;> [split <;> rfl; rfl]

@[simp] theorem file_writeFile {text : List Char} (h : q' ≠ path) :
    (m.writeFile path text).file q' = m.file q' := by simp [Machine.writeFile, h]

@[simp] theorem dir_writeFile {text : List Char} : (m.writeFile path text).dir = m.dir := rfl

/-- A step leaves all files alone but its own. -/
theorem file_exec_of_ne (h : op.path? ≠ some path) :
    (op.exec programs input m p).1.file path = m.file path := by
  have hne {r : Path} (hr : op.path? = some r) : path ≠ r := by
    rintro rfl
    exact h hr
  cases op
  case genkey =>
    simp only [Op.exec, attempt_fst]
    split <;> simp [hne rfl]
  case sed interface =>
    simp only [Op.exec, attempt_fst]
    cases m.file .template <;> simp [hne rfl]
  case readKey =>
    simp only [Op.exec, attempt_fst]
    split <;> rfl
  case chmodDir =>
    simp only [Op.exec, attempt_fst]
    cases m.dir <;> rfl
  case apt | mkdir | testKey | stopUnit | down | linkDelete | sysctl | enable | restart =>
    simp [Op.exec, attempt_fst]
  all_goals simp [Op.exec, attempt_fst, hne rfl]

theorem dir_exec : (op.exec programs input m p).1.dir =
    if op = .mkdir then some (m.dir.getD (masked m.umask 0o777))
    else if op = .chmodDir then m.dir.map fun _ ↦ 0o700 else m.dir := by
  cases op
  case genkey =>
    simp only [Op.exec, attempt_fst]
    split <;> simp
  case sed interface =>
    simp only [Op.exec, attempt_fst]
    cases m.file .template <;> simp
  case readKey =>
    simp only [Op.exec, attempt_fst]
    split <;> simp
  case chmodDir =>
    simp only [Op.exec, attempt_fst]
    cases hdir : m.dir <;> simp [hdir]
  all_goals simp [Op.exec, attempt_fst]

/-- Only the test for the key changes what is left. -/
theorem ops_exec (h : (op.exec programs input m p).2 = some q) :
    q.ops = if op = .testKey ∧ m.key = [] then .openKey :: .genkey :: p.ops else p.ops := by
  cases op
  case testKey =>
    simp only [Op.exec, Option.some.injEq] at h
    subst h
    split <;> simp [*]
  all_goals
    simp only [Op.exec, Option.some.injEq] at h
    first
    | (rw [eq_of_attempt h]; rfl)
    | (subst h; rfl)

/-- Only `wg pubkey` gives a run something to return. -/
theorem publicKey_exec (h : (op.exec programs input m p).2 = some q) :
    q.publicKey = if op = .pubkey then some (PyStr.strip (String.ofList
      (if (m.file .privatekey).isNone then [] else programs.pubkey m.key))) else p.publicKey := by
  cases op
  case testKey =>
    simp only [Op.exec, Option.some.injEq] at h
    subst h
    split <;> rfl
  all_goals
    simp only [Op.exec, Option.some.injEq] at h
    first
    | (rw [eq_of_attempt h]; rfl)
    | (subst h; rfl)

end

/-- What an event is: a run starts, takes a step or ends. -/
theorem act_cases {programs : Programs} {m m' : Machine} {i : ℕ} {p p' : Option Proc} {a : Action}
    (h : act programs i m p a = some (m', p')) :
    (∃ job, a = .start job ∧ p = none ∧ m' = m ∧ p' = some { ops := job.ops }) ∨
    (∃ input op ops pk k, a = .step input ∧ p = some ⟨op :: ops, pk, k⟩ ∧
      op.exec programs input m ⟨ops, pk, k⟩ = (m', p')) ∨
    (∃ q, a = .cut ∧ p = some q ∧ m' = m ∧ p' = none) := by
  unfold act at h
  split at h
  · next job =>
    cases h
    exact .inl ⟨job, rfl, rfl, rfl, rfl⟩
  · next op ops pk k input =>
    exact .inr (.inl ⟨input, op, ops, pk, k, rfl, rfl, Option.some.inj h⟩)
  · next q =>
    cases h
    exact .inr (.inr ⟨q, rfl, rfl, rfl, rfl⟩)
  · cases h

/-! ## An example -/

theorem exampleHub_written :
    WritesExactly (writeServerConfigCommand exampleHub []) (renderServerConfig exampleHub []) := by
  rw [writeServerConfigCommand, writesExactly_iff (renderServerConfig_unlines exampleHub []),
    foreign_mem_serverConfig (.inl rfl), foreign_mem_serverConfig (.inr rfl),
    marker_mem_serverConfig]
  decide +kernel

/-- A hub without clients. -/
def exampleJob : Job :=
  .provisionServer ⟨exampleHub, [], by decide +kernel, exampleHub_written⟩

/-- A host that has just been set up. -/
def freshHost : Machine where
  umask := 0o22
  dir := none
  file _ := none
  link _ := none
  unit _ := false
  enabled _ := false
  forwarding := false

/-- What `wg genkey` prints. -/
def exampleKey : List Char := "sHi1+D7IVZqKKIzTIwyf1+EqqKb/lrap/8pdv4nHsUk=\n".toList

/-- The programs of the host, as far as the example needs them. -/
def examplePrograms : Programs where
  pubkey text :=
    if text = exampleKey then "XKYRH6wSqQvGDHvxqHycFiqPjE+vgr2FbZSoaS8Pv20=\n".toList else []
  loads _ := true

end WgManager.Host
