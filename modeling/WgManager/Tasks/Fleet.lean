import WgManager.Lib.Interleave
import WgManager.Wireguard
import Mathlib.Tactic.Simps.Basic

/-!
# The worker tasks, and what they interleave with

The Celery tasks of `tasks.py` that hold the advisory lock of a row — `provision_server_task`,
`provision_client_task`, `rotate_host_cert_task`, `rotate_client_host_cert_task` and
`reconfigure_server_task` — together with `request_reconfigure` and the handlers that dispatch
them, as one system of processes over a shared state: the committed tables, the row locks, the
broker's queue and the files on the hubs.

Each place where another process can get in between is a step of its own.  A task is a
`Proc.task`, and its `Phase` says how far it has got: it waits for its lock, it has loaded its
row, it has read the client list, it has written the template, then the configuration, and so on.
`request_reconfigure` is a `Proc.call` with its three statements: the bump, the read of the
generation, the dispatch.  What the environment decides — whether the lock is granted, whether an
SSH command or a commit fails, whether the worker is lost — is the action.

Three facts about the outside are built in.

* The row lock is mutually exclusive, and goes when its connection goes.
* A statement is atomic, and the reads of one session see committed versions that are not older
  than the session's first read: `Phase.loaded` remembers at which version of the client table
  the session began, and the client list may be read at that version or at any later one.
* The broker redelivers a message whose worker was lost, and no other: a task that returns is
  acknowledged.

`Shared.bumps`, `Shared.obtained` and `Shared.raised` are records of what happened.  No step reads
them; they are there so that properties of whole runs can be stated.
-/

set_option autoImplicit false

namespace WgManager.Tasks

/-! ## Messages and the shared state -/

/-- A row that has a lock: `wgm:server:<id>` or `wgm:client:<id>`. -/
inductive Node
  | server (id : ℕ)
  | client (id : ℕ)
  deriving DecidableEq

/-- A message on the broker.  `retries` is Celery's count of the retries so far. -/
inductive Task
  | provisionServer (serverId : ℕ)
  | provisionClient (clientId : ℕ)
  | rotateHostCert (serverId : ℕ)
  | rotateClientHostCert (clientId : ℕ)
  | reconfigureServer (serverId : ℕ) (generation : Option ℕ) (retries : ℕ)
  deriving DecidableEq

namespace Task

/-- The row whose lock the task takes. -/
def node : Task → Node
  | provisionServer id => .server id
  | provisionClient id => .client id
  | rotateHostCert id => .server id
  | rotateClientHostCert id => .client id
  | reconfigureServer id _ _ => .server id

/-- Whether the task provisions its row: only then does a failure set the row's status. -/
def isProvision : Task → Bool
  | provisionServer _ => true
  | provisionClient _ => true
  | _ => false

/-- The hub whose configuration the task writes. -/
def hub : Task → Option ℕ
  | provisionServer id => some id
  | reconfigureServer id _ _ => some id
  | _ => none

/-- The hub and generation a reconfigure message asks for. -/
def carries : Task → Option (ℕ × ℕ)
  | reconfigureServer id (some generation) _ => some (id, generation)
  | _ => none

end Task

/-- The task that provisions a row. -/
def provisionTask : Node → Task
  | .server id => .provisionServer id
  | .client id => .provisionClient id

/-- A rendered configuration, with the version of the client table its list was read from. -/
structure HubConfig where
  text : String
  asOf : ℕ
  deriving DecidableEq

/-- The files `_write_server_config` writes on a hub: the template in `/tmp`, and the
configuration last written in full. -/
structure HubFiles where
  tpl : Option HubConfig := none
  conf : Option HubConfig := none

/-- A `request_reconfigure` call on `server` that began at version `start` of the client table and
raised the requested generation to `bump`. -/
structure Bump where
  server : ℕ
  bump : ℕ
  start : ℕ
  deriving DecidableEq

/-- Such a call, once it has read back the generation it dispatches. -/
structure Obtained where
  server : ℕ
  generation : ℕ
  start : ℕ
  deriving DecidableEq

/-- What the processes share. -/
structure Shared where
  servers : Table Server := .empty
  /-- The next value of the auto-increment key of `servers`; MySQL does not hand one out twice. -/
  serverSeq : ℕ := 1
  clients : Table Client := .empty
  /-- The client tables that were committed before this one, oldest first. -/
  past : List (Table Client) := []
  locks : Node → Option ℕ := fun _ ↦ none
  queue : List Task := []
  hosts : ℕ → HubFiles := fun _ ↦ {}
  bumps : List Bump := []
  obtained : List Obtained := []
  /-- Hub and generation of every call or run that ended by raising. -/
  raised : List (ℕ × ℕ) := []

namespace Shared

/-- The number of commits the client table has seen. -/
def version (g : Shared) : ℕ := g.past.length

/-- The client table at a version. -/
def tableAt (g : Shared) (v : ℕ) : Option (Table Client) := (g.past ++ [g.clients])[v]?

/-- Commit a new client table. -/
@[simps -fullyApplied]
def commitClients (g : Shared) (t : Table Client) : Shared :=
  { g with clients := t, past := g.past ++ [g.clients] }

/-- Change some columns of a server row. -/
@[simps -fullyApplied]
def modifyServer (g : Shared) (id : ℕ) (f : Server → Server)
    (hf : ∀ r, (f r).id = r.id := by intro _; rfl) : Shared :=
  { g with servers := g.servers.modify id f hf }

/-- Change some columns of a client row. -/
@[simps! -fullyApplied]
def modifyClient (g : Shared) (id : ℕ) (f : Client → Client)
    (hf : ∀ r, (f r).id = r.id := by intro _; rfl) : Shared :=
  g.commitClients (g.clients.modify id f hf)

@[simps -fullyApplied]
def push (g : Shared) (t : Task) : Shared := { g with queue := g.queue ++ [t] }

@[simps -fullyApplied]
def lock (g : Shared) (i : ℕ) (n : Node) : Shared :=
  { g with locks := Function.update g.locks n (some i) }

/-- Give up the lock of `n`, if process `i` holds it. -/
@[simps -fullyApplied]
def release (g : Shared) (i : ℕ) (n : Node) : Shared :=
  { g with locks := if g.locks n = some i then Function.update g.locks n none else g.locks }

/-- Record that a call or run for this hub and generation raised. -/
@[simps -fullyApplied]
def report (g : Shared) (c : Option (ℕ × ℕ)) : Shared :=
  { g with raised := g.raised ++ c.toList }

@[simps -fullyApplied]
def writeHost (g : Shared) (id : ℕ) (f : HubFiles → HubFiles) : Shared :=
  { g with hosts := Function.update g.hosts id (f (g.hosts id)) }

end Shared

/-- `_ready_clients_for`. -/
def readyClientsFor (t : Table Client) (serverId : ℕ) : List Client :=
  t.select fun c ↦ c.serverId == serverId && c.status == .ready

/-! ## Processes -/

/-- How far a `request_reconfigure` call has got. -/
inductive CallPhase
  | begun
  | bumped (bump : ℕ)
  | obtained (generation : ℕ)
  deriving DecidableEq

/-- What a task has loaded at the start of its session: at which version of the client table, the
status of its row, and the hub row. -/
structure Loaded where
  first : ℕ
  status : NodeStatus
  hub : Option Server

/-- How far a task has got. -/
inductive Phase
  /-- Delivered; the lock is not taken yet. -/
  | start
  | locked
  | loaded (w : Loaded)
  /-- The client list has been read, at version `asOf`. -/
  | listed (w : Loaded) (asOf : ℕ) (clients : List Client)
  | tplWritten (w : Loaded)
  | confWritten (w : Loaded)
  /-- The remote work is done; the commit is due. -/
  | sshDone (w : Loaded)
  /-- The remote work failed; `_mark_error` is due.  `status` is the status that was loaded. -/
  | failing (status : NodeStatus)
  /-- Committed; the lock is still held.  A provisioned client still has to call
  `request_reconfigure` for its hub. -/
  | exiting (followUp : Option ℕ)

/-- A process. -/
inductive Proc
  /-- `request_reconfigure(server)`, begun at version `start` of the client table.  `origin` is
  the message of the task it runs in, if any. -/
  | call (server start : ℕ) (origin : Option Task) (ph : CallPhase)
  /-- A handler that has committed `status = pending` and is about to queue the task. -/
  | dispatching (t : Task)
  | task (t : Task) (ph : Phase)

/-- The message a process is about to queue or is working on. -/
def Proc.message : Proc → Option Task
  | call .. => none
  | dispatching t | task t _ => some t

/-- What can happen next. -/
inductive Action
  /-- Any other change to client rows: manual registration, enrollment, update, deletion. -/
  | commitClients (t : Table Client)
  | registerServer (row : Server)
  | registerClient (row : Client)
  | reprovisionServer (id : ℕ)
  | reprovisionClient (id : ℕ)
  | rotateServer (id : ℕ)
  | rotateClient (id : ℕ)
  | deleteServer (id : ℕ)
  /-- A reconfigure message from before the generations existed. -/
  | legacyMessage (id : ℕ)
  | requestReconfigure (id : ℕ)
  | deliver (k : ℕ)
  | dispatch
  | bump
  | readGeneration
  | lock
  /-- `GET_LOCK` did not answer 1. -/
  | notAcquired
  | load
  | sshKeyMissing
  /-- Read the client list at version `v`. -/
  | list (v : ℕ)
  | writeTpl
  | writeConf
  | sshDone
  | sshFail
  | commit (publicKey : String) (cert : HostCertColumns)
  | markError
  | release
  /-- An error that the code does not catch. -/
  | raise
  | workerLost

/-! ## The handlers and the broker -/

/-- A change to client rows that puts no further row into `pending`. -/
def noNewPending (old new : Table Client) : Bool :=
  new.rows.all fun r ↦ r.status != .pending || (old.get r.id).any (·.status == .pending)

/-- The steps that begin a process: the handlers, and the broker handing out a message. -/
def envStep (g : Shared) : Action → Option (Shared × Option Proc)
  | .commitClients t => if noNewPending g.clients t then some (g.commitClients t, none) else none
  | .registerServer row =>
    let row := { row with id := g.serverSeq, publicKey := "", status := .pending, hostCert := {},
                          reconfigRequestedGen := 0, reconfigAppliedGen := 0 }
    some ({ g with servers := g.servers.insert row, serverSeq := g.serverSeq + 1 },
      some (.dispatching (.provisionServer g.serverSeq)))
  | .registerClient row =>
    match g.clients.get row.id with
    | some _ => none
    | none =>
      let row := { row with publicKey := "", isManual := false, status := .pending, hostCert := {} }
      some (g.commitClients (g.clients.insert row), some (.dispatching (.provisionClient row.id)))
  | .reprovisionServer id =>
    match g.servers.get id with
    | none => none
    | some _ => some (g.modifyServer id fun r ↦ { r with status := .pending },
        some (.dispatching (.provisionServer id)))
  | .reprovisionClient id =>
    match g.clients.get id with
    | none => none
    | some row =>
      if row.isManual then none
      else some (g.modifyClient id fun r ↦ { r with status := .pending },
        some (.dispatching (.provisionClient id)))
  | .rotateServer id =>
    match g.servers.get id with
    | none => none
    | some _ => some (g.push (.rotateHostCert id), none)
  | .rotateClient id =>
    match g.clients.get id with
    | none => none
    | some row =>
      if row.isManual || row.sshKeyId.isNone then none
      else some (g.push (.rotateClientHostCert id), none)
  | .deleteServer id => some ({ g with servers := g.servers.delete id }, none)
  | .legacyMessage id => some (g.push (.reconfigureServer id none 0), none)
  | .requestReconfigure id => some (g, some (.call id g.version none .begun))
  | .deliver k =>
    match g.queue[k]? with
    | none => none
    | some t => some ({ g with queue := g.queue.eraseIdx k }, some (.task t .start))
  | _ => none

/-! ## `request_reconfigure` -/

/-- The steps of `request_reconfigure`.  A worker that is lost in the middle of the call leaves it
where it stopped, and the broker hands the message of its task out again. -/
def callStep (g : Shared) (server start : ℕ) (origin : Option Task) :
    CallPhase → Action → Option (Shared × Option Proc)
  | .begun, .bump =>
    match g.servers.get server with
    | none => some (g, none)
    | some row =>
      let requested := row.reconfigRequestedGen + 1
      some ({ g.modifyServer server fun r ↦
                { r with reconfigRequestedGen := r.reconfigRequestedGen + 1 } with
              bumps := g.bumps ++ [⟨server, requested, start⟩] },
        some (.call server start origin (.bumped requested)))
  | .bumped bump, .readGeneration =>
    match g.servers.get server with
    | none => some (g.report (some (server, bump)), none)
    | some row =>
      some ({ g with obtained := g.obtained ++ [⟨server, row.reconfigRequestedGen, start⟩] },
        some (.call server start origin (.obtained row.reconfigRequestedGen)))
  | .obtained generation, .dispatch =>
    some (g.push (.reconfigureServer server (some generation) 0), none)
  | .begun, .raise => some (g, none)
  | .bumped bump, .raise => some (g.report (some (server, bump)), none)
  | .obtained generation, .raise => some (g.report (some (server, generation)), none)
  | ph, .workerLost =>
    match origin with
    | none => none
    | some t => some (g.push t, some (.call server start none ph))
  | _, _ => none

/-! ## The tasks -/

/-- `RECONFIGURE_MAX_RETRIES`. -/
def reconfigureMaxRetries : ℕ := 30

/-- The task ends by raising: the lock goes with it. -/
def taskRaise (i : ℕ) (g : Shared) (t : Task) : Shared × Option Proc :=
  ((g.release i t.node).report t.carries, none)

/-- The lock was not granted.  A reconfigure is queued again until its retries run out; the other
tasks return `skipped`, which acknowledges the message. -/
def taskNotAcquired (i : ℕ) (g : Shared) (t : Task) : Shared × Option Proc :=
  match t with
  | .reconfigureServer id generation retries =>
    if retries < reconfigureMaxRetries then
      (g.push (.reconfigureServer id generation (retries + 1)), none)
    else taskRaise i g t
  | _ => (g, none)

/-- Load the rows of the task; `none` is a `ValueError`.  A reconfigure whose generation is already
applied is answered `coalesced` here. -/
def taskLoad (g : Shared) : Task → Option Phase
  | .provisionServer id =>
    (g.servers.get id).map fun row ↦ .loaded ⟨g.version, row.status, some row⟩
  | .provisionClient id =>
    (g.clients.get id).map fun client ↦
      match g.servers.get client.serverId with
      | none => .failing client.status
      | some row => .loaded ⟨g.version, client.status, some row⟩
  | .rotateHostCert id =>
    (g.servers.get id).map fun row ↦ .loaded ⟨g.version, row.status, some row⟩
  | .rotateClientHostCert id =>
    match g.clients.get id with
    | none => none
    | some client =>
      if client.isManual || client.hostname.isNone || client.sshKeyId.isNone ||
          client.sshUsername.isNone then none
      else some (.loaded ⟨g.version, client.status, none⟩)
  | .reconfigureServer id generation _ =>
    (g.servers.get id).map fun row ↦
      if generation.any (· ≤ row.reconfigAppliedGen) then .exiting none
      else .loaded ⟨g.version, row.status, some row⟩

/-- What a session writes for a status column: nothing, if the value is the one it loaded. -/
def flushStatus (loaded new current : NodeStatus) : NodeStatus :=
  if loaded = new then current else new

/-- The commit at the end of a task; `none` when the row is gone. -/
def taskCommit (g : Shared) (w : Loaded) (publicKey : String) (cert : HostCertColumns) :
    Task → Option (Shared × Phase)
  | .provisionServer id =>
    (g.servers.get id).map fun _ ↦
      (g.modifyServer id fun r ↦ { r with publicKey := publicKey, hostCert := cert,
                                          status := flushStatus w.status .ready r.status },
        .exiting none)
  | .provisionClient id =>
    (g.clients.get id).map fun _ ↦
      (g.modifyClient id fun r ↦ { r with publicKey := publicKey, hostCert := cert,
                                          status := flushStatus w.status .ready r.status },
        .exiting (w.hub.map Server.id))
  | .rotateHostCert id =>
    (g.servers.get id).map fun _ ↦
      (g.modifyServer id fun r ↦ { r with hostCert := cert }, .exiting none)
  | .rotateClientHostCert id =>
    (g.clients.get id).map fun _ ↦
      (g.modifyClient id fun r ↦ { r with hostCert := cert }, .exiting none)
  | .reconfigureServer id _ _ =>
    -- the guarded update: it matches no row when a newer run has already gone further
    let target := (w.hub.map Server.reconfigRequestedGen).getD 0
    some (g.modifyServer id fun r ↦
        { r with reconfigAppliedGen :=
                  if r.reconfigAppliedGen < target then target else r.reconfigAppliedGen },
      .exiting none)

/-- `_mark_error`, for the tasks that provision a row. -/
def markError (g : Shared) (loaded : NodeStatus) : Task → Shared
  | .provisionServer id =>
    g.modifyServer id fun r ↦ { r with status := flushStatus loaded .error r.status }
  | .provisionClient id =>
    g.modifyClient id fun r ↦ { r with status := flushStatus loaded .error r.status }
  | _ => g

/-- A remote command failed: a provisioning task goes on to mark its row, the others raise. -/
def taskSshFail (i : ℕ) (g : Shared) (t : Task) (w : Loaded) : Shared × Option Proc :=
  if t.isProvision then (g, some (.task t (.failing w.status))) else taskRaise i g t

/-- The steps of a task. -/
def taskStep (i : ℕ) (g : Shared) (t : Task) : Phase → Action → Option (Shared × Option Proc)
  | .start, .lock =>
    match g.locks t.node with
    | some _ => none
    | none => some (g.lock i t.node, some (.task t .locked))
  | .start, .notAcquired => some (taskNotAcquired i g t)
  | .locked, .load =>
    match taskLoad g t with
    | none => some (taskRaise i g t)
    | some ph => some (g, some (.task t ph))
  | .loaded w, .sshKeyMissing => some (taskSshFail i g t w)
  | .loaded w, .list v =>
    match t.hub, g.tableAt v with
    | some id, some table =>
      if w.first ≤ v then some (g, some (.task t (.listed w v (readyClientsFor table id))))
      else none
    | _, _ => none
  | .listed w v clients, .writeTpl =>
    match t.hub, w.hub with
    | some id, some row =>
      some (g.writeHost id fun h ↦ { h with tpl := some ⟨renderServerConfig row clients, v⟩ },
        some (.task t (.tplWritten w)))
    | _, _ => none
  | .tplWritten w, .writeConf =>
    match t.hub with
    | some id =>
      some (g.writeHost id fun h ↦ { h with conf := h.tpl }, some (.task t (.confWritten w)))
    | none => none
  | .confWritten w, .sshDone => some (g, some (.task t (.sshDone w)))
  | .loaded w, .sshDone =>
    match t.hub with
    | none => some (g, some (.task t (.sshDone w)))
    | some _ => none
  | .loaded w, .sshFail =>
    match t.hub with
    | none => some (taskSshFail i g t w)
    | some _ => none
  | .listed w _ _, .sshFail => some (taskSshFail i g t w)
  | .tplWritten w, .sshFail => some (taskSshFail i g t w)
  | .confWritten w, .sshFail => some (taskSshFail i g t w)
  | .sshDone w, .commit publicKey cert =>
    match taskCommit g w publicKey cert t with
    | none => some (taskRaise i g t)
    | some (g', ph) => some (g', some (.task t ph))
  | .failing status, .markError => some (taskRaise i (markError g status t) t)
  | .exiting followUp, .release =>
    let g := g.release i t.node
    some (g, followUp.map fun server ↦ .call server g.version (some t) .begun)
  | .listed .., .raise => none
  | .tplWritten _, .raise => none
  | .confWritten _, .raise => none
  | _, .raise => some (taskRaise i g t)
  | _, .workerLost => some ((g.release i t.node).push t, none)
  | _, _ => none

/-! ## The system -/

/-- One step of process `i`. -/
def procStep (i : ℕ) (g : Shared) : Option Proc → Action → Option (Shared × Option Proc)
  | none, a => envStep g a
  | some (.call server start origin ph), a => callStep g server start origin ph a
  | some (.dispatching t), .dispatch => some (g.push t, none)
  | some (.dispatching _), .raise => some (g, none)
  | some (.dispatching _), _ => none
  | some (.task t ph), a => taskStep i g t ph a

/-- A state of the fleet. -/
abbrev State := Config Shared Proc

/-- No server, no client, no process. -/
def init : State := ⟨{}, fun _ ↦ none⟩

/-- The state an interleaving leads to. -/
def run (trace : List (ℕ × Action)) : Option State := Run.run (Config.step procStep) init trace

end WgManager.Tasks
