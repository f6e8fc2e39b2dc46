import WgManager.Tasks.Reconfigure

/-!
# Runs in which the hub is always reached

The fleet of `Fleet` admits everything that can go wrong.  This file cuts it down to the runs an
operator expects to end well: clients are registered, reprovisioned, admitted and deleted, hubs are
registered and reprovisioned, every dispatch succeeds and every SSH session to a hub does, and only
the sessions to the clients may fail.

`hubStep` is the step function of these runs.  A handler that changes the client table and then
calls `request_reconfigure` — a manual registration, a redemption, a deletion — is one event that
commits and begins the call; everything the broker and the workers do is an `Event.work`, and
`works` says which of the fleet's actions are among them.  Every such step is one or two steps of
the fleet (`fleet_of_hubStep`), so what is proved about runs of the fleet holds of these runs.

`HubMove` and `WorkMove` list what a step can do, in the way of `Moves`.
-/

set_option autoImplicit false

namespace WgManager.Tasks

/-! ## The events -/

/-- What can happen in such a run. -/
inductive Event
  | registerServer (row : Server)
  | registerClient (row : Client)
  | reprovisionServer (id : ℕ)
  | reprovisionClient (id : ℕ)
  /-- `register_manual_client` or the redemption of a token: the row is committed as `ready`, and
  the hub is asked to catch up. -/
  | admitClient (row : Client)
  | deleteClient (id : ℕ)
  /-- What the broker and the workers do. -/
  | work (a : Action)

/-- No version of the client table has had a row with this key; MySQL does not hand one out
twice. -/
def Shared.unused (g : Shared) (id : ℕ) : Bool :=
  (g.past ++ [g.clients]).all fun t ↦ (t.get id).isNone

/-- The key is new, and the hub of the row exists. -/
def Shared.admissible (g : Shared) (row : Client) : Bool :=
  g.unused row.id && (g.servers.get row.serverId).isSome

/-- The actions of the broker and the workers.  `GET_LOCK` answers 0 only when another connection
holds the lock, and no remote command fails on a hub. -/
def works (g : Shared) (p : Option Proc) : Action → Bool
  | .deliver _ | .dispatch | .bump | .readGeneration | .lock | .load | .list _ | .writeTpl
  | .writeConf | .sshDone | .commit .. | .markError | .release => true
  | .notAcquired => (p.bind Proc.message).any fun t ↦ (g.locks t.node).isSome
  | .sshFail | .sshKeyMissing => (p.bind Proc.message).any fun t ↦ t.hub.isNone
  | _ => false

/-- One step of process `i`. -/
def hubStep (i : ℕ) (g : Shared) : Option Proc → Event → Option (Shared × Option Proc)
  | none, .registerServer row => envStep g (.registerServer row)
  | none, .registerClient row =>
    if g.admissible row then envStep g (.registerClient row) else none
  | none, .reprovisionServer id => envStep g (.reprovisionServer id)
  | none, .reprovisionClient id => envStep g (.reprovisionClient id)
  | none, .admitClient row =>
    if g.admissible row then
      some (g.commitClients (g.clients.insert { row with status := .ready }),
        some (.call row.serverId (g.version + 1) none .begun))
    else none
  | none, .deleteClient id =>
    match g.clients.get id with
    | none => none
    | some row =>
      some (g.commitClients (g.clients.delete id),
        some (.call row.serverId (g.version + 1) none .begun))
  | p, .work a => if works g p a then procStep i g p a else none
  | _, _ => none

/-- The state such a run leads to. -/
def hubRun (trace : List (ℕ × Event)) : Option State := Run.run (Config.step hubStep) init trace

/-! ## These are runs of the fleet -/

section

variable {i : ℕ} {g g' : Shared} {p p' : Option Proc} {s s' : State}

theorem noNewPending_insert (t : Table Client) (row : Client) :
    noNewPending t (t.insert { row with status := .ready }) := by
  rw [noNewPending, List.all_eq_true]
  intro r hr
  rcases Table.mem_insert hr with hold | rfl
  · simp only [show t.get r.id = some r from Table.mem_rows_iff.mp hold, Option.any_some]
    cases r.status <;> decide
  · rfl

theorem noNewPending_delete (t : Table Client) (id : ℕ) : noNewPending t (t.delete id) := by
  rw [noNewPending, List.all_eq_true]
  intro r hr
  have hold : r ∈ t.rows := (List.mem_filter.mp hr).1
  simp only [show t.get r.id = some r from Table.mem_rows_iff.mp hold, Option.any_some]
  cases r.status <;> decide

/-- A commit and the call that follows it, as two steps of the fleet. -/
theorem fleet_of_commit {t : Table Client} {id : ℕ} (hp : s.proc i = none)
    (hquiet : noNewPending s.shared.clients t) :
    Run.run (Config.step procStep) s [(i, .commitClients t), (i, .requestReconfigure id)] =
      some ⟨s.shared.commitClients t, Function.update s.proc i
        (some (.call id (s.shared.version + 1) none .begun))⟩ := by
  have hcommit : Config.step procStep s (i, .commitClients t) =
      some ⟨s.shared.commitClients t, Function.update s.proc i none⟩ := by
    simp only [Config.step, hp, procStep, envStep, if_pos hquiet, Option.map_some]
  have hcall : Config.step procStep ⟨s.shared.commitClients t, Function.update s.proc i none⟩
      (i, .requestReconfigure id) = some ⟨s.shared.commitClients t, Function.update s.proc i
        (some (.call id (s.shared.version + 1) none .begun))⟩ := by
    simp [Config.step, procStep, envStep]
  rw [Run.run, hcommit, Option.bind_some, Run.run, hcall]
  rfl

/-- **Every step is a step of the fleet**, or two of them. -/
theorem fleet_of_hubStep {e : ℕ × Event} (h : Config.step hubStep s e = some s') :
    ∃ es, Run.run (Config.step procStep) s es = some s' := by
  obtain ⟨i, e⟩ := e
  obtain ⟨g', p', hf, rfl⟩ := Config.step_eq_some.mp h
  simp only at hf ⊢
  have hone (a : Action) (ha : procStep i s.shared (s.proc i) a = some (g', p')) :
      ∃ es, Run.run (Config.step procStep) s es =
        some ⟨g', Function.update s.proc i p'⟩ := by
    refine ⟨[(i, a)], ?_⟩
    rw [Run.run, Config.step, ha]
    rfl
  have henv (a : Action) (hp : s.proc i = none) (ha : envStep s.shared a = some (g', p')) :
      ∃ es, Run.run (Config.step procStep) s es =
        some ⟨g', Function.update s.proc i p'⟩ :=
    hone a (by rw [hp]; exact ha)
  rw [hubStep.eq_def] at hf
  split at hf
  · next row hp => exact henv _ hp hf
  · next row hp =>
    split at hf
    · exact henv _ hp hf
    · cases hf
  · next id hp => exact henv _ hp hf
  · next id hp => exact henv _ hp hf
  · next row hp =>
    split at hf
    · cases hf
      exact ⟨_, fleet_of_commit hp (noNewPending_insert _ row)⟩
    · cases hf
  · next id hp =>
    split at hf
    · cases hf
    · cases hf
      exact ⟨_, fleet_of_commit hp (noNewPending_delete _ id)⟩
  · next a =>
    split at hf
    · exact hone a hf
    · cases hf
  · cases hf

end

/-! ## What a task can do -/

/-- The tasks such a run queues: no rotation, and no reconfigure without a generation. -/
def Task.onHub : Task → Bool
  | provisionServer _ | provisionClient _ | reconfigureServer _ (some _) _ => true
  | _ => false

/-- Such a task, and a reconfigure finds the row of its hub. -/
structure Task.Served (g : Shared) (t : Task) : Prop where
  onHub : t.onHub
  server : ∀ id m, t.carries = some (id, m) → (g.servers.get id).isSome

/-- **What a step of a task can do** in such a run. -/
inductive WorkMove (i : ℕ) (g : Shared) (t : Task) : Phase → Action → Shared → Option Proc → Prop
  | lock {a : Action} (free : g.locks t.node = none) :
      WorkMove i g t .start a (g.lock i t.node) (some (.task t .locked))
  | skip {j : ℕ} (held : g.locks t.node = some j) (ht : t.isProvision) :
      WorkMove i g t .start .notAcquired g none
  | retry {id m retries : ℕ} (ht : t = .reconfigureServer id (some m) retries) :
      WorkMove i g t .start .notAcquired
        (g.push (.reconfigureServer id (some m) (retries + 1))) none
  | giveUp {id m retries : ℕ} (ht : t = .reconfigureServer id (some m) retries)
      (hretries : reconfigureMaxRetries ≤ retries) :
      WorkMove i g t .start .notAcquired ((g.release i t.node).report (some (id, m))) none
  /-- The row of the task has been deleted. -/
  | gone {ph : Phase} {a : Action} (ht : t.isProvision) (hgone : ¬t.node.Exists g) :
      WorkMove i g t ph a (g.release i t.node) none
  | load {a : Action} {ph : Phase} (hload : taskLoad g t = some ph) :
      WorkMove i g t .locked a g (some (.task t ph))
  | fail {ph : Phase} {a : Action} {w : Loaded} (hw : ph.row = some w) (ht : t.isProvision) :
      WorkMove i g t ph a g (some (.task t (.failing w.status)))
  | list {a : Action} {w : Loaded} {v : ℕ} {clients : List Client} :
      WorkMove i g t (.loaded w) a g (some (.task t (.listed w v clients)))
  | writeTpl {a : Action} {w : Loaded} {id v : ℕ} {clients : List Client} {c : HubConfig}
      (ht : t.hub = some id) :
      WorkMove i g t (.listed w v clients) a (g.writeHost id fun h ↦ { h with tpl := some c })
        (some (.task t (.tplWritten w)))
  | writeConf {a : Action} {w : Loaded} {id : ℕ} (ht : t.hub = some id) :
      WorkMove i g t (.tplWritten w) a (g.writeHost id fun h ↦ { h with conf := h.tpl })
        (some (.task t (.confWritten w)))
  | sshDone {ph : Phase} {a : Action} {w : Loaded} (hw : ph.row = some w) :
      WorkMove i g t ph a g (some (.task t (.sshDone w)))
  | commitServer {w : Loaded} {id : ℕ} {f : Server → Server} {hf : ∀ r, (f r).id = r.id}
      {a : Action} (ht : t.hub = some id) :
      WorkMove i g t (.sshDone w) a (g.modifyServer id f hf) (some (.task t (.exiting none)))
  | commitClient {w : Loaded} {c : ℕ} {f : Client → Client} {hf : ∀ r, (f r).id = r.id}
      {a : Action} (ht : t = .provisionClient c) (hserver : ∀ r, (f r).serverId = r.serverId) :
      WorkMove i g t (.sshDone w) a (g.modifyClient c f hf)
        (some (.task t (.exiting (w.hub.map Server.id))))
  | errorServer {status : NodeStatus} {id : ℕ} {f : Server → Server} {hf : ∀ r, (f r).id = r.id}
      (ht : t = .provisionServer id) :
      WorkMove i g t (.failing status) .markError ((g.modifyServer id f hf).release i t.node) none
  | errorClient {status : NodeStatus} {c : ℕ} {f : Client → Client} {hf : ∀ r, (f r).id = r.id}
      (ht : t = .provisionClient c) (hserver : ∀ r, (f r).serverId = r.serverId)
      (hstatus : ∀ r, (f r).status = .ready → r.status = .ready) :
      WorkMove i g t (.failing status) .markError ((g.modifyClient c f hf).release i t.node) none
  | release {followUp : Option ℕ} {a : Action} :
      WorkMove i g t (.exiting followUp) a (g.release i t.node)
        (followUp.map fun server ↦ .call server g.version (some t) .begun)

section

variable {i : ℕ} {g g' : Shared} {t : Task} {p p' : Option Proc}

theorem Task.carries_of_isProvision (ht : t.isProvision) : t.carries = none := by
  cases t with
  | provisionServer | provisionClient => rfl
  | _ => cases ht

/-- A provisioning task whose row is gone ends by raising, and has nothing to report. -/
theorem workMove_of_taskRaise {ph : Phase} {a : Action} (ht : t.isProvision)
    (hgone : ¬t.node.Exists g) (h : some (taskRaise i g t) = some (g', p')) :
    WorkMove i g t ph a g' p' := by
  rw [taskRaise, Task.carries_of_isProvision ht, Shared.report_none] at h
  cases h
  exact .gone ht hgone

/-- A task of such a run loads its row, unless it is a provisioning task whose row is gone. -/
theorem isProvision_of_taskLoad (ht : t.Served g) (hload : taskLoad g t = none) :
    t.isProvision := by
  cases t with
  | provisionServer | provisionClient => rfl
  | reconfigureServer id generation retries =>
    cases generation with
    | none => cases ht.onHub
    | some m =>
      have hserver := ht.server id m rfl
      rw [taskLoad, Option.map_eq_none_iff] at hload
      rw [hload] at hserver
      cases hserver
  | _ => cases ht.onHub

theorem isProvision_of_hub_eq_none (ht : t.onHub) (hhub : t.hub = none) : t.isProvision := by
  cases t with
  | provisionServer | provisionClient => rfl
  | reconfigureServer => cases hhub
  | _ => cases ht

theorem workMove_of_taskNotAcquired {j : ℕ} (ht : t.onHub) (held : g.locks t.node = some j)
    (h : some (taskNotAcquired i g t) = some (g', p')) :
    WorkMove i g t .start .notAcquired g' p' := by
  cases t with
  | reconfigureServer id generation retries =>
    cases generation with
    | none => cases ht
    | some m =>
      rw [taskNotAcquired] at h
      split at h
      · cases h; exact .retry rfl
      · next hretries => cases h; exact .giveUp rfl (by omega)
  | provisionServer | provisionClient => cases h; exact .skip held rfl
  | _ => cases ht

theorem workMove_of_taskCommit {w : Loaded} {publicKey : String} {cert : HostCertColumns}
    {a : Action} {ph : Phase} (ht : t.onHub)
    (h : taskCommit g w publicKey cert t = some (g', ph)) :
    WorkMove i g t (.sshDone w) a g' (some (.task t ph)) := by
  cases t with
  | provisionServer id =>
    obtain ⟨row, -, hph⟩ := Option.map_eq_some_iff.mp h
    cases hph
    exact .commitServer rfl
  | provisionClient id =>
    obtain ⟨row, -, hph⟩ := Option.map_eq_some_iff.mp h
    cases hph
    exact .commitClient rfl fun _ ↦ rfl
  | reconfigureServer id generation retries =>
    cases h
    exact .commitServer rfl
  | _ => cases ht

theorem ready_of_flushStatus {loaded current : NodeStatus}
    (h : flushStatus loaded .error current = .ready) : current = .ready := by
  rw [flushStatus] at h
  split at h
  · exact h
  · cases h

theorem workMove_of_markError {status : NodeStatus} (ht : t.isProvision)
    (h : some (taskRaise i (markError g status t) t) = some (g', p')) :
    WorkMove i g t (.failing status) .markError g' p' := by
  rw [taskRaise, Task.carries_of_isProvision ht, Shared.report_none] at h
  cases t with
  | provisionServer id => cases h; exact .errorServer rfl
  | provisionClient id =>
    cases h
    exact .errorClient rfl (fun _ ↦ rfl) fun _ ↦ ready_of_flushStatus
  | _ => cases ht

theorem workMove_of_taskStep {ph : Phase} {a : Action} (ht : t.Served g)
    (hfailing : ∀ status, ph = .failing status → t.isProvision)
    (hworks : works g (some (.task t ph)) a) (h : taskStep i g t ph a = some (g', p')) :
    WorkMove i g t ph a g' p' := by
  -- a remote command that fails is not one on a hub
  have hfail (w : Loaded) (ha : a = .sshFail ∨ a = .sshKeyMissing) (hw : ph.row = some w)
      (h : some (taskSshFail i g t w) = some (g', p')) : WorkMove i g t ph a g' p' := by
    have hprov : t.isProvision := by
      refine isProvision_of_hub_eq_none ht.onHub ?_
      rcases ha with rfl | rfl <;> simpa [works, Proc.message] using hworks
    rw [taskSshFail, if_pos hprov] at h
    cases h
    exact .fail hw hprov
  fun_cases taskStep i g t ph a
  all_goals first
    | (simp only [taskStep, reduceCtorEq, *] at h; done)
    | simp only [taskStep] at h
  case case2 free => rw [free] at h; cases h; exact .lock free
  case case3 =>
    obtain ⟨j, held⟩ : ∃ j, g.locks t.node = some j := by
      simpa [works, Proc.message, Option.isSome_iff_exists] using hworks
    exact workMove_of_taskNotAcquired ht.onHub held h
  case case4 hload =>
    have hprov := isProvision_of_taskLoad ht hload
    rw [hload] at h
    exact workMove_of_taskRaise hprov (not_exists_of_taskLoad hload hprov) h
  case case5 hload => rw [hload] at h; cases h; exact .load hload
  case case6 => exact hfail _ (.inr rfl) rfl h
  case case7 htable hhub hv =>
    simp only [hhub, htable, if_pos hv] at h
    cases h
    exact .list
  case case8 htable hhub hv =>
    simp only [hhub, htable, if_neg hv] at h
    cases h
  case case10 hrow hhub => simp only [hhub, hrow] at h; cases h; exact .writeTpl hhub
  case case12 hhub => rw [hhub] at h; cases h; exact .writeConf hhub
  case case14 => cases h; exact .sshDone rfl
  case case15 hhub => rw [hhub] at h; cases h; exact .sshDone rfl
  case case17 hhub => rw [hhub] at h; exact hfail _ (.inl rfl) rfl h
  case case19 => exact hfail _ (.inl rfl) rfl h
  case case20 => exact hfail _ (.inl rfl) rfl h
  case case21 => exact hfail _ (.inl rfl) rfl h
  case case22 hcommit =>
    rw [hcommit] at h
    have hprov : t.isProvision := by
      cases t with
      | reconfigureServer => cases hcommit
      | provisionServer | provisionClient => rfl
      | _ => cases ht.onHub
    exact workMove_of_taskRaise hprov (not_exists_of_taskCommit hcommit hprov) h
  case case23 hcommit => rw [hcommit] at h; cases h; exact workMove_of_taskCommit ht.onHub hcommit
  case case24 => exact workMove_of_markError (hfailing _ rfl) h
  case case25 => cases h; exact .release
  case case29 => cases hworks
  case case30 => cases hworks

end

/-! ## What a step can do -/

/-- **What a step of such a run can do.** -/
inductive HubMove (i : ℕ) (g : Shared) : Option Proc → Event → Shared → Option Proc → Prop
  | registerServer {e : Event} {row : Server} :
      HubMove i g none e { g with servers := g.servers.insert row, serverSeq := g.serverSeq + 1 }
        (some (.dispatching (.provisionServer g.serverSeq)))
  | registerClient {e : Event} {row : Client} (hrow : g.admissible row)
      (hstatus : row.status = .pending) :
      HubMove i g none e (g.commitClients (g.clients.insert row))
        (some (.dispatching (.provisionClient row.id)))
  | reprovisionServer {e : Event} {id : ℕ} :
      HubMove i g none e (g.modifyServer id fun r ↦ { r with status := .pending })
        (some (.dispatching (.provisionServer id)))
  | reprovisionClient {e : Event} {id : ℕ} :
      HubMove i g none e (g.modifyClient id fun r ↦ { r with status := .pending })
        (some (.dispatching (.provisionClient id)))
  | admitClient {e : Event} {row : Client} (hrow : g.admissible row) :
      HubMove i g none e (g.commitClients (g.clients.insert row))
        (some (.call row.serverId (g.version + 1) none .begun))
  | deleteClient {e : Event} {id : ℕ} {row : Client} (hrow : g.clients.get id = some row) :
      HubMove i g none e (g.commitClients (g.clients.delete id))
        (some (.call row.serverId (g.version + 1) none .begun))
  | deliver {e : Event} {k : ℕ} {t : Task} (ht : g.queue[k]? = some t) :
      HubMove i g none e { g with queue := g.queue.eraseIdx k } (some (.task t .start))
  | bump {e : Event} {server start : ℕ} {origin : Option Task} {row : Server}
      (hrow : g.servers.get server = some row) :
      HubMove i g (some (.call server start origin .begun)) e
        { g.modifyServer server fun r ↦
            { r with reconfigRequestedGen := r.reconfigRequestedGen + 1 } with
          bumps := g.bumps ++ [⟨server, row.reconfigRequestedGen + 1, start⟩] }
        (some (.call server start origin (.bumped (row.reconfigRequestedGen + 1))))
  | readGeneration {e : Event} {server start bump : ℕ} {origin : Option Task} {row : Server}
      (hrow : g.servers.get server = some row) :
      HubMove i g (some (.call server start origin (.bumped bump))) e
        { g with obtained := g.obtained ++ [⟨server, row.reconfigRequestedGen, start⟩] }
        (some (.call server start origin (.obtained row.reconfigRequestedGen)))
  | request {e : Event} {server start generation : ℕ} {origin : Option Task} :
      HubMove i g (some (.call server start origin (.obtained generation))) e
        (g.push (.reconfigureServer server (some generation) 0)) none
  | dispatch {e : Event} {t : Task} : HubMove i g (some (.dispatching t)) e (g.push t) none
  | task {t : Task} {ph : Phase} {a : Action} {g' : Shared} {p' : Option Proc}
      (hmove : WorkMove i g t ph a g' p') : HubMove i g (some (.task t ph)) (.work a) g' p'

/-- What a process needs for its next step: the row of the hub it calls for, or a task that such
runs queue, of which only the provisioning ones can fail. -/
def Proc.Ready (g : Shared) : Proc → Prop
  | .call server _ _ _ => (g.servers.get server).isSome
  | .dispatching _ => True
  | .task t ph => t.Served g ∧ ∀ status, ph = .failing status → t.isProvision

section

variable {i : ℕ} {g g' : Shared} {p p' : Option Proc}

theorem hubMove_of_envStep {a : Action} {e : Event} (hworks : works g none a)
    (h : envStep g a = some (g', p')) : HubMove i g none e g' p' := by
  cases a with
  | deliver k =>
    rw [envStep] at h
    split at h
    · cases h
    · next ht => cases h; exact .deliver ht
  | commitClients | registerServer | registerClient | reprovisionServer | reprovisionClient
  | rotateServer | rotateClient | deleteServer | legacyMessage | requestReconfigure => cases hworks
  | _ => cases h

theorem hubMove_of_callStep {server start : ℕ} {origin : Option Task} {ph : CallPhase} {a : Action}
    {e : Event} (hserver : (g.servers.get server).isSome)
    (hworks : works g (some (.call server start origin ph)) a)
    (h : callStep g server start origin ph a = some (g', p')) :
    HubMove i g (some (.call server start origin ph)) e g' p' := by
  obtain ⟨row, hrow⟩ := Option.isSome_iff_exists.mp hserver
  cases a with
  | bump =>
    cases ph with
    | begun => simp only [callStep, hrow] at h; cases h; exact .bump hrow
    | _ => cases h
  | readGeneration =>
    cases ph with
    | bumped bump => simp only [callStep, hrow] at h; cases h; exact .readGeneration hrow
    | _ => cases h
  | dispatch =>
    cases ph with
    | obtained generation => cases h; exact .request
    | _ => cases h
  | raise | workerLost => cases hworks
  | _ => cases ph <;> cases h

/-- **What a step of such a run can do**, when the process that takes it is ready for it. -/
theorem hubMove_of_hubStep {e : Event} (hready : ∀ q, p = some q → q.Ready g)
    (h : hubStep i g p e = some (g', p')) : HubMove i g p e g' p' := by
  rw [hubStep.eq_def] at h
  split at h
  · cases h; exact .registerServer
  · next row =>
    split at h
    · next hrow =>
      rw [envStep] at h
      split at h
      · cases h
      · cases h
        exact @HubMove.registerClient i g _ { row with publicKey := "", isManual := false,
                                                       status := .pending, hostCert := {} } hrow rfl
    · cases h
  · rw [envStep] at h
    split at h
    · cases h
    · cases h; exact .reprovisionServer
  · rw [envStep] at h
    split at h
    · cases h
    · split at h
      · cases h
      · cases h; exact .reprovisionClient
  · next row =>
    split at h
    · next hrow =>
      cases h
      exact @HubMove.admitClient i g _ { row with status := .ready } hrow
    · cases h
  · split at h
    · cases h
    · next hrow => cases h; exact .deleteClient hrow
  · next a =>
    split at h
    · next hworks =>
      rcases p with _ | q
      · exact hubMove_of_envStep hworks h
      · cases q with
        | call server start origin ph => exact hubMove_of_callStep (hready _ rfl) hworks h
        | dispatching t =>
          cases a with
          | dispatch => cases h; exact .dispatch
          | raise => cases hworks
          | _ => cases h
        | task t ph =>
          exact .task (workMove_of_taskStep (hready _ rfl).1 (hready _ rfl).2 hworks h)
    · cases h
  · cases h

end

end WgManager.Tasks
