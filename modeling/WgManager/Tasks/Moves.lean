import WgManager.Tasks.Fleet

/-!
# What a step of the fleet can do

The step functions of `Fleet` are written the way the code runs, as nested matches.  Proofs want
the opposite reading: given that a step was possible, which of a short list of things happened, and
what held before it.  `EnvMove`, `CallMove` and `TaskMove` are these lists for the handlers and the
broker, for `request_reconfigure`, and for a task, and `procStep_cases` puts them together.  No
proof about runs unfolds a step function again.
-/

set_option autoImplicit false

namespace WgManager.Tasks

/-! ## The version of the client table -/

namespace Shared

@[simp] theorem version_commitClients (g : Shared) (t : Table Client) :
    (g.commitClients t).version = g.version + 1 := by
  simp [version]

theorem tableAt_commitClients {g : Shared} {t t' : Table Client} {v : ℕ}
    (h : g.tableAt v = some t') : (g.commitClients t).tableAt v = some t' := by
  have hlt := (List.getElem?_eq_some_iff.mp h).1
  rw [tableAt, commitClients_past, commitClients_clients, List.getElem?_append_left hlt]
  exact h

@[simp] theorem report_none (g : Shared) : g.report none = g := by
  rw [report, Option.toList_none, List.append_nil]

end Shared

/-! ## The handlers and the broker -/

/-- **What a step that begins a process can do.** -/
inductive EnvMove (g : Shared) : Shared → Option Proc → Prop
  | commitClients {t : Table Client} (quiet : noNewPending g.clients t) :
      EnvMove g (g.commitClients t) none
  | registerServer {row : Server} (hid : row.id = g.serverSeq)
      (hreq : row.reconfigRequestedGen = 0) (happ : row.reconfigAppliedGen = 0) :
      EnvMove g { g with servers := g.servers.insert row, serverSeq := g.serverSeq + 1 }
        (some (.dispatching (.provisionServer g.serverSeq)))
  | registerClient {row : Client} (free : g.clients.get row.id = none) :
      EnvMove g (g.commitClients (g.clients.insert row))
        (some (.dispatching (.provisionClient row.id)))
  | reprovisionServer {id : ℕ} :
      EnvMove g (g.modifyServer id fun r ↦ { r with status := .pending })
        (some (.dispatching (.provisionServer id)))
  | reprovisionClient {id : ℕ} :
      EnvMove g (g.modifyClient id fun r ↦ { r with status := .pending })
        (some (.dispatching (.provisionClient id)))
  | queue {t : Task} (ht : t.carries = none) : EnvMove g (g.push t) none
  | deleteServer {id : ℕ} : EnvMove g { g with servers := g.servers.delete id } none
  | request {id : ℕ} : EnvMove g g (some (.call id g.version none .begun))
  | deliver {k : ℕ} {t : Task} (ht : g.queue[k]? = some t) :
      EnvMove g { g with queue := g.queue.eraseIdx k } (some (.task t .start))

theorem envMove_of_envStep {g g' : Shared} {a : Action} {p' : Option Proc}
    (h : envStep g a = some (g', p')) : EnvMove g g' p' := by
  cases a with
  | commitClients t =>
    rw [envStep] at h
    split at h
    · next quiet => cases h; exact .commitClients quiet
    · cases h
  | registerServer row =>
    cases h
    exact .registerServer rfl rfl rfl
  | registerClient row =>
    rw [envStep] at h
    split at h
    · cases h
    · next free =>
      cases h
      exact @EnvMove.registerClient g { row with publicKey := "", isManual := false,
                                                 status := .pending, hostCert := {} } free
  | reprovisionServer id =>
    rw [envStep] at h
    split at h
    · cases h
    · cases h; exact .reprovisionServer
  | reprovisionClient id =>
    rw [envStep] at h
    split at h
    · cases h
    · split at h
      · cases h
      · cases h; exact .reprovisionClient
  | rotateServer id =>
    rw [envStep] at h
    split at h
    · cases h
    · cases h; exact .queue rfl
  | rotateClient id =>
    rw [envStep] at h
    split at h
    · cases h
    · split at h
      · cases h
      · cases h; exact .queue rfl
  | deleteServer id => cases h; exact .deleteServer
  | legacyMessage id => cases h; exact .queue rfl
  | requestReconfigure id => cases h; exact .request
  | deliver k =>
    rw [envStep] at h
    split at h
    · cases h
    · next ht => cases h; exact .deliver ht
  | _ => cases h

/-! ## `request_reconfigure` -/

/-- The hub and generation a call has asked for so far. -/
def CallPhase.carries (server : ℕ) : CallPhase → Option (ℕ × ℕ)
  | .begun => none
  | .bumped bump => some (server, bump)
  | .obtained generation => some (server, generation)

/-- **What a step of `request_reconfigure` can do.** -/
inductive CallMove (g : Shared) (server start : ℕ) (origin : Option Task) :
    CallPhase → Shared → Option Proc → Prop
  | bump {row : Server} (hrow : g.servers.get server = some row) :
      CallMove g server start origin .begun
        { g.modifyServer server fun r ↦
            { r with reconfigRequestedGen := r.reconfigRequestedGen + 1 } with
          bumps := g.bumps ++ [⟨server, row.reconfigRequestedGen + 1, start⟩] }
        (some (.call server start origin (.bumped (row.reconfigRequestedGen + 1))))
  | readGeneration {row : Server} {bump : ℕ} (hrow : g.servers.get server = some row) :
      CallMove g server start origin (.bumped bump)
        { g with obtained := g.obtained ++ [⟨server, row.reconfigRequestedGen, start⟩] }
        (some (.call server start origin (.obtained row.reconfigRequestedGen)))
  | dispatch {generation : ℕ} :
      CallMove g server start origin (.obtained generation)
        (g.push (.reconfigureServer server (some generation) 0)) none
  | raise {ph : CallPhase} : CallMove g server start origin ph (g.report (ph.carries server)) none
  | lost {ph : CallPhase} {t : Task} (ht : origin = some t) :
      CallMove g server start origin ph (g.push t) (some (.call server start none ph))

theorem callMove_of_callStep {g g' : Shared} {server start : ℕ} {origin : Option Task}
    {ph : CallPhase} {a : Action} {p' : Option Proc}
    (h : callStep g server start origin ph a = some (g', p')) :
    CallMove g server start origin ph g' p' := by
  -- a call whose row is gone, and one that raises, report what they carry
  have hraise (ph : CallPhase) (h : some (g.report (ph.carries server), none) = some (g', p')) :
      CallMove g server start origin ph g' p' := by
    cases h
    exact .raise
  have hbegun : g.report (CallPhase.begun.carries server) = g := g.report_none
  have hlost (ph : CallPhase) (h : callStep g server start origin ph .workerLost = some (g', p')) :
      CallMove g server start origin ph g' p' := by
    cases origin with
    | none => cases ph <;> cases h
    | some t => cases ph <;> cases h <;> exact .lost rfl
  cases a with
  | bump =>
    cases ph with
    | begun =>
      rw [callStep] at h
      split at h
      · exact hraise .begun (by rw [hbegun]; exact h)
      · next hrow => cases h; exact .bump hrow
    | _ => cases h
  | readGeneration =>
    cases ph with
    | bumped bump =>
      rw [callStep] at h
      split at h
      · exact hraise (.bumped bump) h
      · next hrow => cases h; exact .readGeneration hrow
    | _ => cases h
  | dispatch =>
    cases ph with
    | obtained generation => cases h; exact .dispatch
    | _ => cases h
  | raise =>
    cases ph with
    | begun => exact hraise .begun (by rw [hbegun]; exact h)
    | bumped bump => exact hraise (.bumped bump) h
    | obtained generation => exact hraise (.obtained generation) h
  | workerLost => exact hlost ph h
  | _ => cases ph <;> cases h

/-! ## The tasks -/

/-- What the task has loaded, while it works on it. -/
def Phase.row : Phase → Option Loaded
  | .loaded w => some w
  | .listed w _ _ => some w
  | .tplWritten w => some w
  | .confWritten w => some w
  | .sshDone w => some w
  | _ => none

/-- The row of a node exists. -/
def Node.Exists (g : Shared) : Node → Prop
  | .server id => (g.servers.get id).isSome
  | .client id => (g.clients.get id).isSome

/-- **What a step of a task can do.** -/
inductive TaskMove (i : ℕ) (g : Shared) (t : Task) : Phase → Action → Shared → Option Proc → Prop
  | lock {a : Action} (free : g.locks t.node = none) :
      TaskMove i g t .start a (g.lock i t.node) (some (.task t .locked))
  | skip (ht : t.carries = none) : TaskMove i g t .start .notAcquired g none
  | retry {id : ℕ} {generation : Option ℕ} {retries : ℕ}
      (ht : t = .reconfigureServer id generation retries) :
      TaskMove i g t .start .notAcquired
        (g.push (.reconfigureServer id generation (retries + 1))) none
  | raise {ph : Phase} {a : Action}
      (why : t.isProvision → a = .raise ∨ ¬t.node.Exists g) :
      TaskMove i g t ph a ((g.release i t.node).report t.carries) none
  | load {a : Action} {ph : Phase} (hload : taskLoad g t = some ph) :
      TaskMove i g t .locked a g (some (.task t ph))
  | fail {ph : Phase} {a : Action} {w : Loaded} (hw : ph.row = some w) (ht : t.isProvision) :
      TaskMove i g t ph a g (some (.task t (.failing w.status)))
  | list {a : Action} {w : Loaded} {id v : ℕ} {table : Table Client} (ht : t.hub = some id)
      (htable : g.tableAt v = some table) (hv : w.first ≤ v) :
      TaskMove i g t (.loaded w) a g (some (.task t (.listed w v (readyClientsFor table id))))
  | writeTpl {a : Action} {w : Loaded} {id v : ℕ} {row : Server} {clients : List Client}
      (ht : t.hub = some id) (hrow : w.hub = some row) :
      TaskMove i g t (.listed w v clients) a
        (g.writeHost id fun h ↦ { h with tpl := some ⟨renderServerConfig row clients, v⟩ })
        (some (.task t (.tplWritten w)))
  | writeConf {a : Action} {w : Loaded} {id : ℕ} (ht : t.hub = some id) :
      TaskMove i g t (.tplWritten w) a (g.writeHost id fun h ↦ { h with conf := h.tpl })
        (some (.task t (.confWritten w)))
  | sshDone {ph : Phase} {a : Action} {w : Loaded}
      (hw : ph = .confWritten w ∨ ph = .loaded w ∧ t.hub = none) :
      TaskMove i g t ph a g (some (.task t (.sshDone w)))
  | commit {w : Loaded} {publicKey : String} {cert : HostCertColumns} {g' : Shared} {ph : Phase}
      {a : Action} (hcommit : taskCommit g w publicKey cert t = some (g', ph)) :
      TaskMove i g t (.sshDone w) a g' (some (.task t ph))
  | markError {status : NodeStatus} {a : Action} :
      TaskMove i g t (.failing status) a
        (((markError g status t).release i t.node).report t.carries) none
  | release {followUp : Option ℕ} {a : Action} :
      TaskMove i g t (.exiting followUp) a (g.release i t.node)
        (followUp.map fun server ↦ .call server g.version (some t) .begun)
  | lost {ph : Phase} {a : Action} : TaskMove i g t ph a ((g.release i t.node).push t) none

section

variable {i : ℕ} {g g' : Shared} {t : Task} {p' : Option Proc}

theorem taskMove_of_taskSshFail {ph : Phase} {a : Action} {w : Loaded} (hw : ph.row = some w)
    (h : some (taskSshFail i g t w) = some (g', p')) : TaskMove i g t ph a g' p' := by
  rw [taskSshFail] at h
  split at h
  · next ht => cases h; exact .fail hw ht
  · next ht => cases h; exact .raise fun hp ↦ absurd hp ht

theorem taskMove_of_taskNotAcquired (h : some (taskNotAcquired i g t) = some (g', p')) :
    TaskMove i g t .start .notAcquired g' p' := by
  cases t with
  | reconfigureServer id generation retries =>
    rw [taskNotAcquired] at h
    split at h
    · cases h; exact .retry rfl
    · cases h; exact .raise fun hp ↦ by cases hp
  | _ => cases h; exact .skip rfl

/-- A provisioning task finds its row unless the row is gone. -/
theorem not_exists_of_taskLoad (hload : taskLoad g t = none) (ht : t.isProvision) :
    ¬t.node.Exists g := by
  cases t with
  | provisionServer id => simpa [taskLoad, Node.Exists, Task.node] using hload
  | provisionClient id => simpa [taskLoad, Node.Exists, Task.node] using hload
  | _ => cases ht

theorem not_exists_of_taskCommit {w : Loaded} {publicKey : String} {cert : HostCertColumns}
    (hcommit : taskCommit g w publicKey cert t = none) (ht : t.isProvision) :
    ¬t.node.Exists g := by
  cases t with
  | provisionServer id => simpa [taskCommit, Node.Exists, Task.node] using hcommit
  | provisionClient id => simpa [taskCommit, Node.Exists, Task.node] using hcommit
  | _ => cases ht

theorem taskMove_of_taskStep {ph : Phase} {a : Action}
    (h : taskStep i g t ph a = some (g', p')) : TaskMove i g t ph a g' p' := by
  fun_cases taskStep i g t ph a
  all_goals first
    | (simp only [taskStep, reduceCtorEq, *] at h; done)
    | simp only [taskStep] at h
  case case2 free => rw [free] at h; cases h; exact .lock free
  case case3 => exact taskMove_of_taskNotAcquired h
  case case4 hload =>
    rw [hload] at h
    cases h
    exact .raise fun ht ↦ .inr (not_exists_of_taskLoad hload ht)
  case case5 hload => rw [hload] at h; cases h; exact .load hload
  case case6 => exact taskMove_of_taskSshFail rfl h
  case case7 htable ht hv =>
    simp only [ht, htable, if_pos hv] at h
    cases h
    exact .list ht htable hv
  case case8 htable ht hv =>
    simp only [ht, htable, if_neg hv] at h
    cases h
  case case10 hrow ht => simp only [ht, hrow] at h; cases h; exact .writeTpl ht hrow
  case case12 ht => rw [ht] at h; cases h; exact .writeConf ht
  case case14 => cases h; exact .sshDone (.inl rfl)
  case case15 ht => rw [ht] at h; cases h; exact .sshDone (.inr ⟨rfl, ht⟩)
  case case17 ht => rw [ht] at h; exact taskMove_of_taskSshFail rfl h
  case case19 => exact taskMove_of_taskSshFail rfl h
  case case20 => exact taskMove_of_taskSshFail rfl h
  case case21 => exact taskMove_of_taskSshFail rfl h
  case case22 hcommit =>
    rw [hcommit] at h
    cases h
    exact .raise fun ht ↦ .inr (not_exists_of_taskCommit hcommit ht)
  case case23 hcommit => rw [hcommit] at h; cases h; exact .commit hcommit
  case case24 => cases h; exact .markError
  case case25 => cases h; exact .release
  case case29 => cases h; exact .raise fun _ ↦ .inl rfl
  case case30 => cases h; exact .lost

/-- **What a step of the fleet can do**: begin a process, or advance a call, a dispatch or a
task. -/
theorem procStep_cases {p : Option Proc} {a : Action} (h : procStep i g p a = some (g', p')) :
    (p = none ∧ EnvMove g g' p') ∨
    (∃ server start origin ph, p = some (.call server start origin ph) ∧
      CallMove g server start origin ph g' p') ∨
    (∃ t, p = some (.dispatching t) ∧
      (g' = g.push t ∨ a = .raise ∧ g' = g) ∧ p' = none) ∨
    ∃ t ph, p = some (.task t ph) ∧ TaskMove i g t ph a g' p' := by
  match p with
  | none => exact .inl ⟨rfl, envMove_of_envStep h⟩
  | some (.call server start origin ph) =>
    exact .inr (.inl ⟨server, start, origin, ph, rfl, callMove_of_callStep h⟩)
  | some (.dispatching t) =>
    refine .inr (.inr (.inl ⟨t, rfl, ?_⟩))
    cases a with
    | dispatch => cases h; exact ⟨.inl rfl, rfl⟩
    | raise => cases h; exact ⟨.inr ⟨rfl, rfl⟩, rfl⟩
    | _ => cases h
  | some (.task t ph) => exact .inr (.inr (.inr ⟨t, ph, rfl, taskMove_of_taskStep h⟩))

/-! ## What is queued or reported stays so -/

theorem taskCommit_queue {w : Loaded} {publicKey : String} {cert : HostCertColumns} {ph : Phase}
    (h : taskCommit g w publicKey cert t = some (g', ph)) :
    g'.queue = g.queue ∧ g'.raised = g.raised := by
  cases t with
  | reconfigureServer id generation retries => cases h; exact ⟨rfl, rfl⟩
  | _ =>
    obtain ⟨row, -, hph⟩ := Option.map_eq_some_iff.mp h
    cases hph
    exact ⟨rfl, rfl⟩

@[simp] theorem markError_queue (g : Shared) (status : NodeStatus) (t : Task) :
    (markError g status t).queue = g.queue := by
  cases t <;> rfl

@[simp] theorem markError_raised (g : Shared) (status : NodeStatus) (t : Task) :
    (markError g status t).raised = g.raised := by
  cases t <;> rfl

@[simp] theorem markError_obtained (g : Shared) (status : NodeStatus) (t : Task) :
    (markError g status t).obtained = g.obtained := by
  cases t <;> rfl

@[simp] theorem markError_locks (g : Shared) (status : NodeStatus) (t : Task) :
    (markError g status t).locks = g.locks := by
  cases t <;> rfl

/-- A message leaves the queue only by being delivered, and a report is never taken back. -/
theorem queue_of_procStep {p : Option Proc} {a : Action} (h : procStep i g p a = some (g', p')) :
    (∀ t ∈ g.queue, t ∈ g'.queue ∨ p' = some (.task t .start)) ∧
      ∀ c ∈ g.raised, c ∈ g'.raised := by
  rcases procStep_cases h with ⟨-, hmove⟩ | ⟨server, start, origin, ph, -, hmove⟩ |
    ⟨t, -, hmove, -⟩ | ⟨t, ph, -, hmove⟩
  · cases hmove with
    | @deliver k t ht =>
      refine ⟨fun u hu ↦ ?_, fun c hc ↦ hc⟩
      obtain ⟨l, hl⟩ := List.mem_iff_getElem?.mp hu
      by_cases hlk : l = k
      · subst hlk
        rw [hl] at ht
        cases ht
        exact .inr rfl
      · exact .inl (List.mem_eraseIdx_iff_getElem?.mpr ⟨l, hlk, hl⟩)
    | _ => simp +contextual
  · cases hmove <;> simp +contextual
  · rcases hmove with rfl | ⟨-, rfl⟩ <;> simp +contextual
  · cases hmove with
    | commit hcommit =>
      obtain ⟨hqueue, hraised⟩ := taskCommit_queue hcommit
      exact ⟨fun u hu ↦ .inl (hqueue ▸ hu), fun c hc ↦ hraised ▸ hc⟩
    | _ => simp +contextual

end

end WgManager.Tasks
