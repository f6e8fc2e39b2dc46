import WgManager.Tasks.Moves

/-!
# A pending node is on its way

`POST /servers`, `POST /clients` and the two reprovision endpoints commit a row in status `pending`
and then queue the task that is to take it out of it.  The status is a promise: somebody will
settle it.  The promise is kept by every step but three (`givesUp`): the dispatch that fails after
the status is committed, the provisioning task that is refused the lock of its row and returns
`skipped`, and the one that ends by an error it does not catch.  `pending_is_on_its_way` says so
over whole runs, and `pending_stranded_by_rotation` is a run of the second kind.

The invariant is one more conservation law in the sense of `Config.Held`.  What is conserved is a
provisioning task that is still going to write the status, and that is not every running one: a
task writes the status only when it differs from what it has loaded, so a task that has loaded
`ready` will leave a row that has become `pending` in the meantime as it is.
-/

set_option autoImplicit false

namespace WgManager.Tasks

/-! ## What is conserved -/

/-- The status of a row. -/
def Node.status (g : Shared) : Node → Option NodeStatus
  | .server id => (g.servers.get id).map Server.status
  | .client id => (g.clients.get id).map Client.status

/-- A task at this point is going to settle a row that is pending now. -/
def Phase.settles : Phase → Bool
  | .start => true
  | .locked => true
  | .loaded w => w.status = .pending
  | .listed w _ _ => w.status = .pending
  | .tplWritten w => w.status = .pending
  | .confWritten w => w.status = .pending
  | .sshDone w => w.status = .pending
  | .failing status => status = .pending
  | .exiting _ => false

/-- The process is going to queue the task that provisions `n`, or is running it. -/
def Proc.Provisions (n : Node) : Proc → Prop
  | .call .. => False
  | .dispatching t => t = provisionTask n
  | .task t ph => t = provisionTask n ∧ ph.settles

/-- A task that provisions `n` is queued, running or about to be queued. -/
def OnItsWay (n : Node) : State → Prop :=
  Config.Held (fun g ↦ provisionTask n ∈ g.queue) (Proc.Provisions n)

/-- The row whose provisioning a step gives up: the dispatch fails, the lock is refused, or an error
outside the remote work ends the task. -/
def givesUp : Option Proc → Action → Option Node
  | some (.dispatching t), .raise => some t.node
  | some (.task t .start), .notAcquired => if t.isProvision then some t.node else none
  | some (.task _ (.exiting _)), .raise => none
  | some (.task t _), .raise => if t.isProvision then some t.node else none
  | _, _ => none

/-- The step does not give up the provisioning of a row that is pending. -/
def KeepsGoing (s : State) (e : ℕ × Action) : Prop :=
  ∀ n ∈ givesUp (s.proc e.1) e.2, n.status s.shared ≠ some .pending

instance (s : State) (e : ℕ × Action) : Decidable (KeepsGoing s e) :=
  inferInstanceAs (Decidable (∀ n ∈ givesUp (s.proc e.1) e.2, n.status s.shared ≠ some .pending))

section

variable {i : ℕ} {g g' : Shared} {p' : Option Proc} {n : Node}

@[simp] theorem node_provisionTask (n : Node) : (provisionTask n).node = n := by
  cases n <;> rfl

@[simp] theorem isProvision_provisionTask (n : Node) : (provisionTask n).isProvision = true := by
  cases n <;> rfl

/-! ## Which steps make a row pending -/

theorem pending_of_flushStatus {loaded new current : NodeStatus} (hnew : new ≠ .pending)
    (h : flushStatus loaded new current = .pending) : current = .pending := by
  rw [flushStatus] at h
  split at h
  · exact h
  · exact absurd h hnew

theorem pending_modifyServer {id : ℕ} {f : Server → Server} {hf : ∀ r, (f r).id = r.id}
    (h : n.status (g.modifyServer id f hf) = some .pending)
    (hst : ∀ r, (f r).status = .pending → r.status = .pending) : n.status g = some .pending := by
  cases n with
  | client k => exact h
  | server k =>
    rw [Node.status, Shared.modifyServer, Table.get_modify] at h
    split at h
    · rw [Option.map_map] at h
      obtain ⟨row, hrow, hpending⟩ := Option.map_eq_some_iff.mp h
      rw [Node.status, hrow, Option.map_some, hst row hpending]
    · exact h

theorem pending_modifyClient {id : ℕ} {f : Client → Client} {hf : ∀ r, (f r).id = r.id}
    (h : n.status (g.modifyClient id f hf) = some .pending)
    (hst : ∀ r, (f r).status = .pending → r.status = .pending) : n.status g = some .pending := by
  cases n with
  | server k => exact h
  | client k =>
    rw [Node.status, Shared.modifyClient, Shared.commitClients, Table.get_modify] at h
    split at h
    · rw [Option.map_map] at h
      obtain ⟨row, hrow, hpending⟩ := Option.map_eq_some_iff.mp h
      rw [Node.status, hrow, Option.map_some, hst row hpending]
    · exact h

theorem pending_of_taskCommit {t : Task} {w : Loaded} {publicKey : String}
    {cert : HostCertColumns} {ph : Phase}
    (hcommit : taskCommit g w publicKey cert t = some (g', ph))
    (h : n.status g' = some .pending) : n.status g = some .pending := by
  have hready (r : NodeStatus) (h : flushStatus w.status .ready r = .pending) : r = .pending :=
    pending_of_flushStatus (by decide) h
  cases t with
  | provisionServer id =>
    obtain ⟨row, -, heq⟩ := Option.map_eq_some_iff.mp hcommit
    cases heq
    exact pending_modifyServer h fun r ↦ hready r.status
  | provisionClient id =>
    obtain ⟨row, -, heq⟩ := Option.map_eq_some_iff.mp hcommit
    cases heq
    exact pending_modifyClient h fun r ↦ hready r.status
  | rotateHostCert id =>
    obtain ⟨row, -, heq⟩ := Option.map_eq_some_iff.mp hcommit
    cases heq
    exact pending_modifyServer h fun r hr ↦ hr
  | rotateClientHostCert id =>
    obtain ⟨row, -, heq⟩ := Option.map_eq_some_iff.mp hcommit
    cases heq
    exact pending_modifyClient h fun r hr ↦ hr
  | reconfigureServer id generation retries =>
    cases hcommit
    exact pending_modifyServer h fun r hr ↦ hr

theorem pending_of_markError {t : Task} {loaded : NodeStatus}
    (h : n.status (markError g loaded t) = some .pending) : n.status g = some .pending := by
  have herror (r : NodeStatus) (h : flushStatus loaded .error r = .pending) : r = .pending :=
    pending_of_flushStatus (by decide) h
  cases t with
  | provisionServer id => exact pending_modifyServer h fun r ↦ herror r.status
  | provisionClient id => exact pending_modifyClient h fun r ↦ herror r.status
  | _ => exact h

/-- A handler that makes a row pending goes on to queue its task. -/
theorem pending_of_envMove (hmove : EnvMove g g' p') (h : n.status g' = some .pending) :
    n.status g = some .pending ∨ ∃ q, p' = some q ∧ q.Provisions n := by
  cases hmove with
  | @commitClients t quiet =>
    cases n with
    | server id => exact .inl h
    | client id =>
      obtain ⟨row, hrow, hpending⟩ := Option.map_eq_some_iff.mp h
      have hquiet := List.all_eq_true.mp quiet row (Table.mem_of_get hrow)
      rw [Shared.commitClients_clients] at hrow
      simp only [hpending, bne_self_eq_false, Bool.false_or, Option.any_eq_true, beq_iff_eq]
        at hquiet
      obtain ⟨old, hold, hstatus⟩ := hquiet
      have hid : row.id = id := Table.pk_of_get hrow
      rw [hid] at hold
      exact .inl (by rw [Node.status, hold, Option.map_some, hstatus])
  | @registerServer row hid _ _ =>
    cases n with
    | client id => exact .inl h
    | server id =>
      obtain ⟨r, hr, hpending⟩ := Option.map_eq_some_iff.mp h
      rcases Table.get_insert_cases hr with hr | ⟨rfl, -⟩
      · exact .inl (by rw [Node.status, hr, Option.map_some, hpending])
      · refine .inr ⟨_, rfl, ?_⟩
        show Task.provisionServer _ = Task.provisionServer row.id
        rw [hid]
  | @registerClient row _ =>
    cases n with
    | server id => exact .inl h
    | client id =>
      obtain ⟨r, hr, hpending⟩ := Option.map_eq_some_iff.mp h
      rcases Table.get_insert_cases hr with hr | ⟨rfl, -⟩
      · exact .inl (by rw [Node.status, hr, Option.map_some, hpending])
      · exact .inr ⟨_, rfl, rfl⟩
  | @reprovisionServer id =>
    by_cases hn : n = .server id
    · subst hn
      exact .inr ⟨_, rfl, rfl⟩
    · cases n with
      | client k => exact .inl h
      | server k =>
        have hk : k ≠ id := fun hk ↦ hn (hk ▸ rfl)
        rw [Node.status, Shared.modifyServer, Table.get_modify, if_neg hk] at h
        exact .inl h
  | @reprovisionClient id =>
    by_cases hn : n = .client id
    · subst hn
      exact .inr ⟨_, rfl, rfl⟩
    · cases n with
      | server k => exact .inl h
      | client k =>
        have hk : k ≠ id := fun hk ↦ hn (hk ▸ rfl)
        rw [Node.status, Shared.modifyClient, Shared.commitClients, Table.get_modify,
          if_neg hk] at h
        exact .inl h
  | queue _ => exact .inl h
  | @deleteServer id =>
    cases n with
    | client k => exact .inl h
    | server k =>
      rw [Node.status, Table.get_delete] at h
      split at h
      · cases h
      · exact .inl h
  | request => exact .inl h
  | deliver _ => exact .inl h

/-- A row that is pending after a step was pending before it, or the process that took the step
goes on to queue its task. -/
theorem pending_of_procStep {p : Option Proc} {a : Action}
    (hstep : procStep i g p a = some (g', p'))
    (h : n.status g' = some .pending) :
    n.status g = some .pending ∨ ∃ q, p' = some q ∧ q.Provisions n := by
  rcases procStep_cases hstep with ⟨-, hmove⟩ | ⟨server, start, origin, ph, -, hmove⟩ |
    ⟨t, -, hmove, -⟩ | ⟨t, ph, -, hmove⟩
  · exact pending_of_envMove hmove h
  · cases hmove with
    | bump hrow =>
      have h' : n.status (g.modifyServer server fun r ↦
          { r with reconfigRequestedGen := r.reconfigRequestedGen + 1 }) = some .pending := by
        cases n <;> exact h
      exact .inl (pending_modifyServer h' fun r hr ↦ hr)
    | _ => exact .inl (by cases n <;> exact h)
  · rcases hmove with rfl | ⟨-, rfl⟩ <;> exact .inl (by cases n <;> exact h)
  · cases hmove with
    | commit hcommit => exact .inl (pending_of_taskCommit hcommit h)
    | markError => exact .inl (pending_of_markError (by cases n <;> exact h))
    | _ => exact .inl (by cases n <;> exact h)

/-! ## Who is going to settle it -/

/-- What a task has loaded is what it is going to compare with. -/
theorem Phase.settles_of_row {ph : Phase} {w : Loaded} (hw : ph.row = some w) :
    ph.settles = decide (w.status = .pending) := by
  cases ph with
  | start | locked | failing | exiting => cases hw
  | _ => cases hw; rfl

theorem exists_of_status {st : NodeStatus} (h : n.status g = some st) : n.Exists g := by
  cases n with
  | server id =>
    obtain ⟨row, hrow, -⟩ := Option.map_eq_some_iff.mp h
    exact Option.isSome_iff_exists.mpr ⟨row, hrow⟩
  | client id =>
    obtain ⟨row, hrow, -⟩ := Option.map_eq_some_iff.mp h
    exact Option.isSome_iff_exists.mpr ⟨row, hrow⟩

/-- A task that loads a pending row is going to settle it. -/
theorem settles_of_taskLoad {ph : Phase} (hpending : n.status g = some .pending)
    (hload : taskLoad g (provisionTask n) = some ph) : ph.settles := by
  cases n with
  | server id =>
    obtain ⟨row, hrow, rfl⟩ := Option.map_eq_some_iff.mp hload
    rw [Node.status, hrow, Option.map_some, Option.some.injEq] at hpending
    exact decide_eq_true hpending
  | client id =>
    obtain ⟨client, hclient, rfl⟩ := Option.map_eq_some_iff.mp hload
    rw [Node.status, hclient, Option.map_some, Option.some.injEq] at hpending
    split <;> exact decide_eq_true hpending

theorem flushStatus_of_pending {new current : NodeStatus} (h : new ≠ .pending) :
    flushStatus .pending new current = new := by
  rw [flushStatus, if_neg h.symm]

/-- The commit of a task that had loaded a pending row settles it. -/
theorem settled_of_taskCommit {w : Loaded} {publicKey : String} {cert : HostCertColumns}
    {ph : Phase} (hw : w.status = .pending)
    (hcommit : taskCommit g w publicKey cert (provisionTask n) = some (g', ph)) :
    n.status g' ≠ some .pending := by
  have hflush (r : NodeStatus) : flushStatus w.status .ready r = .ready := by
    rw [hw, flushStatus_of_pending (by decide)]
  cases n with
  | server id =>
    obtain ⟨row, hrow, heq⟩ := Option.map_eq_some_iff.mp hcommit
    cases heq
    rw [Node.status, Shared.modifyServer, Table.get_modify, if_pos rfl, hrow]
    simp [hflush]
  | client id =>
    obtain ⟨row, hrow, heq⟩ := Option.map_eq_some_iff.mp hcommit
    cases heq
    rw [Node.status, Shared.modifyClient, Shared.commitClients, Table.get_modify, if_pos rfl, hrow]
    simp [hflush]

theorem settled_of_markError : n.status (markError g .pending (provisionTask n)) ≠
    some .pending := by
  have hflush (r : NodeStatus) : flushStatus .pending .error r = .error :=
    flushStatus_of_pending (by decide)
  cases n with
  | server id =>
    rw [provisionTask, markError, Node.status, Shared.modifyServer, Table.get_modify, if_pos rfl]
    cases g.servers.get id <;> simp [hflush]
  | client id =>
    rw [provisionTask, markError, Node.status, Shared.modifyClient, Shared.commitClients,
      Table.get_modify, if_pos rfl]
    cases g.clients.get id <;> simp [hflush]

/-- A provisioning task goes on until it has settled its row, unless it gives up. -/
theorem provisions_of_taskMove {t : Task} {ph : Phase} {a : Action}
    (hpending : n.status g = some .pending) (hown : (Proc.task t ph).Provisions n)
    (hgoing : n ∉ givesUp (some (.task t ph)) a) (hmove : TaskMove i g t ph a g' p') :
    provisionTask n ∈ g'.queue ∨ (∃ q, p' = some q ∧ q.Provisions n) ∨
      n.status g' ≠ some .pending := by
  obtain ⟨rfl, hsettles⟩ := hown
  have hgoes (ph' : Phase) (h : ph'.settles) :
      ∃ q, some (Proc.task (provisionTask n) ph') = some q ∧ q.Provisions n :=
    ⟨_, rfl, rfl, h⟩
  have hrow (w : Loaded) (hw : ph.row = some w) : w.status = .pending := by
    rw [Phase.settles_of_row hw] at hsettles
    exact of_decide_eq_true hsettles
  cases hmove with
  | lock _ => exact .inr (.inl (hgoes _ rfl))
  | skip _ => exact absurd (by simp [givesUp]) hgoing
  | retry ht =>
    have hprov := isProvision_provisionTask n
    rw [ht] at hprov
    cases hprov
  | raise why =>
    rcases why (isProvision_provisionTask n) with rfl | hgone
    · refine absurd ?_ hgoing
      cases ph with
      | exiting => cases hsettles
      | _ => simp [givesUp]
    · rw [node_provisionTask] at hgone
      exact absurd (exists_of_status hpending) hgone
  | load hload => exact .inr (.inl (hgoes _ (settles_of_taskLoad hpending hload)))
  | fail hw _ => exact .inr (.inl (hgoes _ (decide_eq_true (hrow _ hw))))
  | list _ _ _ => exact .inr (.inl (hgoes _ hsettles))
  | writeTpl _ _ => exact .inr (.inl (hgoes _ hsettles))
  | writeConf _ => exact .inr (.inl (hgoes _ hsettles))
  | sshDone hw => exact .inr (.inl (hgoes _ (by rcases hw with rfl | ⟨rfl, -⟩ <;> exact hsettles)))
  | commit hcommit => exact .inr (.inr (settled_of_taskCommit (hrow _ rfl) hcommit))
  | @markError status _ =>
    have hstatus : status = .pending := of_decide_eq_true hsettles
    subst hstatus
    refine .inr (.inr fun h ↦ settled_of_markError (g := g) (n := n) ?_)
    cases n <;> exact h
  | release => cases hsettles
  | lost => exact .inl (by simp)

end

/-! ## Whole runs -/

/-- Every pending row is on its way. -/
def Provisioning (s : State) : Prop := ∀ n, n.status s.shared = some .pending → OnItsWay n s

theorem provisioning_step {s s' : State} {e : ℕ × Action} (hs : Provisioning s)
    (hok : KeepsGoing s e) (h : Config.step procStep s e = some s') : Provisioning s' := by
  intro n hn
  obtain ⟨g', p', hf, heq⟩ := Config.step_eq_some.mp h
  have hn' : n.status g' = some .pending := by rw [heq] at hn; exact hn
  rcases pending_of_procStep hf hn' with hpending | ⟨q, rfl, hq⟩
  · have hmove := Config.held_step (X := fun g ↦ n.status g ≠ some .pending) (hs n hpending) h ?_
    · exact hmove.resolve_right fun hX ↦ hX hn
    · intro g₁ p₁ hstep hbefore
      rcases hbefore with hqueue | ⟨q, hq, hown⟩
      · rcases (queue_of_procStep hstep).1 _ hqueue with hqueue | rfl
        · exact .inl hqueue
        · exact .inr (.inl ⟨_, rfl, rfl, rfl⟩)
      · have hgoing : n ∉ givesUp (some q) e.2 := fun hmem ↦
          hok n (by rw [hq]; exact hmem) hpending
        rw [hq] at hstep
        rcases procStep_cases hstep with ⟨hp, -⟩ | ⟨server, start, origin, ph, hp, -⟩ |
          ⟨t, hp, hmove, -⟩ | ⟨t, ph, hp, hmove⟩
        · cases hp
        · cases hp
          exact absurd hown (by simp [Proc.Provisions])
        · cases hp
          cases hown
          rcases hmove with rfl | ⟨ha, -⟩
          · exact .inl (by simp)
          · exact absurd (by simp [givesUp, ha]) hgoing
        · cases hp
          exact provisions_of_taskMove hpending hown hgoing hmove
  · rw [heq]
    exact .inr ⟨e.1, q, by simp, hq⟩

/-- **A pending node is on its way**, along every run no step of which gives up the provisioning of
a row that is pending: a task that provisions the row is queued, or about to be queued by the
request that set the status, or running. -/
theorem pending_is_on_its_way {trace : List (ℕ × Action)} {s : State}
    (hok : Run.Meets (Config.step procStep) KeepsGoing init trace) (h : run trace = some s)
    {n : Node} (hn : n.status s.shared = some .pending) :
    provisionTask n ∈ s.shared.queue ∨ (∃ i, s.proc i = some (.dispatching (provisionTask n))) ∨
      ∃ i ph, s.proc i = some (.task (provisionTask n) ph) := by
  have hinit : Provisioning init := by
    rintro (id | id) hn <;> cases hn
  have hs : Provisioning s := Run.run_invariant (fun _ _ _ ↦ provisioning_step) hinit hok h
  rcases hs n hn with hqueue | ⟨i, q, hq, hown⟩
  · exact .inl hqueue
  · cases q with
    | call => exact absurd hown (by simp [Proc.Provisions])
    | dispatching t => cases hown; exact .inr (.inl ⟨i, hq⟩)
    | task t ph => obtain ⟨rfl, -⟩ := hown; exact .inr (.inr ⟨i, ph, hq⟩)

/-- A hub is registered and its provisioning begins. -/
def provisionTrace : List (ℕ × Action) :=
  [(0, .registerServer exampleHub), (0, .dispatch), (1, .deliver 0), (1, .lock), (1, .load)]

theorem pending_is_on_its_way_provisionTrace :
    ∃ s, run provisionTrace = some s ∧ (Node.server 1).status s.shared = some .pending ∧
      (provisionTask (.server 1) ∈ s.shared.queue ∨
        (∃ i, s.proc i = some (.dispatching (provisionTask (.server 1)))) ∨
        ∃ i ph, s.proc i = some (.task (provisionTask (.server 1)) ph)) := by
  obtain ⟨s, hs⟩ := Option.isSome_iff_exists.mp (by decide +kernel : (run provisionTrace).isSome)
  have hpending : (run provisionTrace).all fun s ↦
      decide ((Node.server 1).status s.shared = some .pending) := by decide +kernel
  rw [hs, Option.all_some, decide_eq_true_iff] at hpending
  exact ⟨s, hs, hpending, pending_is_on_its_way (by decide +kernel) hs hpending⟩

/-- A hub is registered, its host certificate is rotated, and the rotation gets the lock first. -/
def rotationTrace : List (ℕ × Action) :=
  [(0, .registerServer exampleHub), (0, .dispatch), (1, .rotateServer 1),
   (2, .deliver 1), (2, .lock), (3, .deliver 0), (3, .notAcquired)]

/-- The provisioning task of `rotationTrace` returns `skipped` and is acknowledged: the hub stays
pending and nothing is left that would provision it. -/
theorem pending_stranded_by_rotation :
    ∃ s, run rotationTrace = some s ∧ (Node.server 1).status s.shared = some .pending ∧
      ¬(provisionTask (.server 1) ∈ s.shared.queue ∨
        (∃ i, s.proc i = some (.dispatching (provisionTask (.server 1)))) ∨
        ∃ i ph, s.proc i = some (.task (provisionTask (.server 1)) ph)) := by
  obtain ⟨s, hs⟩ := Option.isSome_iff_exists.mp (by decide +kernel : (run rotationTrace).isSome)
  have hshared : (run rotationTrace).all fun s ↦
      decide ((Node.server 1).status s.shared = some .pending) &&
        decide (provisionTask (.server 1) ∉ s.shared.queue) := by decide +kernel
  have hprocs : (run rotationTrace).all fun s ↦ (rotationTrace.map Prod.fst).all fun i ↦
      (s.proc i).bind Proc.message != some (provisionTask (.server 1)) := by decide +kernel
  rw [hs, Option.all_some] at hshared hprocs
  rw [Bool.and_eq_true, decide_eq_true_iff, decide_eq_true_iff] at hshared
  have hmessage (i : ℕ) (q : Proc) (hq : s.proc i = some q) :
      q.message ≠ some (provisionTask (.server 1)) := by
    have hi : i ∈ rotationTrace.map Prod.fst := by
      by_contra hi
      rw [Config.proc_of_run hs hi] at hq
      cases hq
    have hne := List.all_eq_true.mp hprocs i hi
    rw [hq] at hne
    simpa using hne
  refine ⟨s, hs, hshared.1, ?_⟩
  rintro (hqueue | ⟨i, hi⟩ | ⟨i, ph, hi⟩)
  · exact hshared.2 hqueue
  · exact hmessage i _ hi rfl
  · exact hmessage i _ hi rfl

end WgManager.Tasks
