import WgManager.Tasks.HubRuns

/-!
# Where clients and hubs belong

What stays in its place along the runs of `HubRuns`.  No hub is deleted, no client changes its hub,
and a key that a client has had is not given to another one; so a task that has loaded a client
knows the hub of the client, whatever happens to the row in the meantime.  `Rooted` is the assertion
on the shared state, `ProcPlaced` the one of a process, in the way of `Sound` and `ProcSound`.

The second half reads off `HubMove` what a step does to one thing: to the lock of a client
(`HubMove.locks`), to the configuration on a hub (`HubMove.conf`), to a client row
(`HubMove.row`) and to a message (`HubMove.delivers`).
-/

set_option autoImplicit false

namespace WgManager.Tasks

/-! ## The versions of the client table -/

/-- Hub `id` exists, and some version of the client table has client `c` on it. -/
def Home (g : Shared) (c id : ℕ) : Prop :=
  (g.servers.get id).isSome ∧
    ∃ v t row, g.tableAt v = some t ∧ t.get c = some row ∧ row.serverId = id

section

variable {g g' : Shared}

@[simp] theorem tableAt_version (g : Shared) : g.tableAt g.version = some g.clients := by
  simp [Shared.tableAt, Shared.version]

theorem tableAt_lt {v : ℕ} {t : Table Client} (h : g.tableAt v = some t) : v ≤ g.version := by
  have hlt := (List.getElem?_eq_some_iff.mp h).1
  rw [List.length_append, List.length_singleton] at hlt
  rw [Shared.version]
  omega

theorem exists_tableAt {v : ℕ} (h : v ≤ g.version) : ∃ t, g.tableAt v = some t := by
  rw [Shared.version] at h
  exact ⟨_, List.getElem?_eq_getElem (by simp; omega)⟩

/-- A key that is not used is in no version of the table. -/
theorem get_of_unused {c v : ℕ} {t : Table Client} (h : g.unused c) (ht : g.tableAt v = some t) :
    t.get c = none := by
  have := List.all_eq_true.mp h t (List.mem_of_getElem? ht)
  simpa using this

end

/-- How a step can change the client table: rows keep their hub, and new rows have new keys and a
hub that exists. -/
def KeepsHubs (g : Shared) (t : Table Client) : Prop :=
  ∀ c row', t.get c = some row' →
    (∃ row, g.clients.get c = some row ∧ row'.serverId = row.serverId) ∨
      g.unused c ∧ (g.servers.get row'.serverId).isSome

section

variable {g : Shared} {c : ℕ}

theorem keepsHubs_insert {row : Client} (h : g.admissible row) :
    KeepsHubs g (g.clients.insert row) := by
  rw [Shared.admissible, Bool.and_eq_true] at h
  intro k row' hrow'
  rcases Table.get_insert_cases hrow' with hold | ⟨rfl, rfl⟩
  · exact .inl ⟨row', hold, rfl⟩
  · exact .inr h

theorem keepsHubs_delete : KeepsHubs g (g.clients.delete c) := by
  intro k row' hrow'
  rw [Table.get_delete] at hrow'
  split at hrow'
  · cases hrow'
  · exact .inl ⟨row', hrow', rfl⟩

theorem keepsHubs_modify {f : Client → Client} {hf : ∀ r, (f r).id = r.id}
    (hserver : ∀ r, (f r).serverId = r.serverId) :
    KeepsHubs g (g.modifyClient c f hf).clients := by
  intro k row' hrow'
  rw [Shared.modifyClient, Shared.commitClients, Table.get_modify] at hrow'
  split at hrow'
  · obtain ⟨row, hrow, rfl⟩ := Option.map_eq_some_iff.mp hrow'
    exact .inl ⟨row, hrow, hserver row⟩
  · exact .inl ⟨row', hrow', rfl⟩

end

/-! ## What every step leaves in place -/

section

variable {i : ℕ} {g g' : Shared} {p p' : Option Proc} {e : Event}

theorem isSome_get_modifyServer {id k : ℕ} {f : Server → Server} (hf : ∀ r, (f r).id = r.id)
    (h : (g.servers.get k).isSome) : ((g.modifyServer id f hf).servers.get k).isSome := by
  rw [Shared.modifyServer, Table.get_modify]
  split
  · rw [Option.isSome_map, h]
  · exact h

/-- No hub is deleted. -/
theorem HubMove.servers (h : HubMove i g p e g' p') {id : ℕ} (hid : (g.servers.get id).isSome) :
    (g'.servers.get id).isSome := by
  cases h with
  | registerServer =>
    obtain ⟨row, hrow⟩ := Option.isSome_iff_exists.mp hid
    exact Option.isSome_iff_exists.mpr ⟨row, Table.get_insert_of_get hrow⟩
  | reprovisionServer => exact isSome_get_modifyServer _ hid
  | @bump _ server =>
    exact @isSome_get_modifyServer g server id
      (fun r ↦ { r with reconfigRequestedGen := r.reconfigRequestedGen + 1 }) (fun _ ↦ rfl) hid
  | task hmove =>
    cases hmove with
    | commitServer _ => exact isSome_get_modifyServer _ hid
    | @errorServer _ _ f hf _ => exact isSome_get_modifyServer hf hid
    | _ => exact hid
  | _ => exact hid

/-- A step leaves the client table alone, or commits a new version of it. -/
theorem HubMove.tables (h : HubMove i g p e g' p') :
    (g'.clients = g.clients ∧ g'.past = g.past) ∨
      (g'.past = g.past ++ [g.clients] ∧ KeepsHubs g g'.clients) := by
  cases h with
  | registerClient hrow _ => exact .inr ⟨rfl, keepsHubs_insert hrow⟩
  | reprovisionClient => exact .inr ⟨rfl, keepsHubs_modify fun _ ↦ rfl⟩
  | admitClient hrow => exact .inr ⟨rfl, keepsHubs_insert hrow⟩
  | deleteClient _ => exact .inr ⟨rfl, keepsHubs_delete⟩
  | task hmove =>
    cases hmove with
    | commitClient _ hserver => exact .inr ⟨rfl, keepsHubs_modify hserver⟩
    | @errorClient _ c f hf _ hserver _ =>
      have hkeeps : KeepsHubs g (g.modifyClient c f hf).clients := keepsHubs_modify hserver
      exact .inr ⟨rfl, hkeeps⟩
    | _ => exact .inl ⟨rfl, rfl⟩
  | _ => exact .inl ⟨rfl, rfl⟩

theorem tableAt_of_eq (hclients : g'.clients = g.clients) (hpast : g'.past = g.past) (v : ℕ) :
    g'.tableAt v = g.tableAt v := by
  rw [Shared.tableAt, Shared.tableAt, hclients, hpast]

/-- After a commit, a version is an old one or the new table. -/
theorem tableAt_of_commit {v : ℕ} {t : Table Client} (hpast : g'.past = g.past ++ [g.clients])
    (h : g'.tableAt v = some t) : g.tableAt v = some t ∨ v = g.version + 1 ∧ t = g'.clients := by
  have hlen : (g.past ++ [g.clients]).length = g.version + 1 := by simp [Shared.version]
  rw [Shared.tableAt, hpast] at h
  rcases Nat.lt_or_ge v (g.version + 1) with hlt | hge
  · rw [List.getElem?_append_left (by omega)] at h
    exact .inl h
  · rw [List.getElem?_append_right (by omega), hlen] at h
    obtain ⟨hv, ht⟩ := List.getElem?_eq_some_iff.mp h
    rw [List.length_singleton] at hv
    refine .inr ⟨by omega, ?_⟩
    simpa using ht.symm

/-- What the others can rely on. -/
theorem guarantee_of_hubStep (hI : Sound g) (hJ : ∀ q, p = some q → ProcSound i g q)
    (h : hubStep i g p e = some (g', p')) : Guarantee i g g' := by
  have hcommit (t : Table Client) : Guarantee i g (g.commitClients t) :=
    (frame_commitClients g t).guarantee fun _ _ _ hn ↦ hn
  have henv (a : Action) (hp : p = none) (ha : envStep g a = some (g', p')) : Guarantee i g g' :=
    (keeps_of_procStep hI hJ (by rw [hp]; exact ha)).guarantee
  rw [hubStep.eq_def] at h
  split at h
  · exact henv _ rfl h
  · split at h
    · exact henv _ rfl h
    · cases h
  · exact henv _ rfl h
  · exact henv _ rfl h
  · split at h
    · cases h; exact hcommit _
    · cases h
  · split at h
    · cases h
    · cases h; exact hcommit _
  · split at h
    · exact (keeps_of_procStep hI hJ h).guarantee
    · cases h
  · cases h

end

/-! ## Where everything belongs -/

/-- The assertion on the shared state: hubs exist where they are named, and a client does not
change its hub. -/
structure Rooted (g : Shared) : Prop where
  first : g.tableAt 0 = some .empty
  serverId_eq : ∀ v v' t t' c row row', g.tableAt v = some t → g.tableAt v' = some t' →
    t.get c = some row → t'.get c = some row' → row.serverId = row'.serverId
  server : ∀ c row, g.clients.get c = some row → (g.servers.get row.serverId).isSome
  bump : ∀ b ∈ g.bumps, (g.servers.get b.server).isSome
  queue : ∀ t ∈ g.queue, t.Served g

/-- What a task has loaded, before it has written the configuration. -/
def Phase.unwritten : Phase → Option Loaded
  | .loaded w => some w
  | .listed w _ _ => some w
  | .tplWritten w => some w
  | _ => none

/-- The assertion of a task. -/
structure TaskPlaced (g : Shared) (t : Task) (ph : Phase) : Prop where
  served : t.Served g
  failing : ∀ status, ph = .failing status → t.isProvision
  /-- The task of a client has loaded the hub of the client. -/
  home : ∀ c w, t = .provisionClient c → ph.row = some w → ∃ hub, w.hub = some hub ∧
    Home g c hub.id
  /-- A client that has been provisioned asks its hub to catch up. -/
  followUp : ∀ c id?, t = .provisionClient c → ph = .exiting id? → ∃ id, id? = some id ∧ Home g c id
  noFollowUp : ∀ id?, t.hub.isSome → ph = .exiting id? → id? = none
  /-- The configuration on the hub is not newer than the session. -/
  asOf_le : ∀ id w c, t.hub = some id → ph.unwritten = some w → (g.hosts id).conf = some c →
    c.asOf ≤ w.first

/-- The assertion of a process. -/
def ProcPlaced (_i : ℕ) (g : Shared) : Proc → Prop
  | .call server _ _ _ => (g.servers.get server).isSome
  | .dispatching t => t.Served g
  | .task t ph => TaskPlaced g t ph

section

variable {i j : ℕ} {g g' : Shared} {p p' : Option Proc} {e : Event}

theorem ProcPlaced.ready {q : Proc} (h : ProcPlaced i g q) : q.Ready g := by
  cases q with
  | call => exact h
  | dispatching => trivial
  | task t ph => exact ⟨TaskPlaced.served h, TaskPlaced.failing h⟩

theorem Task.Served.mono {t : Task} (h : t.Served g)
    (hservers : ∀ id, (g.servers.get id).isSome → (g'.servers.get id).isSome) : t.Served g' :=
  ⟨h.onHub, fun id m hm ↦ hservers id (h.server id m hm)⟩

theorem Home.mono {c id : ℕ} (h : Home g c id)
    (hservers : ∀ id, (g.servers.get id).isSome → (g'.servers.get id).isSome)
    (htables : ∀ v t, g.tableAt v = some t → g'.tableAt v = some t) : Home g' c id := by
  obtain ⟨hid, v, t, row, ht, hrow, hserver⟩ := h
  exact ⟨hservers id hid, v, t, row, htables v t ht, hrow, hserver⟩

/-- The assertion of a task survives the steps of the others, which do not write to its hub. -/
theorem ProcPlaced.stable {q : Proc} (h : ProcPlaced j g q) (hsound : ProcSound j g q)
    (hG : Guarantee i g g') (hj : j ≠ i)
    (hservers : ∀ id, (g.servers.get id).isSome → (g'.servers.get id).isSome) :
    ProcPlaced j g' q := by
  cases q with
  | call server start origin ph => exact hservers server h
  | dispatching t => exact Task.Served.mono h hservers
  | task t ph =>
    have h : TaskPlaced g t ph := h
    refine ⟨h.served.mono hservers, h.failing, ?_, ?_, h.noFollowUp, ?_⟩
    · intro c w ht hw
      obtain ⟨hub, hhub, hhome⟩ := h.home c w ht hw
      exact ⟨hub, hhub, hhome.mono hservers hG.tableAt⟩
    · intro c id? ht hph
      obtain ⟨id, hid, hhome⟩ := h.followUp c id? ht hph
      exact ⟨id, hid, hhome.mono hservers hG.tableAt⟩
    · intro id w c hid hw hc
      have hlock := TaskSound.holds hsound (by rintro rfl; cases hw)
      rw [Task.node_of_hub hid] at hlock
      rw [hG.hosts id j hj hlock] at hc
      exact h.asOf_le id w c hid hw hc

end

section

variable {i : ℕ} {g g' : Shared} {p p' : Option Proc} {e : Event}

/-- A step queues nothing but the tasks of such a run. -/
theorem HubMove.queue (h : HubMove i g p e g' p') (hplaced : ∀ q, p = some q → ProcPlaced i g q)
    {t : Task} (ht : t ∈ g'.queue) : t ∈ g.queue ∨ t.Served g := by
  have hpush (u : Task) (hu : u.Served g) (ht : t ∈ (g.push u).queue) :
      t ∈ g.queue ∨ t.Served g := by
    rcases List.mem_append.mp ht with ht | ht
    · exact .inl ht
    · rw [List.mem_singleton.mp ht]
      exact .inr hu
  cases h with
  | deliver _ => exact .inl (List.mem_of_mem_eraseIdx ht)
  | @request _ server start generation _ =>
    refine hpush _ ⟨rfl, fun id m hm ↦ ?_⟩ ht
    cases hm
    exact hplaced _ rfl
  | @dispatch _ u => exact hpush u (hplaced _ rfl) ht
  | task hmove =>
    cases hmove with
    | @retry id m retries htask =>
      have hserved := TaskPlaced.served (hplaced _ rfl)
      rw [htask] at hserved
      exact hpush (.reconfigureServer id (some m) (retries + 1))
        ⟨rfl, fun k n hn ↦ hserved.server k n hn⟩ ht
    | _ => exact .inl ht
  | _ => exact .inl ht

/-- A step keeps the hubs and the clients where they belong. -/
theorem Rooted.step (hI : Rooted g) (hG : Guarantee i g g') (h : HubMove i g p e g' p')
    (hplaced : ∀ q, p = some q → ProcPlaced i g q) : Rooted g' where
  first := hG.tableAt 0 .empty hI.first
  serverId_eq := by
    rcases h.tables with ⟨hclients, hpast⟩ | ⟨hpast, hkeeps⟩
    · intro v v' t t' c row row' ht ht'
      rw [tableAt_of_eq hclients hpast] at ht ht'
      exact hI.serverId_eq v v' t t' c row row' ht ht'
    · -- a row of the new table agrees with every older row of the client
      have hnew (v : ℕ) (t : Table Client) (c : ℕ) (row row' : Client)
          (ht : g.tableAt v = some t) (hrow : t.get c = some row)
          (hrow' : g'.clients.get c = some row') : row.serverId = row'.serverId := by
        rcases hkeeps c row' hrow' with ⟨old, hold, hserver⟩ | ⟨hunused, -⟩
        · rw [hserver]
          exact hI.serverId_eq v g.version t g.clients c row old ht (tableAt_version g) hrow hold
        · rw [get_of_unused hunused ht] at hrow
          cases hrow
      intro v v' t t' c row row' ht ht' hrow hrow'
      rcases tableAt_of_commit hpast ht with ht | ⟨-, rfl⟩ <;>
        rcases tableAt_of_commit hpast ht' with ht' | ⟨-, rfl⟩
      · exact hI.serverId_eq v v' t t' c row row' ht ht' hrow hrow'
      · exact hnew v t c row row' ht hrow hrow'
      · exact (hnew v' t' c row' row ht' hrow' hrow).symm
      · rw [hrow] at hrow'
        cases hrow'
        rfl
  server c row hrow := by
    rcases h.tables with ⟨hclients, -⟩ | ⟨-, hkeeps⟩
    · rw [hclients] at hrow
      exact h.servers (hI.server c row hrow)
    · rcases hkeeps c row hrow with ⟨old, hold, hserver⟩ | ⟨-, hsome⟩
      · rw [hserver]
        exact h.servers (hI.server c old hold)
      · exact h.servers hsome
  bump b hb := by
    rcases hG.bumped b hb with hold | ⟨row, hrow, -⟩
    · exact h.servers (hI.bump b hold)
    · exact h.servers (by rw [hrow]; rfl)
  queue t ht := by
    rcases h.queue hplaced ht with hold | hserved
    · exact (hI.queue t hold).mono fun _ ↦ h.servers
    · exact hserved.mono fun _ ↦ h.servers

/-- What a task knows once it has loaded its rows. -/
theorem placed_of_taskLoad {t : Task} {ph : Phase} (hI : Rooted g) (hsound : Sound g)
    (ht : t.Served g) (hload : taskLoad g t = some ph) : TaskPlaced g t ph := by
  -- the configuration on a hub was read from a version that exists
  have hasOf (id : ℕ) (c : HubConfig) (hc : (g.hosts id).conf = some c) : c.asOf ≤ g.version := by
    obtain ⟨-, table, htable, -⟩ := hsound.rendered id c (.inl hc)
    exact tableAt_lt htable
  cases t with
  | provisionServer id =>
    obtain ⟨row, hrow, rfl⟩ := Option.map_eq_some_iff.mp hload
    refine ⟨ht, by simp, by simp, by simp, by simp, ?_⟩
    rintro k w c - ⟨⟩ hc
    exact hasOf k c hc
  | provisionClient id =>
    obtain ⟨client, hclient, rfl⟩ := Option.map_eq_some_iff.mp hload
    obtain ⟨hub, hhub⟩ := Option.isSome_iff_exists.mp (hI.server id client hclient)
    simp only [hhub]
    refine ⟨ht, by simp, ?_, by simp, by simp, by simp [Task.hub]⟩
    rintro c w ⟨⟩ ⟨⟩
    have hid : hub.id = client.serverId := Table.pk_of_get hhub
    refine ⟨hub, rfl, ?_, g.version, g.clients, client, tableAt_version g, hclient, hid.symm⟩
    rw [hid, hhub]
    rfl
  | reconfigureServer id generation retries =>
    obtain ⟨row, hrow, rfl⟩ := Option.map_eq_some_iff.mp hload
    split
    · exact ⟨ht, by simp, by simp, by simp, by simp, by simp [Phase.unwritten]⟩
    · refine ⟨ht, by simp, by simp, by simp, by simp, ?_⟩
      rintro k w c - ⟨⟩ hc
      exact hasOf k c hc
  | _ => cases ht.onHub

/-- A task that has loaded nothing has only to be one of such a run. -/
theorem TaskPlaced.of_served {t : Task} {ph : Phase} (ht : t.Served g)
    (hph : ph = .start ∨ ph = .locked) : TaskPlaced g t ph := by
  rcases hph with rfl | rfl <;>
    exact ⟨ht, by simp, by simp [Phase.row], by simp, by simp, by simp [Phase.unwritten]⟩

/-- A task that goes on with what it has loaded keeps its assertion. -/
theorem TaskPlaced.goOn {t : Task} {ph ph' : Phase} (h : TaskPlaced g t ph)
    (hservers : ∀ id, (g.servers.get id).isSome → (g'.servers.get id).isSome)
    (htables : ∀ v table, g.tableAt v = some table → g'.tableAt v = some table)
    (hfailing : ∀ status, ph' ≠ .failing status) (hexiting : ∀ id?, ph' ≠ .exiting id?)
    (hrow : ∀ w, ph'.row = some w → ph.row = some w)
    (hasOf : ∀ id w c, t.hub = some id → ph'.unwritten = some w → (g'.hosts id).conf = some c →
      ph.unwritten = some w ∧ (g.hosts id).conf = some c) : TaskPlaced g' t ph' where
  served := h.served.mono hservers
  failing status hph := absurd hph (hfailing status)
  home c w ht hw := by
    obtain ⟨hub, hhub, hhome⟩ := h.home c w ht (hrow w hw)
    exact ⟨hub, hhub, hhome.mono hservers htables⟩
  followUp c id? ht hph := absurd hph (hexiting id?)
  noFollowUp id? ht hph := absurd hph (hexiting id?)
  asOf_le id w c hid hw hc := by
    obtain ⟨hw, hc⟩ := hasOf id w c hid hw hc
    exact h.asOf_le id w c hid hw hc

/-- The step of a task keeps the assertion of the process. -/
theorem placed_of_workMove {t : Task} {ph : Phase} {a : Action} (hI : Rooted g) (hsound : Sound g)
    (hG : Guarantee i g g') (hJ : TaskPlaced g t ph) (h : WorkMove i g t ph a g' p') :
    ∀ q, p' = some q → ProcPlaced i g' q := by
  have hservers (id : ℕ) : (g.servers.get id).isSome → (g'.servers.get id).isSome :=
    (HubMove.task h).servers
  intro q hq
  cases h with
  | lock _ =>
    cases hq
    exact .of_served (hJ.served.mono hservers) (.inr rfl)
  | load hload => cases hq; exact placed_of_taskLoad hI hsound hJ.served hload
  | fail _ ht =>
    cases hq
    exact ⟨hJ.served, fun _ _ ↦ ht, by simp [Phase.row], by simp, by simp,
      by simp [Phase.unwritten]⟩
  | list =>
    cases hq
    exact hJ.goOn hservers hG.tableAt (by simp) (by simp) (fun w hw ↦ hw)
      fun id w c _ hw hc ↦ ⟨hw, hc⟩
  | @writeTpl _ w id v clients conf ht =>
    cases hq
    refine hJ.goOn hservers hG.tableAt (by simp) (by simp) (fun w hw ↦ hw)
      fun k w c _ hw hc ↦ ⟨hw, ?_⟩
    rw [Shared.writeHost_hosts] at hc
    by_cases hk : k = id
    · subst hk
      simpa using hc
    · simpa [hk] using hc
  | writeConf ht =>
    cases hq
    exact hJ.goOn hservers hG.tableAt (by simp) (by simp) (fun w hw ↦ hw)
      (by simp [Phase.unwritten])
  | sshDone hw =>
    cases hq
    exact hJ.goOn hservers hG.tableAt (by simp) (by simp) (fun w' hw' ↦ hw'.symm ▸ hw)
      (by simp [Phase.unwritten])
  | commitServer ht =>
    cases hq
    refine ⟨hJ.served.mono hservers, by simp, by simp [Phase.row], ?_, by simp,
      by simp [Phase.unwritten]⟩
    rintro c id? rfl
    cases ht
  | @commitClient w c f hf _ ht hserver =>
    cases hq
    refine ⟨hJ.served.mono hservers, by simp, by simp [Phase.row], ?_, ?_,
      by simp [Phase.unwritten]⟩
    · rintro k id? hk ⟨⟩
      obtain ⟨hub, hhub, hhome⟩ := hJ.home k w hk rfl
      exact ⟨hub.id, by rw [hhub]; rfl, hhome.mono hservers hG.tableAt⟩
    · rw [ht]
      simp [Task.hub]
  | @release followUp _ =>
    obtain ⟨server, hfollow, rfl⟩ := Option.map_eq_some_iff.mp hq
    refine hservers server ?_
    by_cases hhub : t.hub.isSome
    · rw [hJ.noFollowUp followUp hhub rfl] at hfollow
      cases hfollow
    · obtain ⟨c, rfl⟩ : ∃ c, t = .provisionClient c := by
        cases t with
        | provisionClient c => exact ⟨c, rfl⟩
        | provisionServer | reconfigureServer => exact absurd rfl hhub
        | _ => cases hJ.served.onHub
      obtain ⟨id, hid, hhome⟩ := hJ.followUp c followUp rfl rfl
      rw [hid] at hfollow
      cases hfollow
      exact hhome.1
  | _ => cases hq

theorem Task.served_provision {t : Task} (ht : t.isProvision) : t.Served g := by
  cases t with
  | provisionServer id | provisionClient id => exact ⟨rfl, fun k m hm ↦ by cases hm⟩
  | _ => cases ht

/-- A step keeps the assertion of the process that takes it. -/
theorem placed_of_hubMove (hI : Rooted g) (hsound : Sound g) (hG : Guarantee i g g')
    (hJ : ∀ q, p = some q → ProcPlaced i g q) (h : HubMove i g p e g' p') :
    ∀ q, p' = some q → ProcPlaced i g' q := by
  have hservers (id : ℕ) : (g.servers.get id).isSome → (g'.servers.get id).isSome := h.servers
  intro q hq
  cases h with
  | registerServer => cases hq; exact Task.served_provision rfl
  | registerClient _ _ => cases hq; exact Task.served_provision rfl
  | reprovisionServer => cases hq; exact Task.served_provision rfl
  | reprovisionClient => cases hq; exact Task.served_provision rfl
  | admitClient hrow =>
    cases hq
    rw [Shared.admissible, Bool.and_eq_true] at hrow
    exact hservers _ hrow.2
  | deleteClient hrow => cases hq; exact hservers _ (hI.server _ _ hrow)
  | @deliver _ k t ht =>
    cases hq
    exact .of_served ((hI.queue t (List.mem_of_getElem? ht)).mono hservers) (.inl rfl)
  | bump _ => cases hq; exact hservers _ (hJ _ rfl)
  | readGeneration _ => cases hq; exact hservers _ (hJ _ rfl)
  | task hmove => exact placed_of_workMove hI hsound hG (hJ _ rfl) hmove q hq
  | _ => cases hq

/-! ## Who holds the lock of a client -/

/-- Only the provisioning task of a client takes the lock of its row. -/
theorem Task.eq_of_node {t : Task} {c : ℕ} (ht : t.onHub) (hnode : t.node = .client c) :
    t = .provisionClient c := by
  cases t with
  | provisionClient k => cases hnode; rfl
  | provisionServer | reconfigureServer => cases hnode
  | _ => cases ht

theorem taskLoad_ne_start {t : Task} (ht : t.onHub) : taskLoad g t ≠ some .start := by
  intro hload
  cases t with
  | provisionServer id =>
    obtain ⟨row, -, hph⟩ := Option.map_eq_some_iff.mp hload
    cases hph
  | provisionClient id =>
    obtain ⟨row, -, hph⟩ := Option.map_eq_some_iff.mp hload
    split at hph <;> cases hph
  | reconfigureServer id generation retries =>
    obtain ⟨row, -, hph⟩ := Option.map_eq_some_iff.mp hload
    split at hph <;> cases hph
  | _ => cases ht

/-- Process `q` is the provisioning task of client `c`, past its lock. -/
def Proc.Holds (c : ℕ) (q : Proc) : Prop :=
  ∃ ph, q = .task (.provisionClient c) ph ∧ ph ≠ .start

/-- The lock of a client is held by the process that had it before the step, or by the one that
takes the step. -/
theorem HubMove.locks (h : HubMove i g p e g' p') (hJ : ∀ q, p = some q → ProcPlaced i g q)
    {c j : ℕ} (hheld : g.locks (.client c) = some i → ∃ q, p = some q ∧ q.Holds c)
    (hj : g'.locks (.client c) = some j) :
    g.locks (.client c) = some j ∧ j ≠ i ∨ j = i ∧ ∃ q, p' = some q ∧ q.Holds c := by
  -- a process that is no task holds no lock
  have hother (hlocks : g'.locks = g.locks) (hp : ∀ q, p = some q → ¬q.Holds c) :
      g.locks (.client c) = some j ∧ j ≠ i := by
    rw [hlocks] at hj
    refine ⟨hj, ?_⟩
    rintro rfl
    obtain ⟨q, hq, hholds⟩ := hheld hj
    exact hp q hq hholds
  cases h with
  | @task t ph a _ _ hmove =>
    have hserved := TaskPlaced.served (hJ _ rfl)
    have hown (hi : g.locks (.client c) = some i) : t = .provisionClient c ∧ ph ≠ .start := by
      obtain ⟨q, hq, ph', rfl, hph⟩ := hheld hi
      cases hq
      exact ⟨rfl, hph⟩
    -- a task that goes on holds what it held
    have hgo (ph' : Phase) (hlocks : g'.locks = g.locks) (hph' : ph' ≠ .start) :
        g.locks (.client c) = some j ∧ j ≠ i ∨
          j = i ∧ ∃ q, some (Proc.task t ph') = some q ∧ q.Holds c := by
      rw [hlocks] at hj
      by_cases hji : j = i
      · subst hji
        obtain ⟨rfl, -⟩ := hown hj
        exact .inr ⟨rfl, _, rfl, ph', rfl, hph'⟩
      · exact .inl ⟨hj, hji⟩
    -- a task that ends gives up the only lock it can have
    have hends (hlocks : g'.locks = (g.release i t.node).locks) :
        g.locks (.client c) = some j ∧ j ≠ i := by
      rw [hlocks, Shared.release_locks] at hj
      split at hj
      · next hi =>
        by_cases hnode : Node.client c = t.node
        · rw [hnode, Function.update_self] at hj
          cases hj
        · rw [Function.update_of_ne hnode] at hj
          refine ⟨hj, ?_⟩
          rintro rfl
          exact hnode (by rw [(hown hj).1]; rfl)
      · next hi =>
        refine ⟨hj, ?_⟩
        rintro rfl
        exact hi (by rw [(hown hj).1]; exact hj)
    cases hmove with
    | lock free =>
      rw [Shared.lock_locks] at hj
      by_cases hnode : Node.client c = t.node
      · rw [hnode, Function.update_self] at hj
        cases hj
        rw [Task.eq_of_node hserved.onHub hnode.symm]
        exact .inr ⟨rfl, _, rfl, .locked, rfl, by simp⟩
      · rw [Function.update_of_ne hnode] at hj
        refine .inl ⟨hj, ?_⟩
        rintro rfl
        exact (hown hj).2 rfl
    | skip _ _ =>
      exact .inl (hother rfl (by rintro q ⟨⟩ ⟨ph', ⟨⟩, hph⟩; exact hph rfl))
    | retry ht =>
      exact .inl (hother rfl (by rintro q ⟨⟩ ⟨ph', ⟨⟩, hph⟩; exact hph rfl))
    | giveUp _ _ => exact .inl (hends rfl)
    | gone _ _ => exact .inl (hends rfl)
    | @load _ ph' hload =>
      refine hgo ph' rfl ?_
      rintro rfl
      exact taskLoad_ne_start hserved.onHub hload
    | fail _ _ => exact hgo _ rfl (by simp)
    | list => exact hgo _ rfl (by simp)
    | writeTpl _ => exact hgo _ rfl (by simp)
    | writeConf _ => exact hgo _ rfl (by simp)
    | sshDone _ => exact hgo _ rfl (by simp)
    | commitServer _ => exact hgo _ rfl (by simp)
    | commitClient _ _ => exact hgo _ rfl (by simp)
    | errorServer _ => exact .inl (hends rfl)
    | errorClient _ _ _ => exact .inl (hends rfl)
    | release => exact .inl (hends rfl)
  | _ => exact .inl (hother rfl (by rintro q ⟨⟩ ⟨ph', ⟨⟩, -⟩))

/-! ## What a step does to a configuration, a row and a message -/

/-- The configuration on a hub is replaced by one that is not older. -/
theorem HubMove.conf (h : HubMove i g p e g' p') (hJ : ∀ q, p = some q → ProcPlaced i g q)
    (hsound : ∀ q, p = some q → ProcSound i g q) {id : ℕ} {c : HubConfig}
    (hc : (g.hosts id).conf = some c) :
    ∃ c', (g'.hosts id).conf = some c' ∧ c.asOf ≤ c'.asOf := by
  cases h with
  | @task t ph a _ _ hmove =>
    cases hmove with
    | @writeTpl _ w k v clients conf ht =>
      refine ⟨c, ?_, le_rfl⟩
      rw [Shared.writeHost_hosts]
      by_cases hk : id = k
      · subst hk
        rw [Function.update_self]
        exact hc
      · rw [Function.update_of_ne hk]
        exact hc
    | @writeConf _ w k ht =>
      rw [Shared.writeHost_hosts]
      by_cases hk : id = k
      · subst hk
        -- the template was rendered in this session, and the session is not older than `c`
        obtain ⟨c', hc', hfirst⟩ := TaskSound.written (hsound _ rfl) id ht
        have hle := TaskPlaced.asOf_le (hJ _ rfl) id w c ht rfl hc
        refine ⟨c', ?_, by omega⟩
        rw [Function.update_self]
        exact hc'
      · rw [Function.update_of_ne hk]
        exact ⟨c, hc, le_rfl⟩
    | _ => exact ⟨c, hc, le_rfl⟩
  | _ => exact ⟨c, hc, le_rfl⟩

/-- A client row stays on its hub, or it is deleted and the hub is asked to catch up. -/
theorem HubMove.row (h : HubMove i g p e g' p') {c : ℕ} {row : Client}
    (hrow : g.clients.get c = some row) :
    (∃ row', g'.clients.get c = some row' ∧ row'.serverId = row.serverId) ∨
      p' = some (.call row.serverId g'.version none .begun) := by
  have hmodify (k : ℕ) (f : Client → Client) (hf : ∀ r, (f r).id = r.id)
      (hserver : ∀ r, (f r).serverId = r.serverId) :
      ∃ row', (g.modifyClient k f hf).clients.get c = some row' ∧
        row'.serverId = row.serverId := by
    rw [Shared.modifyClient, Shared.commitClients, Table.get_modify, hrow]
    split
    · exact ⟨f row, rfl, hserver row⟩
    · exact ⟨row, rfl, rfl⟩
  cases h with
  | registerClient _ _ => exact .inl ⟨row, Table.get_insert_of_get hrow, rfl⟩
  | reprovisionClient => exact .inl (hmodify _ _ _ fun _ ↦ rfl)
  | admitClient _ => exact .inl ⟨row, Table.get_insert_of_get hrow, rfl⟩
  | @deleteClient _ k old hold =>
    by_cases hk : c = k
    · subst hk
      rw [hold] at hrow
      cases hrow
      refine .inr ?_
      rw [Shared.version_commitClients]
    · refine .inl ⟨row, ?_, rfl⟩
      rw [Shared.commitClients_clients, Table.get_delete, if_neg hk]
      exact hrow
  | task hmove =>
    cases hmove with
    | commitClient _ hserver => exact .inl (hmodify _ _ _ hserver)
    | @errorClient _ k f hf _ hserver _ => exact .inl (hmodify k f hf hserver)
    | _ => exact .inl ⟨row, hrow, rfl⟩
  | _ => exact .inl ⟨row, hrow, rfl⟩

/-- A message leaves the queue only by being delivered. -/
theorem HubMove.delivers (h : HubMove i g p e g' p') {t : Task} (ht : t ∈ g.queue) :
    t ∈ g'.queue ∨ p' = some (.task t .start) := by
  cases h with
  | @deliver _ k u hu =>
    obtain ⟨l, hl⟩ := List.mem_iff_getElem?.mp ht
    by_cases hlk : l = k
    · subst hlk
      rw [hl] at hu
      cases hu
      exact .inr rfl
    · exact .inl (List.mem_eraseIdx_iff_getElem?.mpr ⟨l, hlk, hl⟩)
  | request => exact .inl (List.mem_append_left _ ht)
  | dispatch => exact .inl (List.mem_append_left _ ht)
  | task hmove =>
    cases hmove with
    | retry _ => exact .inl (List.mem_append_left _ ht)
    | _ => exact .inl ht
  | _ => exact .inl ht

end

end WgManager.Tasks
