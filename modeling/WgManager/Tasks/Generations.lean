import WgManager.Tasks.Moves
import Mathlib.Order.Basic
import Mathlib.Order.Nat

/-!
# The reconfigure generations

`reconfig_requested_gen` counts the requests for the peer list of a hub to catch up, and
`reconfig_applied_gen` is the request the hub has caught up with.  This file proves what that
bookkeeping is for: along every interleaving, a hub whose applied generation covers a request runs
a configuration rendered from a client list that is not older than the request
(`applied_covers_requests`), and as long as the hub is behind, some message, run or call still
carries the newest generation or has reported that it failed (`requested_generation_is_owed`).

The argument has two halves, which `Config.inv_step` puts together.

* `Sound` is the assertion on the shared state, `ProcSound` the one of a process.  The heart of the
  second is `Fresh`: a task that has loaded its hub holds the lock, so the applied generation stays
  where it was; and every request numbered up to the generation it has read began before its
  session did, so the client list it is about to read covers all of them.
* `Guarantee i g g'` says what a step of process `i` may do to the state the others rely on.  Every
  step meets it (`guarantee_of_procStep`), and every `ProcSound` of another process survives any
  step that meets it (`ProcSound.stable`).
-/

set_option autoImplicit false

namespace WgManager.Tasks

/-! ## The assertions -/

/-- `c` is the text of a configuration of hub `id`, rendered from the clients that were ready at the
version it names. -/
def Rendered (g : Shared) (id : ℕ) (c : HubConfig) : Prop :=
  ∃ row table, g.tableAt c.asOf = some table ∧
    c.text = renderServerConfig row (readyClientsFor table id)

/-- A generation that a message carries has been requested. -/
def Task.Issued (g : Shared) (t : Task) : Prop :=
  ∀ id m, t.carries = some (id, m) → id < g.serverSeq ∧
    ∀ row, g.servers.get id = some row → m ≤ row.reconfigRequestedGen

/-- The assertion on the shared state. -/
structure Sound (g : Shared) : Prop where
  applied_le : ∀ id row, g.servers.get id = some row →
    row.reconfigAppliedGen ≤ row.reconfigRequestedGen
  row_lt : ∀ id row, g.servers.get id = some row → id < g.serverSeq
  bump_lt : ∀ b ∈ g.bumps, b.server < g.serverSeq
  bump_start : ∀ b ∈ g.bumps, b.start ≤ g.version
  bump_le : ∀ b ∈ g.bumps, ∀ row, g.servers.get b.server = some row →
    b.bump ≤ row.reconfigRequestedGen
  /-- What a call reads back is at least its own bump. -/
  obtained : ∀ o ∈ g.obtained, ∃ b ∈ g.bumps,
    b.server = o.server ∧ b.start = o.start ∧ b.bump ≤ o.generation
  /-- The configuration on a hub covers every request that is marked as applied. -/
  covered : ∀ b ∈ g.bumps, ∀ row, g.servers.get b.server = some row →
    b.bump ≤ row.reconfigAppliedGen → ∃ c, (g.hosts b.server).conf = some c ∧ b.start ≤ c.asOf
  rendered : ∀ id c, (g.hosts id).conf = some c ∨ (g.hosts id).tpl = some c → Rendered g id c
  queue : ∀ t ∈ g.queue, t.Issued g

/-- What a task knows about hub `id` once it has loaded it.  `m` is a generation it carries. -/
structure Fresh (g : Shared) (id : ℕ) (w : Loaded) (row₀ : Server) : Prop where
  lt : id < g.serverSeq
  first_le : w.first ≤ g.version
  /-- Nobody else marks a generation as applied. -/
  applied_le : ∀ row, g.servers.get id = some row →
    row.reconfigAppliedGen ≤ row₀.reconfigRequestedGen
  le_requested : ∀ row, g.servers.get id = some row →
    row₀.reconfigRequestedGen ≤ row.reconfigRequestedGen
  /-- The requests up to the generation that was read began before the session did. -/
  start_le : ∀ b ∈ g.bumps, b.server = id → b.bump ≤ row₀.reconfigRequestedGen →
    b.start ≤ w.first

/-- How far the file work of a task on hub `id` has got. -/
def Written (g : Shared) (id : ℕ) : Phase → Prop
  | .listed w v clients =>
    w.first ≤ v ∧ ∃ table, g.tableAt v = some table ∧ clients = readyClientsFor table id
  | .tplWritten w => ∃ c, (g.hosts id).tpl = some c ∧ w.first ≤ c.asOf
  | .confWritten w => ∃ c, (g.hosts id).conf = some c ∧ w.first ≤ c.asOf
  | .sshDone w => ∃ c, (g.hosts id).conf = some c ∧ w.first ≤ c.asOf
  | _ => True

/-- The assertion of a task. -/
structure TaskSound (i : ℕ) (g : Shared) (t : Task) (ph : Phase) : Prop where
  issued : t.Issued g
  holds : ph ≠ .start → g.locks t.node = some i
  fresh : ∀ id w, t.hub = some id → ph.row = some w → ∃ row₀, w.hub = some row₀ ∧
    Fresh g id w row₀ ∧ ∀ m, t.carries = some (id, m) → m ≤ row₀.reconfigRequestedGen
  written : ∀ id, t.hub = some id → Written g id ph

/-- The assertion of a process. -/
def ProcSound (i : ℕ) (g : Shared) : Proc → Prop
  | .call server start origin ph => start ≤ g.version ∧ (∀ t ∈ origin, t.Issued g) ∧
    match ph with
    | .begun => True
    | .bumped bump => ⟨server, bump, start⟩ ∈ g.bumps
    | .obtained generation => server < g.serverSeq ∧
        ∀ row, g.servers.get server = some row → generation ≤ row.reconfigRequestedGen
  | .dispatching t => t.Issued g
  | .task t ph => TaskSound i g t ph

/-! ## What a step does to the state of the others -/

/-- What holds of every step from `g` to `g'`: nothing that has been recorded is lost, and the
generations do not go back. -/
structure Grows (g g' : Shared) : Prop where
  version_le : g.version ≤ g'.version
  tableAt : ∀ v t, g.tableAt v = some t → g'.tableAt v = some t
  serverSeq_le : g.serverSeq ≤ g'.serverSeq
  bumps : ∀ b ∈ g.bumps, b ∈ g'.bumps
  /-- A bump takes the next generation. -/
  bumped : ∀ b ∈ g'.bumps, b ∈ g.bumps ∨ ∃ row, g.servers.get b.server = some row ∧
    b.bump = row.reconfigRequestedGen + 1
  /-- A row that is there afterwards was there before, or its key is new. -/
  servers : ∀ id row', g'.servers.get id = some row' → id < g.serverSeq →
    ∃ row, g.servers.get id = some row ∧
      row.reconfigRequestedGen ≤ row'.reconfigRequestedGen ∧
      row.reconfigAppliedGen ≤ row'.reconfigAppliedGen

/-- What the other processes can rely on when process `i` takes a step from `g` to `g'`. -/
structure Guarantee (i : ℕ) (g g' : Shared) : Prop extends Grows g g' where
  locks : ∀ n j, j ≠ i → g.locks n = some j → g'.locks n = some j
  /-- Only the holder of the lock marks a generation as applied. -/
  applied : ∀ id j row row', j ≠ i → g.locks (.server id) = some j →
    g.servers.get id = some row → g'.servers.get id = some row' →
    row'.reconfigAppliedGen = row.reconfigAppliedGen
  /-- Only the holder of the lock writes to a hub. -/
  hosts : ∀ id j, j ≠ i → g.locks (.server id) = some j → g'.hosts id = g.hosts id

section

variable {i j : ℕ} {g g' : Shared}

theorem Task.Issued.grows {t : Task} (h : t.Issued g) (hG : Grows g g') : t.Issued g' := by
  intro id m hm
  obtain ⟨hlt, hle⟩ := h id m hm
  refine ⟨lt_of_lt_of_le hlt hG.serverSeq_le, fun row' hrow' ↦ ?_⟩
  obtain ⟨row, hrow, hreq, -⟩ := hG.servers id row' hrow' hlt
  exact (hle row hrow).trans hreq

theorem Rendered.grows {id : ℕ} {c : HubConfig} (h : Rendered g id c) (hG : Grows g g') :
    Rendered g' id c := by
  obtain ⟨row, table, htable, htext⟩ := h
  exact ⟨row, table, hG.tableAt _ _ htable, htext⟩

theorem Fresh.stable {id : ℕ} {w : Loaded} {row₀ : Server} (h : Fresh g id w row₀)
    (hG : Guarantee i g g') (hj : j ≠ i) (hlock : g.locks (.server id) = some j) :
    Fresh g' id w row₀ where
  lt := lt_of_lt_of_le h.lt hG.serverSeq_le
  first_le := h.first_le.trans hG.version_le
  applied_le row' hrow' := by
    obtain ⟨row, hrow, -, -⟩ := hG.servers id row' hrow' h.lt
    rw [hG.applied id j row row' hj hlock hrow hrow']
    exact h.applied_le row hrow
  le_requested row' hrow' := by
    obtain ⟨row, hrow, hreq, -⟩ := hG.servers id row' hrow' h.lt
    exact (h.le_requested row hrow).trans hreq
  start_le b hb hid hle := by
    rcases hG.bumped b hb with hold | ⟨row, hrow, hbump⟩
    · exact h.start_le b hold hid hle
    · -- a new bump is above everything that was requested when the row was loaded
      have := h.le_requested row (hid ▸ hrow)
      omega

theorem Written.stable {id : ℕ} {ph : Phase} (h : Written g id ph) (hG : Guarantee i g g')
    (hhost : g'.hosts id = g.hosts id) : Written g' id ph := by
  cases ph with
  | listed w v clients =>
    obtain ⟨hv, table, htable, hclients⟩ := h
    exact ⟨hv, table, hG.tableAt v table htable, hclients⟩
  | tplWritten w => rw [Written, hhost]; exact h
  | confWritten w => rw [Written, hhost]; exact h
  | sshDone w => rw [Written, hhost]; exact h
  | _ => trivial

/-- A task that works on a hub holds the lock of the hub's row. -/
theorem Task.node_of_hub {t : Task} {id : ℕ} (h : t.hub = some id) : t.node = .server id := by
  cases t with
  | provisionServer | reconfigureServer => cases h; rfl
  | _ => cases h

theorem TaskSound.stable {t : Task} {ph : Phase} (h : TaskSound j g t ph)
    (hG : Guarantee i g g') (hj : j ≠ i) : TaskSound j g' t ph where
  issued := h.issued.grows hG.toGrows
  holds hph := hG.locks _ _ hj (h.holds hph)
  fresh id w hid hw := by
    obtain ⟨row₀, hrow₀, hfresh, hm⟩ := h.fresh id w hid hw
    have hlock := h.holds (by rintro rfl; cases hw)
    rw [Task.node_of_hub hid] at hlock
    exact ⟨row₀, hrow₀, hfresh.stable hG hj hlock, hm⟩
  written id hid := by
    by_cases hph : ph = .start
    · subst hph; trivial
    · have hlock := h.holds hph
      rw [Task.node_of_hub hid] at hlock
      exact (h.written id hid).stable hG (hG.hosts id j hj hlock)

/-- **The assertion of a process survives the steps of the others.** -/
theorem ProcSound.stable {q : Proc} (h : ProcSound j g q) (hG : Guarantee i g g') (hj : j ≠ i) :
    ProcSound j g' q := by
  cases q with
  | call server start origin ph =>
    obtain ⟨hstart, horigin, hph⟩ := h
    refine ⟨hstart.trans hG.version_le, fun t ht ↦ (horigin t ht).grows hG.toGrows, ?_⟩
    cases ph with
    | begun => trivial
    | bumped bump => exact hG.bumps _ hph
    | obtained generation =>
      refine ⟨lt_of_lt_of_le hph.1 hG.serverSeq_le, fun row' hrow' ↦ ?_⟩
      obtain ⟨row, hrow, hreq, -⟩ := hG.servers server row' hrow' hph.1
      exact (hph.2 row hrow).trans hreq
  | dispatching t => exact Task.Issued.grows h hG.toGrows
  | task t ph => exact TaskSound.stable h hG hj

end

/-! ## The steps that leave the generations alone -/

/-- A step that changes neither the generations nor the files of a hub.  Most steps are such. -/
structure Frame (g g' : Shared) : Prop where
  version_le : g.version ≤ g'.version
  tableAt : ∀ v t, g.tableAt v = some t → g'.tableAt v = some t
  serverSeq : g'.serverSeq = g.serverSeq
  bumps : g'.bumps = g.bumps
  hosts : g'.hosts = g.hosts
  servers : ∀ id row', g'.servers.get id = some row' → ∃ row, g.servers.get id = some row ∧
    row'.reconfigRequestedGen = row.reconfigRequestedGen ∧
    row'.reconfigAppliedGen = row.reconfigAppliedGen

section

variable {i : ℕ} {g g' g'' : Shared}

theorem Frame.refl (g : Shared) : Frame g g :=
  ⟨le_rfl, fun _ _ h ↦ h, rfl, rfl, rfl, fun _ row h ↦ ⟨row, h, rfl, rfl⟩⟩

theorem Frame.trans (h : Frame g g') (h' : Frame g' g'') : Frame g g'' where
  version_le := h.version_le.trans h'.version_le
  tableAt v t ht := h'.tableAt v t (h.tableAt v t ht)
  serverSeq := h'.serverSeq.trans h.serverSeq
  bumps := h'.bumps.trans h.bumps
  hosts := h'.hosts.trans h.hosts
  servers id row'' hrow'' := by
    obtain ⟨row', hrow', hreq', happ'⟩ := h'.servers id row'' hrow''
    obtain ⟨row, hrow, hreq, happ⟩ := h.servers id row' hrow'
    exact ⟨row, hrow, hreq'.trans hreq, happ'.trans happ⟩

theorem frame_commitClients (g : Shared) (t : Table Client) : Frame g (g.commitClients t) where
  version_le := by rw [Shared.version_commitClients]; omega
  tableAt _ _ := Shared.tableAt_commitClients
  serverSeq := rfl
  bumps := rfl
  hosts := rfl
  servers _ row h := ⟨row, h, rfl, rfl⟩

theorem frame_modifyServer (g : Shared) (id : ℕ) (f : Server → Server)
    (hf : ∀ r, (f r).id = r.id)
    (hreq : ∀ r, (f r).reconfigRequestedGen = r.reconfigRequestedGen)
    (happ : ∀ r, (f r).reconfigAppliedGen = r.reconfigAppliedGen) :
    Frame g (g.modifyServer id f hf) where
  version_le := le_rfl
  tableAt _ _ h := h
  serverSeq := rfl
  bumps := rfl
  hosts := rfl
  servers k row' h := by
    rw [Shared.modifyServer, Table.get_modify] at h
    split at h
    · obtain ⟨row, hrow, rfl⟩ := Option.map_eq_some_iff.mp h
      exact ⟨row, hrow, hreq row, happ row⟩
    · exact ⟨row', h, rfl, rfl⟩

theorem frame_deleteServer (g : Shared) (id : ℕ) :
    Frame g { g with servers := g.servers.delete id } where
  version_le := le_rfl
  tableAt _ _ h := h
  serverSeq := rfl
  bumps := rfl
  hosts := rfl
  servers k row' h := by
    rw [Table.get_delete] at h
    split at h
    · cases h
    · exact ⟨row', h, rfl, rfl⟩

theorem frame_markError (g : Shared) (status : NodeStatus) (t : Task) :
    Frame g (markError g status t) := by
  cases t with
  | provisionServer id => exact frame_modifyServer _ _ _ _ (fun _ ↦ rfl) fun _ ↦ rfl
  | provisionClient id => exact frame_commitClients _ _
  | _ => exact .refl g

/-- The commit of a task moves a generation only for a reconfigure. -/
theorem taskCommit_cases {w : Loaded} {publicKey : String} {cert : HostCertColumns} {t : Task}
    {ph : Phase} (h : taskCommit g w publicKey cert t = some (g', ph)) :
    (∃ followUp, ph = .exiting followUp) ∧
    (t.carries = none ∧ Frame g g' ∧ g'.locks = g.locks ∧ g'.queue = g.queue ∧
        g'.obtained = g.obtained ∨
      ∃ id generation retries, t = .reconfigureServer id generation retries ∧
        g' = g.modifyServer id fun r ↦
          { r with reconfigAppliedGen := max r.reconfigAppliedGen
                    ((w.hub.map Server.reconfigRequestedGen).getD 0) }) := by
  cases t with
  | provisionServer id =>
    obtain ⟨row, -, hph⟩ := Option.map_eq_some_iff.mp h
    cases hph
    exact ⟨⟨_, rfl⟩, .inl ⟨rfl, frame_modifyServer _ _ _ _ (fun _ ↦ rfl) fun _ ↦ rfl,
      rfl, rfl, rfl⟩⟩
  | provisionClient id =>
    obtain ⟨row, -, hph⟩ := Option.map_eq_some_iff.mp h
    cases hph
    exact ⟨⟨_, rfl⟩, .inl ⟨rfl, frame_commitClients _ _, rfl, rfl, rfl⟩⟩
  | rotateHostCert id =>
    obtain ⟨row, -, hph⟩ := Option.map_eq_some_iff.mp h
    cases hph
    exact ⟨⟨_, rfl⟩, .inl ⟨rfl, frame_modifyServer _ _ _ _ (fun _ ↦ rfl) fun _ ↦ rfl,
      rfl, rfl, rfl⟩⟩
  | rotateClientHostCert id =>
    obtain ⟨row, -, hph⟩ := Option.map_eq_some_iff.mp h
    cases hph
    exact ⟨⟨_, rfl⟩, .inl ⟨rfl, frame_commitClients _ _, rfl, rfl, rfl⟩⟩
  | reconfigureServer id generation retries =>
    cases h
    refine ⟨⟨_, rfl⟩, .inr ⟨id, generation, retries, rfl, ?_⟩⟩
    congr 1
    funext r
    congr 1
    split <;> omega

theorem Frame.grows (h : Frame g g') : Grows g g' where
  version_le := h.version_le
  tableAt := h.tableAt
  serverSeq_le := h.serverSeq.ge
  bumps b hb := h.bumps ▸ hb
  bumped b hb := .inl (h.bumps ▸ hb)
  servers id row' hrow' _ := by
    obtain ⟨row, hrow, hreq, happ⟩ := h.servers id row' hrow'
    exact ⟨row, hrow, hreq.ge, happ.ge⟩

theorem Frame.guarantee (h : Frame g g')
    (hlocks : ∀ n j, j ≠ i → g.locks n = some j → g'.locks n = some j) : Guarantee i g g' where
  toGrows := h.grows
  locks := hlocks
  applied id j row row' _ _ hrow hrow' := by
    obtain ⟨r, hr, -, happ⟩ := h.servers id row' hrow'
    rw [hrow] at hr
    cases hr
    exact happ
  hosts id j _ _ := by rw [h.hosts]

/-- A step that leaves the generations alone keeps the assertion on the shared state, when what it
queues has been requested and what it reads back is at least its bump. -/
theorem Sound.frame (hI : Sound g) (h : Frame g g')
    (hobtained : ∀ o ∈ g'.obtained, o ∈ g.obtained ∨ ∃ b ∈ g.bumps,
      b.server = o.server ∧ b.start = o.start ∧ b.bump ≤ o.generation)
    (hqueue : ∀ t ∈ g'.queue, t ∈ g.queue ∨ t.Issued g) : Sound g' where
  applied_le id row' hrow' := by
    obtain ⟨row, hrow, hreq, happ⟩ := h.servers id row' hrow'
    rw [hreq, happ]
    exact hI.applied_le id row hrow
  row_lt id row' hrow' := by
    obtain ⟨row, hrow, -, -⟩ := h.servers id row' hrow'
    rw [h.serverSeq]
    exact hI.row_lt id row hrow
  bump_lt b hb := by rw [h.serverSeq]; exact hI.bump_lt b (h.bumps ▸ hb)
  bump_start b hb := (hI.bump_start b (h.bumps ▸ hb)).trans h.version_le
  bump_le b hb row' hrow' := by
    obtain ⟨row, hrow, hreq, -⟩ := h.servers b.server row' hrow'
    rw [hreq]
    exact hI.bump_le b (h.bumps ▸ hb) row hrow
  obtained o ho := by
    rw [h.bumps]
    exact (hobtained o ho).elim (hI.obtained o) id
  covered b hb row' hrow' hle := by
    obtain ⟨row, hrow, -, happ⟩ := h.servers b.server row' hrow'
    rw [h.hosts]
    exact hI.covered b (h.bumps ▸ hb) row hrow (happ ▸ hle)
  rendered id c hc := (hI.rendered id c (h.hosts ▸ hc)).grows h.grows
  queue t ht := ((hqueue t ht).elim (hI.queue t) id).grows h.grows

end

/-! ## One step -/

/-- The requested generation of a hub goes up only by a bump, and the call that bumped it goes on
with it. -/
def Accounted (g g' : Shared) (p' : Option Proc) : Prop :=
  ∀ id row', g'.servers.get id = some row' →
    (∃ row, g.servers.get id = some row ∧
      row'.reconfigRequestedGen = row.reconfigRequestedGen ∧
      row.reconfigAppliedGen ≤ row'.reconfigAppliedGen) ∨
    row'.reconfigRequestedGen = 0 ∨
    ∃ start origin, p' = some (.call id start origin (.bumped row'.reconfigRequestedGen))

/-- What has to be shown of a step of process `i` from `g` to `g'` that leaves it as `p'`. -/
structure Keeps (i : ℕ) (g g' : Shared) (p' : Option Proc) : Prop where
  guarantee : Guarantee i g g'
  accounted : Accounted g g' p'
  sound : Sound g'
  proc : ∀ q, p' = some q → ProcSound i g' q

section

variable {i : ℕ} {g g' : Shared} {p' : Option Proc}

theorem Frame.accounted (h : Frame g g') : Accounted g g' p' := by
  intro id row' hrow'
  obtain ⟨row, hrow, hreq, happ⟩ := h.servers id row' hrow'
  exact .inl ⟨row, hrow, hreq, happ.ge⟩

theorem Frame.of_eq (hservers : g'.servers = g.servers) (hseq : g'.serverSeq = g.serverSeq)
    (hclients : g'.clients = g.clients) (hpast : g'.past = g.past) (hhosts : g'.hosts = g.hosts)
    (hbumps : g'.bumps = g.bumps) : Frame g g' where
  version_le := by rw [Shared.version, Shared.version, hpast]
  tableAt v t h := by rw [Shared.tableAt, hclients, hpast]; exact h
  serverSeq := hseq
  bumps := hbumps
  hosts := hhosts
  servers id row h := ⟨row, hservers ▸ h, rfl, rfl⟩

theorem frame_push (g : Shared) (t : Task) : Frame g (g.push t) := .of_eq rfl rfl rfl rfl rfl rfl

theorem frame_release (g : Shared) (i : ℕ) (n : Node) : Frame g (g.release i n) :=
  .of_eq rfl rfl rfl rfl rfl rfl

theorem frame_report (g : Shared) (c : Option (ℕ × ℕ)) : Frame g (g.report c) :=
  .of_eq rfl rfl rfl rfl rfl rfl

theorem Shared.locks_release {n m : Node} {j : ℕ} (hj : j ≠ i) (h : g.locks n = some j) :
    (g.release i m).locks n = some j := by
  rw [Shared.release_locks]
  split
  · next hm =>
    have hne : n ≠ m := by
      rintro rfl
      rw [h] at hm
      exact hj (Option.some.inj hm)
    rw [Function.update_of_ne hne]
    exact h
  · exact h

theorem Shared.locks_lock {n m : Node} {j : ℕ} (hfree : g.locks m = none)
    (h : g.locks n = some j) : (g.lock i m).locks n = some j := by
  have hne : n ≠ m := by
    rintro rfl
    rw [h] at hfree
    cases hfree
  rw [Shared.lock_locks, Function.update_of_ne hne]
  exact h

/-- A step that leaves the generations, the locks, the queue and the records alone. -/
theorem Sound.keeps_frame (hI : Sound g) (h : Frame g g') (hlocks : g'.locks = g.locks)
    (hobtained : g'.obtained = g.obtained) (hqueue : ∀ t ∈ g'.queue, t ∈ g.queue ∨ t.Issued g)
    (hproc : ∀ q, p' = some q → ProcSound i g' q) : Keeps i g g' p' :=
  ⟨h.guarantee fun _ _ _ hn ↦ hlocks ▸ hn, h.accounted,
    hI.frame h (fun _ ho ↦ .inl (hobtained ▸ ho)) hqueue, hproc⟩

theorem Task.issued_of_carries_eq_none {t : Task} (h : t.carries = none) : t.Issued g := by
  intro id m hm
  rw [h] at hm
  cases hm

theorem mem_push_queue {t u : Task} (h : u ∈ (g.push t).queue) (ht : t.Issued g) :
    u ∈ g.queue ∨ u.Issued g := by
  rcases List.mem_append.mp h with h | h
  · exact .inl h
  · rw [List.mem_singleton.mp h]
    exact .inr ht

/-- A task that works on no loaded row has nothing to say but its lock. -/
theorem TaskSound.of_row_eq_none {t : Task} {ph : Phase} (hissued : t.Issued g)
    (hholds : ph ≠ .start → g.locks t.node = some i) (hrow : ph.row = none) :
    TaskSound i g t ph where
  issued := hissued
  holds := hholds
  fresh id w _ hw := by
    rw [hrow] at hw
    cases hw
  written id _ := by
    cases ph with
    | listed | tplWritten | confWritten | sshDone => cases hrow
    | _ => trivial

/-! ### The handlers and the broker -/

theorem get_registered {row : Server} (hI : Sound g) (hid : row.id = g.serverSeq) (id : ℕ) :
    (g.servers.insert row).get id = if id = g.serverSeq then some row else g.servers.get id := by
  have hfree : g.servers.get (Keyed.pk row) = none := by
    rw [Option.eq_none_iff_forall_ne_some]
    intro r hr
    exact absurd (hI.row_lt _ r hr) (by show ¬row.id < _; omega)
  rw [Table.get_insert hfree]
  show (if id = row.id then _ else _) = _
  rw [hid]

/-- A new hub gets a key that no row, no request and no message has had. -/
theorem keeps_registerServer {row : Server} (hI : Sound g) (hid : row.id = g.serverSeq)
    (hreq : row.reconfigRequestedGen = 0) (happ : row.reconfigAppliedGen = 0) :
    Keeps i g { g with servers := g.servers.insert row, serverSeq := g.serverSeq + 1 }
      (some (.dispatching (.provisionServer g.serverSeq))) := by
  have hget := get_registered hI hid
  have hold (id : ℕ) (hlt : id < g.serverSeq) :
      (g.servers.insert row).get id = g.servers.get id := by
    rw [hget, if_neg (by omega)]
  have hcases (id : ℕ) (r : Server) (hr : (g.servers.insert row).get id = some r) :
      id = g.serverSeq ∧ r = row ∨ id < g.serverSeq ∧ g.servers.get id = some r := by
    rw [hget] at hr
    split at hr
    · next h => cases hr; exact .inl ⟨h, rfl⟩
    · exact .inr ⟨hI.row_lt id r hr, hr⟩
  have hgrows : Grows g { g with servers := g.servers.insert row, serverSeq := g.serverSeq + 1 } :=
    { version_le := le_rfl
      tableAt := fun _ _ h ↦ h
      serverSeq_le := Nat.le_succ _
      bumps := fun _ h ↦ h
      bumped := fun _ h ↦ .inl h
      servers := fun id r hr hlt ↦ ⟨r, hold id hlt ▸ hr, le_rfl, le_rfl⟩ }
  refine ⟨⟨hgrows, fun _ _ _ h ↦ h, ?_, fun _ _ _ _ ↦ rfl⟩, ?_, ?_, ?_⟩
  · intro id j r r' _ _ hr hr'
    rw [hold id (hI.row_lt id r hr), hr] at hr'
    cases hr'
    rfl
  · intro id r hr
    rcases hcases id r hr with ⟨-, rfl⟩ | ⟨-, hr⟩
    · exact .inr (.inl hreq)
    · exact .inl ⟨r, hr, rfl, le_rfl⟩
  · refine ⟨?_, ?_, ?_, hI.bump_start, ?_, hI.obtained, ?_, ?_, ?_⟩
    · intro id r hr
      rcases hcases id r hr with ⟨-, rfl⟩ | ⟨-, hr⟩
      · rw [hreq, happ]
      · exact hI.applied_le id r hr
    · intro id r hr
      rcases hcases id r hr with ⟨h, -⟩ | ⟨h, -⟩ <;> show id < g.serverSeq + 1 <;> omega
    · intro b hb
      exact Nat.lt_succ_of_lt (hI.bump_lt b hb)
    · intro b hb r hr
      exact hI.bump_le b hb r (hold _ (hI.bump_lt b hb) ▸ hr)
    · intro b hb r hr
      exact hI.covered b hb r (hold _ (hI.bump_lt b hb) ▸ hr)
    · intro id c hc
      exact (hI.rendered id c hc).grows hgrows
    · intro t ht
      exact (hI.queue t ht).grows hgrows
  · rintro q ⟨⟩
    exact Task.issued_of_carries_eq_none rfl

theorem keeps_of_envMove (hI : Sound g) (h : EnvMove g g' p') : Keeps i g g' p' := by
  cases h with
  | commitClients quiet =>
    exact hI.keeps_frame (frame_commitClients _ _) rfl rfl (fun t ht ↦ .inl ht) (by simp)
  | registerServer hid hreq happ => exact keeps_registerServer hI hid hreq happ
  | registerClient free =>
    refine hI.keeps_frame (frame_commitClients _ _) rfl rfl (fun t ht ↦ .inl ht) ?_
    rintro q ⟨⟩
    exact Task.issued_of_carries_eq_none rfl
  | reprovisionServer =>
    refine hI.keeps_frame (frame_modifyServer _ _ _ _ (fun _ ↦ rfl) fun _ ↦ rfl) rfl rfl
      (fun t ht ↦ .inl ht) ?_
    rintro q ⟨⟩
    exact Task.issued_of_carries_eq_none rfl
  | reprovisionClient =>
    refine hI.keeps_frame (frame_commitClients _ _) rfl rfl (fun t ht ↦ .inl ht) ?_
    rintro q ⟨⟩
    exact Task.issued_of_carries_eq_none rfl
  | queue ht =>
    exact hI.keeps_frame (frame_push _ _) rfl rfl
      (fun u hu ↦ mem_push_queue hu (Task.issued_of_carries_eq_none ht)) (by simp)
  | deleteServer =>
    exact hI.keeps_frame (frame_deleteServer _ _) rfl rfl (fun t ht ↦ .inl ht) (by simp)
  | request =>
    refine hI.keeps_frame (.refl g) rfl rfl (fun t ht ↦ .inl ht) ?_
    rintro q ⟨⟩
    exact ⟨le_rfl, by simp, trivial⟩
  | @deliver k t ht =>
    have hmem : t ∈ g.queue := List.mem_of_getElem? ht
    refine hI.keeps_frame (.of_eq rfl rfl rfl rfl rfl rfl) rfl rfl
      (fun u hu ↦ .inl (List.mem_of_mem_eraseIdx hu)) ?_
    rintro q ⟨⟩
    exact .of_row_eq_none (hI.queue t hmem) (fun h ↦ absurd rfl h) rfl

/-! ### `request_reconfigure` -/

theorem pk_bump (r : Server) :
    Keyed.pk { r with reconfigRequestedGen := r.reconfigRequestedGen + 1 } = Keyed.pk r := rfl

/-- The state after a bump. -/
abbrev Shared.afterBump (g : Shared) (server start : ℕ) (row : Server) : Shared :=
  { g.modifyServer server
      (fun r ↦ { r with reconfigRequestedGen := r.reconfigRequestedGen + 1 }) pk_bump with
    bumps := g.bumps ++ [⟨server, row.reconfigRequestedGen + 1, start⟩] }

section

variable {server start id : ℕ} {row r' : Server}

/-- A row after a bump: only the requested generation of one row has changed. -/
theorem row_of_afterBump (hrow : g.servers.get server = some row)
    (hr' : (g.afterBump server start row).servers.get id = some r') :
    ∃ r, g.servers.get id = some r ∧ r'.reconfigAppliedGen = r.reconfigAppliedGen ∧
      r.reconfigRequestedGen ≤ r'.reconfigRequestedGen ∧
      (id = server ∧ r'.reconfigRequestedGen = row.reconfigRequestedGen + 1 ∨
        id ≠ server ∧ r' = r) := by
  change (g.servers.modify server fun r ↦
    { r with reconfigRequestedGen := r.reconfigRequestedGen + 1 }).get id = some r' at hr'
  rw [Table.get_modify] at hr'
  split at hr'
  · next hid =>
    obtain ⟨r, hr, rfl⟩ := Option.map_eq_some_iff.mp hr'
    refine ⟨r, hr, rfl, Nat.le_succ _, .inl ⟨hid, ?_⟩⟩
    rw [hid, hrow] at hr
    cases hr
    rfl
  · next hid => exact ⟨r', hr', rfl, le_rfl, .inr ⟨hid, rfl⟩⟩

theorem bump_of_afterBump {b : Bump} (hb : b ∈ (g.afterBump server start row).bumps) :
    b ∈ g.bumps ∨ b = ⟨server, row.reconfigRequestedGen + 1, start⟩ := by
  simpa using hb

theorem grows_afterBump (hrow : g.servers.get server = some row) :
    Grows g (g.afterBump server start row) where
  version_le := le_rfl
  tableAt _ _ h := h
  serverSeq_le := le_rfl
  bumps _ hb := List.mem_append_left _ hb
  bumped b hb := by
    rcases bump_of_afterBump hb with hb | rfl
    · exact .inl hb
    · exact .inr ⟨row, hrow, rfl⟩
  servers id r' hr' _ := by
    obtain ⟨r, hr, happ, hreq, -⟩ := row_of_afterBump hrow hr'
    exact ⟨r, hr, hreq, happ.ge⟩

theorem sound_afterBump (hI : Sound g) (hrow : g.servers.get server = some row)
    (hstart : start ≤ g.version) : Sound (g.afterBump server start row) where
  applied_le id r' hr' := by
    obtain ⟨r, hr, happ, hreq, -⟩ := row_of_afterBump hrow hr'
    have := hI.applied_le id r hr
    omega
  row_lt id r' hr' := by
    obtain ⟨r, hr, -, -, -⟩ := row_of_afterBump hrow hr'
    exact hI.row_lt id r hr
  bump_lt b hb := by
    rcases bump_of_afterBump hb with hb | rfl
    · exact hI.bump_lt b hb
    · exact hI.row_lt server row hrow
  bump_start b hb := by
    rcases bump_of_afterBump hb with hb | rfl
    · exact hI.bump_start b hb
    · exact hstart
  bump_le b hb r' hr' := by
    obtain ⟨r, hr, -, hreq, hself⟩ := row_of_afterBump hrow hr'
    rcases bump_of_afterBump hb with hb | rfl
    · exact (hI.bump_le b hb r hr).trans hreq
    · rcases hself with ⟨-, hself⟩ | ⟨hne, -⟩
      · exact hself.ge
      · exact absurd rfl hne
  obtained o ho := by
    obtain ⟨b, hb, h⟩ := hI.obtained o ho
    exact ⟨b, List.mem_append_left _ hb, h⟩
  covered b hb r' hr' hle := by
    obtain ⟨r, hr, happ, -, -⟩ := row_of_afterBump hrow hr'
    rcases bump_of_afterBump hb with hb | rfl
    · exact hI.covered b hb r hr (happ ▸ hle)
    · -- the new generation is above what has been applied
      have hr₁ : some row = some r := hrow.symm.trans hr
      cases hr₁
      have := hI.applied_le server row hrow
      simp only at hle
      omega
  rendered id c hc := (hI.rendered id c hc).grows (grows_afterBump hrow)
  queue t ht := (hI.queue t ht).grows (grows_afterBump hrow)

end

theorem keeps_bump {server start : ℕ} {origin : Option Task} {row : Server} (hI : Sound g)
    (hJ : ProcSound i g (.call server start origin .begun))
    (hrow : g.servers.get server = some row) :
    Keeps i g (g.afterBump server start row)
      (some (.call server start origin (.bumped (row.reconfigRequestedGen + 1)))) := by
  obtain ⟨hstart, horigin, -⟩ := hJ
  have hgrows : Grows g (g.afterBump server start row) := grows_afterBump hrow
  refine ⟨⟨hgrows, fun _ _ _ h ↦ h, ?_, fun _ _ _ _ ↦ rfl⟩, ?_, sound_afterBump hI hrow hstart, ?_⟩
  · intro id j r r' _ _ hr hr'
    obtain ⟨r₁, hr₁, happ, -, -⟩ := row_of_afterBump hrow hr'
    rw [hr] at hr₁
    cases hr₁
    exact happ
  · intro id r' hr'
    obtain ⟨r, hr, -, -, ⟨rfl, hself⟩ | ⟨-, rfl⟩⟩ := row_of_afterBump hrow hr'
    · rw [hself]
      exact .inr (.inr ⟨start, origin, rfl⟩)
    · exact .inl ⟨r', hr, rfl, le_rfl⟩
  · rintro q ⟨⟩
    exact ⟨hstart, fun t ht ↦ (horigin t ht).grows hgrows, by simp⟩

theorem keeps_of_callMove {server start : ℕ} {origin : Option Task} {ph : CallPhase}
    (hI : Sound g) (hJ : ProcSound i g (.call server start origin ph))
    (h : CallMove g server start origin ph g' p') : Keeps i g g' p' := by
  obtain ⟨hstart, horigin, hph⟩ := id hJ
  cases h with
  | bump hrow => exact keeps_bump hI hJ hrow
  | @readGeneration row bump hrow =>
    have hle : bump ≤ row.reconfigRequestedGen := hI.bump_le _ hph row hrow
    have hframe : Frame g { g with
        obtained := g.obtained ++ [⟨server, row.reconfigRequestedGen, start⟩] } :=
      .of_eq rfl rfl rfl rfl rfl rfl
    refine ⟨hframe.guarantee fun _ _ _ h ↦ h, hframe.accounted,
      hI.frame hframe ?_ (fun t ht ↦ .inl ht), ?_⟩
    · intro o ho
      rcases List.mem_append.mp ho with ho | ho
      · exact .inl ho
      · rw [List.mem_singleton.mp ho]
        exact .inr ⟨_, hph, rfl, rfl, hle⟩
    · rintro q ⟨⟩
      refine ⟨hstart, fun t ht ↦ (horigin t ht).grows hframe.grows, hI.row_lt _ _ hrow, ?_⟩
      intro r hr
      rw [show g.servers.get server = some r from hr] at hrow
      cases hrow
      exact le_rfl
  | @dispatch generation =>
    refine hI.keeps_frame (frame_push _ _) rfl rfl (fun u hu ↦ mem_push_queue hu ?_) (by simp)
    intro id m hm
    cases hm
    exact hph
  | raise => exact hI.keeps_frame (frame_report _ _) rfl rfl (fun t ht ↦ .inl ht) (by simp)
  | @lost _ t ht =>
    have ht' : t.Issued g := horigin t ht
    refine hI.keeps_frame (frame_push _ _) rfl rfl (fun u hu ↦ mem_push_queue hu ht') ?_
    rintro q ⟨⟩
    refine ⟨hstart, by simp, ?_⟩
    cases ph with
    | begun => trivial
    | bumped bump => exact hph
    | obtained generation => exact hph

/-! ### The tasks -/

theorem guarantee_writeHost {id : ℕ} {f : HubFiles → HubFiles}
    (hlock : g.locks (.server id) = some i) : Guarantee i g (g.writeHost id f) where
  version_le := le_rfl
  tableAt _ _ h := h
  serverSeq_le := le_rfl
  bumps _ h := h
  bumped _ h := .inl h
  servers _ row h _ := ⟨row, h, le_rfl, le_rfl⟩
  locks _ _ _ h := h
  applied _ _ _ _ _ _ hrow hrow' := by
    rw [show g.servers.get _ = some _ from hrow'] at hrow
    cases hrow
    rfl
  hosts k j hj hk := by
    have hne : k ≠ id := by
      rintro rfl
      rw [hlock] at hk
      exact hj (Option.some.inj hk).symm
    rw [Shared.writeHost_hosts, Function.update_of_ne hne]

theorem accounted_writeHost {id : ℕ} {f : HubFiles → HubFiles} :
    Accounted g (g.writeHost id f) p' :=
  fun _ row hrow ↦ .inl ⟨row, hrow, rfl, le_rfl⟩

/-- Writing to a hub keeps the assertion when the new configuration covers what the old one did and
both files are rendered. -/
theorem Sound.writeHost {id : ℕ} {f : HubFiles → HubFiles} (hI : Sound g)
    (hcovered : ∀ b ∈ g.bumps, b.server = id → ∀ row, g.servers.get id = some row →
      b.bump ≤ row.reconfigAppliedGen →
      ∃ c, (f (g.hosts id)).conf = some c ∧ b.start ≤ c.asOf)
    (hrendered : ∀ c, (f (g.hosts id)).conf = some c ∨ (f (g.hosts id)).tpl = some c →
      Rendered g id c) : Sound (g.writeHost id f) where
  applied_le := hI.applied_le
  row_lt := hI.row_lt
  bump_lt := hI.bump_lt
  bump_start := hI.bump_start
  bump_le := hI.bump_le
  obtained := hI.obtained
  covered b hb row hrow hle := by
    rw [Shared.writeHost_hosts]
    by_cases hid : b.server = id
    · rw [hid, Function.update_self]
      exact hcovered b hb hid row (hid ▸ hrow) hle
    · rw [Function.update_of_ne hid]
      exact hI.covered b hb row hrow hle
  rendered k c hc := by
    rw [Shared.writeHost_hosts] at hc
    by_cases hk : k = id
    · subst hk
      rw [Function.update_self] at hc
      exact hrendered c hc
    · rw [Function.update_of_ne hk] at hc
      exact hI.rendered k c hc
  queue := hI.queue

/-- What a task knows right after it has loaded its rows. -/
theorem taskSound_of_taskLoad {t : Task} {ph : Phase} (hI : Sound g) (hissued : t.Issued g)
    (hlock : g.locks t.node = some i) (hload : taskLoad g t = some ph) : TaskSound i g t ph := by
  have hfresh (id : ℕ) (row : Server) (status : NodeStatus)
      (hrow : g.servers.get id = some row) : Fresh g id ⟨g.version, status, some row⟩ row := by
    have hself (r : Server) (hr : g.servers.get id = some r) : r = row := by
      rw [hrow] at hr
      exact (Option.some.inj hr).symm
    refine ⟨hI.row_lt id row hrow, le_rfl, fun r hr ↦ ?_, fun r hr ↦ ?_, ?_⟩
    · rw [hself r hr]
      exact hI.applied_le id row hrow
    · rw [hself r hr]
    · intro b hb _ _
      exact hI.bump_start b hb
  have hloaded (id : ℕ) (row : Server) (hid : t.hub = some id)
      (hrow : g.servers.get id = some row) :
      TaskSound i g t (.loaded ⟨g.version, row.status, some row⟩) := by
    refine ⟨hissued, fun _ ↦ hlock, ?_, fun _ _ ↦ trivial⟩
    intro k w hk hw
    rw [hid] at hk
    cases hk
    cases hw
    exact ⟨row, rfl, hfresh id row _ hrow, fun m hm ↦ (hissued id m hm).2 row hrow⟩
  have hother (w : Loaded) (hid : t.hub = none) : TaskSound i g t (.loaded w) := by
    refine ⟨hissued, fun _ ↦ hlock, fun k w hk ↦ ?_, fun _ _ ↦ trivial⟩
    rw [hid] at hk
    cases hk
  have hidle (ph : Phase) (h : ph.row = none) : TaskSound i g t ph :=
    .of_row_eq_none hissued (fun _ ↦ hlock) h
  cases t with
  | provisionServer id =>
    obtain ⟨row, hrow, rfl⟩ := Option.map_eq_some_iff.mp hload
    exact hloaded id row rfl hrow
  | provisionClient id =>
    obtain ⟨client, -, rfl⟩ := Option.map_eq_some_iff.mp hload
    split
    · exact hidle _ rfl
    · exact hother _ rfl
  | rotateHostCert id =>
    obtain ⟨row, hrow, rfl⟩ := Option.map_eq_some_iff.mp hload
    exact hother _ rfl
  | rotateClientHostCert id =>
    rw [taskLoad] at hload
    split at hload
    · cases hload
    · split at hload
      · cases hload
      · cases hload
        exact hother _ rfl
  | reconfigureServer id generation retries =>
    obtain ⟨row, hrow, rfl⟩ := Option.map_eq_some_iff.mp hload
    split
    · exact hidle _ rfl
    · exact hloaded id row rfl hrow

/-- The guarded update of a reconfigure: the configuration it has written covers every request up
to the generation it marks as applied. -/
theorem keeps_apply {id : ℕ} {generation : Option ℕ} {retries : ℕ} {w : Loaded} {ph : Phase}
    (hI : Sound g) (hJ : TaskSound i g (.reconfigureServer id generation retries) (.sshDone w))
    (hph : ph.row = none) :
    Keeps i g
      (g.modifyServer id fun r ↦
        { r with reconfigAppliedGen := max r.reconfigAppliedGen
                  ((w.hub.map Server.reconfigRequestedGen).getD 0) })
      (some (.task (.reconfigureServer id generation retries) ph)) := by
  obtain ⟨row₀, hrow₀, hfresh, -⟩ := hJ.fresh id w rfl rfl
  have hlock : g.locks (.server id) = some i := hJ.holds (by simp)
  simp only [hrow₀, Option.map_some, Option.getD_some]
  have hcases (k : ℕ) (r' : Server) (hr' : (g.servers.modify id fun r ↦
      { r with reconfigAppliedGen :=
                max r.reconfigAppliedGen row₀.reconfigRequestedGen }).get k = some r') :
      ∃ r, g.servers.get k = some r ∧ r'.reconfigRequestedGen = r.reconfigRequestedGen ∧
        (k = id ∧ r'.reconfigAppliedGen = row₀.reconfigRequestedGen ∧
            r.reconfigAppliedGen ≤ row₀.reconfigRequestedGen ∨
          k ≠ id ∧ r'.reconfigAppliedGen = r.reconfigAppliedGen) := by
    rw [Table.get_modify] at hr'
    split at hr'
    · next hk =>
      obtain ⟨r, hr, rfl⟩ := Option.map_eq_some_iff.mp hr'
      have hle := hfresh.applied_le r (hk ▸ hr)
      exact ⟨r, hr, rfl, .inl ⟨hk, max_eq_right hle, hle⟩⟩
    · next hk => exact ⟨r', hr', rfl, .inr ⟨hk, rfl⟩⟩
  have hgrows : Grows g (g.modifyServer id fun r ↦
      { r with reconfigAppliedGen := max r.reconfigAppliedGen row₀.reconfigRequestedGen }) :=
    { version_le := le_rfl
      tableAt := fun _ _ h ↦ h
      serverSeq_le := le_rfl
      bumps := fun _ h ↦ h
      bumped := fun _ h ↦ .inl h
      servers := fun k r' hr' _ ↦ by
        obtain ⟨r, hr, hreq, happ⟩ := hcases k r' hr'
        refine ⟨r, hr, hreq.ge, ?_⟩
        rcases happ with ⟨-, happ, hle⟩ | ⟨-, happ⟩ <;> omega }
  refine ⟨⟨hgrows, fun _ _ _ h ↦ h, ?_, fun _ _ _ _ ↦ rfl⟩, ?_, ?_, ?_⟩
  · intro k j r r' hj hk hr hr'
    obtain ⟨r₁, hr₁, -, ⟨rfl, -, -⟩ | ⟨-, happ⟩⟩ := hcases k r' hr'
    · rw [hlock] at hk
      exact absurd (Option.some.inj hk).symm hj
    · rw [hr] at hr₁
      cases hr₁
      exact happ
  · intro k r' hr'
    obtain ⟨r, hr, hreq, happ⟩ := hcases k r' hr'
    refine .inl ⟨r, hr, hreq, ?_⟩
    rcases happ with ⟨-, happ, hle⟩ | ⟨-, happ⟩ <;> omega
  · refine ⟨?_, ?_, hI.bump_lt, hI.bump_start, ?_, hI.obtained, ?_, ?_, ?_⟩
    · intro k r' hr'
      obtain ⟨r, hr, hreq, ⟨rfl, happ, -⟩ | ⟨-, happ⟩⟩ := hcases k r' hr'
      · rw [hreq, happ]
        exact hfresh.le_requested r hr
      · rw [hreq, happ]
        exact hI.applied_le k r hr
    · intro k r' hr'
      obtain ⟨r, hr, -⟩ := hcases k r' hr'
      exact hI.row_lt k r hr
    · intro b hb r' hr'
      obtain ⟨r, hr, hreq, -⟩ := hcases b.server r' hr'
      rw [hreq]
      exact hI.bump_le b hb r hr
    · intro b hb r' hr' hle
      obtain ⟨r, hr, -, ⟨hid, happ, -⟩ | ⟨-, happ⟩⟩ := hcases b.server r' hr'
      · obtain ⟨c, hc, hfirst⟩ := hJ.written id rfl
        refine ⟨c, hid ▸ hc, (hfresh.start_le b hb hid ?_).trans hfirst⟩
        rw [← happ]
        exact hle
      · exact hI.covered b hb r hr (happ ▸ hle)
    · intro k c hc
      exact (hI.rendered k c hc).grows hgrows
    · intro t ht
      exact (hI.queue t ht).grows hgrows
  · rintro q ⟨⟩
    exact .of_row_eq_none (hJ.issued.grows hgrows) (fun _ ↦ hlock) hph

/-- A step of a task that leaves the generations and the tables of requests alone. -/
theorem Sound.keeps_task {t : Task} {ph ph' : Phase} (hI : Sound g) (hJ : TaskSound i g t ph)
    (hph : ph ≠ .start)
    (hfresh : ∀ w, ph'.row = some w → ph.row = some w)
    (hwritten : ∀ id, t.hub = some id → Written g id ph') :
    Keeps i g g (some (.task t ph')) := by
  refine hI.keeps_frame (.refl g) rfl rfl (fun t ht ↦ .inl ht) ?_
  rintro q ⟨⟩
  exact ⟨hJ.issued, fun _ ↦ hJ.holds hph, fun id w hid hw ↦ hJ.fresh id w hid (hfresh w hw),
    hwritten⟩

theorem TaskSound.writeHost {t : Task} {ph ph' : Phase} {id : ℕ} {f : HubFiles → HubFiles}
    (hJ : TaskSound i g t ph) (hph : ph ≠ .start) (hrow : ∀ w, ph'.row = some w → ph.row = some w)
    (hwritten : ∀ k, t.hub = some k → Written (g.writeHost id f) k ph') :
    TaskSound i (g.writeHost id f) t ph' where
  issued := hJ.issued
  holds _ := hJ.holds hph
  fresh k w hk hw := by
    obtain ⟨row₀, hrow₀, hfresh, hm⟩ := hJ.fresh k w hk (hrow w hw)
    exact ⟨row₀, hrow₀, ⟨hfresh.lt, hfresh.first_le, hfresh.applied_le, hfresh.le_requested,
      hfresh.start_le⟩, hm⟩
  written := hwritten

theorem frame_lock (g : Shared) (i : ℕ) (n : Node) : Frame g (g.lock i n) :=
  .of_eq rfl rfl rfl rfl rfl rfl

/-- A task gives its lock up and is gone. -/
theorem Sound.keeps_gone {g₁ : Shared} {n : Node} (hI : Sound g) (h₁ : Frame g g₁)
    (hlocks : g₁.locks = g.locks) (h : Frame (g₁.release i n) g')
    (hlocks' : g'.locks = (g₁.release i n).locks) (hobtained : g'.obtained = g.obtained)
    (hqueue : ∀ t ∈ g'.queue, t ∈ g.queue ∨ t.Issued g)
    (hproc : ∀ q, p' = some q → ProcSound i g' q) : Keeps i g g' p' := by
  have hframe := (h₁.trans (frame_release g₁ i n)).trans h
  refine ⟨hframe.guarantee fun m j hj hm ↦ ?_, hframe.accounted,
    hI.frame hframe (fun _ ho ↦ .inl (hobtained ▸ ho)) hqueue, hproc⟩
  rw [hlocks']
  exact Shared.locks_release hj (hlocks ▸ hm)

theorem keeps_of_taskMove {t : Task} {ph : Phase} {a : Action} (hI : Sound g)
    (hJ : TaskSound i g t ph) (h : TaskMove i g t ph a g' p') : Keeps i g g' p' := by
  cases h with
  | lock free =>
    have hframe := frame_lock g i t.node
    refine ⟨hframe.guarantee fun n j _ hn ↦ Shared.locks_lock free hn, hframe.accounted,
      hI.frame hframe (fun _ ho ↦ .inl ho) (fun _ ht ↦ .inl ht), ?_⟩
    rintro q ⟨⟩
    exact .of_row_eq_none (hJ.issued.grows hframe.grows) (fun _ ↦ by simp) rfl
  | skip _ => exact hI.keeps_frame (.refl g) rfl rfl (fun t ht ↦ .inl ht) (by simp)
  | @retry id generation retries ht =>
    refine hI.keeps_frame (frame_push _ _) rfl rfl (fun u hu ↦ mem_push_queue hu ?_) (by simp)
    subst ht
    -- the message that is queued again carries the same generation
    intro k m hm
    cases generation with
    | none => cases hm
    | some generation => exact hJ.issued k m hm
  | raise _ =>
    exact hI.keeps_gone (.refl g) rfl (frame_report _ _) rfl rfl (fun t ht ↦ .inl ht) (by simp)
  | load hload =>
    refine hI.keeps_frame (.refl g) rfl rfl (fun t ht ↦ .inl ht) ?_
    rintro q ⟨⟩
    exact taskSound_of_taskLoad hI hJ.issued (hJ.holds (by simp)) hload
  | fail hw _ =>
    exact hI.keeps_task hJ (by rintro rfl; cases hw) (by simp [Phase.row]) fun _ _ ↦ trivial
  | @list _ w id v table ht htable hv =>
    refine hI.keeps_task hJ (by simp) (fun w hw ↦ hw) fun k hk ↦ ?_
    rw [ht] at hk
    cases hk
    exact ⟨hv, table, htable, rfl⟩
  | @writeTpl _ w id v row clients ht hrow =>
    have hlock : g.locks (.server id) = some i :=
      Task.node_of_hub ht ▸ hJ.holds (by simp)
    obtain ⟨hfirst, table, htable, rfl⟩ := hJ.written id ht
    refine ⟨guarantee_writeHost hlock, accounted_writeHost, hI.writeHost ?_ ?_, ?_⟩
    · intro b hb hid r hr hle
      exact hid ▸ hI.covered b hb r (hid ▸ hr) hle
    · intro c hc
      rcases hc with hc | hc
      · exact hI.rendered id c (.inl hc)
      · cases hc
        exact ⟨row, table, htable, rfl⟩
    · rintro q ⟨⟩
      refine hJ.writeHost (by simp) (fun w hw ↦ hw) fun k hk ↦ ?_
      rw [ht] at hk
      cases hk
      exact ⟨_, by rw [Shared.writeHost_hosts, Function.update_self], hfirst⟩
  | @writeConf _ w id ht =>
    have hlock : g.locks (.server id) = some i :=
      Task.node_of_hub ht ▸ hJ.holds (by simp)
    obtain ⟨c, hc, hfirst⟩ := hJ.written id ht
    obtain ⟨row₀, -, hfresh, -⟩ := hJ.fresh id w ht rfl
    refine ⟨guarantee_writeHost hlock, accounted_writeHost, hI.writeHost ?_ ?_, ?_⟩
    · intro b hb hid r hr hle
      -- what is marked as applied was requested before this session began
      have hle₀ := hle.trans (hfresh.applied_le r hr)
      exact ⟨c, hc, (hfresh.start_le b hb hid hle₀).trans hfirst⟩
    · intro c hc
      exact hI.rendered id c (.inr (hc.elim (fun h ↦ h) fun h ↦ h))
    · rintro q ⟨⟩
      refine hJ.writeHost (by simp) (fun w hw ↦ hw) fun k hk ↦ ?_
      rw [ht] at hk
      cases hk
      exact ⟨c, by rw [Shared.writeHost_hosts, Function.update_self]; exact hc, hfirst⟩
  | @sshDone _ _ w hw =>
    refine hI.keeps_task hJ ?_ ?_ ?_
    · rcases hw with rfl | ⟨rfl, -⟩ <;> simp
    · rcases hw with rfl | ⟨rfl, -⟩ <;> exact fun w hw ↦ hw
    · intro id hid
      rcases hw with rfl | ⟨rfl, hnone⟩
      · exact hJ.written id hid
      · rw [hnone] at hid
        cases hid
  | @commit w publicKey cert _ ph _ hcommit =>
    obtain ⟨⟨followUp, rfl⟩, hcases⟩ := taskCommit_cases hcommit
    rcases hcases with ⟨-, hframe, hlocks, hqueue, hobtained⟩ |
      ⟨id, generation, retries, rfl, rfl⟩
    · refine hI.keeps_frame hframe hlocks hobtained (fun u hu ↦ .inl (hqueue ▸ hu)) ?_
      rintro q ⟨⟩
      exact .of_row_eq_none (hJ.issued.grows hframe.grows)
        (fun _ ↦ hlocks ▸ hJ.holds (by simp)) rfl
    · exact keeps_apply hI hJ rfl
  | @markError status _ =>
    exact hI.keeps_gone (frame_markError g status t) (markError_locks g status t)
      (frame_report _ _) rfl (markError_obtained g status t)
      (fun u hu ↦ .inl (by simpa using hu)) (by simp)
  | @release followUp _ =>
    refine hI.keeps_gone (.refl g) rfl (.refl _) rfl rfl (fun t ht ↦ .inl ht) ?_
    intro q hq
    obtain ⟨server, -, rfl⟩ := Option.map_eq_some_iff.mp hq
    refine ⟨le_rfl, ?_, trivial⟩
    rintro u ⟨⟩
    exact hJ.issued.grows (frame_release g i t.node).grows
  | lost =>
    exact hI.keeps_gone (.refl g) rfl (frame_push _ _) rfl rfl
      (fun u hu ↦ mem_push_queue hu hJ.issued) (by simp)

/-- **Every step keeps the assertions.** -/
theorem keeps_of_procStep {p : Option Proc} {a : Action} (hI : Sound g)
    (hJ : ∀ q, p = some q → ProcSound i g q) (h : procStep i g p a = some (g', p')) :
    Keeps i g g' p' := by
  rcases procStep_cases h with ⟨rfl, hmove⟩ | ⟨server, start, origin, ph, rfl, hmove⟩ |
    ⟨t, rfl, hmove, rfl⟩ | ⟨t, ph, rfl, hmove⟩
  · exact keeps_of_envMove hI hmove
  · exact keeps_of_callMove hI (hJ _ rfl) hmove
  · rcases hmove with rfl | ⟨-, rfl⟩
    · exact hI.keeps_frame (frame_push _ _) rfl rfl (fun u hu ↦ mem_push_queue hu (hJ _ rfl))
        (by simp)
    · exact hI.keeps_frame (.refl _) rfl rfl (fun t ht ↦ .inl ht) (by simp)
  · exact keeps_of_taskMove hI (hJ _ rfl) hmove

end

/-! ## Whole runs -/

theorem sound_init : Config.Inv Sound ProcSound init where
  shared := by
    constructor <;> simp [init]
  proc := by simp [init]

theorem sound_step {s s' : State} {e : ℕ × Action} (hs : Config.Inv Sound ProcSound s)
    (h : Config.step procStep s e = some s') : Config.Inv Sound ProcSound s' := by
  refine Config.inv_step hs h fun g' p' hstep ↦ ?_
  have hkeeps := keeps_of_procStep hs.shared (hs.proc e.1) hstep
  exact ⟨hkeeps.sound, hkeeps.proc, fun j q hj hq ↦ hq.stable hkeeps.guarantee hj⟩

/-- The assertions hold along every run. -/
theorem sound_run {trace : List (ℕ × Action)} {s : State} (h : run trace = some s) :
    Config.Inv Sound ProcSound s :=
  Run.run_invariant' (fun _ _ _ ↦ sound_step) sound_init h

end WgManager.Tasks
