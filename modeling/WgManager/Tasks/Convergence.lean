import WgManager.Tasks.Homes

/-!
# The hub converges to the ready clients

Along the runs of `HubRuns`, whenever nothing is left to do for a hub, the peers of the
configuration last written to it should be its clients that are ready.  `hub_converges` proves it
for the runs each step of which tells the hub (`TellsHub`).  There are two ways of not telling it:

* `provision_client_task` fails for a client that has been ready, so that the hub may have it as a
  peer, and marks the row as `error` without a `request_reconfigure`
  (`failed_reprovision_keeps_peer`);
* `reconfigure_server_task` is refused the lock of the hub until its retries run out
  (`refused_reconfigure_is_lost`).

The invariant `HubInv.told` looks at the history of the client table.  Between two versions the
peers of a hub may change; then the hub is `Told` of it — its configuration is newer, or a
`request_reconfigure` call that began later has bumped the generation or is about to — or the change
is `Excused`: a client that was ready is being provisioned again, and its task is going to tell the
hub at its end.  On a quiet hub nothing is excused, and every request has been carried out.
-/

set_option autoImplicit false

namespace WgManager.Tasks

/-! ## The peers of a hub -/

/-- The `(public_key, address)` pairs of the ready clients of a hub. -/
def pairsOf (t : Table Client) (id : ℕ) : List (String × Option IPv4Interface) :=
  (readyClientsFor t id).map fun c ↦ (c.publicKey, c.address)

section

variable {t : Table Client} {id : ℕ}

/-- A new row that is not ready, or belongs to another hub, adds no peer. -/
theorem pairsOf_insert {row : Client} (h : t.get row.id = none)
    (hrow : row.serverId = id → row.status ≠ .ready) :
    pairsOf (t.insert row) id = pairsOf t id := by
  have hfalse : (row.serverId == id && row.status == .ready) = false := by
    simpa using hrow
  rw [pairsOf, readyClientsFor, Table.select, Table.rows_insert h, List.filter_append,
    List.filter_singleton, hfalse, cond_false, List.append_nil]
  rfl

/-- Deleting the row of another hub removes no peer. -/
theorem pairsOf_delete {c : ℕ} {row : Client} (h : t.get c = some row)
    (hrow : row.serverId ≠ id) : pairsOf (t.delete c) id = pairsOf t id := by
  have hready : readyClientsFor (t.delete c) id = readyClientsFor t id := by
    simp only [readyClientsFor, Table.select, Table.delete, Table.filter, List.filter_filter]
    refine List.filter_congr fun r hr ↦ ?_
    by_cases hr' : r.serverId = id
    · have hne : Keyed.pk r ≠ c := by
        rintro rfl
        rw [Table.mem_rows_iff.mp hr] at h
        cases h
        exact hrow hr'
      simp [hne]
    · simp [hr']
  rw [pairsOf, hready, pairsOf]

/-- A change to a row that is not ready before or after, or belongs to another hub, changes no
peer. -/
theorem pairsOf_modify {c : ℕ} {f : Client → Client} (hf : ∀ r, (f r).id = r.id)
    (hserver : ∀ r, (f r).serverId = r.serverId)
    (h : ∀ row, t.get c = some row → row.serverId = id →
      row.status ≠ .ready ∧ (f row).status ≠ .ready) :
    pairsOf (t.modify c f hf) id = pairsOf t id := by
  have hready : readyClientsFor (t.modify c f hf) id = readyClientsFor t id := by
    simp only [readyClientsFor, Table.select, Table.modify, List.filter_map]
    -- the row that is changed is filtered out on both sides
    have hother (r : Client) (hr : r ∈ t.rows) (hc : Keyed.pk r = c) :
        (r.serverId == id && r.status == .ready) = false ∧
          ((f r).serverId == id && (f r).status == .ready) = false := by
      rw [hserver]
      by_cases hid : r.serverId = id
      · have := h r (by rw [← hc]; exact Table.mem_rows_iff.mp hr) hid
        simp [this]
      · simp [hid]
    have hfilter : t.rows.filter ((fun c ↦ c.serverId == id && c.status == .ready) ∘
        fun r ↦ if Keyed.pk r = c then f r else r) =
        t.rows.filter fun c ↦ c.serverId == id && c.status == .ready := by
      refine List.filter_congr fun r hr ↦ ?_
      rw [Function.comp_apply]
      split
      · next hc => rw [(hother r hr hc).1, (hother r hr hc).2]
      · rfl
    rw [hfilter]
    refine (List.map_congr_left fun r hr ↦ ?_).trans (List.map_id _)
    obtain ⟨hr, hready⟩ := List.mem_filter.mp hr
    rw [if_neg]
    · rfl
    · intro hc
      rw [(hother r hr hc).1] at hready
      cases hready
  rw [pairsOf, hready, pairsOf]

end

/-! ## What the hub has been told -/

/-- Client `c` is ready at version `v` of the client table. -/
def ReadyAt (g : Shared) (c v : ℕ) : Prop :=
  ∃ t row, g.tableAt v = some t ∧ t.get c = some row ∧ row.status = .ready

/-- Hub `id` has other peers at version `v + 1` than at version `v`. -/
def ChangesAt (g : Shared) (id v : ℕ) : Prop :=
  ∃ t t', g.tableAt v = some t ∧ g.tableAt (v + 1) = some t' ∧ pairsOf t id ≠ pairsOf t' id

/-- The configuration on hub `id` was rendered from a client list newer than version `v`. -/
def Covered (g : Shared) (id v : ℕ) : Prop :=
  ∃ c, (g.hosts id).conf = some c ∧ v < c.asOf

/-- Hub `id` has been asked to catch up by a `request_reconfigure` call that began at version `n`
or later, or is going to be: the task of one of its clients is about to begin such a call. -/
inductive Asked (id n : ℕ) (s : State) : Prop
  | bump {b : Bump} (hb : b ∈ s.shared.bumps) (hserver : b.server = id) (hstart : n ≤ b.start)
  | call {i start : ℕ} {origin : Option Task}
      (hq : s.proc i = some (.call id start origin .begun)) (hstart : n ≤ start)
  | exiting {i c : ℕ} {id? : Option ℕ} {row : Client}
      (hq : s.proc i = some (.task (.provisionClient c) (.exiting id?)))
      (hrow : s.shared.clients.get c = some row) (hserver : row.serverId = id)

/-- Hub `id` knows, or is going to be told, what has happened to its clients since version `v`. -/
def Told (id v : ℕ) (s : State) : Prop := Covered s.shared id v ∨ Asked id (v + 1) s

/-- The process is going to queue the provisioning task of client `c`, or is running it and has not
committed yet. -/
def Proc.WorksOn (c : ℕ) : Proc → Prop
  | .call .. => False
  | .dispatching t => t = .provisionClient c
  | .task t ph => t = .provisionClient c ∧ ∀ id?, ph ≠ .exiting id?

/-- The provisioning of client `c` is under way. -/
def UnderWay (c : ℕ) : State → Prop :=
  Config.Held (fun g ↦ .provisionClient c ∈ g.queue) (Proc.WorksOn c)

/-- A client of hub `id` that was ready at version `v` is being provisioned again. -/
def Excused (id v : ℕ) (s : State) : Prop :=
  ∃ c row, s.shared.clients.get c = some row ∧ row.serverId = id ∧ ReadyAt s.shared c v ∧
    UnderWay c s

/-- The step does not keep a change from the hub.  A provisioning that fails marks its client only
when the hub has been told of every version at which the client was ready, and no reconfigure whose
generation is not applied runs out of retries. -/
def TellsHub (s : State) (e : ℕ × Event) : Prop :=
  match s.proc e.1, e.2 with
  | some (.task (.provisionClient c) (.failing _)), .work .markError =>
    ∀ row v, s.shared.clients.get c = some row → ReadyAt s.shared c v → Told row.serverId v s
  | some (.task (.reconfigureServer id (some m) retries) .start), .work .notAcquired =>
    retries < reconfigureMaxRetries ∨
      ∃ row, s.shared.servers.get id = some row ∧ m ≤ row.reconfigAppliedGen
  | _, _ => True

/-- **The invariant**: whenever the peers of a hub change, the hub is told, or the client that has
changed is being provisioned again. -/
structure HubInv (s : State) : Prop where
  sound : Config.Inv Sound ProcSound s
  behind : Behind s
  rooted : Rooted s.shared
  placed : ∀ i q, s.proc i = some q → ProcPlaced i s.shared q
  held : ∀ c i, s.shared.locks (.client c) = some i → ∃ q, s.proc i = some q ∧ q.Holds c
  raised : ∀ id m, (id, m) ∈ s.shared.raised →
    ∃ row, s.shared.servers.get id = some row ∧ m ≤ row.reconfigAppliedGen
  told : ∀ id v, ChangesAt s.shared id v → Told id v s ∨ Excused id v s

section

variable {s : State} {i : ℕ} {e : Event} {g' : Shared} {p' : Option Proc} {id v : ℕ}

theorem ReadyAt.grows {g : Shared} {c : ℕ} (h : ReadyAt g c v) (hG : Grows g g') :
    ReadyAt g' c v := by
  obtain ⟨t, row, ht, hrow, hready⟩ := h
  exact ⟨t, row, hG.tableAt v t ht, hrow, hready⟩

/-- The process that has taken the step begins a call at the current version. -/
theorem told_of_call {start : ℕ} {origin : Option Task} (hstart : v < start)
    (hp' : p' = some (.call id start origin .begun)) :
    Told id v ⟨g', Function.update s.proc i p'⟩ := by
  have hq : Function.update s.proc i p' i = some (.call id start origin .begun) := by simp [hp']
  exact .inr (.call hq hstart)

/-- The process that has taken the step is about to begin one. -/
theorem told_of_exiting {c : ℕ} {id? : Option ℕ} {row : Client}
    (hp' : p' = some (.task (.provisionClient c) (.exiting id?)))
    (hrow : g'.clients.get c = some row) (hserver : row.serverId = id) :
    Told id v ⟨g', Function.update s.proc i p'⟩ := by
  have hq : Function.update s.proc i p' i =
      some (.task (.provisionClient c) (.exiting id?)) := by simp [hp']
  exact .inr (.exiting hq hrow hserver)

/-- **What the hub has been told stays so.** -/
theorem told_step (hs : HubInv s) (hG : Guarantee i s.shared g')
    (h : HubMove i s.shared (s.proc i) e g' p') (hv : v < g'.version) (htold : Told id v s) :
    Told id v ⟨g', Function.update s.proc i p'⟩ := by
  rcases htold with ⟨c, hc, hlt⟩ | hasked
  · obtain ⟨c', hc', hle⟩ := h.conf (hs.placed i) (hs.sound.proc i) hc
    exact .inl ⟨c', hc', by omega⟩
  · cases hasked with
    | bump hb hserver hstart => exact .inr (.bump (hG.bumps _ hb) hserver hstart)
    | @call j start origin hq hstart =>
      by_cases hj : j = i
      · subst hj
        rw [hq] at h
        cases h with
        | bump hrow =>
          exact .inr (.bump (List.mem_append_right _ (List.mem_singleton_self _)) rfl hstart)
      · exact .inr (.call (i := j) (by simpa [Function.update_of_ne hj] using hq) hstart)
    | @exiting j c id? row hq hrow hserver =>
      rcases h.row hrow with ⟨row', hrow', hserver'⟩ | hdeleted
      · by_cases hj : j = i
        · subst hj
          obtain ⟨k, rfl, -, u, table, old, htable, hold, hk⟩ :=
            TaskPlaced.followUp (hs.placed j _ hq) c id? rfl rfl
          have hhub : k = id := by
            rw [← hk, ← hserver]
            exact hs.rooted.serverId_eq u _ table _ c old row htable (tableAt_version _) hold hrow
          subst hhub
          rw [hq] at h
          cases h with
          | task hmove =>
            cases hmove with
            | gone ht hgone =>
              exact absurd (Option.isSome_iff_exists.mpr ⟨row, hrow⟩) hgone
            | fail hw _ => cases hw
            | sshDone hw => cases hw
            | release => exact told_of_call hv rfl
        · exact .inr (.exiting (i := j) (by simpa [Function.update_of_ne hj] using hq) hrow'
            (hserver'.trans hserver))
      · rw [hserver] at hdeleted
        exact told_of_call hv hdeleted

/-- What a task does on the way to its commit. -/
theorem taskLoad_ne_exiting {g : Shared} {c : ℕ} {ph : Phase}
    (hload : taskLoad g (.provisionClient c) = some ph) (id? : Option ℕ) : ph ≠ .exiting id? := by
  obtain ⟨row, -, hph⟩ := Option.map_eq_some_iff.mp hload
  split at hph <;> (subst hph; simp)

/-- The provisioning of a client goes on until its hub has been told. -/
theorem underWay_of_workMove {c : ℕ} {row : Client} {ph : Phase} {a : Action} (hs : HubInv s)
    (hok : TellsHub s (i, .work a)) (hG : Guarantee i s.shared g') (hv : v < g'.version)
    (hq : s.proc i = some (.task (.provisionClient c) ph)) (hph : ∀ id?, ph ≠ .exiting id?)
    (hrow : s.shared.clients.get c = some row) (hserver : row.serverId = id)
    (hready : ReadyAt s.shared c v) (h : WorkMove i s.shared (.provisionClient c) ph a g' p') :
    UnderWay c ⟨g', Function.update s.proc i p'⟩ ∨ Told id v ⟨g', Function.update s.proc i p'⟩ := by
  have hgoes (ph' : Phase) (hph' : ∀ id?, ph' ≠ .exiting id?)
      (hp' : p' = some (.task (.provisionClient c) ph')) :
      UnderWay c ⟨g', Function.update s.proc i p'⟩ :=
    .inr ⟨i, .task (.provisionClient c) ph', by simp [hp'], rfl, hph'⟩
  have hmove : HubMove i s.shared (s.proc i) (.work a) g' p' := by
    rw [hq]
    exact .task h
  cases h with
  | lock _ => exact .inl (hgoes _ (by simp) rfl)
  | @skip j held _ =>
    -- whoever holds the lock is provisioning the same client
    obtain ⟨q, hqj, ph', rfl, hph'⟩ := hs.held c j held
    have hj : j ≠ i := by
      rintro rfl
      rw [hq] at hqj
      cases hqj
      exact hph' rfl
    have hqj' : Function.update s.proc i none j = some (.task (.provisionClient c) ph') := by
      rw [Function.update_of_ne hj, hqj]
    by_cases hexit : ∀ id?, ph' ≠ .exiting id?
    · exact .inl (.inr ⟨j, _, hqj', rfl, hexit⟩)
    · obtain ⟨id?, hexit⟩ := not_forall.mp hexit
      rw [not_not.mp hexit] at hqj'
      exact .inr (.inr (.exiting hqj' hrow hserver))
  | retry ht => cases ht
  | giveUp ht _ => cases ht
  | gone _ hgone => exact absurd (Option.isSome_iff_exists.mpr ⟨row, hrow⟩) hgone
  | load hload => exact .inl (hgoes _ (taskLoad_ne_exiting hload) rfl)
  | fail _ _ => exact .inl (hgoes _ (by simp) rfl)
  | list => exact .inl (hgoes _ (by simp) rfl)
  | writeTpl ht => cases ht
  | writeConf ht => cases ht
  | sshDone _ => exact .inl (hgoes _ (by simp) rfl)
  | commitServer ht => cases ht
  | commitClient ht _ =>
    cases ht
    obtain ⟨row', hrow', hserver'⟩ | hdeleted := hmove.row hrow
    · exact .inr (told_of_exiting rfl hrow' (hserver'.trans hserver))
    · cases hdeleted
  | errorServer ht => cases ht
  | errorClient ht _ _ =>
    cases ht
    have htold : Told id v s := by
      rw [TellsHub, hq] at hok
      exact hserver ▸ hok row v hrow hready
    exact .inr (told_step hs hG hmove hv htold)
  | release => exact absurd rfl (hph _)

/-- **A client that is being provisioned again is so until its hub has been told.** -/
theorem excused_step (hs : HubInv s) (hok : TellsHub s (i, e)) (hG : Guarantee i s.shared g')
    (h : HubMove i s.shared (s.proc i) e g' p') (hv : v < g'.version) (hex : Excused id v s) :
    Told id v ⟨g', Function.update s.proc i p'⟩ ∨
      Excused id v ⟨g', Function.update s.proc i p'⟩ := by
  obtain ⟨c, row, hrow, hserver, hready, hway⟩ := hex
  rcases h.row hrow with ⟨row', hrow', hserver'⟩ | hdeleted
  · -- it is enough that the provisioning is still under way
    have hstill (hway : UnderWay c ⟨g', Function.update s.proc i p'⟩) :
        Excused id v ⟨g', Function.update s.proc i p'⟩ :=
      ⟨c, row', hrow', hserver'.trans hserver, hready.grows hG.toGrows, hway⟩
    rcases hway with hqueue | ⟨j, q, hq, hworks⟩
    · rcases h.delivers hqueue with hqueue | hp'
      · exact .inr (hstill (.inl hqueue))
      · exact .inr (hstill (.inr ⟨i, .task (.provisionClient c) .start,
          by simp [hp'], rfl, by simp⟩))
    · by_cases hj : j = i
      · subst hj
        cases q with
        | call => cases hworks
        | dispatching t =>
          rw [hq] at h
          cases hworks
          cases h with
          | dispatch => exact .inr (hstill (.inl (by simp)))
        | task t ph =>
          obtain ⟨rfl, hph⟩ := hworks
          rw [hq] at h
          cases h with
          | task hmove =>
            rcases underWay_of_workMove hs hok hG hv hq hph hrow hserver hready hmove with
              hway | htold
            · exact .inr (hstill hway)
            · exact .inl htold
      · exact .inr (hstill (.inr ⟨j, q, by simpa [Function.update_of_ne hj] using hq, hworks⟩))
  · rw [hserver] at hdeleted
    exact .inl (told_of_call hv hdeleted)

/-- A commit changes the peers of a hub only when the hub is told of it, or when it takes a ready
client back to `pending` to provision it again. -/
theorem told_of_change (hs : HubInv s) (hok : TellsHub s (i, e)) (hG : Guarantee i s.shared g')
    (h : HubMove i s.shared (s.proc i) e g' p') (hv : s.shared.version < g'.version)
    (hne : pairsOf s.shared.clients id ≠ pairsOf g'.clients id) :
    Told id s.shared.version ⟨g', Function.update s.proc i p'⟩ ∨
      Excused id s.shared.version ⟨g', Function.update s.proc i p'⟩ := by
  -- a change to a row shows only if the row is on the hub, and ready before or after
  have hrow_of {c : ℕ} {f : Client → Client} {hf : ∀ r, (f r).id = r.id}
      (hpairs : pairsOf s.shared.clients id ≠ pairsOf (s.shared.modifyClient c f hf).clients id)
      (hserver : ∀ r, (f r).serverId = r.serverId) :
      ∃ row, s.shared.clients.get c = some row ∧ row.serverId = id ∧
        (row.status = .ready ∨ (f row).status = .ready) := by
    by_contra hnone
    refine hpairs (pairsOf_modify hf hserver fun row hrow hid ↦ ?_).symm
    by_contra hready
    exact hnone ⟨row, hrow, hid, by tauto⟩
  have hnow (c : ℕ) (row : Client) (hrow : s.shared.clients.get c = some row)
      (hready : row.status = .ready) : ReadyAt s.shared c s.shared.version :=
    ⟨_, row, tableAt_version _, hrow, hready⟩
  have hfree (row : Client) (hrow : s.shared.admissible row) :
      s.shared.clients.get row.id = none := by
    rw [Shared.admissible, Bool.and_eq_true] at hrow
    exact get_of_unused hrow.1 (tableAt_version _)
  have hmove := h
  cases hp : s.proc i with
  | none =>
    rw [hp] at h
    cases h with
    | @registerClient _ row hrow hstatus =>
      exact absurd (pairsOf_insert (hfree row hrow) fun _ ↦ by simp [hstatus]).symm hne
    | @reprovisionClient _ c =>
      obtain ⟨row, hrow, hserver, hready⟩ := hrow_of hne fun _ ↦ rfl
      have hready : row.status = .ready := hready.resolve_right (by simp)
      rcases hmove.row hrow with ⟨row', hrow', hserver'⟩ | hdeleted
      · exact .inr ⟨c, row', hrow', hserver'.trans hserver,
          (hnow c row hrow hready).grows hG.toGrows,
          .inr ⟨i, .dispatching (.provisionClient c), by simp, rfl⟩⟩
      · cases hdeleted
    | @admitClient _ row hrow =>
      by_cases hid : row.serverId = id
      · subst hid
        exact .inl (told_of_call (Nat.lt_succ_self _) rfl)
      · exact absurd (pairsOf_insert (hfree row hrow) fun h ↦ absurd h hid).symm hne
    | @deleteClient _ c row hrow =>
      by_cases hid : row.serverId = id
      · subst hid
        exact .inl (told_of_call (Nat.lt_succ_self _) rfl)
      · exact absurd (pairsOf_delete hrow hid).symm hne
    | _ => exact absurd rfl hne
  | some q =>
    rw [hp] at h
    cases h with
    | task htask =>
      cases htask with
      | commitClient ht hserver =>
        obtain ⟨row, hrow, hid, -⟩ := hrow_of hne hserver
        rcases hmove.row hrow with ⟨row', hrow', hserver'⟩ | hdeleted
        · rw [ht]
          exact .inl (told_of_exiting rfl hrow' (hserver'.trans hid))
        · cases hdeleted
      | errorClient ht hserver hstatus =>
        rw [Shared.release_clients] at hne
        obtain ⟨row, hrow, hid, hready⟩ := hrow_of hne hserver
        have hready : row.status = .ready := hready.elim (fun h ↦ h) (hstatus row)
        have htold : Told id s.shared.version s := by
          rw [TellsHub, hp, ht] at hok
          exact hid ▸ hok row _ hrow (hnow _ row hrow hready)
        exact .inl (told_step hs hG hmove hv htold)
      | _ => exact absurd rfl hne
    | _ => exact absurd rfl hne

/-- Every change of the peers is told or excused after a step, too. -/
theorem told_of_changesAt (hs : HubInv s) (hok : TellsHub s (i, e)) (hG : Guarantee i s.shared g')
    (h : HubMove i s.shared (s.proc i) e g' p') (hchange : ChangesAt g' id v) :
    Told id v ⟨g', Function.update s.proc i p'⟩ ∨
      Excused id v ⟨g', Function.update s.proc i p'⟩ := by
  obtain ⟨t, t', ht, ht', hne⟩ := hchange
  have hv : v < g'.version := tableAt_lt ht'
  -- a change between two versions that were there before the step
  have hold (ht : s.shared.tableAt v = some t) (ht' : s.shared.tableAt (v + 1) = some t') :
      Told id v ⟨g', Function.update s.proc i p'⟩ ∨
        Excused id v ⟨g', Function.update s.proc i p'⟩ := by
    rcases hs.told id v ⟨t, t', ht, ht', hne⟩ with htold | hex
    · exact .inl (told_step hs hG h hv htold)
    · exact excused_step hs hok hG h hv hex
  rcases h.tables with ⟨hclients, hpast⟩ | ⟨hpast, -⟩
  · rw [tableAt_of_eq hclients hpast] at ht ht'
    exact hold ht ht'
  · rcases tableAt_of_commit hpast ht with ht | ⟨hlast, -⟩
    · rcases tableAt_of_commit hpast ht' with ht' | ⟨hlast, rfl⟩
      · exact hold ht ht'
      · have hversion : v = s.shared.version := by omega
        subst hversion
        rw [tableAt_version] at ht
        cases ht
        exact told_of_change hs hok hG h hv hne
    · rw [Shared.version, hpast, List.length_append, List.length_singleton] at hv
      rw [Shared.version] at hlast
      omega

/-- A report that is new is of a generation that is applied. -/
theorem raised_of_hubMove (hs : HubInv s) (hok : TellsHub s (i, e))
    (h : HubMove i s.shared (s.proc i) e g' p') {m : ℕ} (hm : (id, m) ∈ g'.raised) :
    ∃ row, s.shared.servers.get id = some row ∧ m ≤ row.reconfigAppliedGen := by
  cases hp : s.proc i with
  | none =>
    rw [hp] at h
    cases h <;> exact hs.raised id m hm
  | some q =>
    rw [hp] at h
    cases h with
    | task htask =>
      cases htask with
      | @giveUp k n retries ht hretries =>
        rw [Shared.report_raised, Option.toList_some, List.mem_append, List.mem_singleton] at hm
        rcases hm with hm | hm
        · exact hs.raised id m hm
        · cases hm
          rw [TellsHub, hp, ht] at hok
          exact hok.resolve_left (by omega)
      | _ => exact hs.raised id m hm
    | _ => exact hs.raised id m hm

end

/-- **Every step that tells the hub keeps the invariant.** -/
theorem hubInv_step {s s' : State} {e : ℕ × Event} (hs : HubInv s) (hok : TellsHub s e)
    (h : Config.step hubStep s e = some s') : HubInv s' := by
  obtain ⟨es, hfleet⟩ := fleet_of_hubStep h
  have hinv : ∀ c a c', (Config.Inv Sound ProcSound c ∧ Behind c) →
      Config.step procStep c a = some c' → (Config.Inv Sound ProcSound c' ∧ Behind c') := by
    rintro c a c' ⟨hc, hb⟩ hstep
    exact ⟨sound_step hc hstep, behind_step hc hb hstep⟩
  obtain ⟨hsound, hbehind⟩ := Run.run_invariant' hinv ⟨hs.sound, hs.behind⟩ hfleet
  obtain ⟨i, e⟩ := e
  obtain ⟨g', p', hf, rfl⟩ := Config.step_eq_some.mp h
  have hG : Guarantee i s.shared g' := guarantee_of_hubStep hs.sound.shared (hs.sound.proc i) hf
  have hmove : HubMove i s.shared (s.proc i) e g' p' :=
    hubMove_of_hubStep (fun q hq ↦ (hs.placed i q hq).ready) hf
  refine ⟨hsound, hbehind, hs.rooted.step hG hmove (hs.placed i), ?_, ?_, ?_, ?_⟩
  · intro j q hq
    by_cases hj : j = i
    · subst hj
      exact placed_of_hubMove hs.rooted hs.sound.shared hG (hs.placed j) hmove q (by simpa using hq)
    · have hq : s.proc j = some q := by simpa [Function.update_of_ne hj] using hq
      exact (hs.placed j q hq).stable (hs.sound.proc j q hq) hG hj fun _ ↦ hmove.servers
  · intro c j hj
    rcases hmove.locks (hs.placed i) (hs.held c i) hj with ⟨hold, hne⟩ | ⟨rfl, q, hq, hholds⟩
    · obtain ⟨q, hq, hholds⟩ := hs.held c j hold
      exact ⟨q, by simpa [Function.update_of_ne hne] using hq, hholds⟩
    · exact ⟨q, by simpa using hq, hholds⟩
  · intro id m hm
    obtain ⟨row, hrow, hle⟩ := raised_of_hubMove hs hok hmove hm
    obtain ⟨row', hrow'⟩ := Option.isSome_iff_exists.mp (hmove.servers (by rw [hrow]; rfl))
    obtain ⟨old, hold, -, happ⟩ := hG.servers id row' hrow' (hs.sound.shared.row_lt id row hrow)
    rw [hrow] at hold
    cases hold
    exact ⟨row', hrow', hle.trans happ⟩
  · intro id v hchange
    exact told_of_changesAt hs hok hG hmove hchange

theorem hubInv_init : HubInv init where
  sound := sound_init
  behind := by simp [Behind, init]
  rooted := by
    refine ⟨rfl, ?_, by simp [init], by simp [init], by simp [init]⟩
    intro v v' t t' c row row' ht _ hrow
    have hv := tableAt_lt ht
    have hzero : v = 0 := Nat.le_zero.mp hv
    subst hzero
    cases ht
    cases hrow
  placed := by simp [init]
  held := by simp [init]
  raised := by simp [init]
  told := by
    rintro id v ⟨t, t', -, ht', -⟩
    have hv := tableAt_lt ht'
    exact absurd hv (by simp [init, Shared.version])

/-! ## Quiet hubs -/

/-- A task for hub `id`, or for a client on it. -/
def Task.Concerns (g : Shared) (id : ℕ) : Task → Prop
  | .provisionServer k | .rotateHostCert k | .reconfigureServer k _ _ => k = id
  | .provisionClient c | .rotateClientHostCert c => ∃ row, g.clients.get c = some row ∧
    row.serverId = id

/-- A request for hub `id` that is being made, or a task for it or for a client on it. -/
def Proc.Concerns (g : Shared) (id : ℕ) : Proc → Prop
  | .call server _ _ _ => server = id
  | .dispatching t | .task t _ => t.Concerns g id

/-- No task for hub `id` or its clients is queued or running, and no handler is about to queue
one. -/
def Quiet (id : ℕ) (s : State) : Prop :=
  (∀ t ∈ s.shared.queue, ¬t.Concerns s.shared id) ∧
    ∀ i q, s.proc i = some q → ¬q.Concerns s.shared id

section

variable {s : State} {id v : ℕ}

/-- A client whose provisioning is under way is not quiet. -/
theorem not_excused_of_quiet (hquiet : Quiet id s) : ¬Excused id v s := by
  rintro ⟨c, row, hrow, hserver, -, hqueue | ⟨i, q, hq, hworks⟩⟩
  · exact hquiet.1 _ hqueue ⟨row, hrow, hserver⟩
  · refine hquiet.2 i q hq ?_
    cases q with
    | call => cases hworks
    | dispatching t => cases hworks; exact ⟨row, hrow, hserver⟩
    | task t ph => obtain ⟨rfl, -⟩ := hworks; exact ⟨row, hrow, hserver⟩

theorem Task.concerns_of_carries {g : Shared} {t : Task} {m : ℕ} (h : t.carries = some (id, m)) :
    t.Concerns g id := by
  cases t with
  | reconfigureServer k generation retries =>
    cases generation with
    | none => cases h
    | some m => cases h; rfl
  | _ => cases h

/-- On a quiet hub every request has been carried out. -/
theorem covered_of_quiet (hs : HubInv s) (hquiet : Quiet id s) (htold : Told id v s) :
    Covered s.shared id v := by
  rcases htold with hcovered | hasked
  · exact hcovered
  · cases hasked with
    | @bump b hb hserver hstart =>
      subst hserver
      obtain ⟨row, hrow⟩ := Option.isSome_iff_exists.mp (hs.rooted.bump b hb)
      -- a generation that is still owed would be carried by a message, a call or a task
      have happlied : row.reconfigRequestedGen ≤ row.reconfigAppliedGen := by
        by_contra hlt
        rcases hs.behind b.server row hrow (by omega) with
          (⟨t, ht, m, -, hm⟩ | ⟨m, hn, hm⟩) | ⟨i, q, hq, howes⟩
        · exact hquiet.1 t ht (Task.concerns_of_carries hm)
        · obtain ⟨row', hrow', hle⟩ := hs.raised b.server m hm
          rw [hrow] at hrow'
          cases hrow'
          omega
        · refine hquiet.2 i q hq ?_
          cases q with
          | call server start origin ph =>
            obtain ⟨m, -, hm⟩ := howes
            cases ph with
            | begun => cases hm
            | bumped | obtained => cases hm; rfl
          | dispatching t => cases howes
          | task t ph =>
            obtain ⟨-, m, -, hm⟩ := howes
            exact Task.concerns_of_carries hm
      obtain ⟨c, hc, hle⟩ := hs.sound.shared.covered b hb row hrow
        ((hs.sound.shared.bump_le b hb row hrow).trans happlied)
      exact ⟨c, hc, by omega⟩
    | call hq _ => exact absurd rfl (hquiet.2 _ _ hq)
    | exiting hq hrow hserver => exact absurd ⟨_, hrow, hserver⟩ (hquiet.2 _ _ hq)

/-- When the peers do not change from version `v` on, they are what they were. -/
theorem pairsOf_eq_of_tableAt {g : Shared} {t : Table Client} (ht : g.tableAt v = some t)
    (hno : ∀ u ≥ v, ¬ChangesAt g id u) : pairsOf t id = pairsOf g.clients id := by
  obtain ⟨n, hn⟩ := Nat.exists_eq_add_of_le (tableAt_lt ht)
  induction n generalizing v t with
  | zero =>
    rw [Nat.add_zero] at hn
    rw [← hn, tableAt_version] at ht
    cases ht
    rfl
  | succ n ih =>
    obtain ⟨t', ht'⟩ := exists_tableAt (g := g) (v := v + 1) (by omega)
    have heq : pairsOf t id = pairsOf t' id := by
      by_contra hne
      exact hno v le_rfl ⟨t, t', ht, ht', hne⟩
    rw [heq]
    exact ih ht' (fun u hu ↦ hno u (by omega)) (by omega)

end

/-- The peers of a configuration of hub `id`: the pairs of the client list it was rendered from. -/
def HubConfig.peers (g : Shared) (id : ℕ) (c : HubConfig) :
    Option (List (String × Option IPv4Interface)) :=
  (g.tableAt c.asOf).map (pairsOf · id)

/-- The peers of the configuration last written to hub `id` are the pairs of its clients that are
ready.  A hub without a configuration has no peers. -/
def Converged (id : ℕ) (s : State) : Prop :=
  match (s.shared.hosts id).conf with
  | some c => Rendered s.shared id c ∧ c.peers s.shared id = some (pairsOf s.shared.clients id)
  | none => pairsOf s.shared.clients id = []

/-- **A quiet hub has converged to its ready clients**, along every run each step of which tells the
hub. -/
theorem hub_converges {trace : List (ℕ × Event)} {s : State}
    (hok : Run.Meets (Config.step hubStep) TellsHub init trace) (h : hubRun trace = some s)
    {id : ℕ} (hquiet : Quiet id s) : Converged id s := by
  have hs : HubInv s := Run.run_invariant (fun _ _ _ ↦ hubInv_step) hubInv_init hok h
  have hcovered (v : ℕ) (hchange : ChangesAt s.shared id v) : Covered s.shared id v :=
    covered_of_quiet hs hquiet ((hs.told id v hchange).resolve_right (not_excused_of_quiet hquiet))
  rw [Converged]
  split
  · next c hc =>
    obtain ⟨hub, table, htable, htext⟩ := hs.sound.shared.rendered id c (.inl hc)
    refine ⟨⟨hub, table, htable, htext⟩, ?_⟩
    rw [HubConfig.peers, htable, Option.map_some, Option.some.injEq]
    -- the configuration is newer than every change
    refine pairsOf_eq_of_tableAt htable fun u hu hchange ↦ ?_
    obtain ⟨c', hc', hlt⟩ := hcovered u hchange
    rw [hc] at hc'
    cases hc'
    omega
  · next hnone =>
    rw [← pairsOf_eq_of_tableAt hs.rooted.first]
    · rfl
    · intro u _ hchange
      obtain ⟨c, hc, -⟩ := hcovered u hchange
      rw [hnone] at hc
      cases hc

/-! ## Runs that tell the hub, and runs that do not -/

/-- The step fails the provisioning of no client that has ever been ready, and refuses no
reconfigure its lock. -/
def failsOnlyNew (s : State) (e : ℕ × Event) : Bool :=
  match s.proc e.1, e.2 with
  | some (.task (.provisionClient c) (.failing _)), .work .markError =>
    (s.shared.past ++ [s.shared.clients]).all fun t ↦ (t.get c).all (·.status != .ready)
  | some (.task (.reconfigureServer ..) .start), .work .notAcquired => false
  | _, _ => true

/-- Such a step keeps nothing from the hub. -/
theorem tellsHub_of_failsOnlyNew {s : State} {e : ℕ × Event} (h : failsOnlyNew s e) :
    TellsHub s e := by
  rw [TellsHub]
  split
  · next c status hp he =>
    rintro row v - ⟨t, old, ht, hold, hready⟩
    rw [failsOnlyNew, hp, he] at h
    have hall := List.all_eq_true.mp h t (List.mem_of_getElem? ht)
    rw [hold, Option.all_some, hready] at hall
    cases hall
  · next hp he =>
    rw [failsOnlyNew, hp, he] at h
    cases h
  · trivial

/-- A client of hub 1. -/
def exampleClient : Client where
  id := 1
  name := "node"
  hostname := some "node.example"
  sshUsername := some "deploy"
  sshKeyId := some 1
  serverId := 1
  address := some ⟨168361986, 32⟩
  createdAt := 0

/-- The steps of a task of process `i` on a hub, which reads the client list at version `v`. -/
def hubWork (i v : ℕ) : List (ℕ × Event) :=
  [.deliver 0, .lock, .load, .list v, .writeTpl, .writeConf, .sshDone, .commit "hub-key" {},
    .release].map fun a ↦ (i, .work a)

/-- The steps of a provisioning task of process `i` on a client, and of the call that follows. -/
def clientWork (i : ℕ) : List (ℕ × Event) :=
  [.deliver 0, .lock, .load, .sshDone, .commit "client-key" {}, .release, .bump, .readGeneration,
    .dispatch].map fun a ↦ (i, .work a)

/-- The steps of a provisioning task of process `i` on a client that cannot be reached. -/
def failedWork (i : ℕ) : List (ℕ × Event) :=
  [.deliver 0, .lock, .load, .sshFail, .markError].map fun a ↦ (i, .work a)

/-- Nothing is queued, and no process that has taken a step is left. -/
def idle (trace : List (ℕ × Event)) (s : State) : Bool :=
  s.shared.queue.isEmpty && (trace.map Prod.fst).all fun i ↦ (s.proc i).isNone

theorem quiet_of_idle {trace : List (ℕ × Event)} {s : State} (h : hubRun trace = some s)
    (hidle : idle trace s) (id : ℕ) : Quiet id s := by
  rw [idle, Bool.and_eq_true, List.isEmpty_iff] at hidle
  refine ⟨by simp [hidle.1], fun i q hq ↦ ?_⟩
  by_cases hi : i ∈ trace.map Prod.fst
  · have hnone := List.all_eq_true.mp hidle.2 i hi
    rw [hq] at hnone
    cases hnone
  · rw [Config.proc_of_run h hi] at hq
    cases hq

/-- The configuration on hub `id` has other peers than the client table. -/
def diverged (id : ℕ) (s : State) : Bool :=
  (s.shared.hosts id).conf.any fun c ↦ c.peers s.shared id != some (pairsOf s.shared.clients id)

theorem not_converged_of_diverged {id : ℕ} {s : State} (h : diverged id s) : ¬Converged id s := by
  obtain ⟨c, hc, hne⟩ := Option.any_eq_true _ _ |>.mp h
  rw [Converged, hc]
  rintro ⟨-, heq⟩
  simp [heq] at hne

/-- A hub is set up; its client cannot be reached at first, and is provisioned at the second try. -/
def secondTryTrace : List (ℕ × Event) :=
  [(0, .registerServer exampleHub), (0, .work .dispatch)] ++ hubWork 1 0 ++
  [(0, .registerClient exampleClient), (0, .work .dispatch)] ++ failedWork 2 ++
  [(0, .reprovisionClient 1), (0, .work .dispatch)] ++ clientWork 2 ++ hubWork 1 4

/-- After `secondTryTrace` the hub is quiet and has the client as its peer. -/
theorem hub_converges_secondTryTrace :
    ∃ s, hubRun secondTryTrace = some s ∧ Quiet 1 s ∧ Converged 1 s ∧
      pairsOf s.shared.clients 1 = [("client-key", exampleClient.address)] := by
  obtain ⟨s, hs⟩ := Option.isSome_iff_exists.mp
    (by decide +kernel : (hubRun secondTryTrace).isSome)
  have hend : (hubRun secondTryTrace).all fun s ↦ idle secondTryTrace s &&
      decide (pairsOf s.shared.clients 1 = [("client-key", exampleClient.address)]) := by
    decide +kernel
  rw [hs, Option.all_some, Bool.and_eq_true, decide_eq_true_iff] at hend
  have hmeets : Run.Meets (Config.step hubStep) (fun s e ↦ failsOnlyNew s e = true) init
      secondTryTrace := by decide +kernel
  have hquiet := quiet_of_idle hs hend.1 1
  exact ⟨s, hs, hquiet,
    hub_converges (hmeets.mono fun _ _ ↦ tellsHub_of_failsOnlyNew) hs hquiet, hend.2⟩

/-- A hub and a client are set up; the client is reprovisioned, and cannot be reached any more. -/
def failedReprovisionTrace : List (ℕ × Event) :=
  [(0, .registerServer exampleHub), (0, .work .dispatch)] ++ hubWork 1 0 ++
  [(0, .registerClient exampleClient), (0, .work .dispatch)] ++ clientWork 2 ++ hubWork 1 2 ++
  [(0, .reprovisionClient 1), (0, .work .dispatch)] ++ failedWork 2

/-- After `failedReprovisionTrace` the hub is quiet, and still has the client that is in `error` as
a peer. -/
theorem failed_reprovision_keeps_peer :
    ∃ s, hubRun failedReprovisionTrace = some s ∧ Quiet 1 s ∧ ¬Converged 1 s := by
  obtain ⟨s, hs⟩ := Option.isSome_iff_exists.mp
    (by decide +kernel : (hubRun failedReprovisionTrace).isSome)
  have hend : (hubRun failedReprovisionTrace).all fun s ↦
      idle failedReprovisionTrace s && diverged 1 s := by decide +kernel
  rw [hs, Option.all_some, Bool.and_eq_true] at hend
  exact ⟨s, hs, quiet_of_idle hs hend.1 1, not_converged_of_diverged hend.2⟩

/-- A hub is provisioned again, and is still at it when a manual client is admitted and the
reconfigure has been refused the lock 31 times. -/
def refusedTrace : List (ℕ × Event) :=
  [(0, .registerServer exampleHub), (0, .work .dispatch)] ++ hubWork 1 0 ++
  [(0, .reprovisionServer 1), (0, .work .dispatch)] ++ (hubWork 1 0).take 4 ++
  [(0, .admitClient exampleClient), (0, .work .bump), (0, .work .readGeneration),
    (0, .work .dispatch)] ++
  (List.replicate (reconfigureMaxRetries + 1)
    [(2, .work (.deliver 0)), (2, .work .notAcquired)]).flatten ++
  (hubWork 1 0).drop 4

/-- After `refusedTrace` the hub is quiet, and does not have the client as a peer. -/
theorem refused_reconfigure_is_lost :
    ∃ s, hubRun refusedTrace = some s ∧ Quiet 1 s ∧ ¬Converged 1 s := by
  obtain ⟨s, hs⟩ := Option.isSome_iff_exists.mp (by decide +kernel : (hubRun refusedTrace).isSome)
  have hend : (hubRun refusedTrace).all fun s ↦ idle refusedTrace s && diverged 1 s := by
    decide +kernel
  rw [hs, Option.all_some, Bool.and_eq_true] at hend
  exact ⟨s, hs, quiet_of_idle hs hend.1 1, not_converged_of_diverged hend.2⟩

end WgManager.Tasks
