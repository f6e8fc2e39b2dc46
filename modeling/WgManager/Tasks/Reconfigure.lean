import WgManager.Tasks.Generations

/-!
# No peer update is lost, and none is forgotten

The two promises `request_reconfigure` makes, over whole runs of the fleet.

* `applied_covers_requests`: whenever the row of a hub says that a generation is applied, the
  configuration last written in full to the hub was rendered from a client list that is not older
  than the start of any call that obtained this generation or an earlier one.
* `requested_generation_is_owed`: whenever the hub is behind and no call is between its bump and its
  dispatch, the newest generation is carried by a message or a run, or it has been reported.

The first is read off `Sound`.  The second is a conservation law: `Owed` says that something carries
a generation, and `owed_step` that a step does not lose it before the hub has caught up.
-/

set_option autoImplicit false

namespace WgManager.Tasks

/-! ## Coalescing loses no update -/

/-- The applied generation of a hub does not go back, and the key of a hub is not used again. -/
theorem applied_mono {s s' : State} {trace : List (ℕ × Action)}
    (hs : Config.Inv Sound ProcSound s) (h : Run.run (Config.step procStep) s trace = some s')
    {id : ℕ} {row row' : Server} (hrow : s.shared.servers.get id = some row)
    (hrow' : s'.shared.servers.get id = some row') :
    row.reconfigAppliedGen ≤ row'.reconfigAppliedGen := by
  have hinv : ∀ c e c', (Config.Inv Sound ProcSound c ∧ id < c.shared.serverSeq ∧
      ∀ r, c.shared.servers.get id = some r → row.reconfigAppliedGen ≤ r.reconfigAppliedGen) →
      Config.step procStep c e = some c' →
      (Config.Inv Sound ProcSound c' ∧ id < c'.shared.serverSeq ∧
      ∀ r, c'.shared.servers.get id = some r → row.reconfigAppliedGen ≤ r.reconfigAppliedGen) := by
    rintro c e c' ⟨hc, hlt, hle⟩ hstep
    refine ⟨sound_step hc hstep, ?_⟩
    obtain ⟨g', p', hf, rfl⟩ := Config.step_eq_some.mp hstep
    have hG := (keeps_of_procStep hc.shared (hc.proc e.1) hf).guarantee
    refine ⟨lt_of_lt_of_le hlt hG.serverSeq_le, fun r' hr' ↦ ?_⟩
    obtain ⟨r, hr, -, happ⟩ := hG.servers id r' hr' hlt
    exact (hle r hr).trans happ
  have hstart : ∀ r, s.shared.servers.get id = some r →
      row.reconfigAppliedGen ≤ r.reconfigAppliedGen := by
    intro r hr
    rw [hrow] at hr
    cases hr
    exact le_rfl
  exact (Run.run_invariant' hinv ⟨hs, hs.shared.row_lt id row hrow, hstart⟩ h).2.2 row' hrow'

/-- **Coalescing loses no peer update.**  In every state a run can reach, the configuration last
written in full to a hub was rendered from the clients that were ready at a version of the client
table that is at least as new as the start of every `request_reconfigure` call that obtained a
generation the hub's row covers; and from there on the applied generation never decreases and
never exceeds the requested one. -/
theorem applied_covers_requests {trace : List (ℕ × Action)} {s : State} (h : run trace = some s)
    {id : ℕ} {row : Server} (hrow : s.shared.servers.get id = some row) :
    (∀ gen ≤ row.reconfigAppliedGen, ∀ o ∈ s.shared.obtained, o.server = id → o.generation ≤ gen →
      ∃ c hub table, (s.shared.hosts id).conf = some c ∧ o.start ≤ c.asOf ∧
        s.shared.tableAt c.asOf = some table ∧
        c.text = renderServerConfig hub (readyClientsFor table id)) ∧
    row.reconfigAppliedGen ≤ row.reconfigRequestedGen ∧
    ∀ more s' row', Run.run (Config.step procStep) s more = some s' →
      s'.shared.servers.get id = some row' →
      row.reconfigAppliedGen ≤ row'.reconfigAppliedGen := by
  have hs := sound_run h
  refine ⟨?_, hs.shared.applied_le id row hrow, ?_⟩
  · rintro gen hgen o ho rfl hle
    obtain ⟨b, hb, hserver, hstart, hbump⟩ := hs.shared.obtained o ho
    obtain ⟨c, hc, hasOf⟩ := hs.shared.covered b hb row (hserver ▸ hrow)
      (hbump.trans (hle.trans hgen))
    rw [hserver] at hc
    obtain ⟨hub, table, htable, htext⟩ := hs.shared.rendered _ c (.inl hc)
    exact ⟨c, hub, table, hc, hstart ▸ hasOf, htable, htext⟩
  · intro more s' row' hmore hrow'
    exact applied_mono hs hmore hrow hrow'

/-- A hub is registered and provisioned, one call asks for it to catch up, and one run does. -/
def reconfigureTrace : List (ℕ × Action) :=
  [(0, .registerServer exampleHub), (0, .dispatch),
   (1, .deliver 0), (1, .lock), (1, .load), (1, .list 0), (1, .writeTpl), (1, .writeConf),
   (1, .sshDone), (1, .commit "hub-key" {}), (1, .release),
   (0, .commitClients .empty),
   (2, .requestReconfigure 1), (2, .bump), (2, .readGeneration), (2, .dispatch),
   (3, .deliver 0), (3, .lock), (3, .load), (3, .list 1), (3, .writeTpl), (3, .writeConf),
   (3, .sshDone), (3, .commit "" {}), (3, .release)]

/-- After `reconfigureTrace` the hub runs a configuration that is as new as the call. -/
theorem applied_covers_requests_reconfigureTrace :
    ∃ s c, run reconfigureTrace = some s ∧ ⟨1, 1, 1⟩ ∈ s.shared.obtained ∧
      (s.shared.hosts 1).conf = some c ∧ 1 ≤ c.asOf := by
  obtain ⟨s, hs⟩ := Option.isSome_iff_exists.mp
    (by decide +kernel : (run reconfigureTrace).isSome)
  have hend : (run reconfigureTrace).all (fun s ↦
      decide (⟨1, 1, 1⟩ ∈ s.shared.obtained) &&
        (s.shared.servers.get 1).any (·.reconfigAppliedGen == 1)) := by decide +kernel
  rw [hs, Option.all_some, Bool.and_eq_true, decide_eq_true_iff, Option.any_eq_true] at hend
  obtain ⟨hmem, row, hrow, happ⟩ := hend
  obtain ⟨c, -, -, hc, hasOf, -, -⟩ := (applied_covers_requests hs hrow).1 1
    (by rw [beq_iff_eq.mp happ]) _ hmem rfl le_rfl
  exact ⟨s, c, hs, hmem, hc, hasOf⟩

/-! ## Every requested generation is owed or reported -/

/-- A message or a report that covers generation `n` of hub `id`. -/
def Owing (id n : ℕ) (g : Shared) : Prop :=
  (∃ t ∈ g.queue, ∃ m ≥ n, t.carries = some (id, m)) ∨ ∃ m ≥ n, (id, m) ∈ g.raised

/-- A call between its bump and its dispatch, or a run that has not answered yet, that covers
generation `n` of hub `id`. -/
def Proc.Owes (id n : ℕ) : Proc → Prop
  | .call server _ _ ph => ∃ m ≥ n, ph.carries server = some (id, m)
  | .dispatching _ => False
  | .task t ph => (∀ followUp, ph ≠ .exiting followUp) ∧ ∃ m ≥ n, t.carries = some (id, m)

/-- Generation `n` of hub `id` is still asked for somewhere, or has been reported. -/
def Owed (id n : ℕ) : State → Prop := Config.Held (Owing id n) (Proc.Owes id n)

section

variable {i : ℕ} {g g' : Shared} {p' : Option Proc} {id n : ℕ}

theorem owing_push {t : Task} (h : ∃ m ≥ n, t.carries = some (id, m)) :
    Owing id n (g.push t) :=
  .inl ⟨t, by simp, h⟩

theorem owing_report {c : Option (ℕ × ℕ)} (h : ∃ m ≥ n, c = some (id, m)) :
    Owing id n (g.report c) := by
  obtain ⟨m, hm, rfl⟩ := h
  exact .inr ⟨m, hm, by simp⟩

/-- A call does not lose the generation it carries: it reads back at least its own bump. -/
theorem owes_of_callMove {server start : ℕ} {origin : Option Task} {ph : CallPhase}
    (hI : Sound g) (hJ : ProcSound i g (.call server start origin ph))
    (howes : ∃ m ≥ n, ph.carries server = some (id, m))
    (h : CallMove g server start origin ph g' p') :
    Owing id n g' ∨ ∃ q, p' = some q ∧ q.Owes id n := by
  cases h with
  | bump hrow =>
    obtain ⟨m, -, hm⟩ := howes
    cases hm
  | @readGeneration row bump hrow =>
    obtain ⟨m, hn, hm⟩ := howes
    cases hm
    have hle : bump ≤ row.reconfigRequestedGen := hI.bump_le _ hJ.2.2 row hrow
    exact .inr ⟨_, rfl, row.reconfigRequestedGen, hn.le.trans hle, rfl⟩
  | dispatch => exact .inl (owing_push howes)
  | raise => exact .inl (owing_report howes)
  | lost _ => exact .inr ⟨_, rfl, howes⟩

/-- A run is answered `coalesced` only when its generation is applied. -/
theorem taskLoad_coalesced {t : Task} {m : ℕ} {followUp : Option ℕ}
    (ht : t.carries = some (id, m)) (hload : taskLoad g t = some (.exiting followUp)) :
    ∃ row, g.servers.get id = some row ∧ m ≤ row.reconfigAppliedGen := by
  cases t with
  | reconfigureServer k generation retries =>
    cases generation with
    | none => cases ht
    | some generation =>
      cases ht
      obtain ⟨row, hrow, hph⟩ := Option.map_eq_some_iff.mp hload
      split at hph
      · next hle => exact ⟨row, hrow, by simpa using hle⟩
      · cases hph
  | _ => cases ht

/-- A run does not lose the generation it carries before the hub's row covers it. -/
theorem owes_of_taskMove {t : Task} {ph : Phase} {a : Action} (hJ : TaskSound i g t ph)
    (hph : ∀ followUp, ph ≠ .exiting followUp) (howes : ∃ m ≥ n, t.carries = some (id, m))
    (h : TaskMove i g t ph a g' p') :
    Owing id n g' ∨ (∃ q, p' = some q ∧ q.Owes id n) ∨
      ∀ row, g'.servers.get id = some row → n ≤ row.reconfigAppliedGen := by
  have hgoes (ph' : Phase) (hph' : ∀ followUp, ph' ≠ .exiting followUp) :
      ∃ q, some (Proc.task t ph') = some q ∧ q.Owes id n :=
    ⟨_, rfl, hph', howes⟩
  cases h with
  | lock _ => exact .inr (.inl (hgoes _ (by simp)))
  | skip ht =>
    obtain ⟨m, -, hm⟩ := howes
    rw [ht] at hm
    cases hm
  | @retry k generation retries ht =>
    subst ht
    cases generation with
    | none =>
      obtain ⟨m, -, hm⟩ := howes
      cases hm
    | some generation => exact .inl (owing_push howes)
  | raise _ => exact .inl (owing_report howes)
  | @load _ ph' hload =>
    by_cases hexit : ∀ followUp, ph' ≠ .exiting followUp
    · exact .inr (.inl (hgoes _ hexit))
    · obtain ⟨followUp, hexit⟩ := not_forall.mp hexit
      rw [not_not.mp hexit] at hload
      obtain ⟨m, hn, hm⟩ := howes
      obtain ⟨row, hrow, hle⟩ := taskLoad_coalesced hm hload
      refine .inr (.inr fun row' hrow' ↦ ?_)
      rw [hrow] at hrow'
      cases hrow'
      exact hn.le.trans hle
  | fail _ _ => exact .inr (.inl (hgoes _ (by simp)))
  | list _ _ _ => exact .inr (.inl (hgoes _ (by simp)))
  | writeTpl _ _ => exact .inr (.inl (hgoes _ (by simp)))
  | writeConf _ => exact .inr (.inl (hgoes _ (by simp)))
  | sshDone _ => exact .inr (.inl (hgoes _ (by simp)))
  | @commit w _ _ _ ph' _ hcommit =>
    obtain ⟨m, hn, hm⟩ := howes
    obtain ⟨-, ⟨hnone, -⟩ | ⟨k, generation, retries, rfl, rfl⟩⟩ := taskCommit_cases hcommit
    · rw [hnone] at hm
      cases hm
    · cases generation with
      | none => cases hm
      | some generation =>
        cases hm
        -- the run marks the generation it has read, which is at least the one it carries
        obtain ⟨row₀, hrow₀, -, hle⟩ := hJ.fresh id w rfl rfl
        have hm := hle _ rfl
        refine .inr (.inr fun row' hrow' ↦ ?_)
        rw [Shared.modifyServer, Table.get_modify, if_pos rfl] at hrow'
        obtain ⟨row, -, rfl⟩ := Option.map_eq_some_iff.mp hrow'
        simp only [hrow₀, Option.map_some, Option.getD_some]
        omega
  | markError => exact .inl (owing_report howes)
  | release => exact absurd rfl (hph _)
  | lost => exact .inl (owing_push howes)

/-- **A step does not lose a generation** before the hub's row covers it. -/
theorem owed_step {s s' : State} {e : ℕ × Action} (hs : Config.Inv Sound ProcSound s)
    (howed : Owed id n s) (h : Config.step procStep s e = some s') :
    Owed id n s' ∨ ∀ row, s'.shared.servers.get id = some row → n ≤ row.reconfigAppliedGen := by
  refine Config.held_step
    (X := fun g ↦ ∀ row, g.servers.get id = some row → n ≤ row.reconfigAppliedGen) howed h ?_
  intro g' p' hstep hbefore
  rcases hbefore with hQ | ⟨q, hq, howes⟩
  · obtain ⟨hqueue, hraised⟩ := queue_of_procStep hstep
    rcases hQ with ⟨t, ht, hm⟩ | ⟨m, hn, hm⟩
    · rcases hqueue t ht with ht' | rfl
      · exact .inl (.inl ⟨t, ht', hm⟩)
      · exact .inr (.inl ⟨_, rfl, by simp, hm⟩)
    · exact .inl (.inr ⟨m, hn, hraised _ hm⟩)
  · have hJ := hs.proc e.1 q hq
    rw [hq] at hstep
    rcases procStep_cases hstep with ⟨hp, -⟩ | ⟨server, start, origin, ph, hp, hmove⟩ |
      ⟨t, hp, -, -⟩ | ⟨t, ph, hp, hmove⟩
    · cases hp
    · cases hp
      exact (owes_of_callMove hs.shared hJ howes hmove).imp_right .inl
    · cases hp
      exact absurd howes (by simp [Proc.Owes])
    · cases hp
      exact owes_of_taskMove hJ howes.1 howes.2 hmove

end

/-- While a hub is behind, its requested generation is owed. -/
def Behind (s : State) : Prop :=
  ∀ id row, s.shared.servers.get id = some row →
    row.reconfigAppliedGen < row.reconfigRequestedGen → Owed id row.reconfigRequestedGen s

theorem behind_step {s s' : State} {e : ℕ × Action} (hs : Config.Inv Sound ProcSound s)
    (hbehind : Behind s) (h : Config.step procStep s e = some s') : Behind s' := by
  intro id row' hrow' hlt
  obtain ⟨g', p', hf, rfl⟩ := Config.step_eq_some.mp h
  rcases (keeps_of_procStep hs.shared (hs.proc e.1) hf).accounted id row' hrow' with
    ⟨row, hrow, hreq, happ⟩ | hzero | ⟨start, origin, rfl⟩
  · -- the request was there before: what carried it still does
    rw [hreq] at hlt ⊢
    rcases owed_step hs (hbehind id row hrow (by omega)) h with howed | happlied
    · exact howed
    · exact absurd (happlied row' hrow') (by omega)
  · omega
  · exact .inr ⟨e.1, .call id start origin (.bumped row'.reconfigRequestedGen), by simp,
      row'.reconfigRequestedGen, le_rfl, rfl⟩

theorem behind_run {trace : List (ℕ × Action)} {s : State} (h : run trace = some s) :
    Behind s := by
  have hinv : ∀ c e c', (Config.Inv Sound ProcSound c ∧ Behind c) →
      Config.step procStep c e = some c' → (Config.Inv Sound ProcSound c' ∧ Behind c') := by
    rintro c e c' ⟨hc, hb⟩ hstep
    exact ⟨sound_step hc hstep, behind_step hc hb hstep⟩
  exact (Run.run_invariant' hinv ⟨sound_init, by simp [Behind, init]⟩ h).2

/-- **Every requested generation is owed or reported.**  Suppose no `request_reconfigure` call for
a hub is between its bump and its dispatch.  If the hub is behind, then a reconfigure message for
it with at least the requested generation is queued (fresh, or for a retry) or running, or a call
or run with such a generation has ended by raising.  So once there is no message and no run left
and nothing has raised, the hub has caught up. -/
theorem requested_generation_is_owed {trace : List (ℕ × Action)} {s : State}
    (h : run trace = some s) {id : ℕ} {row : Server}
    (hrow : s.shared.servers.get id = some row)
    (hcalls : ∀ i start origin ph, s.proc i = some (.call id start origin ph) → ph = .begun) :
    (row.reconfigAppliedGen < row.reconfigRequestedGen →
      (∃ t ∈ s.shared.queue, ∃ m ≥ row.reconfigRequestedGen, t.carries = some (id, m)) ∨
      (∃ i t ph, s.proc i = some (.task t ph) ∧
        ∃ m ≥ row.reconfigRequestedGen, t.carries = some (id, m)) ∨
      ∃ m ≥ row.reconfigRequestedGen, (id, m) ∈ s.shared.raised) ∧
    ((∀ t ∈ s.shared.queue, ∀ m, t.carries ≠ some (id, m)) →
      (∀ i t ph, s.proc i = some (.task t ph) → ∀ m, t.carries ≠ some (id, m)) →
      (∀ m, (id, m) ∉ s.shared.raised) →
      row.reconfigAppliedGen = row.reconfigRequestedGen) := by
  have howed (hlt : row.reconfigAppliedGen < row.reconfigRequestedGen) :
      (∃ t ∈ s.shared.queue, ∃ m ≥ row.reconfigRequestedGen, t.carries = some (id, m)) ∨
      (∃ i t ph, s.proc i = some (.task t ph) ∧
        ∃ m ≥ row.reconfigRequestedGen, t.carries = some (id, m)) ∨
      ∃ m ≥ row.reconfigRequestedGen, (id, m) ∈ s.shared.raised := by
    rcases behind_run h id row hrow hlt with (hqueue | hraised) | ⟨i, q, hq, howes⟩
    · exact .inl hqueue
    · exact .inr (.inr hraised)
    · cases q with
      | call server start origin ph =>
        obtain ⟨m, -, hm⟩ := howes
        have hserver : server = id := by cases ph <;> cases hm <;> rfl
        subst hserver
        rw [hcalls i start origin ph hq] at hm
        cases hm
      | dispatching t => exact absurd howes (by simp [Proc.Owes])
      | task t ph => exact .inr (.inl ⟨i, t, ph, hq, howes.2⟩)
  refine ⟨howed, fun hqueue hruns hraised ↦ ?_⟩
  refine le_antisymm ((sound_run h).shared.applied_le id row hrow) (not_lt.mp fun hlt ↦ ?_)
  rcases howed hlt with ⟨t, ht, m, -, hm⟩ | ⟨i, t, ph, hq, m, -, hm⟩ | ⟨m, -, hm⟩
  · exact hqueue t ht m hm
  · exact hruns i t ph hq m hm
  · exact hraised m hm

/-- Two calls overlap: both read back the second bump. -/
def overlapTrace : List (ℕ × Action) :=
  [(0, .registerServer exampleHub), (2, .requestReconfigure 1), (3, .requestReconfigure 1),
   (2, .bump), (3, .bump), (2, .readGeneration), (3, .readGeneration), (2, .dispatch),
   (3, .dispatch)]

/-- After `overlapTrace` the hub is two generations behind, and they are owed. -/
theorem requested_generation_is_owed_overlapTrace :
    ∃ s row, run overlapTrace = some s ∧ s.shared.servers.get 1 = some row ∧
      row.reconfigRequestedGen = 2 ∧
      ((∃ t ∈ s.shared.queue, ∃ m ≥ row.reconfigRequestedGen, t.carries = some (1, m)) ∨
      (∃ i t ph, s.proc i = some (.task t ph) ∧
        ∃ m ≥ row.reconfigRequestedGen, t.carries = some (1, m)) ∨
      ∃ m ≥ row.reconfigRequestedGen, (1, m) ∈ s.shared.raised) := by
  obtain ⟨s, hs⟩ := Option.isSome_iff_exists.mp (by decide +kernel : (run overlapTrace).isSome)
  have hrow : (run overlapTrace).all (fun s ↦ (s.shared.servers.get 1).any fun row ↦
      row.reconfigRequestedGen == 2 && row.reconfigAppliedGen == 0) := by decide +kernel
  have hprocs : (run overlapTrace).all (fun s ↦ (overlapTrace.map Prod.fst).all fun i ↦
      (s.proc i).map Proc.message != some none) := by decide +kernel
  rw [hs, Option.all_some] at hrow hprocs
  obtain ⟨row, hrow, hgen⟩ := Option.any_eq_true _ _ |>.mp hrow
  rw [Bool.and_eq_true, beq_iff_eq, beq_iff_eq] at hgen
  refine ⟨s, row, hs, hrow, hgen.1, ?_⟩
  refine (requested_generation_is_owed hs hrow fun i start origin ph hcall ↦ ?_).1 (by omega)
  by_cases hi : i ∈ overlapTrace.map Prod.fst
  · have := List.all_eq_true.mp hprocs i hi
    rw [hcall] at this
    cases this
  · rw [Config.proc_of_run hs hi] at hcall
    cases hcall

end WgManager.Tasks
