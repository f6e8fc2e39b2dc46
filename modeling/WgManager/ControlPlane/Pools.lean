import WgManager.ControlPlane

/-!
# Pools of tenants, and the hubs in them

Two things are meant to hold of the pools: no two tenants share an address, and the subnet of every
hub lies in the pool of its tenant.  Both are checked when a request comes in, against the pools of
that moment, and not by every request that could break them.

* A pool that is given is compared with all others.  The default that a tenant gets when none is
  given is not, so two pools can come to overlap in this way, and only in this way
  (`pools_are_disjoint`).
* A hub is compared with the pool when it is registered.  A pool that is set later is compared with
  the other pools and not with the hubs, so a hub can come to lie outside in this way, and only in
  this way (`hubs_stay_in_pools`).
-/

set_option autoImplicit false

namespace WgManager

namespace ControlPlane

section

variable {db db' : Db} {action : Action}

/-! ## Disjoint pools -/

/-- Different tenants share no address. -/
def PoolsDisjoint (db : Db) : Prop :=
  ∀ t ∈ db.tenants.rows, ∀ u ∈ db.tenants.rows, t.id ≠ u.id →
    ∀ a, ¬(t.subnetPool.network.contains a = true ∧ u.subnetPool.network.contains a = true)

/-- A tenant that is created without a pool finds no tenant whose pool the default overlaps. -/
def FallbackClear (db : Db) (action : Action) : Prop :=
  ∀ slug, Creates db slug none action →
    ∀ t ∈ db.tenants.rows, poolsOverlap .fallback t.subnetPool = false

theorem poolsOverlap_eq_false_iff {p q : SubnetPool} : poolsOverlap p q = false ↔
    ∀ a, ¬(p.network.contains a = true ∧ q.network.contains a = true) := by
  rw [poolsOverlap, ← Bool.not_eq_true, IPv4Network.overlaps_iff, not_exists]

theorem poolsOverlap_comm (p q : SubnetPool) : poolsOverlap p q = poolsOverlap q p :=
  IPv4Network.overlaps_comm _ _

theorem poolsDisjoint_iff : PoolsDisjoint db ↔ ∀ t ∈ db.tenants.rows, ∀ u ∈ db.tenants.rows,
    t.id ≠ u.id → poolsOverlap t.subnetPool u.subnetPool = false := by
  simp only [PoolsDisjoint, poolsOverlap_eq_false_iff]

/-- The pool of a new tenant is clear of the others. -/
theorem clear_of_creates {slug : String} {pool : Option SubnetPool} (hok : FallbackClear db action)
    (h : Creates db slug pool action) :
    ∀ t ∈ db.tenants.rows, poolsOverlap (pool.getD .fallback) t.subnetPool = false := by
  cases pool with
  | none => exact hok slug h
  | some pool =>
    cases action with
    | tenants ctx caller request =>
      cases request with
      | create body => exact clear_of_createTenantChecks h
      | _ => cases h
    | tenantsCreate ctx args => exact clear_of_tenantsCreateChecks h
    | _ => cases h

/-- The tenant that a pool is set for is there, and the pool is clear of the others. -/
theorem clear_of_setsPool {row : Tenant} {pool : SubnetPool} (h : SetsPool db row pool action) :
    row ∈ db.tenants.rows ∧ ∀ t ∈ db.tenants.rows, t.id ≠ row.id →
      poolsOverlap pool t.subnetPool = false := by
  cases action with
  | tenants ctx caller request =>
    cases request with
    | update slug body =>
      obtain ⟨hrow, hclear⟩ := updateTenantChecks_eq_ok h
      exact ⟨hrow, hclear pool rfl⟩
    | _ => cases h
  | _ => cases h

theorem disjoint_insert {row : Tenant} (h : PoolsDisjoint db)
    (hclear : ∀ t ∈ db.tenants.rows, poolsOverlap row.subnetPool t.subnetPool = false) :
    PoolsDisjoint { db with tenants := db.tenants.insert row } := by
  rw [poolsDisjoint_iff] at h ⊢
  intro t ht u hu hne
  rcases Table.mem_insert ht with ht₀ | ht₀
  · rcases Table.mem_insert hu with hu₀ | hu₀
    · exact h t ht₀ u hu₀ hne
    · rw [poolsOverlap_comm, hu₀]
      exact hclear t ht₀
  · rcases Table.mem_insert hu with hu₀ | hu₀
    · rw [ht₀]
      exact hclear u hu₀
    · exact absurd (by rw [ht₀, hu₀]) hne

theorem disjoint_setPool {row : Tenant} {pool : SubnetPool} (h : PoolsDisjoint db)
    (hclear : ∀ t ∈ db.tenants.rows, t.id ≠ row.id → poolsOverlap pool t.subnetPool = false) :
    PoolsDisjoint (db.withPool row.id (some pool)) := by
  rw [poolsDisjoint_iff] at h ⊢
  intro t ht u hu hne
  have hpk := Tenant.pk_withPool (some pool)
  rcases Table.mem_modify hpk ht with ⟨ht₀, htid⟩ | ⟨t₀, -, htid, rfl⟩
  · rcases Table.mem_modify hpk hu with ⟨hu₀, -⟩ | ⟨u₀, -, -, rfl⟩
    · exact h t ht₀ u hu₀ hne
    · rw [poolsOverlap_comm]
      exact hclear t ht₀ htid
  · rcases Table.mem_modify hpk hu with ⟨hu₀, huid⟩ | ⟨u₀, -, huid, rfl⟩
    · exact hclear u hu₀ huid
    · exact absurd (htid.trans huid.symm) hne

/-- What an action preserves. -/
theorem disjoint_step (h : PoolsDisjoint db) (hok : FallbackClear db action)
    (hstep : step db action = some db') : PoolsDisjoint db' := by
  have hkeep (htenants : db'.tenants = db.tenants) : PoolsDisjoint db' := by
    rw [PoolsDisjoint, htenants]
    exact h
  cases move_of_step hstep with
  | stay hframe => exact hkeep hframe.tenants
  | createTenant row slug pool hcreates hpool hdb =>
    rw [hdb]
    apply disjoint_insert h
    rw [hpool]
    exact clear_of_creates hok hcreates
  | setPool row pool hsets hdb =>
    rw [hdb]
    exact disjoint_setPool h (clear_of_setsPool hsets).2
  | addServer row tenant htenant hrow hpool hservers hothers => exact hkeep hothers.1
  | dropServer serverId hservers htenants => exact hkeep htenants
  | register server hregisters hserver hframe => exact hkeep hframe.tenants
  | admitting token htoken hframe => exact hkeep hframe.tenants
  | mint server hserver hframe => exact hkeep hframe.tenants

/-- **When pools stay disjoint.**  From one tenant alone, in every run in which no tenant is created
without a pool while the default overlaps the pool of another. -/
theorem pools_are_disjoint {tenant : Tenant} {actions : List Action}
    (hinit : db.tenants.rows = [tenant]) (hok : Run.Meets step FallbackClear db actions)
    (hrun : Run.run step db actions = some db') : PoolsDisjoint db' := by
  refine Run.run_invariant (I := PoolsDisjoint) ?_ ?_ hok hrun
  · exact fun s action s' h hok hstep ↦ disjoint_step h hok hstep
  · intro t ht u hu hne
    rw [hinit, List.mem_singleton] at ht hu
    rw [ht, hu] at hne
    exact absurd rfl hne

/-- `POST /tenants` for `Beta`. -/
def createBeta (subnetPool : Option String) : Action :=
  .tenants exampleTenantContext (some exampleAdmin)
    (.create { name := "Beta", slug := some "beta", subnetPool })

/-- With a pool of its own, `Beta` is no trouble. -/
theorem pools_are_disjoint_createBeta :
    PoolsDisjoint (defaultTenantDb.act (createBeta (some "10.42.0.0/16"))) := by
  have hpool : (createTenantChecks exampleTenantContext defaultTenantDb (some exampleAdmin)
      { name := "Beta", slug := some "beta", subnetPool := some "10.42.0.0/16" }).map
        (·.2.isSome) = .ok true := by decide +kernel
  have hok : Run.Meets step FallbackClear defaultTenantDb [createBeta (some "10.42.0.0/16")] := by
    refine ⟨fun slug h ↦ ?_, fun _ _ ↦ trivial⟩
    rw [show createTenantChecks _ _ _ _ = _ from h] at hpool
    cases hpool
  exact pools_are_disjoint rfl hok rfl

/-- Without one, it gets the default `10.0.0.0/8`, which has all addresses of the other. -/
theorem pools_overlap_createBeta :
    ∃ db, Run.run step defaultTenantDb [createBeta none] = some db ∧ ¬PoolsDisjoint db := by
  refine ⟨defaultTenantDb.act (createBeta none), rfl, fun h ↦ ?_⟩
  have hrows : (defaultTenantDb.act (createBeta none)).tenants.rows =
      [defaultTenant, { id := 2, name := "Beta", slug := "beta", createdAt := 0 }] := by
    decide +kernel
  refine h defaultTenant ?_ { id := 2, name := "Beta", slug := "beta", createdAt := 0 } ?_
    (by decide)
    168361984 (by decide)
  · rw [hrows]
    exact List.mem_cons_self
  · rw [hrows]
    exact List.mem_cons_of_mem _ List.mem_cons_self

/-! ## Hubs in their pools -/

/-- The subnet of every hub that has a tenant lies in the tenant's pool. -/
def HubsInPools (db : Db) : Prop :=
  ∀ s ∈ db.servers.rows, ∀ id, s.tenantId = some id →
    ∃ t, db.tenants.get id = some t ∧ subnetInPool s.subnet t.subnetPool = true

/-- A pool that is set takes in the hubs of its tenant. -/
def PoolTakesHubs (db : Db) (action : Action) : Prop :=
  ∀ row pool, SetsPool db row pool action →
    ∀ s ∈ db.servers.rows, s.tenantId = some row.id → subnetInPool s.subnet pool = true

/-- The same in terms of what is looked at. -/
theorem hubsInPools_iff : HubsInPools db ↔ ∀ serverId id subnet,
    db.hub serverId = some (some id, subnet) →
      ∃ t, db.tenants.get id = some t ∧ subnetInPool subnet t.subnetPool = true := by
  simp only [Db.hub, Option.map_eq_some_iff, Prod.mk.injEq]
  constructor
  · rintro h serverId id subnet ⟨row, hrow, htenant, rfl⟩
    exact h row (Table.mem_of_get hrow) id htenant
  · intro h s hs id htenant
    exact h s.id id s.subnet ⟨s, Table.mem_rows_iff.mp hs, htenant, rfl⟩

/-- Only the pools and the hubs matter. -/
theorem hubsInPools_of_hubs (h : HubsInPools db)
    (htenants : ∀ id t, db.tenants.get id = some t → db'.tenants.get id = some t)
    (hhubs : ∀ id x, db'.hub id = some x → db.hub id = some x) : HubsInPools db' := by
  rw [hubsInPools_iff] at h ⊢
  intro serverId id subnet hhub
  obtain ⟨t, ht, hpool⟩ := h serverId id subnet (hhubs serverId _ hhub)
  exact ⟨t, htenants id t ht, hpool⟩

theorem hubsInPools_setPool {row : Tenant} {pool : SubnetPool} (h : HubsInPools db)
    (hpool : ∀ s ∈ db.servers.rows, s.tenantId = some row.id → subnetInPool s.subnet pool = true) :
    HubsInPools (db.withPool row.id (some pool)) := by
  intro s hs id htenant
  obtain ⟨t, ht, hin⟩ := h s hs id htenant
  simp only [Db.withPool, Table.get_modify]
  by_cases hid : id = row.id
  · rw [if_pos hid, ht, Option.map_some]
    refine ⟨t.withPool (some pool), rfl, hpool s hs ?_⟩
    rw [htenant, hid]
  · rw [if_neg hid]
    exact ⟨t, ht, hin⟩

theorem hubsInPools_addServer {row : Server} {tenant : Tenant} (h : HubsInPools db)
    (htenant : db.tenants.get tenant.id = some tenant) (hrow : row.tenantId = some tenant.id)
    (hpool : subnetInPool row.subnet tenant.subnetPool = true)
    (hservers : db'.servers = db.servers.insert row) (htenants : db'.tenants = db.tenants) :
    HubsInPools db' := by
  intro s hs id hid
  rw [htenants]
  rw [hservers] at hs
  rcases Table.mem_insert hs with hs | rfl
  · exact h s hs id hid
  · rw [hrow, Option.some.injEq] at hid
    exact ⟨tenant, by rw [← hid, htenant], hpool⟩

/-- What an action preserves. -/
theorem hubsInPools_step (h : HubsInPools db) (hok : PoolTakesHubs db action)
    (hstep : step db action = some db') : HubsInPools db' := by
  have hkeep {new new' : List Filing} (hframe : Frame db db' new new') : HubsInPools db' := by
    refine hubsInPools_of_hubs h (fun id t ht ↦ ?_) (fun id x hx ↦ ?_)
    · rw [hframe.tenants, ht]
    · rw [← hframe.hubs, hx]
  cases move_of_step hstep with
  | stay hframe => exact hkeep hframe
  | createTenant row slug pool hcreates hpool hdb =>
    rw [hdb]
    exact hubsInPools_of_hubs h (fun id t ht ↦ Table.get_insert_of_get ht) fun id x hx ↦ hx
  | setPool row pool hsets hdb =>
    rw [hdb]
    exact hubsInPools_setPool h (hok row pool hsets)
  | addServer row tenant htenant hrow hpool hservers hothers =>
    exact hubsInPools_addServer h htenant hrow hpool hservers hothers.1
  | dropServer serverId hservers htenants =>
    intro s hs id htenant
    rw [hservers] at hs
    rw [htenants]
    exact h s (List.mem_filter.mp hs).1 id htenant
  | register server hregisters hserver hframe => exact hkeep hframe
  | admitting token htoken hframe => exact hkeep hframe
  | mint server hserver hframe => exact hkeep hframe

/-- **When hubs stay in their pools.**  From no hub, in every run in which no pool is set that
leaves out a hub of its tenant. -/
theorem hubs_stay_in_pools {actions : List Action} (hinit : db.servers.rows = [])
    (hok : Run.Meets step PoolTakesHubs db actions)
    (hrun : Run.run step db actions = some db') : HubsInPools db' := by
  refine Run.run_invariant (I := HubsInPools) ?_ ?_ hok hrun
  · exact fun s action s' h hok hstep ↦ hubsInPools_step h hok hstep
  · intro s hs
    rw [hinit] at hs
    cases hs

/-- `PATCH /tenants/default`. -/
def patchDefault (subnetPool : String) : Action :=
  .tenants exampleTenantContext (some exampleAdmin)
    (.update "default" { subnetPool := some subnetPool })

/-- A hub is registered, and the pool widened. -/
theorem hubs_stay_in_pools_widened :
    HubsInPools ((defaultTenantDb.act registerHub).act (patchDefault "10.8.0.0/15")) := by
  have hpool : (updateTenantChecks exampleTenantContext (defaultTenantDb.act registerHub)
      (some exampleAdmin) "default" { subnetPool := some "10.8.0.0/15" }).map
        (·.2.map fun pool ↦ (pool.network.networkAddress, pool.network.prefixlen)) =
      .ok (some (168296448, 15)) := by decide +kernel
  have hhubs : (defaultTenantDb.act registerHub).servers.rows.map Server.subnet =
      [exampleSubnet] := by decide +kernel
  have hok : Run.Meets step PoolTakesHubs defaultTenantDb
      [registerHub, patchDefault "10.8.0.0/15"] := by
    refine ⟨fun _ _ h ↦ h.elim, ?_⟩
    rintro db h
    cases h
    refine ⟨fun row pool h s hs htenant ↦ ?_, fun _ _ ↦ trivial⟩
    rw [show updateTenantChecks _ _ _ _ _ = _ from h] at hpool
    have hnetwork : (pool.network.networkAddress, pool.network.prefixlen) = (168296448, 15) := by
      simpa [Except.map] using hpool
    have hsubnet : s.subnet = exampleSubnet := by
      have hmem := List.mem_map_of_mem (f := Server.subnet) hs
      rw [hhubs, List.mem_singleton] at hmem
      exact hmem
    rw [Prod.mk.injEq] at hnetwork
    rw [hsubnet, subnetInPool, IPv4Network.subnetOf, IPv4Network.broadcastAddress,
      IPv4Network.broadcastAddress, IPv4Network.numAddresses, IPv4Network.numAddresses, hnetwork.1,
      hnetwork.2]
    decide
  exact hubs_stay_in_pools rfl hok rfl

/-- A hub is registered, and the pool moved away. -/
theorem hub_outside_moved_pool : ∃ db, Run.run step defaultTenantDb
    [registerHub, patchDefault "10.42.0.0/16"] = some db ∧ ¬HubsInPools db := by
  refine ⟨_, rfl, fun h ↦ ?_⟩
  have hhub : ((defaultTenantDb.act registerHub).act (patchDefault "10.42.0.0/16")).hub 2 =
      some (some 1, exampleSubnet) := by decide +kernel
  have hpool : (((defaultTenantDb.act registerHub).act (patchDefault "10.42.0.0/16")).tenants.get
      1).map (fun t ↦ subnetInPool exampleSubnet t.subnetPool) = some false := by decide +kernel
  obtain ⟨t, ht, hin⟩ := hubsInPools_iff.mp h 2 1 exampleSubnet hhub
  rw [ht, Option.map_some, hin] at hpool
  cases hpool

end

end ControlPlane

end WgManager
