import WgManager.Routers.Clients

/-!
# Tenant write isolation

Who can make the `/servers` and `/clients` routers change a row, or act on a host?  The rule the
routers are written to is that a caller who is not a super-admin needs the role `admin` or
`operator` on the tenant of every row a request touches (`Isolated`).  `update_server`,
`delete_server`, `update_client`, `delete_client` and `register_server` check it for the row they
are about; eight handlers check nothing, and two of the five touch more rows than the one they have
checked.

`exposed` lists the tenants whose rows a request touches without having checked anything, and
`isolated_iff_exposed` says that this list is exact: a request keeps the rule just when the caller
may write all of these tenants.

A new client counts for the tenant of its hub.  A task acts on the row it is queued for, and the
provisioning of a client acts on the client's hub as well, whose generation it bumps.
-/

set_option autoImplicit false

namespace WgManager

/-! ## What a request touches -/

/-- The tenant of a client's hub. -/
def hubTenant (db : Db) (row : Client) : Option ℕ :=
  (db.servers.get row.serverId).bind Server.tenantId

/-- A server row of tenant `t` is created, changed or deleted. -/
def ChangesServer (db db' : Db) (t : Option ℕ) : Prop :=
  ∃ row, (Table.Touched db.servers db'.servers row ∨ Table.Created db.servers db'.servers row) ∧
    row.tenantId = t

/-- A client row of tenant `t` is changed or deleted, or one is created on a hub of tenant `t`. -/
def ChangesClient (db db' : Db) (t : Option ℕ) : Prop :=
  (∃ row, Table.Touched db.clients db'.clients row ∧ row.tenantId = t) ∨
  ∃ row, Table.Created db.clients db'.clients row ∧ hubTenant db row = t

/-- The hubs a task acts on. -/
def Dispatch.ActsOnServer (db : Db) : Dispatch → ℕ → Prop
  | .provisionServer serverId, id => id = serverId
  | .rotateHostCert serverId, id => id = serverId
  | .reconfigureServer serverId _, id => id = serverId
  | .discoverPeers serverId, id => id = serverId
  | .discoverAllPeers, _ => True
  | .provisionClient clientId, id => ∃ row, db.clients.get clientId = some row ∧ id = row.serverId
  | .rotateClientHostCert _, _ => False

/-- The client a task acts on. -/
def Dispatch.ActsOnClient : Dispatch → ℕ → Prop
  | .provisionClient clientId, id => id = clientId
  | .rotateClientHostCert clientId, id => id = clientId
  | _, _ => False

/-- A task acts on a row of tenant `t`.  `db` is the database before the request, `db'` the one the
task will find. -/
def Dispatch.ActsOn (db db' : Db) (d : Dispatch) (t : Option ℕ) : Prop :=
  (∃ id row, d.ActsOnServer db' id ∧ db'.servers.get id = some row ∧ row.tenantId = t) ∨
  ∃ id row, d.ActsOnClient id ∧ db.clients.get id = some row ∧ row.tenantId = t

/-- A request touches a row of tenant `t`. -/
def Affects (db : Db) (o : Outcome) (t : Option ℕ) : Prop :=
  ChangesServer db o.db t ∨ ChangesClient db o.db t ∨ ∃ d ∈ o.dispatched, d.ActsOn db o.db t

/-- The caller may write every tenant a request touches. -/
def Isolated (operator : Operator) (db : Db) (o : Outcome) : Prop :=
  ∀ t, Affects db o t → operator.MayWrite t

/-- A request to one of the two routers. -/
inductive NodeRequest
  | servers (request : ServerRequest)
  | clients (request : ClientRequest)

/-- The two routers. -/
def handleNodes (ctx : Context) (db : Db) (scope : TenantScope) : NodeRequest → Outcome
  | .servers request => handleServers ctx db scope request
  | .clients request => handleClients ctx db scope request

/-! ## What is touched unchecked -/

/-- The tenants of the rows with these keys. -/
def serverTenants (db : Db) (ids : List ℕ) : List (Option ℕ) :=
  ids.filterMap fun id ↦ (db.servers.get id).map Server.tenantId

/-- What a check yields when it passes. -/
def okList {α β : Type} (checks : Except HttpError α) (f : α → List β) : List β :=
  match checks with
  | .error _ => []
  | .ok a => f a

/-- The tenants whose rows a request touches without having checked the caller's role on them. -/
def exposed (ctx : Context) (db : Db) (scope : TenantScope) : NodeRequest → List (Option ℕ)
  | .servers (.reprovision serverId) =>
    okList (getOr404 db.servers serverId serverNotFound) fun row ↦ [row.tenantId]
  | .servers (.discover serverId) =>
    okList (getOr404 db.servers serverId serverNotFound) fun row ↦ [row.tenantId]
  | .servers (.rotateHostCert serverId) =>
    okList (rotateServerHostCertChecks db serverId) fun row ↦ [row.tenantId]
  | .servers .discoverAll => db.servers.rows.map Server.tenantId
  | .servers (.delete serverId force) =>
    okList (deleteServerChecks db scope serverId force) fun _ ↦
      (attachedClients db serverId).map Client.tenantId
  | .clients (.register payload) =>
    okList (registerClientChecks ctx db payload) fun hub ↦ [hub.1.tenantId]
  | .clients (.registerManual payload) =>
    okList (registerManualClientChecks ctx db payload) fun hub ↦ [hub.1.tenantId]
  | .clients (.reprovision clientId) =>
    okList (reprovisionClientChecks db clientId) fun row ↦
      row.tenantId :: serverTenants db [row.serverId]
  | .clients (.rotateHostCert clientId) =>
    okList (rotateClientHostCertChecks db clientId) fun row ↦ [row.tenantId]
  | .clients (.delete clientId) =>
    okList (clientGate db scope clientId) fun row ↦ serverTenants db [row.serverId]
  | _ => []

/-- The keys the database hands out are new. -/
def Context.Fresh (ctx : Context) (db : Db) : Prop :=
  db.servers.get ctx.newId = none ∧ db.clients.get ctx.newId = none

section

variable {operator : Operator} {ctx : Context} {db db' : Db} {t : Option ℕ}

@[simp] theorem mem_serverTenants_singleton {id : ℕ} :
    t ∈ serverTenants db [id] ↔ ∃ row, db.servers.get id = some row ∧ row.tenantId = t := by
  cases h : db.servers.get id <;> simp [serverTenants, h, eq_comm]

/-! ## Effects one by one -/

theorem not_changesServer (h : db'.servers = db.servers) : ¬ChangesServer db db' t := by
  rintro ⟨row, hrow | hrow, -⟩
  · rw [h] at hrow
    exact Table.not_touched_self hrow
  · rw [h] at hrow
    exact Table.not_created_self hrow

theorem not_changesClient (h : db'.clients = db.clients) : ¬ChangesClient db db' t := by
  rintro (⟨row, hrow, -⟩ | ⟨row, hrow, -⟩)
  · rw [h] at hrow
    exact Table.not_touched_self hrow
  · rw [h] at hrow
    exact Table.not_created_self hrow

/-- An update of a server changes a row of the tenant the row had before. -/
theorem tenant_of_changesServer_modify {id : ℕ} {f : Server → Server}
    (hf : ∀ r, Keyed.pk (f r) = Keyed.pk r) (h : db'.servers = db.servers.modify id f hf)
    (hc : ChangesServer db db' t) : ∃ row, db.servers.get id = some row ∧ row.tenantId = t := by
  obtain ⟨row, hrow | hrow, ht⟩ := hc
  · rw [h] at hrow
    exact ⟨row, Table.get_of_touched_modify hrow, ht⟩
  · rw [h] at hrow
    exact absurd hrow Table.not_created_modify

theorem tenant_of_changesClient_modify {id : ℕ} {f : Client → Client}
    (hf : ∀ r, Keyed.pk (f r) = Keyed.pk r) (h : db'.clients = db.clients.modify id f hf)
    (hc : ChangesClient db db' t) : ∃ row, db.clients.get id = some row ∧ row.tenantId = t := by
  rcases hc with ⟨row, hrow, ht⟩ | ⟨row, hrow, -⟩
  · rw [h] at hrow
    exact ⟨row, Table.get_of_touched_modify hrow, ht⟩
  · rw [h] at hrow
    exact absurd hrow Table.not_created_modify

theorem changesClient_filter_iff {p : Client → Bool} (h : db'.clients = db.clients.filter p) :
    ChangesClient db db' t ↔ ∃ row ∈ db.clients.rows, p row = false ∧ row.tenantId = t := by
  rw [ChangesClient, h]
  constructor
  · rintro (⟨row, hrow, ht⟩ | ⟨row, hrow, -⟩)
    · obtain ⟨hmem, hp⟩ := Table.touched_filter_iff.mp hrow
      exact ⟨row, hmem, hp, ht⟩
    · exact absurd hrow Table.not_created_filter
  · rintro ⟨row, hmem, hp, ht⟩
    exact .inl ⟨row, Table.touched_filter_iff.mpr ⟨hmem, hp⟩, ht⟩

/-- A new client counts for the tenant of its hub. -/
theorem changesClient_insert_iff {new : Client} {hub : Server}
    (h : db'.clients = db.clients.insert new) (hfree : db.clients.get new.id = none)
    (hhub : db.servers.get new.serverId = some hub) :
    ChangesClient db db' t ↔ t ∈ [hub.tenantId] := by
  have hnew : hubTenant db new = hub.tenantId := by rw [hubTenant, hhub, Option.bind_some]
  rw [ChangesClient, h, List.mem_singleton]
  constructor
  · rintro (⟨row, hrow, -⟩ | ⟨row, hrow, ht⟩)
    · exact absurd hrow Table.not_touched_insert
    · rw [← ht, Table.eq_of_created_insert hrow, hnew]
  · rintro rfl
    refine .inr ⟨new, ⟨hfree, ?_⟩, hnew⟩
    rw [Table.mem_rows_iff, Table.get_insert hfree, if_pos rfl]

/-! ## From effects to the rule -/

/-- A request that has failed a check touches nothing. -/
theorem not_affects_self {response : Response} : ¬Affects db ⟨db, [], response⟩ t := by
  rintro (h | h | ⟨d, hd, -⟩)
  · exact not_changesServer rfl h
  · exact not_changesClient rfl h
  · cases hd

/-- To show that `tenants` is what a request touches unchecked, it is enough that it touches these
tenants, and others only where the caller may write. -/
theorem isolated_iff {o : Outcome} {tenants : List (Option ℕ)}
    (hin : ∀ t, Affects db o t → t ∈ tenants ∨ operator.MayWrite t)
    (hout : ∀ t ∈ tenants, Affects db o t) :
    Isolated operator db o ↔ ∀ t ∈ tenants, operator.MayWrite t := by
  constructor
  · intro h t ht
    exact h t (hout t ht)
  · intro h t ht
    rcases hin t ht with hmem | hmay
    · exact h t hmem
    · exact hmay

theorem isolated_ofChecks_iff {α : Type} {checks : Except HttpError α} {effect : α → Outcome}
    {tenants : α → List (Option ℕ)}
    (h : ∀ a, checks = .ok a →
      (Isolated operator db (effect a) ↔ ∀ t ∈ tenants a, operator.MayWrite t)) :
    Isolated operator db (.ofChecks db checks effect) ↔
      ∀ t ∈ okList checks tenants, operator.MayWrite t := by
  cases hc : checks with
  | error e => simpa [Outcome.ofChecks, okList, Isolated] using fun t ↦ not_affects_self.elim
  | ok a => simpa [Outcome.ofChecks, okList] using h a hc

/-- A handler that has checked the caller's role on all it touches keeps the rule. -/
theorem isolated_ofChecks {α : Type} {checks : Except HttpError α} {effect : α → Outcome}
    (h : ∀ a, checks = .ok a → ∀ t, Affects db (effect a) t → operator.MayWrite t) :
    Isolated operator db (.ofChecks db checks effect) := by
  cases hc : checks with
  | error e => exact fun t ht ↦ absurd ht not_affects_self
  | ok a => exact h a hc

/-! ## Dispatched tasks -/

/-- A task on one hub acts on the tenant of that hub. -/
theorem actsOn_server_iff {d : Dispatch} {id : ℕ} (hs : ∀ j, d.ActsOnServer db' j ↔ j = id)
    (hc : ∀ j, ¬d.ActsOnClient j) :
    d.ActsOn db db' t ↔ ∃ row, db'.servers.get id = some row ∧ row.tenantId = t := by
  constructor
  · rintro (⟨j, row, hj, hrow⟩ | ⟨j, row, hj, -⟩)
    · rw [(hs j).mp hj] at hrow
      exact ⟨row, hrow⟩
    · exact absurd hj (hc j)
  · rintro ⟨row, hrow⟩
    exact .inl ⟨id, row, (hs id).mpr rfl, hrow⟩

theorem actsOn_provisionServer_iff {id : ℕ} : (Dispatch.provisionServer id).ActsOn db db' t ↔
    ∃ row, db'.servers.get id = some row ∧ row.tenantId = t :=
  actsOn_server_iff (fun _ ↦ Iff.rfl) fun _ h ↦ h

theorem actsOn_rotateHostCert_iff {id : ℕ} : (Dispatch.rotateHostCert id).ActsOn db db' t ↔
    ∃ row, db'.servers.get id = some row ∧ row.tenantId = t :=
  actsOn_server_iff (fun _ ↦ Iff.rfl) fun _ h ↦ h

theorem actsOn_discoverPeers_iff {id : ℕ} : (Dispatch.discoverPeers id).ActsOn db db' t ↔
    ∃ row, db'.servers.get id = some row ∧ row.tenantId = t :=
  actsOn_server_iff (fun _ ↦ Iff.rfl) fun _ h ↦ h

theorem actsOn_reconfigureServer_iff {id gen : ℕ} :
    (Dispatch.reconfigureServer id gen).ActsOn db db' t ↔
      ∃ row, db'.servers.get id = some row ∧ row.tenantId = t :=
  actsOn_server_iff (fun _ ↦ Iff.rfl) fun _ h ↦ h

/-- The provisioning of a client acts on the client and on its hub. -/
theorem actsOn_provisionClient_iff {id : ℕ} {row : Client}
    (hrow : db'.clients.get id = some row) :
    (Dispatch.provisionClient id).ActsOn db db' t ↔
      (∃ hub, db'.servers.get row.serverId = some hub ∧ hub.tenantId = t) ∨
      ∃ old, db.clients.get id = some old ∧ old.tenantId = t := by
  constructor
  · rintro (⟨j, hub, ⟨row', hrow', rfl⟩, hhub⟩ | ⟨j, old, rfl, hold⟩)
    · rw [hrow] at hrow'
      cases hrow'
      exact .inl ⟨hub, hhub⟩
    · exact .inr ⟨old, hold⟩
  · rintro (⟨hub, hhub⟩ | ⟨old, hold⟩)
    · exact .inl ⟨row.serverId, hub, ⟨row, hrow, rfl⟩, hhub⟩
    · exact .inr ⟨id, old, rfl, hold⟩

/-- Looking a server up after an update that keeps its tenant. -/
theorem tenant_of_get_modify {id j : ℕ} {f : Server → Server}
    (hf : ∀ r, Keyed.pk (f r) = Keyed.pk r) (ht : ∀ r, (f r).tenantId = r.tenantId)
    (h : db'.servers = db.servers.modify id f hf) :
    (∃ row, db'.servers.get j = some row ∧ row.tenantId = t) ↔
      ∃ row, db.servers.get j = some row ∧ row.tenantId = t := by
  rw [h, Table.get_modify]
  split
  · simp only [Option.map_eq_some_iff]
    constructor
    · rintro ⟨_, ⟨row, hget, rfl⟩, hrow⟩
      exact ⟨row, hget, (ht row).symm.trans hrow⟩
    · rintro ⟨row, hget, hrow⟩
      exact ⟨f row, ⟨row, hget, rfl⟩, (ht row).trans hrow⟩
  · rfl

/-- What `request_reconfigure` touches, on top of what the handler has done before. -/
theorem affects_requestReconfigure_iff {id : ℕ} {answer : ℕ × Body}
    (hservers : db'.servers = db.servers) :
    Affects db (requestReconfigure db' id answer) t ↔
      t ∈ serverTenants db [id] ∨ ChangesClient db db' t := by
  rw [mem_serverTenants_singleton, ← hservers]
  cases hget : db'.servers.get id with
  | none =>
    rw [requestReconfigure_of_none hget]
    constructor
    · rintro (h | h | ⟨d, hd, -⟩)
      · exact absurd h (not_changesServer hservers)
      · exact .inr h
      · cases hd
    · rintro (⟨row, hrow, -⟩ | h)
      · cases hrow
      · exact .inr (.inl h)
  | some row =>
    rw [requestReconfigure_of_some hget, ← hget]
    have htenant : (∃ row, (db'.bumpRequestedGen id).servers.get id = some row ∧
        row.tenantId = t) ↔ ∃ row, db'.servers.get id = some row ∧ row.tenantId = t :=
      tenant_of_get_modify (by intro _; rfl) (by intro _; rfl) rfl
    constructor
    · rintro (h | h | ⟨d, hd, hacts⟩)
      · rw [hservers]
        have hbump : (db'.bumpRequestedGen id).servers = (db.bumpRequestedGen id).servers := by
          simp only [Db.bumpRequestedGen, hservers]
        exact .inl (tenant_of_changesServer_modify (by intro _; rfl) hbump h)
      · exact .inr h
      · rw [List.mem_singleton.mp hd, actsOn_reconfigureServer_iff] at hacts
        exact .inl (htenant.mp hacts)
    · rintro (h | h)
      · refine .inr (.inr ⟨_, List.mem_singleton_self _, ?_⟩)
        rw [actsOn_reconfigureServer_iff]
        exact htenant.mpr h
      · exact .inr (.inl h)

/-! ## The servers router -/

theorem mayWrite_of_serverGate (hrole : operator.role ≠ .admin) {serverId : ℕ} {row : Server}
    (h : serverGate db (getTenantScope operator) serverId = .ok row) :
    db.servers.get serverId = some row ∧ operator.MayWrite row.tenantId := by
  rw [serverGate, bind_eq_ok_iff] at h
  obtain ⟨found, hfound, h⟩ := h
  obtain ⟨⟨⟩, hreq, h⟩ := bind_eq_ok_iff.mp h
  cases h
  refine ⟨get_of_getInScope hfound, mayWrite_of_requireTenantRole hrole ?_ hreq⟩
  simp

theorem registerServer_isolated (hrole : operator.role ≠ .admin) (hfresh : ctx.Fresh db)
    (payload : ServerCreate) :
    Isolated operator db (registerServer ctx db (getTenantScope operator) payload) := by
  refine isolated_ofChecks ?_
  rintro ⟨tenant, network, serverHost⟩ hchecks t haff
  have hmay : operator.MayWrite (some tenant.id) := by
    rw [registerServerChecks, bind_eq_ok_iff] at hchecks
    obtain ⟨tenant', hresolve, hrest⟩ := hchecks
    obtain ⟨_, -, hrest⟩ := bind_eq_ok_iff.mp hrest
    dsimp only at hrest
    split at hrest
    · cases hrest
    · split at hrest
      · cases hrest
        exact mayWrite_of_resolveCreateTenant hrole hresolve
      · cases hrest
  have hnew : (db.servers.insert (newServer ctx payload tenant network serverHost)).get ctx.newId =
      some (newServer ctx payload tenant network serverHost) := by
    exact (Table.get_insert hfresh.1 _).trans (if_pos rfl)
  rcases haff with ⟨row, hrow | hrow, rfl⟩ | h | ⟨d, hd, hacts⟩
  · exact absurd hrow Table.not_touched_insert
  · rw [Table.eq_of_created_insert hrow]
    exact hmay
  · exact absurd h (not_changesClient rfl)
  · rw [List.mem_singleton.mp hd, actsOn_provisionServer_iff] at hacts
    obtain ⟨row, hrow, rfl⟩ := hacts
    rw [show row = _ from Option.some_injective _ (hrow.symm.trans hnew)]
    exact hmay

/-- A request that only acts on the hub `row` needs the role on its tenant. -/
theorem isolated_serverTask_iff {row : Server} {d : Dispatch} {response : Response}
    (hservers : ∀ t, ChangesServer db db' t → t = row.tenantId)
    (hclients : db'.clients = db.clients)
    (hd : ∀ t, d.ActsOn db db' t ↔ t = row.tenantId) :
    Isolated operator db ⟨db', [d], response⟩ ↔ ∀ t ∈ [row.tenantId], operator.MayWrite t := by
  refine isolated_iff ?_ ?_
  · rintro t (h | h | ⟨d', hd', h⟩)
    · exact .inl (List.mem_singleton.mpr (hservers t h))
    · exact absurd h (not_changesClient hclients)
    · rw [List.mem_singleton.mp hd', hd] at h
      exact .inl (List.mem_singleton.mpr h)
  · intro t ht
    exact .inr (.inr ⟨d, List.mem_singleton_self d, (hd t).mpr (List.mem_singleton.mp ht)⟩)

theorem reprovisionServer_isolated_iff (serverId : ℕ) :
    Isolated operator db (reprovisionServer ctx db serverId) ↔
      ∀ t ∈ okList (getOr404 db.servers serverId serverNotFound) fun row ↦ [row.tenantId],
        operator.MayWrite t := by
  refine isolated_ofChecks_iff fun row hchecks ↦ ?_
  have hget := get_of_getOr404 hchecks
  have hid : row.id = serverId := Table.pk_of_get hget
  refine isolated_serverTask_iff ?_ rfl ?_
  · intro t h
    obtain ⟨row', hrow', rfl⟩ := tenant_of_changesServer_modify (by intro _; rfl) rfl h
    rw [hget] at hrow'
    cases hrow'
    rfl
  · intro t
    rw [actsOn_provisionServer_iff, hid,
      tenant_of_get_modify (by intro _; rfl) (by intro _; rfl) rfl,
      hget]
    simp [eq_comm]

theorem discoverServerPeers_isolated_iff (serverId : ℕ) :
    Isolated operator db (discoverServerPeers ctx db serverId) ↔
      ∀ t ∈ okList (getOr404 db.servers serverId serverNotFound) fun row ↦ [row.tenantId],
        operator.MayWrite t := by
  refine isolated_ofChecks_iff fun row hchecks ↦ ?_
  have hget := get_of_getOr404 hchecks
  refine isolated_serverTask_iff (fun t h ↦ absurd h (not_changesServer rfl)) rfl fun t ↦ ?_
  rw [actsOn_discoverPeers_iff, show row.id = serverId from Table.pk_of_get hget, hget]
  simp [eq_comm]

theorem rotateServerHostCert_isolated_iff (serverId : ℕ) :
    Isolated operator db (rotateServerHostCert ctx db serverId) ↔
      ∀ t ∈ okList (rotateServerHostCertChecks db serverId) fun row ↦ [row.tenantId],
        operator.MayWrite t := by
  refine isolated_ofChecks_iff fun row hchecks ↦ ?_
  obtain ⟨row', hrow', hrest⟩ := bind_eq_ok_iff.mp hchecks
  have hget : db.servers.get serverId = some row := by
    split at hrest
    · cases hrest
    · cases hrest
      exact get_of_getOr404 hrow'
  refine isolated_serverTask_iff (fun t h ↦ absurd h (not_changesServer rfl)) rfl fun t ↦ ?_
  rw [actsOn_rotateHostCert_iff, show row.id = serverId from Table.pk_of_get hget, hget]
  simp [eq_comm]

/-- Discovery of all peers acts on every hub there is. -/
theorem discoverAllServers_isolated_iff :
    Isolated operator db (discoverAllServers ctx db) ↔
      ∀ t ∈ db.servers.rows.map Server.tenantId, operator.MayWrite t := by
  refine isolated_iff ?_ ?_
  · rintro t (h | h | ⟨d, hd, hacts⟩)
    · exact absurd h (not_changesServer rfl)
    · exact absurd h (not_changesClient rfl)
    · rw [List.mem_singleton.mp hd] at hacts
      rcases hacts with ⟨id, row, -, hrow, ht⟩ | ⟨id, row, hid, -⟩
      · exact .inl (List.mem_map.mpr ⟨row, Table.mem_of_get hrow, ht⟩)
      · exact hid.elim
  · intro t ht
    obtain ⟨row, hrow, ht⟩ := List.mem_map.mp ht
    exact .inr (.inr ⟨_, List.mem_singleton_self _,
      .inl ⟨row.id, row, trivial, Table.mem_rows_iff.mp hrow, ht⟩⟩)

theorem updateServer_isolated (hrole : operator.role ≠ .admin) (serverId : ℕ)
    (payload : ServerUpdate) :
    Isolated operator db (updateServer ctx db (getTenantScope operator) serverId payload) := by
  refine isolated_ofChecks ?_
  intro row hchecks t haff
  obtain ⟨row', hgate, hrest⟩ := bind_eq_ok_iff.mp hchecks
  obtain ⟨_, -, hrest⟩ := bind_eq_ok_iff.mp hrest
  cases hrest
  obtain ⟨hget, hmay⟩ := mayWrite_of_serverGate hrole hgate
  rcases haff with h | h | ⟨d, hd, -⟩
  · obtain ⟨row', hget', rfl⟩ := tenant_of_changesServer_modify (by intro _; rfl) rfl h
    rw [hget] at hget'
    cases hget'
    exact hmay
  · exact absurd h (not_changesClient rfl)
  · cases hd

/-- With `?force=true` the clients of the hub go with it, whosever they are. -/
theorem changesClient_withoutServer_iff {serverId : ℕ} {force : Bool}
    (h : force = true ∨ attachedClients db serverId = []) :
    ChangesClient db (withoutServer db serverId force) t ↔
      t ∈ (attachedClients db serverId).map Client.tenantId := by
  cases force with
  | true =>
    rw [changesClient_filter_iff rfl]
    simp [attachedClients, Table.select, and_assoc]
  | false =>
    have hnil : attachedClients db serverId = [] := by simpa using h
    rw [hnil, List.map_nil]
    exact iff_of_false (not_changesClient rfl) List.not_mem_nil

theorem deleteServer_isolated_iff (hrole : operator.role ≠ .admin) (serverId : ℕ) (force : Bool) :
    Isolated operator db (deleteServer db (getTenantScope operator) serverId force) ↔
      ∀ t ∈ okList (deleteServerChecks db (getTenantScope operator) serverId force) fun _ ↦
        (attachedClients db serverId).map Client.tenantId, operator.MayWrite t := by
  refine isolated_ofChecks_iff fun row hchecks ↦ ?_
  obtain ⟨hgate, hattached, -⟩ := deleteServerChecks_eq_ok hchecks
  obtain ⟨hget, hmay⟩ := mayWrite_of_serverGate hrole hgate
  refine isolated_iff ?_ ?_
  · rintro t (⟨row', hrow' | hrow', rfl⟩ | h | ⟨d, hd, -⟩)
    · obtain ⟨hmem, hkey⟩ := Table.touched_filter_iff.mp hrow'
      have hpk : Keyed.pk row' = serverId := by simpa using hkey
      rw [Table.mem_rows_iff, hpk, hget] at hmem
      cases hmem
      exact .inr hmay
    · exact absurd hrow' Table.not_created_filter
    · exact .inl ((changesClient_withoutServer_iff hattached).mp h)
    · cases hd
  · intro t ht
    exact .inr (.inl ((changesClient_withoutServer_iff hattached).mpr ht))

/-! ## The clients router -/

theorem mayWrite_of_clientGate (hrole : operator.role ≠ .admin) {clientId : ℕ} {row : Client}
    (h : clientGate db (getTenantScope operator) clientId = .ok row) :
    db.clients.get clientId = some row ∧ operator.MayWrite row.tenantId := by
  rw [clientGate, bind_eq_ok_iff] at h
  obtain ⟨found, hfound, h⟩ := h
  obtain ⟨⟨⟩, hreq, h⟩ := bind_eq_ok_iff.mp h
  cases h
  refine ⟨get_of_getInScope hfound, mayWrite_of_requireTenantRole hrole ?_ hreq⟩
  simp

theorem registerClient_isolated_iff (hfresh : ctx.Fresh db) (payload : ClientCreate) :
    Isolated operator db (registerClient ctx db payload) ↔
      ∀ t ∈ okList (registerClientChecks ctx db payload) fun hub ↦ [hub.1.tenantId],
        operator.MayWrite t := by
  refine isolated_ofChecks_iff ?_
  rintro ⟨hub, allocated⟩ hchecks
  have hhub : db.servers.get payload.serverId = some hub := by
    obtain ⟨⟨⟩, -, hrest⟩ := bind_eq_ok_iff.mp hchecks
    obtain ⟨_, -, hrest⟩ := bind_eq_ok_iff.mp hrest
    exact (hubFor_eq_ok hrest).1
  have hnew : (db.clients.insert (newClient ctx payload allocated)).get ctx.newId =
      some (newClient ctx payload allocated) :=
    (Table.get_insert hfresh.2 _).trans (if_pos rfl)
  refine isolated_iff ?_ ?_
  · rintro t (h | h | ⟨d, hd, hacts⟩)
    · exact absurd h (not_changesServer rfl)
    · exact .inl ((changesClient_insert_iff rfl hfresh.2 hhub).mp h)
    · rw [List.mem_singleton.mp hd] at hacts
      rcases (actsOn_provisionClient_iff hnew).mp hacts with ⟨hub', hhub', rfl⟩ | ⟨old, hold, -⟩
      · rw [show hub' = hub from Option.some_injective _ (hhub'.symm.trans hhub)]
        exact .inl (List.mem_singleton_self _)
      · cases hfresh.2.symm.trans hold
  · intro t ht
    exact .inr (.inl ((changesClient_insert_iff rfl hfresh.2 hhub).mpr ht))

/-- A manual client is created even when its configuration cannot be rendered. -/
theorem registerManualClient_isolated_iff (hfresh : ctx.Fresh db) (payload : ClientManualCreate) :
    Isolated operator db (registerManualClient ctx db payload) ↔
      ∀ t ∈ okList (registerManualClientChecks ctx db payload) fun hub ↦ [hub.1.tenantId],
        operator.MayWrite t := by
  refine isolated_ofChecks_iff ?_
  rintro ⟨hub, allocated⟩ hchecks
  have hhub : db.servers.get payload.serverId = some hub := by
    obtain ⟨⟨⟩, -, hrest⟩ := bind_eq_ok_iff.mp hchecks
    exact (hubFor_eq_ok hrest).1
  dsimp only
  split
  · refine isolated_iff ?_ ?_
    · rintro t (h | h | ⟨d, hd, -⟩)
      · exact absurd h (not_changesServer rfl)
      · exact .inl ((changesClient_insert_iff rfl hfresh.2 hhub).mp h)
      · cases hd
    · intro t ht
      exact .inr (.inl ((changesClient_insert_iff rfl hfresh.2 hhub).mpr ht))
  · refine isolated_iff ?_ ?_
    · intro t h
      rcases (affects_requestReconfigure_iff (by rfl)).mp h with h | h
      · obtain ⟨hub', hhub', rfl⟩ := mem_serverTenants_singleton.mp h
        rw [show hub' = hub from Option.some_injective _ (hhub'.symm.trans hhub)]
        exact .inl (List.mem_singleton_self _)
      · exact .inl ((changesClient_insert_iff rfl hfresh.2 hhub).mp h)
    · intro t ht
      refine (affects_requestReconfigure_iff (by rfl)).mpr (.inr ?_)
      exact (changesClient_insert_iff rfl hfresh.2 hhub).mpr ht

theorem reprovisionClient_isolated_iff (clientId : ℕ) :
    Isolated operator db (reprovisionClient ctx db clientId) ↔
      ∀ t ∈ okList (reprovisionClientChecks db clientId) fun row ↦
        row.tenantId :: serverTenants db [row.serverId], operator.MayWrite t := by
  refine isolated_ofChecks_iff fun row hchecks ↦ ?_
  have hget : db.clients.get clientId = some row := by
    obtain ⟨row', hrow', hrest⟩ := bind_eq_ok_iff.mp hchecks
    split at hrest
    · cases hrest
    · cases hrest
      exact get_of_getOr404 hrow'
  have hid : row.id = clientId := Table.pk_of_get hget
  have hpending : (db.clients.modify clientId fun r ↦ { r with status := .pending }).get clientId =
      some { row with status := .pending } := by
    rw [Table.get_modify, if_pos rfl, hget, Option.map_some]
  rw [hid]
  refine isolated_iff ?_ ?_
  · rintro t (h | h | ⟨d, hd, hacts⟩)
    · exact absurd h (not_changesServer rfl)
    · obtain ⟨row', hrow', rfl⟩ := tenant_of_changesClient_modify (by intro _; rfl) rfl h
      rw [hget] at hrow'
      cases hrow'
      exact .inl List.mem_cons_self
    · rw [List.mem_singleton.mp hd] at hacts
      rcases (actsOn_provisionClient_iff hpending).mp hacts with hhub | ⟨old, hold, rfl⟩
      · exact .inl (List.mem_cons_of_mem _ (mem_serverTenants_singleton.mpr hhub))
      · rw [hget] at hold
        cases hold
        exact .inl List.mem_cons_self
  · intro t ht
    refine .inr (.inr ⟨_, List.mem_singleton_self _, (actsOn_provisionClient_iff hpending).mpr ?_⟩)
    rcases List.mem_cons.mp ht with rfl | hhub
    · exact .inr ⟨row, hget, rfl⟩
    · exact .inl (mem_serverTenants_singleton.mp hhub)

theorem rotateClientHostCert_isolated_iff (clientId : ℕ) :
    Isolated operator db (rotateClientHostCert ctx db clientId) ↔
      ∀ t ∈ okList (rotateClientHostCertChecks db clientId) fun row ↦ [row.tenantId],
        operator.MayWrite t := by
  refine isolated_ofChecks_iff fun row hchecks ↦ ?_
  have hget : db.clients.get clientId = some row := by
    obtain ⟨row', hrow', hrest⟩ := bind_eq_ok_iff.mp hchecks
    split at hrest
    · cases hrest
    · split at hrest
      · cases hrest
      · cases hrest
        exact get_of_getOr404 hrow'
  have hid : row.id = clientId := Table.pk_of_get hget
  refine isolated_iff ?_ ?_
  · rintro t (h | h | ⟨d, hd, hacts⟩)
    · exact absurd h (not_changesServer rfl)
    · exact absurd h (not_changesClient rfl)
    · rw [List.mem_singleton.mp hd] at hacts
      rcases hacts with ⟨_, _, hfalse, -⟩ | ⟨_, old, rfl, hold, rfl⟩
      · exact hfalse.elim
      · rw [hid, hget] at hold
        cases hold
        exact .inl (List.mem_singleton_self _)
  · intro t ht
    rw [List.mem_singleton.mp ht]
    exact .inr (.inr ⟨_, List.mem_singleton_self _, .inr ⟨row.id, row, rfl, hid ▸ hget, rfl⟩⟩)

theorem updateClient_isolated (hrole : operator.role ≠ .admin) (clientId : ℕ)
    (payload : ClientUpdate) :
    Isolated operator db (updateClient ctx db (getTenantScope operator) clientId payload) := by
  refine isolated_ofChecks fun row hchecks t haff ↦ ?_
  have hgate : ∃ row, clientGate db (getTenantScope operator) clientId = .ok row := by
    obtain ⟨row', hgate, -⟩ := bind_eq_ok_iff.mp hchecks
    exact ⟨row', hgate⟩
  obtain ⟨row', hgate⟩ := hgate
  obtain ⟨hget, hmay⟩ := mayWrite_of_clientGate hrole hgate
  rcases haff with h | h | ⟨d, hd, -⟩
  · exact absurd h (not_changesServer rfl)
  · obtain ⟨row'', hget', rfl⟩ := tenant_of_changesClient_modify (by intro _; rfl) rfl h
    rw [hget] at hget'
    cases hget'
    exact hmay
  · cases hd

/-- `delete_client` has checked the client, and bumps the hub. -/
theorem deleteClient_isolated_iff (hrole : operator.role ≠ .admin) (clientId : ℕ) :
    Isolated operator db (deleteClient ctx db (getTenantScope operator) clientId) ↔
      ∀ t ∈ okList (clientGate db (getTenantScope operator) clientId) fun row ↦
        serverTenants db [row.serverId], operator.MayWrite t := by
  refine isolated_ofChecks_iff fun row hgate ↦ ?_
  obtain ⟨hget, hmay⟩ := mayWrite_of_clientGate hrole hgate
  refine isolated_iff ?_ ?_
  · intro t h
    rcases (affects_requestReconfigure_iff (by rfl)).mp h with h | h
    · exact .inl h
    · obtain ⟨row', hmem, hkey, rfl⟩ := (changesClient_filter_iff rfl).mp h
      have hpk : Keyed.pk row' = clientId := by simpa using hkey
      rw [Table.mem_rows_iff, hpk, hget] at hmem
      cases hmem
      exact .inr hmay
  · intro t ht
    exact (affects_requestReconfigure_iff (by rfl)).mpr (.inl ht)

/-! ## The rule, and where it is kept -/

/-- **Tenant write isolation, exactly as far as it goes.**  For every caller that is not a
super-admin, every database and every request to the two routers: the request touches only rows of
tenants the caller may write, just when the caller may write all tenants whose rows it touches
unchecked. -/
theorem isolated_iff_exposed (hrole : operator.role ≠ .admin) (hfresh : ctx.Fresh db)
    (request : NodeRequest) :
    Isolated operator db (handleNodes ctx db (getTenantScope operator) request) ↔
      ∀ t ∈ exposed ctx db (getTenantScope operator) request, operator.MayWrite t := by
  have hread : ∀ response : Response, Isolated operator db ⟨db, [], response⟩ ↔
      ∀ t ∈ ([] : List (Option ℕ)), operator.MayWrite t :=
    fun response ↦ isolated_iff (fun t h ↦ absurd h not_affects_self) (by simp)
  have hchecked : ∀ {o : Outcome}, Isolated operator db o → (Isolated operator db o ↔
      ∀ t ∈ ([] : List (Option ℕ)), operator.MayWrite t) :=
    fun h ↦ iff_of_true h (by simp)
  rcases request with request | request
  · cases request with
    | register payload => exact hchecked (registerServer_isolated hrole hfresh payload)
    | reprovision serverId => exact reprovisionServer_isolated_iff serverId
    | list => exact hread _
    | get serverId => exact hread _
    | update serverId payload => exact hchecked (updateServer_isolated hrole serverId payload)
    | delete serverId force => exact deleteServer_isolated_iff hrole serverId force
    | discover serverId => exact discoverServerPeers_isolated_iff serverId
    | listDiscoveredPeers serverId => exact hread _
    | listAllDiscoveredPeers => exact hread _
    | rotateHostCert serverId => exact rotateServerHostCert_isolated_iff serverId
    | discoverAll => exact discoverAllServers_isolated_iff
  · cases request with
    | register payload => exact registerClient_isolated_iff hfresh payload
    | registerManual payload => exact registerManualClient_isolated_iff hfresh payload
    | reprovision clientId => exact reprovisionClient_isolated_iff clientId
    | rotateHostCert clientId => exact rotateClientHostCert_isolated_iff clientId
    | list => exact hread _
    | exportSshConfig => exact hread _
    | get clientId => exact hread _
    | update clientId payload => exact hchecked (updateClient_isolated hrole clientId payload)
    | delete clientId => exact deleteClient_isolated_iff hrole clientId

end

/-! ## The rule on one hub -/

/-- An operator of the hub's tenant may have it provisioned again. -/
theorem isolated_iff_exposed_hubOperator :
    hubOperator.role ≠ .admin ∧ exampleContext.Fresh tenantDb ∧
      Isolated hubOperator tenantDb (handleNodes exampleContext tenantDb
        (getTenantScope hubOperator) (.servers (.reprovision 1))) :=
  ⟨by decide, ⟨rfl, rfl⟩, (isolated_iff_exposed (by decide) ⟨rfl, rfl⟩ _).mpr (by decide)⟩

/-- An auditor of another tenant may too: `reprovision_server` looks the row up and queues the
task. -/
theorem foreignAuditor_reprovisions :
    foreignAuditor.role ≠ .admin ∧ exampleContext.Fresh tenantDb ∧
      ¬Isolated foreignAuditor tenantDb (handleNodes exampleContext tenantDb
        (getTenantScope foreignAuditor) (.servers (.reprovision 1))) := by
  refine ⟨by decide, ⟨rfl, rfl⟩, fun h ↦ ?_⟩
  have hmay := (reprovisionServer_isolated_iff 1).mp h
  exact absurd hmay (by decide)

end WgManager
