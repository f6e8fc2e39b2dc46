import WgManager.ControlPlane
import WgManager.Enroll.Addresses

/-!
# Addresses over whole histories

One after the other, the requests of the control plane read what they write.  So the address that a
client gets is free at the moment it is stored, and it stays the client's alone until the client is
deleted: `AddressesInOrder` is an invariant of every run (`addresses_are_in_order`).

`address_of_step` says what an action can do to the addresses of the hubs and of their clients, from
a distance at which the other columns are not seen: a hub is its subnet and its address
(`Db.network`), a client is its hub and its address (`SamePlace`).
-/

set_option autoImplicit false

namespace WgManager

/-- The subnet and the address of a hub, which no update changes. -/
def Db.network (db : Db) (serverId : ℕ) : Option (IPv4Network × IPv4Interface) :=
  (db.servers.get serverId).map fun row ↦ (row.subnet, row.address)

namespace ControlPlane

/-- The client's address is one for its hub to give out. -/
structure InSubnet (subnet : IPv4Network) (hub address : IPv4Interface) : Prop where
  proper : address.Proper
  contains : subnet.contains address.ip = true
  not_network : address.ip ≠ subnet.networkAddress
  not_broadcast : address.ip ≠ subnet.broadcastAddress
  not_hub : address.ip ≠ hub.ip

/-- Every client has its hub and an address of the hub's subnet, which neither the hub nor another
client of the hub has. -/
structure AddressesInOrder (db : Db) : Prop where
  hubs : ∀ id subnet hub, db.network id = some (subnet, hub) → hub.Proper
  placed : ∀ c ∈ db.clients.rows, ∃ subnet hub, db.network c.serverId = some (subnet, hub) ∧
    ∀ address, c.address = some address → InSubnet subnet hub address
  distinct : ∀ c ∈ db.clients.rows, ∀ d ∈ db.clients.rows, c.id ≠ d.id → c.serverId = d.serverId →
    ∀ i j, c.address = some i → d.address = some j → i.ip ≠ j.ip

/-- The client is the same, with the same hub and the same address. -/
def SamePlace (c₀ c : Client) : Prop :=
  c₀.id = c.id ∧ c₀.serverId = c.serverId ∧ c₀.address = c.address

/-- The hubs have their subnets and addresses, and there are no clients but those from before and
the ones given. -/
structure Kept (db db' : Db) (new : List Client) : Prop where
  networks : ∀ id, db'.network id = db.network id
  clients : ∀ c ∈ db'.clients.rows, c ∈ new ∨ ∃ c₀ ∈ db.clients.rows, SamePlace c₀ c

/-- What an action can do to the addresses. -/
inductive AddressMove (db db' : Db) : Prop
  | keep (h : Kept db db' [])
  | addServer (row : Server) (hproper : row.address.Proper)
      (hservers : db'.servers = db.servers.insert row) (hclients : db'.clients = db.clients)
  | dropServer (serverId : ℕ) (hservers : db'.servers = db.servers.delete serverId)
      (hclients : ∀ c ∈ db'.clients.rows, c ∈ db.clients.rows ∧ c.serverId ≠ serverId)
  | allocate (row : Client) (h : Enroll.Allocated db row) (hkept : Kept db db' [row])

section

variable {db db' : Db} {new : List Client}

/-! ## What is kept -/

theorem SamePlace.refl (c : Client) : SamePlace c c := ⟨rfl, rfl, rfl⟩

theorem kept_of_eq (hservers : db'.servers = db.servers) (hclients : db'.clients = db.clients) :
    Kept db db' [] := by
  refine ⟨fun id ↦ ?_, fun c hc ↦ .inr ⟨c, ?_, .refl c⟩⟩
  · rw [Db.network, hservers, Db.network]
  · rwa [hclients] at hc

theorem Kept.refl (db : Db) : Kept db db [] := kept_of_eq rfl rfl

theorem Kept.persistAudit (h : Kept db db' new) {ctx : Context} {event resourceType action : String}
    {resourceId tenantId : Option ℕ} {before after : Option RowImage} :
    Kept db (db'.persistAudit ctx event resourceType action resourceId tenantId before after)
      new := by
  obtain ⟨hnetworks, hclients⟩ := h
  exact ⟨hnetworks, hclients⟩

/-- A change of a hub's other columns is not seen. -/
theorem Kept.modifyServer (h : Kept db db' new) {serverId : ℕ} {f : Server → Server}
    {hf : ∀ r, Keyed.pk (f r) = Keyed.pk r}
    (hplace : ∀ r, (f r).subnet = r.subnet ∧ (f r).address = r.address) :
    Kept db { db' with servers := db'.servers.modify serverId f hf } new := by
  refine ⟨fun id ↦ ?_, h.clients⟩
  rw [← h.networks id, Db.network, Db.network, Table.get_modify]
  split
  · rcases db'.servers.get id with _ | row
    · rfl
    · simp [hplace row]
  · rfl

theorem Kept.requestReconfigure (h : Kept db db' new) (serverId : ℕ) (answer : ℕ × Body) :
    Kept db (requestReconfigure db' serverId answer).db new := by
  rcases hget : db'.servers.get serverId with _ | row
  · rw [requestReconfigure_of_none hget]
    exact h
  · rw [requestReconfigure_of_some hget]
    exact h.modifyServer fun _ ↦ ⟨rfl, rfl⟩

/-- Nor is a change of a client's other columns. -/
theorem kept_modifyClient {clientId : ℕ} {f : Client → Client}
    {hf : ∀ r, Keyed.pk (f r) = Keyed.pk r} (hplace : ∀ r, SamePlace r (f r)) :
    Kept db { db with clients := db.clients.modify clientId f hf } [] := by
  refine ⟨fun _ ↦ rfl, fun c hc ↦ .inr ?_⟩
  rcases Table.mem_modify hf hc with ⟨hold, -⟩ | ⟨c₀, hc₀, -, rfl⟩
  · exact ⟨c, hold, .refl c⟩
  · exact ⟨c₀, hc₀, hplace c₀⟩

theorem kept_insertClient (db : Db) (row : Client) :
    Kept db { db with clients := db.clients.insert row } [row] := by
  refine ⟨fun _ ↦ rfl, fun c hc ↦ ?_⟩
  rcases Table.mem_insert hc with hold | rfl
  · exact .inr ⟨c, hold, .refl c⟩
  · exact .inl (List.mem_singleton_self _)

theorem kept_deleteClient (db : Db) (clientId : ℕ) :
    Kept db { db with clients := db.clients.delete clientId } [] :=
  ⟨fun _ ↦ rfl, fun c hc ↦ .inr ⟨c, (List.mem_filter.mp hc).1, .refl c⟩⟩

theorem addressMove_ofChecks {α : Type} {checks : Except HttpError α} {effect : α → Outcome}
    (h : ∀ a, checks = .ok a → AddressMove db (effect a).db) :
    AddressMove db (Outcome.ofChecks db checks effect).db := by
  rcases hchecks : checks with e | a
  · exact .keep (.refl db)
  · exact h a hchecks

/-! ## The moves -/

theorem address_of_handleServers (ctx : Context) (scope : TenantScope) (request : ServerRequest) :
    AddressMove db (handleServers ctx db scope request).db := by
  cases request with
  | register payload =>
    refine addressMove_ofChecks fun (tenant, network, serverHost) hchecks ↦ ?_
    have hhost : serverHost ∈ network.hosts := host_of_registerServerChecks hchecks
    exact .addServer (newServer ctx payload tenant network serverHost)
      ⟨IPv4Network.lt_of_mem_hosts hhost, network.prefixlen_le⟩ rfl rfl
  | reprovision serverId =>
    exact addressMove_ofChecks fun _ _ ↦ .keep ((Kept.refl db).modifyServer fun _ ↦ ⟨rfl, rfl⟩)
  | update serverId payload =>
    exact addressMove_ofChecks fun _ _ ↦
      .keep ((Kept.refl db).modifyServer (f := payload.apply) fun _ ↦ ⟨rfl, rfl⟩).persistAudit
  | delete serverId force =>
    refine addressMove_ofChecks fun _ hchecks ↦ ?_
    obtain ⟨-, hattached, -⟩ := deleteServerChecks_eq_ok hchecks
    exact .dropServer serverId rfl fun c hc ↦ mem_clients_withoutServer hattached hc
  | discover serverId => exact addressMove_ofChecks fun _ _ ↦ .keep (.refl db)
  | rotateHostCert serverId => exact addressMove_ofChecks fun _ _ ↦ .keep (.refl db)
  | _ => exact .keep (.refl db)

theorem address_of_handleClients (ctx : Context) (scope : TenantScope) (request : ClientRequest) :
    AddressMove db (handleClients ctx db scope request).db := by
  cases request with
  | register payload =>
    refine addressMove_ofChecks fun (server, allocated) hchecks ↦ ?_
    obtain ⟨_, -, hrest⟩ := bind_eq_ok_iff.mp hchecks
    obtain ⟨_, -, hhub⟩ := bind_eq_ok_iff.mp hrest
    exact .allocate (newClient ctx payload allocated) (Enroll.allocated_of_hubFor hhub rfl rfl)
      (kept_insertClient db _)
  | registerManual payload =>
    refine addressMove_ofChecks fun (server, allocated) hchecks ↦ ?_
    obtain ⟨_, -, hhub⟩ := bind_eq_ok_iff.mp hchecks
    have hkept := kept_insertClient db (newManualClient ctx payload allocated)
    refine .allocate (newManualClient ctx payload allocated)
      (Enroll.allocated_of_hubFor hhub rfl rfl) ?_
    dsimp only
    split
    · exact hkept
    · exact hkept.requestReconfigure _ _
  | reprovision clientId =>
    exact addressMove_ofChecks fun _ _ ↦ .keep (kept_modifyClient fun _ ↦ ⟨rfl, rfl, rfl⟩)
  | rotateHostCert clientId => exact addressMove_ofChecks fun _ _ ↦ .keep (.refl db)
  | update clientId payload =>
    exact addressMove_ofChecks fun _ _ ↦
      .keep (kept_modifyClient (f := payload.apply) fun _ ↦ ⟨rfl, rfl, rfl⟩)
  | delete clientId =>
    exact addressMove_ofChecks fun _ _ ↦
      .keep ((kept_deleteClient db clientId).persistAudit.requestReconfigure _ _)
  | _ => exact .keep (.refl db)

theorem address_of_enroll (env : EnrollEnv) (call : EnrollCall) :
    AddressMove db (env.enroll db call).db := by
  rw [EnrollEnv.enroll]
  split
  · exact .keep (.refl db)
  · next committed admitted htransaction =>
    obtain ⟨_, -, hredeem⟩ := bind_eq_ok_iff.mp htransaction
    obtain ⟨row, payload, -, hadm, rfl⟩ := withEnrolled_of_redeem hredeem
    have hkept : Kept db (env.withEnrolled db row admitted.client) [admitted.client] :=
      ⟨fun _ ↦ rfl, (kept_insertClient db admitted.client).clients⟩
    refine .allocate admitted.client (Enroll.allocated_of_admitClient hadm) ?_
    rcases finish_db env (env.withEnrolled db row admitted.client) admitted with hdb | ⟨id, hdb⟩
    · rw [hdb]
      exact hkept
    · rw [hdb]
      exact hkept.modifyServer fun _ ↦ ⟨rfl, rfl⟩

/-- The requests about tenants, SSH roles and tokens write other tables. -/
theorem address_of_handleTenants (ctx : TenantContext) (caller : Option Operator)
    (request : TenantRequest) : AddressMove db (handleTenants ctx db caller request).db := by
  cases request with
  | create body => exact addressMove_ofChecks fun _ _ ↦ .keep (kept_of_eq rfl rfl)
  | update slug body => exact addressMove_ofChecks fun _ _ ↦ .keep (kept_of_eq rfl rfl)
  | _ => exact .keep (.refl db)

theorem address_of_tenantsCreate (ctx : TenantContext) (args : TenantCreate) :
    AddressMove db (tenantsCreate ctx db args).1 := by
  rw [tenantsCreate]
  rcases tenantsCreateChecks ctx db args with message | ⟨slug, pool⟩
  · exact .keep (.refl db)
  · exact .keep (kept_of_eq rfl rfl)

theorem address_of_handleSshKeys (ctx : Context) (scope : TenantScope) (request : SSHKeyRequest) :
    AddressMove db (handleSshKeys ctx db scope request).db := by
  cases request with
  | create payload => exact addressMove_ofChecks fun _ _ ↦ .keep (kept_of_eq rfl rfl)
  | update keyId name => exact addressMove_ofChecks fun _ _ ↦ .keep (kept_of_eq rfl rfl)
  | delete keyId => exact addressMove_ofChecks fun _ _ ↦ .keep (kept_of_eq rfl rfl)
  | _ => exact .keep (.refl db)

/-- **What an action can do to the addresses.** -/
theorem address_of_step {action : Action} (h : step db action = some db') : AddressMove db db' := by
  obtain rfl : db.act action = db' := Option.some.inj h
  cases action with
  | tenants ctx caller request => exact address_of_handleTenants ctx caller request
  | tenantsCreate ctx args => exact address_of_tenantsCreate ctx args
  | servers ctx scope request => exact address_of_handleServers ctx scope request
  | clients ctx scope request => exact address_of_handleClients ctx scope request
  | sshKeys ctx scope request => exact address_of_handleSshKeys ctx scope request
  | mintToken ctx lib token scope payload =>
    exact addressMove_ofChecks fun _ _ ↦ .keep (kept_of_eq rfl rfl)
  | revokeToken ctx scope tokenId =>
    refine addressMove_ofChecks fun _ _ ↦ ?_
    split
    · exact .keep (.refl db)
    · exact .keep (kept_of_eq rfl rfl)
  | enroll env call => exact address_of_enroll env call
  | provisionServer serverId result =>
    exact .keep ((Kept.refl db).modifyServer fun _ ↦ ⟨rfl, rfl⟩)
  | provisionClient clientId result =>
    exact .keep (kept_modifyClient (f := result.applyClient) fun _ ↦ ⟨rfl, rfl, rfl⟩)

/-! ## The invariant -/

theorem inOrder_kept (h : AddressesInOrder db) (hkept : Kept db db' []) : AddressesInOrder db' := by
  have hold : ∀ c ∈ db'.clients.rows, ∃ c₀ ∈ db.clients.rows, SamePlace c₀ c := fun c hc ↦
    (hkept.clients c hc).resolve_left List.not_mem_nil
  refine ⟨?_, ?_, ?_⟩
  · intro id
    rw [hkept.networks id]
    exact h.hubs id
  · intro c hc
    obtain ⟨c₀, hc₀, -, hserver, haddress⟩ := hold c hc
    rw [← hserver, ← haddress, hkept.networks]
    exact h.placed c₀ hc₀
  · intro c hc d hd hne hserver i j hi hj
    obtain ⟨c₀, hc₀, hcid, hcserver, hcaddress⟩ := hold c hc
    obtain ⟨d₀, hd₀, hdid, hdserver, hdaddress⟩ := hold d hd
    refine h.distinct c₀ hc₀ d₀ hd₀ ?_ ?_ i j (hcaddress.trans hi) (hdaddress.trans hj)
    · rwa [hcid, hdid]
    · rw [hcserver, hdserver, hserver]

theorem inOrder_addServer (h : AddressesInOrder db) {row : Server} (hproper : row.address.Proper)
    (hservers : db'.servers = db.servers.insert row) (hclients : db'.clients = db.clients) :
    AddressesInOrder db' := by
  refine ⟨?_, ?_, ?_⟩
  · intro id subnet hub hnetwork
    rw [Db.network, hservers] at hnetwork
    obtain ⟨server, hserver, hcolumns⟩ := Option.map_eq_some_iff.mp hnetwork
    rcases Table.get_insert_cases hserver with hold | ⟨-, rfl⟩
    · exact h.hubs id subnet hub (Option.map_eq_some_iff.mpr ⟨server, hold, hcolumns⟩)
    · rw [Prod.mk.injEq] at hcolumns
      rw [← hcolumns.2]
      exact hproper
  · intro c hc
    rw [hclients] at hc
    obtain ⟨subnet, hub, hnetwork, hplaced⟩ := h.placed c hc
    obtain ⟨server, hserver, hcolumns⟩ := Option.map_eq_some_iff.mp hnetwork
    refine ⟨subnet, hub, ?_, hplaced⟩
    rw [Db.network, hservers, Table.get_insert_of_get hserver, Option.map_some, hcolumns]
  · rw [hclients]
    exact h.distinct

theorem inOrder_dropServer (h : AddressesInOrder db) {serverId : ℕ}
    (hservers : db'.servers = db.servers.delete serverId)
    (hclients : ∀ c ∈ db'.clients.rows, c ∈ db.clients.rows ∧ c.serverId ≠ serverId) :
    AddressesInOrder db' := by
  refine ⟨?_, ?_, ?_⟩
  · intro id subnet hub hnetwork
    rw [Db.network, hservers, Table.get_delete] at hnetwork
    split at hnetwork
    · rw [Option.map_none] at hnetwork
      exact absurd hnetwork.symm (Option.some_ne_none _)
    · exact h.hubs id subnet hub hnetwork
  · intro c hc
    obtain ⟨hold, hne⟩ := hclients c hc
    rw [Db.network, hservers, Table.get_delete, if_neg hne]
    exact h.placed c hold
  · intro c hc d hd
    exact h.distinct c (hclients c hc).1 d (hclients d hd).1

/-- What `allocate_client_ip` returns is an address for the hub to give out. -/
theorem inSubnet_of_free {clients : Table Client} {server : Server} {a : IPv4Address}
    (h : FreeAddress clients server a) : InSubnet server.subnet server.address ⟨a, 32⟩ where
  proper := by
    have hle := (IPv4Network.contains_iff.mp h.contains).2
    exact ⟨Nat.lt_of_le_of_lt hle server.subnet.broadcastAddress_lt, Nat.le_refl 32⟩
  contains := h.contains
  not_network := h.not_network
  not_broadcast := h.not_broadcast
  not_hub := h.not_hub

theorem inOrder_allocate (h : AddressesInOrder db) {row : Client} (halloc : Enroll.Allocated db row)
    (hkept : Kept db db' [row]) : AddressesInOrder db' := by
  obtain ⟨server, a, hserver, hfound, haddress⟩ := halloc
  have hfree : FreeAddress db.clients server a := (allocateClientIp_eq_some_iff.mp hfound).1
  have hid : server.id = row.serverId := Table.pk_of_get hserver
  -- no client from before has the address that the new one gets
  have hnew {c c₀ : Client} (hc₀ : c₀ ∈ db.clients.rows) (hplace : SamePlace c₀ c)
      (hsame : c.serverId = row.serverId) {i : IPv4Interface} (hi : c.address = some i) :
      i.ip ≠ a := by
    obtain ⟨-, hplaceServer, hplaceAddress⟩ := hplace
    refine hfree.not_held c₀ hc₀ ?_ i (hplaceAddress.trans hi)
    rw [hplaceServer, hsame, hid]
  refine ⟨?_, ?_, ?_⟩
  · intro id
    rw [hkept.networks id]
    exact h.hubs id
  · intro c hc
    rw [hkept.networks]
    rcases hkept.clients c hc with hrow | ⟨c₀, hc₀, -, hplaceServer, hplaceAddress⟩
    · rw [List.mem_singleton.mp hrow]
      refine ⟨server.subnet, server.address, ?_, ?_⟩
      · rw [Db.network, hserver, Option.map_some]
      · intro address haddr
        rw [haddress, Option.some.injEq] at haddr
        rw [← haddr]
        exact inSubnet_of_free hfree
    · rw [← hplaceServer, ← hplaceAddress]
      exact h.placed c₀ hc₀
  · intro c hc d hd hne hsame i j hi hj
    rcases hkept.clients c hc with hc | ⟨c₀, hc₀, hcplace⟩
    · rw [List.mem_singleton] at hc
      rcases hkept.clients d hd with hd | ⟨d₀, hd₀, hdplace⟩
      · rw [List.mem_singleton] at hd
        exact absurd (by rw [hc, hd]) hne
      · rw [hc, haddress, Option.some.injEq] at hi
        rw [hc] at hsame
        rw [← hi]
        exact (hnew hd₀ hdplace hsame.symm hj).symm
    · rcases hkept.clients d hd with hd | ⟨d₀, hd₀, hdplace⟩
      · rw [List.mem_singleton] at hd
        rw [hd, haddress, Option.some.injEq] at hj
        rw [hd] at hsame
        rw [← hj]
        exact hnew hc₀ hcplace hsame hi
      · obtain ⟨hcid, hcserver, hcaddress⟩ := hcplace
        obtain ⟨hdid, hdserver, hdaddress⟩ := hdplace
        refine h.distinct c₀ hc₀ d₀ hd₀ ?_ ?_ i j (hcaddress.trans hi) (hdaddress.trans hj)
        · rwa [hcid, hdid]
        · rw [hcserver, hdserver, hsame]

/-- What an action preserves. -/
theorem inOrder_step {action : Action} (h : AddressesInOrder db)
    (hstep : step db action = some db') : AddressesInOrder db' := by
  rcases address_of_step hstep with hkept | ⟨row, hproper, hservers, hclients⟩ |
    ⟨id, hservers, hclients⟩ | ⟨row, halloc, hkept⟩
  · exact inOrder_kept h hkept
  · exact inOrder_addServer h hproper hservers hclients
  · exact inOrder_dropServer h hservers hclients
  · exact inOrder_allocate h halloc hkept

theorem inOrder_run {actions : List Action} (h : AddressesInOrder db)
    (hrun : Run.run step db actions = some db') : AddressesInOrder db' :=
  Run.run_invariant' (fun _ _ _ hI hstep ↦ inOrder_step hI hstep) h hrun

/-- A database without hubs and clients is in order. -/
theorem inOrder_of_no_hubs (hservers : db.servers.rows = []) (hclients : db.clients.rows = []) :
    AddressesInOrder db := by
  refine ⟨?_, ?_, ?_⟩
  · intro id subnet hub hnetwork
    rw [Db.network, Table.get, hservers] at hnetwork
    exact absurd hnetwork.symm (Option.some_ne_none _)
  · rw [hclients]
    intro c hc
    exact absurd hc List.not_mem_nil
  · rw [hclients]
    intro c hc
    exact absurd hc List.not_mem_nil

end

/-- **Addresses are allocated exactly.**  On the texts of the columns, `allocate_client_ip` returns
the least address of the subnet that is not reserved and not held by a client of the hub, and raises
`IPPoolExhausted` when there is none, whatever the subnet the schema accepts and whatever the
clients; and every run of the control plane keeps the addresses in order. -/
theorem addresses_are_in_order :
    (∀ value network, parseStrictSubnet value = some network →
      ∃ serverHost rest, network.hosts = serverHost :: rest ∧
        IPv4Interface.Proper ⟨serverHost, network.prefixlen⟩) ∧
    (∀ (clients : Table Client) (server : Server), server.address.Proper →
      (∀ c ∈ clients.rows, ∀ i, c.address = some i → i.Proper) →
      (∀ a, allocateFromTexts server.subnet.text server.address.text
          (addressTexts clients server.id) = some (some a) ↔
        IsLeast {b | FreeAddress clients server b} a) ∧
      (allocateFromTexts server.subnet.text server.address.text
          (addressTexts clients server.id) = some none ↔
        ∀ a, ¬FreeAddress clients server a)) ∧
    ∀ db db' actions, AddressesInOrder db → Run.run step db actions = some db' →
      AddressesInOrder db' := by
  refine ⟨fun value network h ↦ exists_serverHost h, ?_, fun db db' actions h hrun ↦
    inOrder_run h hrun⟩
  intro clients server hserver hclients
  rw [allocateFromTexts_eq hserver hclients]
  refine ⟨fun a ↦ ?_, ?_⟩
  · rw [Option.some.injEq, allocateClientIp_eq_some_iff]
  · rw [Option.some.injEq, allocateClientIp_eq_none_iff]

/-- The one client that a hub in `10.9.0.0/30` has room for. -/
def onlyClient : Client where
  id := 1
  name := "web"
  serverId := 1
  address := some ⟨168361986, 32⟩
  createdAt := 0

/-- `10.9.0.0/30` is accepted, is full with one client, and a hub in it is registered in order. -/
theorem addresses_are_in_order_smallest :
    (∃ serverHost rest, exampleSubnet.hosts = serverHost :: rest ∧
      IPv4Interface.Proper ⟨serverHost, 30⟩) ∧
    (∀ a, ¬FreeAddress (.singleton onlyClient) exampleHub a) ∧
    AddressesInOrder (defaultTenantDb.act registerHub) := by
  have hproper : ∀ c ∈ (Table.singleton onlyClient).rows, ∀ i, c.address = some i → i.Proper := by
    intro c hc i hi
    rw [List.mem_singleton.mp hc] at hi
    cases hi
    exact ⟨by decide, by decide⟩
  have hhub : exampleHub.address.Proper := ⟨by decide, by decide⟩
  refine ⟨?_, ?_, ?_⟩
  · have haccepted : parseStrictSubnet "10.9.0.0/30" = some exampleSubnet := by
      rw [parseStrictSubnet, IPv4Network.parse, String.toList_ofList]
      rfl
    exact addresses_are_in_order.1 "10.9.0.0/30" exampleSubnet haccepted
  · refine (addresses_are_in_order.2.1 (.singleton onlyClient) exampleHub hhub hproper).2.mp ?_
    rw [allocateFromTexts_eq hhub hproper]
    decide
  · exact addresses_are_in_order.2.2 defaultTenantDb _ [registerHub]
      (inOrder_of_no_hubs rfl rfl) rfl

end ControlPlane

end WgManager
