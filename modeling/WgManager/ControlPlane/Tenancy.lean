import WgManager.ControlPlane

/-!
# The tenant of a client

A client should belong to the tenant of its hub: what an operator sees and may change is decided row
by row, by the tenant of the row.  A host that enrolls is filed under the tenant of its token, and
the token under that of the hub.  The two requests that register a client leave its tenant empty.

So the invariant is about clients and tokens together (`Filed`), and `clients_filed_with_hub` says
that it holds as long as no client is registered on a hub that has a tenant.
-/

set_option autoImplicit false

namespace WgManager

namespace ControlPlane

section

variable {db db' : Db} {action : Action}

/-- Every client has the tenant of its hub, so that whoever can see or change the hub can see and
change the client. -/
def ClientsFiled (db : Db) : Prop :=
  ∀ c ∈ db.clients.rows, ∀ s, db.servers.get c.serverId = some s →
    c.tenantId = s.tenantId ∧ ∀ scope : TenantScope,
      scope.inScope c.tenantId = scope.inScope s.tenantId ∧
      ∀ allowed, requireTenantRole scope c.tenantId allowed =
        requireTenantRole scope s.tenantId allowed

/-- A client that `POST /clients` or `POST /clients/manual` registers goes to a hub without
tenant. -/
def RegistersUntenanted (db : Db) (action : Action) : Prop :=
  ∀ server, Registers db server action → server.tenantId = none

/-- The hub that is referred to is there, and has this tenant. -/
def FiledAt (db : Db) (filing : Filing) : Prop :=
  ∃ subnet, db.hub filing.serverId = some (filing.tenantId, subnet)

/-- Clients and tokens have the tenant of their hub. -/
structure Filed (db : Db) : Prop where
  clients : ∀ c ∈ db.clients.rows, FiledAt db c.filing
  tokens : ∀ t ∈ db.enrollmentTokens.rows, FiledAt db t.filing

theorem filedAt_of_get {server : Server} (h : db.servers.get server.id = some server) :
    FiledAt db ⟨server.id, server.tenantId⟩ :=
  ⟨server.subnet, by rw [Db.hub, h]; rfl⟩

/-- When the hubs are the same, only the new clients and tokens have to be looked at. -/
theorem Filed.frame {newClients newTokens : List Filing} (h : Filed db)
    (hframe : Frame db db' newClients newTokens) (hclients : ∀ f ∈ newClients, FiledAt db f)
    (htokens : ∀ f ∈ newTokens, FiledAt db f) : Filed db' := by
  have hat (f : Filing) (hf : FiledAt db f) : FiledAt db' f := by
    obtain ⟨subnet, hhub⟩ := hf
    exact ⟨subnet, by rw [hframe.hubs, hhub]⟩
  constructor
  · intro c hc
    apply hat
    rcases hframe.clients c hc with hnew | ⟨c₀, hc₀, hfiling⟩
    · exact hclients _ hnew
    · rw [← hfiling]
      exact h.clients c₀ hc₀
  · intro t ht
    apply hat
    rcases hframe.tokens t ht with hnew | ⟨t₀, ht₀, hfiling⟩
    · exact htokens _ hnew
    · rw [← hfiling]
      exact h.tokens t₀ ht₀

/-- A new hub takes no key that is in use. -/
theorem filedAt_insert {row : Server} {filing : Filing}
    (hservers : db'.servers = db.servers.insert row) (h : FiledAt db filing) :
    FiledAt db' filing := by
  obtain ⟨subnet, hhub⟩ := h
  rw [Db.hub, Option.map_eq_some_iff] at hhub
  obtain ⟨s, hs, hplace⟩ := hhub
  refine ⟨subnet, ?_⟩
  rw [Db.hub, hservers, Table.get_insert_of_get hs, Option.map_some, hplace]

theorem filedAt_delete {serverId : ℕ} {filing : Filing}
    (hservers : db'.servers = db.servers.delete serverId) (hne : filing.serverId ≠ serverId)
    (h : FiledAt db filing) : FiledAt db' filing := by
  obtain ⟨subnet, hhub⟩ := h
  refine ⟨subnet, ?_⟩
  rw [Db.hub, hservers, Table.get_delete, if_neg hne]
  exact hhub

/-- What an action preserves. -/
theorem filed_step (h : Filed db) (hok : RegistersUntenanted db action)
    (hstep : step db action = some db') : Filed db' := by
  cases move_of_step hstep with
  | stay hframe => exact h.frame hframe (by simp) (by simp)
  | createTenant row slug pool hcreates hpool hdb =>
    rw [hdb]
    exact ⟨h.clients, h.tokens⟩
  | setPool row pool hsets hdb =>
    rw [hdb]
    exact ⟨h.clients, h.tokens⟩
  | addServer row tenant htenant hrow hpool hservers hothers =>
    obtain ⟨-, hclients, htokens⟩ := hothers
    constructor
    · rw [hclients]
      exact fun c hc ↦ filedAt_insert hservers (h.clients c hc)
    · rw [htokens]
      exact fun t ht ↦ filedAt_insert hservers (h.tokens t ht)
  | dropServer serverId hservers htenants hclients htokens =>
    constructor
    · intro c hc
      obtain ⟨hold, hne⟩ := hclients c hc
      exact filedAt_delete hservers hne (h.clients c hold)
    · intro t ht
      obtain ⟨hold, hne⟩ := htokens t ht
      exact filedAt_delete hservers hne (h.tokens t hold)
  | register server hregisters hserver hframe =>
    refine h.frame hframe ?_ (by simp)
    intro f hf
    rw [List.mem_singleton.mp hf, ← hok server hregisters]
    exact filedAt_of_get hserver
  | admitting token htoken hframe =>
    refine h.frame hframe ?_ (by simp)
    intro f hf
    rw [List.mem_singleton.mp hf]
    exact h.tokens token htoken
  | mint server hserver hframe =>
    refine h.frame hframe (by simp) ?_
    intro f hf
    rw [List.mem_singleton.mp hf]
    exact filedAt_of_get hserver

theorem Filed.clientsFiled (h : Filed db) : ClientsFiled db := by
  intro c hc s hs
  obtain ⟨subnet, hhub⟩ := h.clients c hc
  have htenant : c.tenantId = s.tenantId := by
    have hplace : db.hub c.serverId = some (c.tenantId, subnet) := hhub
    rw [Db.hub, hs, Option.map_some, Option.some.injEq, Prod.mk.injEq] at hplace
    exact hplace.1.symm
  rw [htenant]
  exact ⟨rfl, fun _ ↦ ⟨rfl, fun _ ↦ rfl⟩⟩

/-- **When a client has the tenant of its hub.**  From no clients and no tokens, in every run in
which no client is registered on a hub that has a tenant. -/
theorem clients_filed_with_hub {actions : List Action} (hclients : db.clients.rows = [])
    (htokens : db.enrollmentTokens.rows = []) (hok : Run.Meets step RegistersUntenanted db actions)
    (hrun : Run.run step db actions = some db') : ClientsFiled db' := by
  refine (Run.run_invariant (I := Filed) ?_ ?_ hok hrun).clientsFiled
  · exact fun s action s' h hok hstep ↦ filed_step h hok hstep
  · refine ⟨fun c hc ↦ ?_, fun t ht ↦ ?_⟩
    · rw [hclients] at hc
      cases hc
    · rw [htokens] at ht
      cases ht

/-- A hub of the default tenant, ready, and an SSH role of the tenant. -/
def readyHubDb : Db where
  tenants := .singleton defaultTenant
  sshKeys := .singleton { id := 1, tenantId := some 1, name := "deploy", createdAt := 0 }
  servers := .singleton { exampleHub with tenantId := some 1, status := .ready }

/-- `POST /enrollment-tokens` for the hub. -/
def mintJoinToken : Action :=
  .mintToken { exampleContext with auditId := 2 } (joinEnv []).lib "join-me"
    (getTenantScope exampleAdmin) { serverId := 1, sshKeyId := 1, sshUsername := "deploy" }

/-- A token is minted, and a host enrolls with it. -/
theorem clients_filed_with_hub_enrolled :
    ((readyHubDb.act mintJoinToken).act (.enroll (joinEnv []) joinCall)).clients.rows.length = 1 ∧
      ClientsFiled ((readyHubDb.act mintJoinToken).act (.enroll (joinEnv []) joinCall)) := by
  have hok : Run.Meets step RegistersUntenanted readyHubDb
      [mintJoinToken, .enroll (joinEnv []) joinCall] :=
    ⟨fun _ h ↦ h.elim, fun _ _ ↦ ⟨fun _ h ↦ h.elim, fun _ _ ↦ trivial⟩⟩
  exact ⟨by decide +kernel, clients_filed_with_hub rfl rfl hok rfl⟩

/-- `POST /clients/manual` for the hub. -/
def registerPhone : Action :=
  .clients exampleContext (getTenantScope exampleAdmin) (.registerManual ⟨"phone", 1⟩)

/-- A manual client is registered, and belongs to nobody. -/
theorem phone_without_tenant :
    ∃ db, Run.run step readyHubDb [registerPhone] = some db ∧ ¬ClientsFiled db := by
  refine ⟨_, rfl, fun h ↦ ?_⟩
  have hclient : ((readyHubDb.act registerPhone).clients.rows.map fun c ↦
      (c.serverId, c.tenantId)) = [(1, none)] := by decide +kernel
  have hserver : ((readyHubDb.act registerPhone).servers.get 1).map Server.tenantId =
      some (some 1) := by decide +kernel
  obtain ⟨c, hc, hfiling⟩ := List.exists_of_mem_map (f := fun c : Client ↦ (c.serverId, c.tenantId))
    (b := (1, none)) (l := (readyHubDb.act registerPhone).clients.rows)
    (by rw [hclient]; exact List.mem_cons_self)
  rw [Prod.mk.injEq] at hfiling
  rw [Option.map_eq_some_iff] at hserver
  obtain ⟨s, hs, htenant⟩ := hserver
  obtain ⟨hsame, -⟩ := h c hc s (by rw [hfiling.1]; exact hs)
  rw [hfiling.2, htenant] at hsame
  cases hsame

end

end ControlPlane

end WgManager
