import WgManager.Routers.Clients
import WgManager.Routers.SshKeys
import WgManager.Routers.EnrollmentTokens

/-!
# Tenant read isolation

What can a caller learn about the rows of tenants it is not joined to?  The question is about two
runs: a request is answered in two databases that agree on everything the caller may see (`Agree`),
and nothing is learnt when the two answers are the same.

A list narrows its query and a single row answers 404 when it is out of scope, so that both depend
on the visible part of one table only (`listInScope_eq`, `getInScope_eq`).  `get_enrollment_token`
is different on purpose: it answers 403 for a token of another tenant, with the tenant in the
message, and 404 only for a token that is not there.  So its answer also depends on whether there is
such a token and whose it is (`SameOwner`), and on nothing else.

The handlers for discovered peers and for the SSH configuration do not ask for the scope and are
not `Scoped`.
-/

set_option autoImplicit false

namespace WgManager

/-! ## What a caller may see -/

/-- The operator is joined to the tenant. -/
def Operator.joinedTo (operator : Operator) (tenantId : Option ℕ) : Bool :=
  operator.joins.rows.any fun join ↦ tenantId == some join.tenantId

/-- The rows of a table whose tenant the operator is joined to. -/
def visible {α : Type} [Keyed α] [HasTenant α] (operator : Operator) (table : Table α) : Table α :=
  table.filter fun row ↦ operator.joinedTo (HasTenant.tenantId row)

/-- The discovered peers on servers the operator may see. -/
def visiblePeers (operator : Operator) (db : Db) : Table DiscoveredPeer :=
  db.discoveredPeers.filter fun peer ↦
    (db.servers.get peer.serverId).any fun server ↦ operator.joinedTo server.tenantId

/-- Two databases agree on all rows the operator may see. -/
structure Agree (operator : Operator) (db₁ db₂ : Db) : Prop where
  sshKeys : visible operator db₁.sshKeys = visible operator db₂.sshKeys
  servers : visible operator db₁.servers = visible operator db₂.servers
  clients : visible operator db₁.clients = visible operator db₂.clients
  enrollmentTokens :
    visible operator db₁.enrollmentTokens = visible operator db₂.enrollmentTokens
  discoveredPeers : visiblePeers operator db₁ = visiblePeers operator db₂

/-- The `GET` requests of the four routers. -/
inductive ReadRequest
  | listServers
  | getServer (serverId : ℕ)
  | listServerDiscoveredPeers (serverId : ℕ)
  | listAllDiscoveredPeers
  | listClients
  | exportSshConfig
  | getClient (clientId : ℕ)
  | listSshKeys
  | getSshKey (keyId : ℕ)
  | listEnrollmentTokens (serverId : Option ℕ) (active : Bool)
  | getEnrollmentToken (tokenId : ℕ)
  deriving DecidableEq

/-- The answer to a `GET` request. -/
def ReadRequest.response (ctx : Context) (db : Db) (scope : TenantScope) : ReadRequest → Response
  | .listServers => WgManager.listServers db scope
  | .getServer serverId => WgManager.getServer db scope serverId
  | .listServerDiscoveredPeers serverId => WgManager.listServerDiscoveredPeers db serverId
  | .listAllDiscoveredPeers => WgManager.listAllDiscoveredPeers db
  | .listClients => WgManager.listClients db scope
  | .exportSshConfig => WgManager.exportSshConfig db
  | .getClient clientId => WgManager.getClient db scope clientId
  | .listSshKeys => WgManager.listSshKeys db scope
  | .getSshKey keyId => WgManager.getSshKey db scope keyId
  | .listEnrollmentTokens serverId active =>
    WgManager.listEnrollmentTokens ctx db scope serverId active
  | .getEnrollmentToken tokenId => WgManager.getEnrollmentToken ctx db scope tokenId

/-- The handler of the request asks for the caller's scope. -/
def ReadRequest.Scoped : ReadRequest → Prop
  | .listServerDiscoveredPeers _ | .listAllDiscoveredPeers | .exportSshConfig => False
  | _ => True

instance (request : ReadRequest) : Decidable request.Scoped := by
  cases request <;> first | exact isTrue trivial | exact isFalse id

/-- In both databases the token is there, and of the same tenant, or it is not there. -/
def SameOwner (db₁ db₂ : Db) (tokenId : ℕ) : Prop :=
  (db₁.enrollmentTokens.get tokenId).map EnrollmentToken.tenantId =
    (db₂.enrollmentTokens.get tokenId).map EnrollmentToken.tenantId

/-! ## The two ways of hiding a row -/

section

variable {operator : Operator} {ctx : Context} {db₁ db₂ : Db}

/-- For a caller that is not a super-admin, the scope is the set of joined tenants. -/
theorem inScope_eq (hrole : operator.role ≠ .admin) (tenantId : Option ℕ) :
    (getTenantScope operator).inScope tenantId = operator.joinedTo tenantId := by
  rw [TenantScope.inScope, isSuperAdmin_eq_false hrole, Bool.false_or, Operator.joinedTo]
  cases tenantId with
  | none => simp
  | some t =>
    have hmem : t ∈ (getTenantScope operator).tenantIds ↔
        ∃ join ∈ operator.joins.rows, join.tenantId = t := by
      rw [getTenantScope, List.mem_insertionSort, List.mem_map]
    rw [Bool.eq_iff_iff, Option.any_some, List.contains_iff_mem, hmem, List.any_eq_true]
    simp only [beq_iff_eq, Option.some.injEq, eq_comm (a := t)]

variable {α : Type} [Keyed α] [HasTenant α]

theorem listInScope_eq (hrole : operator.role ≠ .admin) (table : Table α) :
    listInScope (getTenantScope operator) table = (visible operator table).rows := by
  simp only [listInScope, inScope_eq hrole]
  rfl

theorem getInScope_eq (hrole : operator.role ≠ .admin) (table : Table α) (id : ℕ)
    (detail : String) :
    getInScope (getTenantScope operator) table id detail =
      getOr404 (visible operator table) id detail := by
  simp only [getInScope, getOr404, visible, Table.get_filter, inScope_eq hrole]
  cases table.get id with
  | none => rfl
  | some row =>
    by_cases hrow : operator.joinedTo (HasTenant.tenantId row) = true <;>
      simp [Option.filter_some, hrow]

/-- A selection of visible rows only is a selection from the visible rows. -/
theorem select_eq_of_visible {table₁ table₂ : Table α} {p : α → Bool}
    (h : visible operator table₁ = visible operator table₂)
    (hp : ∀ row, p row = true → operator.joinedTo (HasTenant.tenantId row) = true) :
    table₁.select p = table₂.select p := by
  have hselect : ∀ table : Table α, table.select p = (visible operator table).rows.filter p := by
    intro table
    rw [visible, Table.filter, List.filter_filter, Table.select]
    refine List.filter_congr fun row _ ↦ ?_
    cases hrow : p row with
    | false => simp
    | true => simp [hp row hrow]
  rw [hselect, hselect, h]

/-- Two tables that agree on the visible rows have the same visible row for a key. -/
theorem get_eq_of_visible {table₁ table₂ : Table α} {id : ℕ} {row₁ row₂ : α}
    (h : visible operator table₁ = visible operator table₂) (h₁ : table₁.get id = some row₁)
    (h₂ : table₂.get id = some row₂)
    (hvis₁ : operator.joinedTo (HasTenant.tenantId row₁) = true)
    (hvis₂ : operator.joinedTo (HasTenant.tenantId row₂) = true) : row₁ = row₂ := by
  have hget : (visible operator table₁).get id = (visible operator table₂).get id := by rw [h]
  rw [visible, visible, Table.get_filter, Table.get_filter, h₁, h₂, Option.filter_some,
    Option.filter_some, if_pos hvis₁, if_pos hvis₂] at hget
  exact Option.some_injective _ hget

end

section

variable {operator : Operator} {ctx : Context} {db₁ db₂ : Db}

/-! ## Enrollment tokens -/

theorem joinedTo_of_mem {join : OperatorTenant} (h : join ∈ operator.joins.rows) :
    operator.joinedTo (some join.tenantId) = true := by
  rw [Operator.joinedTo, List.any_eq_true]
  exact ⟨join, h, by simp⟩

/-- The tenants a caller is admin on are among those it is joined to. -/
theorem joinedTo_of_adminTenantIds {tenantId : Option ℕ}
    (h : tenantId.any ((adminTenantIds (getTenantScope operator)).contains ·) = true) :
    operator.joinedTo tenantId = true := by
  obtain ⟨t, rfl, ht⟩ := Option.any_eq_true _ _ |>.mp h
  rw [List.contains_iff_mem, adminTenantIds, List.mem_map] at ht
  obtain ⟨join, hjoin, rfl⟩ := ht
  exact joinedTo_of_mem (List.mem_filter.mp hjoin).1

theorem listEnrollmentTokens_eq (hrole : operator.role ≠ .admin) (hagree : Agree operator db₁ db₂)
    (serverId : Option ℕ) (active : Bool) :
    listEnrollmentTokens ctx db₁ (getTenantScope operator) serverId active =
      listEnrollmentTokens ctx db₂ (getTenantScope operator) serverId active := by
  rw [listEnrollmentTokens, listEnrollmentTokens,
    select_eq_of_visible hagree.enrollmentTokens fun row hrow ↦ ?_]
  rw [isSuperAdmin_eq_false hrole, Bool.false_or, Bool.and_eq_true, Bool.and_eq_true] at hrow
  exact joinedTo_of_adminTenantIds hrow.1.1

/-- The role on a tenant comes from a join. -/
theorem joinedTo_of_requireTenantRole (hrole : operator.role ≠ .admin) {tenantId : Option ℕ}
    (h : requireTenantRole (getTenantScope operator) tenantId [.admin] = .ok ()) :
    operator.joinedTo tenantId = true := by
  obtain ⟨join, hjoin, rfl, -⟩ := mayWrite_of_requireTenantRole hrole (by simp) h
  exact joinedTo_of_mem hjoin

/-- The answer for a single token depends on the token where the caller may see it, and on its
owner where not. -/
theorem getEnrollmentToken_eq (hrole : operator.role ≠ .admin) (hagree : Agree operator db₁ db₂)
    {tokenId : ℕ} (howner : SameOwner db₁ db₂ tokenId) :
    getEnrollmentToken ctx db₁ (getTenantScope operator) tokenId =
      getEnrollmentToken ctx db₂ (getTenantScope operator) tokenId := by
  rw [SameOwner] at howner
  cases h₁ : db₁.enrollmentTokens.get tokenId with
  | none =>
    rw [h₁, Option.map_none, eq_comm, Option.map_eq_none_iff] at howner
    simp only [getEnrollmentToken, tokenGate, getOr404, h₁, howner]
  | some row₁ =>
    rw [h₁, Option.map_some, eq_comm, Option.map_eq_some_iff] at howner
    obtain ⟨row₂, h₂, htenant⟩ := howner
    simp only [getEnrollmentToken, tokenGate, getOr404, h₁, h₂, Except.bind, bind, htenant]
    -- past the role check the caller is joined to the tenant, so the rows are the same
    cases hreq : requireTenantRole (getTenantScope operator) row₁.tenantId [.admin] with
    | error e => rfl
    | ok _ =>
      have hvis := joinedTo_of_requireTenantRole hrole hreq
      rw [get_eq_of_visible hagree.enrollmentTokens h₁ h₂ hvis
        (by rw [← htenant] at hvis; exact hvis)]

/-! ## All requests -/

/-- **Tenant read isolation.**  For every caller that is not a super-admin, a request whose handler
asks for the scope is answered alike in any two databases that agree on all rows of the tenants the
caller is joined to — and, for a single enrollment token, on whose token it is. -/
theorem response_eq_of_agree (hrole : operator.role ≠ .admin) (hagree : Agree operator db₁ db₂)
    {request : ReadRequest} (hscoped : request.Scoped)
    (howner : ∀ tokenId, request = .getEnrollmentToken tokenId → SameOwner db₁ db₂ tokenId) :
    request.response ctx db₁ (getTenantScope operator) =
      request.response ctx db₂ (getTenantScope operator) := by
  cases request with
  | listServers =>
    simp only [ReadRequest.response, listServers, listInScope_eq hrole, hagree.servers]
  | getServer serverId =>
    simp only [ReadRequest.response, getServer, getInScope_eq hrole, hagree.servers]
  | listClients =>
    simp only [ReadRequest.response, listClients, listInScope_eq hrole, hagree.clients]
  | getClient clientId =>
    simp only [ReadRequest.response, getClient, getInScope_eq hrole, hagree.clients]
  | listSshKeys =>
    simp only [ReadRequest.response, listSshKeys, listInScope_eq hrole, hagree.sshKeys]
  | getSshKey keyId =>
    simp only [ReadRequest.response, getSshKey, getInScope_eq hrole, hagree.sshKeys]
  | listEnrollmentTokens serverId active =>
    exact listEnrollmentTokens_eq hrole hagree serverId active
  | getEnrollmentToken tokenId => exact getEnrollmentToken_eq hrole hagree (howner tokenId rfl)
  | listServerDiscoveredPeers serverId => exact hscoped.elim
  | listAllDiscoveredPeers => exact hscoped.elim
  | exportSshConfig => exact hscoped.elim

end

/-! ## A token of another tenant -/

/-- A token of tenant 1 that has been used `useCount` times. -/
def tokenOf (useCount : ℕ) : EnrollmentToken where
  id := 1
  tenantId := some 1
  serverId := 1
  sshKeyId := 1
  sshUsername := "deploy"
  tokenHash := "hash"
  maxUses := 2
  useCount := useCount
  expiresAt := 3600
  createdAt := 0

/-- A database with that token only. -/
def tokenDb (useCount : ℕ) : Db where
  enrollmentTokens := ⟨[tokenOf useCount], by simp⟩

/-- A foreign auditor cannot tell whether the token has been used. -/
theorem response_eq_of_agree_foreignAuditor :
    Agree foreignAuditor (tokenDb 0) (tokenDb 1) ∧ SameOwner (tokenDb 0) (tokenDb 1) 1 ∧
      (ReadRequest.getEnrollmentToken 1).response exampleContext (tokenDb 0)
          (getTenantScope foreignAuditor) =
        (ReadRequest.getEnrollmentToken 1).response exampleContext (tokenDb 1)
          (getTenantScope foreignAuditor) := by
  have hagree : Agree foreignAuditor (tokenDb 0) (tokenDb 1) := ⟨rfl, rfl, rfl, rfl, rfl⟩
  refine ⟨hagree, rfl, response_eq_of_agree (by decide) hagree trivial ?_⟩
  rintro tokenId ⟨⟩
  rfl

/-- A hub of tenant 1 with a client, a discovered peer and a token. -/
def foreignDb : Db :=
  { tenantDb with
    clients := ⟨[
      { id := 1, tenantId := some 1, name := "laptop", serverId := 1, createdAt := 0 }],
      by decide⟩
    discoveredPeers := ⟨[
      { id := 1, serverId := 1, publicKey := "key", firstSeenAt := 0, lastSeenAt := 0 }],
      by decide⟩
    enrollmentTokens := ⟨[tokenOf 0], by decide⟩ }

/-- It can tell that the token is there: 403 with the token, 404 without.  And it sees the client
and the peer in the answers of the handlers that do not ask for its scope. -/
theorem foreign_rows_are_observed :
    foreignAuditor.role ≠ .admin ∧ Agree foreignAuditor foreignDb {} ∧
      ∀ request ∈ [ReadRequest.getEnrollmentToken 1, .listServerDiscoveredPeers 1,
          .listAllDiscoveredPeers, .exportSshConfig],
        request.response exampleContext foreignDb (getTenantScope foreignAuditor) ≠
          request.response exampleContext {} (getTenantScope foreignAuditor) :=
  ⟨by decide, ⟨rfl, rfl, rfl, rfl, rfl⟩, by decide⟩

end WgManager
