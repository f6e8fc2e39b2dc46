import WgManager.Enroll.System

/-!
# Addresses on a hub

Three requests give out addresses from the subnet of a hub, all in the same way: read the client
rows of the hub, pick the lowest address that is free, insert.  Two clients with one address, or a
client with the hub's, is what must not come of it (`AddressesUnique`).

What they read is their snapshot, and nothing but the name and the key of the new row is checked
when it is inserted.  So an address is safe to give out when every client row of the hub that is
there at the commit was already in the snapshot (`InsertsCurrent`), and in a run in which this holds
at every commit the addresses are unique throughout (`addresses_are_unique`).  Nothing in the code
sees to it: `POST /clients` and `POST /clients/manual` take no lock, and `POST /v1/enroll` takes it
after its snapshot.
-/

set_option autoImplicit false

namespace WgManager.Enroll

/-- No two clients of a hub have one address, and none has the hub's own. -/
structure AddressesUnique (db : Db) : Prop where
  distinct : ∀ c₁ ∈ db.clients.rows, ∀ c₂ ∈ db.clients.rows, c₁.serverId = c₂.serverId →
    ∀ a b, c₁.address = some a → c₂.address = some b → a.ip = b.ip → c₁ = c₂
  not_hub : ∀ c ∈ db.clients.rows, ∀ hub, db.servers.get c.serverId = some hub →
    ∀ a, c.address = some a → a.ip ≠ hub.address.ip

/-- The snapshot of a process. -/
def Proc.snapshot : Proc → Option Db
  | .redemption _ (.checked w) => some w.snap
  | .redemption _ (.locked w) => some w.snap
  | .redemption _ (.consumed w) => some w.snap
  | .redemption _ (.admitted w _) => some w.snap
  | .request _ (.inserting snap _) => some snap
  | _ => none

/-- The client row that a process is about to insert, with its snapshot. -/
def Proc.insertion : Proc → Option (Db × Client)
  | .redemption _ (.admitted w a) => some (w.snap, a.client)
  | .request _ (.inserting snap row) => some (snap, row)
  | _ => none

/-- When a client is inserted, the client rows of its hub are those its request has seen. -/
def InsertsCurrent (c : Config Shared Proc) (e : ℕ × Action) : Prop :=
  e.2 = .commit → ∀ new ∈ (c.proc e.1).bind Proc.insertion, ∀ row ∈ c.shared.db.clients.rows,
    row.serverId = new.2.serverId → row ∈ new.1.clients.rows

instance (c : Config Shared Proc) (e : ℕ × Action) : Decidable (InsertsCurrent c e) :=
  inferInstanceAs (Decidable (e.2 = .commit → ∀ new ∈ (c.proc e.1).bind Proc.insertion,
    ∀ row ∈ c.shared.db.clients.rows, row.serverId = new.2.serverId → row ∈ new.1.clients.rows))

/-- The address of `row` was allocated on `snap`. -/
def Allocated (snap : Db) (row : Client) : Prop :=
  ∃ server address, snap.servers.get row.serverId = some server ∧
    allocateClientIp snap.clients server = some address ∧ row.address = some ⟨address, 32⟩

/-- What is true of a process: the hubs are as it has seen them, and the row it is about to insert
has an address from its snapshot. -/
structure Allocating (g : Shared) (p : Proc) : Prop where
  servers : ∀ snap ∈ p.snapshot, snap.servers = g.db.servers
  allocated : ∀ new ∈ p.insertion, Allocated new.1 new.2

section

variable {g g' : Shared} {db db' snap : Db} {row : Client}

/-! ## The three ways to a new row -/

theorem allocated_of_admitClient {env : EnrollEnv} {token : EnrollmentToken}
    {payload : EnrollRequest}
    {a : Admitted} (h : env.admitClient snap token payload = .ok a) : Allocated snap a.client := by
  obtain ⟨server, address, cert, hok, rfl⟩ := admitClient_eq_ok_iff.mp h
  have hid : server.id = token.serverId := Table.pk_of_get hok.hub
  refine ⟨server, address, ?_, hok.address_free, rfl⟩
  show snap.servers.get server.id = some server
  rw [hid, hok.hub]

theorem allocated_of_hubFor {serverId : ℕ} {advice : String} {server : Server}
    {address : IPv4Address} (h : hubFor snap serverId advice = .ok (server, address))
    (hrow : row.serverId = serverId) (haddress : row.address = some ⟨address, 32⟩) :
    Allocated snap row := by
  obtain ⟨hserver, hfree⟩ := hubFor_eq_ok h
  exact ⟨server, address, by rw [hrow, hserver], hfree, haddress⟩

theorem allocating_of_none {p : Proc} (hsnap : p.snapshot = none) (hins : p.insertion = none) :
    Allocating g p := by
  refine ⟨?_, ?_⟩
  · rw [hsnap]
    rintro _ ⟨⟩
  · rw [hins]
    rintro _ ⟨⟩

theorem allocating_read (q : Request) : Allocating g (.request q (q.read g.db)) := by
  have hinserting : ∀ {row}, Allocated g.db row → Allocating g (.request q (.inserting g.db row)) :=
    fun h ↦ ⟨by rintro _ ⟨⟩; rfl, by rintro _ ⟨⟩; exact h⟩
  cases q with
  | registerClient ctx payload =>
    rw [Request.read]
    split
    · exact allocating_of_none rfl rfl
    · next server address hchecks =>
      obtain ⟨⟨⟩, -, hrest⟩ := bind_eq_ok_iff.mp hchecks
      obtain ⟨_, -, hhub⟩ := bind_eq_ok_iff.mp hrest
      exact hinserting (allocated_of_hubFor hhub rfl rfl)
  | registerManualClient ctx payload =>
    rw [Request.read]
    split
    · exact allocating_of_none rfl rfl
    · next server address hchecks =>
      obtain ⟨⟨⟩, -, hhub⟩ := bind_eq_ok_iff.mp hchecks
      exact hinserting (allocated_of_hubFor hhub rfl rfl)
  | deleteClient ctx scope clientId =>
    rw [Request.read]
    split <;> exact allocating_of_none rfl rfl
  | revokeEnrollmentToken ctx scope tokenId =>
    rw [Request.read]
    split
    · exact allocating_of_none rfl rfl
    · split <;> exact allocating_of_none rfl rfl

/-! ## Inserting and deleting rows -/

/-- An address from a snapshot that shows all clients of the hub is none of theirs, and not the
hub's. -/
theorem address_free (halloc : Allocated snap row) {a : IPv4Interface} (ha : row.address = some a)
    (hcurrent : ∀ c ∈ db.clients.rows, c.serverId = row.serverId → c ∈ snap.clients.rows) :
    (∀ c ∈ db.clients.rows, c.serverId = row.serverId → ∀ b, c.address = some b → b.ip ≠ a.ip) ∧
      ∀ hub, snap.servers.get row.serverId = some hub → a.ip ≠ hub.address.ip := by
  obtain ⟨server, address, hserver, hallocate, haddress⟩ := halloc
  rw [haddress, Option.some.injEq] at ha
  subst ha
  have hid : server.id = row.serverId := Table.pk_of_get hserver
  have hnot := not_mem_taken_of_allocateClientIp hallocate
  rw [takenAddresses, List.mem_cons, List.mem_cons, List.mem_cons, not_or, not_or, not_or] at hnot
  obtain ⟨-, -, hnothub, hnotclient⟩ := hnot
  refine ⟨?_, ?_⟩
  · intro c hc hserverId b hb hip
    refine hnotclient (List.mem_filterMap.mpr ⟨c, ?_, by rw [hb, Option.map_some, hip]⟩)
    rw [Table.select, List.mem_filter, hid]
    exact ⟨hcurrent c hc hserverId, by simpa using hserverId⟩
  · intro hub hhub
    rw [hserver, Option.some.injEq] at hhub
    subst hhub
    exact hnothub

/-- A row with an address of its snapshot, inserted when the snapshot shows all clients of the
hub. -/
theorem unique_insert (hu : AddressesUnique db) (halloc : Allocated snap row)
    (hservers : snap.servers = db.servers) (hfree : db.clients.get row.id = none)
    (hcurrent : ∀ c ∈ db.clients.rows, c.serverId = row.serverId → c ∈ snap.clients.rows)
    (hclients' : db'.clients = db.clients.insert row) (hservers' : db'.servers = db.servers) :
    AddressesUnique db' := by
  have hmem : ∀ c ∈ db'.clients.rows, c ∈ db.clients.rows ∨ c = row := by
    intro c hc
    rw [hclients', Table.rows_insert hfree, List.mem_append, List.mem_singleton] at hc
    exact hc
  refine ⟨?_, ?_⟩
  · intro c₁ h₁ c₂ h₂ hserverId a b ha hb hip
    rcases hmem c₁ h₁ with h₁ | rfl <;> rcases hmem c₂ h₂ with h₂ | rfl
    · exact hu.distinct c₁ h₁ c₂ h₂ hserverId a b ha hb hip
    · exact absurd hip ((address_free halloc hb hcurrent).1 c₁ h₁ hserverId a ha)
    · exact absurd hip.symm ((address_free halloc ha hcurrent).1 c₂ h₂ hserverId.symm b hb)
    · rfl
  · intro c hc hub hhub a ha
    rw [hservers'] at hhub
    rcases hmem c hc with hc | rfl
    · exact hu.not_hub c hc hub hhub a ha
    · rw [← hservers] at hhub
      exact (address_free halloc ha hcurrent).2 hub hhub

theorem unique_of_subset (hu : AddressesUnique db)
    (hsub : ∀ c ∈ db'.clients.rows, c ∈ db.clients.rows) (hservers : db'.servers = db.servers) :
    AddressesUnique db' := by
  refine ⟨?_, ?_⟩
  · intro c₁ h₁ c₂ h₂
    exact hu.distinct c₁ (hsub c₁ h₁) c₂ (hsub c₂ h₂)
  · intro c hc hub hhub
    rw [hservers] at hhub
    exact hu.not_hub c (hsub c hc) hub hhub

/-! ## Steps -/

/-- The hubs stay as they are, so what is true of a process stays true while others move. -/
theorem allocating_of_servers {p : Proc} (h : Allocating g p)
    (hservers : g'.db.servers = g.db.servers) : Allocating g' p :=
  ⟨fun snap hsnap ↦ by rw [hservers, h.servers snap hsnap], h.allocated⟩

theorem redemption_keeps {i : ℕ} {r : Redemption} {ph ph' : Phase} {a : Action}
    (hu : AddressesUnique g.db) (hp : Allocating g (.redemption r ph))
    (hok : a = .commit → ∀ new ∈ (Proc.redemption r ph).insertion, ∀ row ∈ g.db.clients.rows,
      row.serverId = new.2.serverId → row ∈ new.1.clients.rows)
    (h : RedemptionMove i g r ph a g' ph') :
    AddressesUnique g'.db ∧ g'.db.servers = g.db.servers ∧ Allocating g' (.redemption r ph') := by
  cases h with
  | refused h => exact ⟨hu, rfl, allocating_of_none rfl rfl⟩
  | read h => exact ⟨hu, rfl, ⟨by rintro _ ⟨⟩; rfl, by rintro _ ⟨⟩⟩⟩
  | notAcquired h => exact ⟨hu, rfl, allocating_of_none rfl rfl⟩
  | lock h free => exact ⟨hu, rfl, ⟨hp.servers, by rintro _ ⟨⟩⟩⟩
  | rejected h => exact ⟨hu, rfl, allocating_of_none rfl rfl⟩
  | consume point free h => exact ⟨hu, rfl, ⟨hp.servers, by rintro _ ⟨⟩⟩⟩
  | notAdmitted h => exact ⟨hu, rfl, allocating_of_none rfl rfl⟩
  | admitClient h => exact ⟨hu, rfl, ⟨hp.servers, by rintro _ ⟨⟩; exact allocated_of_admitClient h⟩⟩
  | rolledBack h => exact ⟨hu, rfl, allocating_of_none rfl rfl⟩
  | commit h =>
    obtain ⟨hfree, -, -, rfl⟩ := withEnrolled_of_commit h
    exact ⟨unique_insert hu (hp.allocated _ rfl) (hp.servers _ rfl) hfree (hok rfl _ rfl) rfl rfl,
      rfl, allocating_of_none rfl rfl⟩
  | release => exact ⟨hu, rfl, allocating_of_none rfl rfl⟩

theorem request_keeps {i : ℕ} {q : Request} {st st' : Stage} {a : Action}
    (hu : AddressesUnique g.db) (hp : Allocating g (.request q st))
    (hok : a = .commit → ∀ new ∈ (Proc.request q st).insertion, ∀ row ∈ g.db.clients.rows,
      row.serverId = new.2.serverId → row ∈ new.1.clients.rows)
    (h : RequestMove i g q st a g' st') :
    AddressesUnique g'.db ∧ g'.db.servers = g.db.servers ∧ Allocating g' (.request q st') := by
  cases h with
  | read => exact ⟨hu, rfl, allocating_read q⟩
  | insert h =>
    obtain ⟨hfree, -, rfl⟩ := flushClient_eq_some_iff.mp h
    exact ⟨unique_insert hu (hp.allocated _ rfl) (hp.servers _ rfl) hfree (hok rfl _ rfl) rfl rfl,
      rfl, allocating_of_none rfl rfl⟩
  | delete h =>
    exact ⟨unique_of_subset hu (fun c hc ↦ (List.mem_filter.mp hc).1) rfl, rfl,
      allocating_of_none rfl rfl⟩
  | mark free => exact ⟨hu, rfl, allocating_of_none rfl rfl⟩
  | revoke h => exact ⟨unique_of_subset hu (fun _ hc ↦ hc) rfl, rfl, allocating_of_none rfl rfl⟩
  | unmark => exact ⟨hu, rfl, allocating_of_none rfl rfl⟩
  | rolledBack => exact ⟨hu, rfl, allocating_of_none rfl rfl⟩

theorem proc_keeps {i : ℕ} {p p' : Option Proc} {a : Action} (hu : AddressesUnique g.db)
    (hp : ∀ q, p = some q → Allocating g q)
    (hok : a = .commit → ∀ new ∈ p.bind Proc.insertion, ∀ row ∈ g.db.clients.rows,
      row.serverId = new.2.serverId → row ∈ new.1.clients.rows)
    (h : procStep i g p a = some (g', p')) :
    AddressesUnique g'.db ∧ g'.db.servers = g.db.servers ∧
      ∀ q, p' = some q → Allocating g' q := by
  rcases procStep_cases h with ⟨r, ph, ph', rfl, rfl, hmove⟩ | ⟨q, st, st', rfl, rfl, hmove⟩
  · obtain ⟨hu', hservers, hp'⟩ := redemption_keeps hu (hp _ rfl) hok hmove
    exact ⟨hu', hservers, by rintro _ ⟨⟩; exact hp'⟩
  · obtain ⟨hu', hservers, hp'⟩ := request_keeps hu (hp _ rfl) hok hmove
    exact ⟨hu', hservers, by rintro _ ⟨⟩; exact hp'⟩

/-! ## Runs -/

/-- Addresses are unique, and every process allocates from the hubs as they are. -/
def Allotted : Config Shared Proc → Prop :=
  Config.Inv (fun g ↦ AddressesUnique g.db) fun _ ↦ Allocating

theorem allotted_step {c c' : Config Shared Proc} {e : ℕ × Action} (hc : Allotted c)
    (hok : InsertsCurrent c e) (h : step c e = some c') : Allotted c' := by
  refine Config.inv_step hc h fun g' p' hf ↦ ?_
  obtain ⟨hu, hservers, hown⟩ := proc_keeps hc.shared (hc.proc e.1) hok hf
  exact ⟨hu, hown, fun j q _ hq ↦ allocating_of_servers hq hservers⟩

theorem allotted_initial {c : Config Shared Proc} (hinit : Initial c)
    (hu : AddressesUnique c.shared.db) : Allotted c := by
  refine ⟨hu, fun i p hp ↦ ?_⟩
  rcases hinit.begun hp with ⟨r, rfl⟩ | ⟨q, rfl⟩ <;> exact allocating_of_none rfl rfl

/-- **Addresses on a hub are unique** along every run in which a client is inserted only when its
request has seen all clients of the hub: whatever requests run, and however they interleave, no two
clients of a hub have one address, and none has the hub's own. -/
theorem addresses_are_unique {c₀ c : Config Shared Proc} {es : List (ℕ × Action)}
    (hinit : Initial c₀) (hu : AddressesUnique c₀.shared.db)
    (hok : Run.Meets step InsertsCurrent c₀ es) (h : Run.run step c₀ es = some c) :
    AddressesUnique c.shared.db :=
  (Run.run_invariant (fun _ _ _ ↦ allotted_step) (allotted_initial hinit hu) hok h).shared

end

/-! ## One address, given out in turn and at once -/

/-- The database of `joinDb` has no clients, so its addresses are unique. -/
theorem unique_joinDb : AddressesUnique joinDb :=
  ⟨by rintro c₁ ⟨⟩, by rintro c ⟨⟩⟩

/-- A manual client is registered and deleted, and a host enrolls. -/
def inTurnStart : Config Shared Proc where
  shared := { db := joinDb }
  proc
    | 0 => some (.request (.registerManualClient exampleContext ⟨"laptop", 1⟩) .begun)
    | 1 => some (.request (.deleteClient exampleContext (getTenantScope ⟨.admin, .empty⟩) 2) .begun)
    | 2 => some (.redemption ⟨joinCall, { joinEnv [] with auditId := 2 }⟩ .begun)
    | _ => none

/-- One after the other; the only address left passes from the first client to the second. -/
def inTurnTrace : List (ℕ × Action) :=
  [(0, .read), (0, .commit), (1, .read), (1, .commit), (2, .read), (2, .lock), (2, .consume),
   (2, .admitClient), (2, .commit), (2, .release)]

theorem addresses_are_unique_inTurnTrace :
    ∃ c, Run.run step inTurnStart inTurnTrace = some c ∧
      c.shared.db.clients.rows.map Client.address = [some ⟨168361986, 32⟩] ∧
      AddressesUnique c.shared.db := by
  have hinit : Initial inTurnStart := by
    refine ⟨fun _ ↦ rfl, fun _ ↦ rfl, fun i p hp ↦ ?_⟩
    rcases i with _ | _ | _ | i <;> cases hp <;> trivial
  obtain ⟨c, hc⟩ := Option.isSome_iff_exists.mp
    (by decide +kernel : (Run.run step inTurnStart inTurnTrace).isSome)
  have haddress : (Run.run step inTurnStart inTurnTrace).all fun c ↦
      decide (c.shared.db.clients.rows.map Client.address = [some ⟨168361986, 32⟩]) := by
    decide +kernel
  rw [hc, Option.all_some, decide_eq_true_iff] at haddress
  exact ⟨c, hc, haddress, addresses_are_unique hinit unique_joinDb (by decide +kernel) hc⟩

/-- Two hosts are registered at the same time. -/
def atOnceStart : Config Shared Proc where
  shared := { db := { joinDb with sshKeys := ⟨[⟨1, none, "deploy", .ca, 0⟩], by decide⟩ } }
  proc
    | 0 => some (.request (.registerClient exampleContext
        { name := "a", hostname := "a.example", sshUsername := "root", sshKeyId := 1,
          serverId := 1 })
        .begun)
    | 1 => some (.request (.registerClient { exampleContext with newId := 3 }
        { name := "b", hostname := "b.example", sshUsername := "root", sshKeyId := 1,
          serverId := 1 })
        .begun)
    | _ => none

/-- Both have read the clients before either is inserted. -/
def atOnceTrace : List (ℕ × Action) := [(0, .read), (1, .read), (0, .commit), (1, .commit)]

/-- Both clients get the only address that is left. -/
theorem addresses_clash_atOnceTrace :
    Initial atOnceStart ∧ AddressesUnique atOnceStart.shared.db ∧
    ∃ c, Run.run step atOnceStart atOnceTrace = some c ∧ ¬AddressesUnique c.shared.db := by
  have hinit : Initial atOnceStart := by
    refine ⟨fun _ ↦ rfl, fun _ ↦ rfl, fun i p hp ↦ ?_⟩
    rcases i with _ | _ | i <;> cases hp <;> trivial
  refine ⟨hinit, ⟨by rintro c₁ ⟨⟩, by rintro c ⟨⟩⟩, ?_⟩
  obtain ⟨c, hc⟩ := Option.isSome_iff_exists.mp
    (by decide +kernel : (Run.run step atOnceStart atOnceTrace).isSome)
  have hclash : (Run.run step atOnceStart atOnceTrace).all fun c ↦
      decide (∃ c₁ ∈ c.shared.db.clients.rows, ∃ c₂ ∈ c.shared.db.clients.rows,
        c₁.serverId = c₂.serverId ∧ c₁.address = some ⟨168361986, 32⟩ ∧
        c₂.address = some ⟨168361986, 32⟩ ∧ c₁.id ≠ c₂.id) := by
    decide +kernel
  rw [hc, Option.all_some, decide_eq_true_iff] at hclash
  obtain ⟨c₁, h₁, c₂, h₂, hserver, ha, hb, hne⟩ := hclash
  exact ⟨c, hc, fun hu ↦ hne (by rw [hu.distinct c₁ h₁ c₂ h₂ hserver _ _ ha hb rfl])⟩

end WgManager.Enroll
