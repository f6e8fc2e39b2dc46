import Mathlib.Data.Set.Basic
import Mathlib.Order.Bounds.Defs
import WgManager.Models

/-!
# Managing addresses

`ipam.py`: what it is for a subnet to lie in a pool and for two pools to overlap, and
`allocate_client_ip`, the lowest host address of the hub's subnet that is neither reserved nor taken
by a client row of the hub.

The columns are texts; `allocateFromTexts` reads them as the function does, and on the texts that
the handlers write it is `allocateClientIp` (`allocateFromTexts_eq`).
`allocateClientIp_eq_some_iff` and `allocateClientIp_eq_none_iff` say what comes out.
-/

set_option autoImplicit false

namespace WgManager

/-- `subnet_in_pool`. -/
def subnetInPool (subnet : IPv4Network) (pool : SubnetPool) : Bool := subnet.subnetOf pool.network

/-- `pools_overlap`. -/
def poolsOverlap (a b : SubnetPool) : Bool := a.network.overlaps b.network

/-- The addresses of the client rows of a hub that have one. -/
def clientAddresses (clients : Table Client) (serverId : ℕ) : List IPv4Address :=
  (clients.select fun c ↦ c.serverId == serverId).filterMap fun c ↦ c.address.map IPv4Interface.ip

/-- `taken`: the network and broadcast addresses, the hub's own, and those of its clients. -/
def takenAddresses (clients : Table Client) (server : Server) : List IPv4Address :=
  server.subnet.networkAddress :: server.subnet.broadcastAddress :: server.address.ip ::
    clientAddresses clients server.id

/-- `allocate_client_ip`; `none` is `IPPoolExhausted`. -/
def allocateClientIp (clients : Table Client) (server : Server) : Option IPv4Address :=
  server.subnet.hosts.find? fun host ↦ !(takenAddresses clients server).contains host

/-- The text of `IPPoolExhausted`. -/
def ipPoolExhausted (server : Server) : String :=
  let subnet := server.subnet.text
  s!"No free addresses remain in {subnet}"

/-- An allocated address is free. -/
theorem not_mem_taken_of_allocateClientIp {clients : Table Client} {server : Server}
    {a : IPv4Address} (h : allocateClientIp clients server = some a) :
    a ∉ takenAddresses clients server := by
  have hfree := List.find?_some h
  simpa using hfree

theorem lt_of_allocateClientIp {clients : Table Client} {server : Server} {a : IPv4Address}
    (h : allocateClientIp clients server = some a) : a < 2 ^ 32 :=
  IPv4Network.lt_of_mem_hosts (List.mem_of_find?_eq_some h)

/-! ## The stored texts -/

/-- `_host_from_cidr`; `none` is a `ValueError`. -/
def hostFromCidr (value : String) : Option IPv4Address :=
  (IPv4Interface.parse value).map IPv4Interface.ip

/-- `allocate_client_ip` on the texts of the columns: the subnet and the address of the hub, and the
addresses of its clients, of which those that are null or empty are passed over.  `none` is a
`ValueError`, an inner `none` `IPPoolExhausted`. -/
def allocateFromTexts (subnet address : String) (addresses : List (Option String)) :
    Option (Option IPv4Address) := do
  let network ← IPv4Network.parseLoose subnet
  let serverIp ← hostFromCidr address
  let hosts ← (addresses.filterMap fun addr ↦ addr.filter (· ≠ "")).mapM hostFromCidr
  let taken := network.networkAddress :: network.broadcastAddress :: serverIp :: hosts
  some (network.hosts.find? fun host ↦ !taken.contains host)

/-- The address column of the clients of a hub. -/
def addressTexts (clients : Table Client) (serverId : ℕ) : List (Option String) :=
  (clients.select fun c ↦ c.serverId == serverId).map fun c ↦ c.address.map IPv4Interface.text

/-- The interface is one that a text can stand for. -/
def IPv4Interface.Proper (i : IPv4Interface) : Prop := i.ip < 2 ^ 32 ∧ i.prefixlen ≤ 32

theorem hostFromCidr_text {i : IPv4Interface} (h : i.Proper) : hostFromCidr i.text = some i.ip := by
  rw [hostFromCidr, IPv4Interface.parse_text h.1 h.2, Option.map_some]

theorem IPv4Interface.Proper.text_ne_empty {i : IPv4Interface} (h : i.Proper) : i.text ≠ "" := by
  intro htext
  have hread := IPv4Interface.parse_text h.1 h.2
  rw [htext] at hread
  cases hread

/-- **What the rows store is read back.** -/
theorem allocateFromTexts_eq {clients : Table Client} {server : Server}
    (hserver : server.address.Proper)
    (hclients : ∀ c ∈ clients.rows, ∀ i, c.address = some i → i.Proper) :
    allocateFromTexts server.subnet.text server.address.text (addressTexts clients server.id) =
      some (allocateClientIp clients server) := by
  have htexts : ((addressTexts clients server.id).filterMap fun addr ↦ addr.filter (· ≠ "")).mapM
      hostFromCidr = some (clientAddresses clients server.id) := by
    have hselect : ∀ c ∈ clients.select fun c ↦ c.serverId == server.id,
        ∀ i, c.address = some i → i.Proper :=
      fun c hc ↦ hclients c (List.mem_of_mem_filter hc)
    rw [addressTexts, clientAddresses]
    generalize clients.select (fun c ↦ c.serverId == server.id) = rows at hselect
    induction rows with
    | nil => rfl
    | cons c rows ih =>
      have hrest := ih fun d hd ↦ hselect d (List.mem_cons_of_mem c hd)
      cases hc : c.address with
      | none => simpa [hc] using hrest
      | some i =>
        have hproper := hselect c List.mem_cons_self i hc
        have hkept : (some i.text).filter (· ≠ "") = some i.text := by
          simp [Option.filter, hproper.text_ne_empty]
        simp only [List.map_cons, hc, Option.map_some, List.filterMap_cons, hkept, List.mapM_cons,
          hostFromCidr_text hproper, hrest]
        rfl
  simp only [allocateFromTexts, IPv4Network.parseLoose_text, hostFromCidr_text hserver, htexts,
    Option.bind_eq_bind, Option.bind_some]
  rfl

/-! ## What is allocated -/

/-- `_parse_strict_subnet`: a network with room for a hub and a client. -/
def parseStrictSubnet (value : String) : Option IPv4Network :=
  (IPv4Network.parse value).filter (·.prefixlen ≤ 30)

/-- `register_server` finds a first host in a subnet that the schema accepts, and its text is read
back. -/
theorem exists_serverHost {value : String} {network : IPv4Network}
    (h : parseStrictSubnet value = some network) :
    ∃ serverHost rest, network.hosts = serverHost :: rest ∧
      IPv4Interface.Proper ⟨serverHost, network.prefixlen⟩ := by
  have hle : network.prefixlen ≤ 30 := by
    simpa using (Option.filter_eq_some_iff.mp h).2
  have hroom : 2 ^ 2 ≤ network.numAddresses :=
    Nat.pow_le_pow_right Nat.two_pos (by omega)
  have hhosts : network.hosts =
      List.range' (network.networkAddress + 1) (network.numAddresses - 2) := by
    rw [IPv4Network.hosts, if_neg (by omega), if_neg (by omega)]
  obtain ⟨count, hcount⟩ : ∃ count, network.numAddresses - 2 = count + 1 :=
    ⟨network.numAddresses - 3, by omega⟩
  rw [hcount, List.range'_succ] at hhosts
  refine ⟨_, _, hhosts, ?_, network.prefixlen_le⟩
  exact IPv4Network.lt_of_mem_hosts (hhosts ▸ List.mem_cons_self)

/-- The address may be given to a client: it lies in the subnet, is not the network, the broadcast
or the hub's own address, and no client of the hub holds it. -/
structure FreeAddress (clients : Table Client) (server : Server) (a : IPv4Address) : Prop where
  contains : server.subnet.contains a = true
  not_network : a ≠ server.subnet.networkAddress
  not_broadcast : a ≠ server.subnet.broadcastAddress
  not_hub : a ≠ server.address.ip
  not_held : ∀ c ∈ clients.rows, c.serverId = server.id → ∀ i, c.address = some i → i.ip ≠ a

theorem mem_clientAddresses {clients : Table Client} {serverId : ℕ} {a : IPv4Address} :
    a ∈ clientAddresses clients serverId ↔
      ∃ c ∈ clients.rows, c.serverId = serverId ∧ ∃ i, c.address = some i ∧ i.ip = a := by
  simp [clientAddresses, Table.select, List.mem_filterMap, and_assoc]

namespace IPv4Network

theorem mem_hosts_iff {n : IPv4Network} {a : ℕ} : a ∈ n.hosts ↔
    n.contains a = true ∧ (n.prefixlen ≤ 30 → a ≠ n.networkAddress ∧ a ≠ n.broadcastAddress) := by
  rw [hosts, contains_iff, broadcastAddress]
  have hle := n.prefixlen_le
  generalize hfirst : n.networkAddress = first
  generalize hcount : n.numAddresses = count
  unfold IPv4Address at *
  split
  · next h32 =>
    have hone : count = 1 := by
      rw [← hcount, numAddresses, h32]
      rfl
    rw [List.mem_singleton]
    omega
  · next h32 =>
    split
    · next h31 =>
      have htwo : count = 2 := by
        rw [← hcount, numAddresses, h31]
        rfl
      rw [List.mem_pair]
      omega
    · next h31 =>
      have hfour : 2 ^ 2 ≤ count := by
        rw [← hcount, numAddresses]
        exact Nat.pow_le_pow_right Nat.two_pos (by omega)
      rw [List.mem_range'_1]
      omega

theorem sorted_hosts (n : IPv4Network) : n.hosts.Pairwise (· < ·) := by
  rw [hosts]
  split
  · exact List.pairwise_singleton _ _
  · next h32 =>
    split
    · next h31 =>
      have htwo : n.numAddresses = 2 := by
        rw [numAddresses, h31]
        rfl
      rw [List.pairwise_pair, broadcastAddress, htwo]
      exact Nat.lt_succ_self _
    · exact List.pairwise_lt_range'

end IPv4Network

/-- The walk over a sorted list finds the least element that passes. -/
theorem find?_eq_some_iff_isLeast {p : ℕ → Bool} {l : List ℕ} (h : l.Pairwise (· < ·)) {a : ℕ} :
    l.find? p = some a ↔ IsLeast {b | b ∈ l ∧ p b = true} a := by
  induction l with
  | nil =>
    constructor
    · intro hnone
      exact absurd hnone.symm (Option.some_ne_none a)
    · rintro ⟨⟨ha, -⟩, -⟩
      exact absurd ha List.not_mem_nil
  | cons b l ih =>
    obtain ⟨hb, hl⟩ := List.pairwise_cons.mp h
    rw [List.find?_cons]
    cases hp : p b with
    | true =>
      constructor
      · intro hab
        cases hab
        refine ⟨⟨List.mem_cons_self, hp⟩, ?_⟩
        rintro c ⟨hc, -⟩
        rcases List.mem_cons.mp hc with rfl | hc
        · exact Nat.le_refl _
        · exact Nat.le_of_lt (hb c hc)
      · rintro ⟨⟨ha, -⟩, hle⟩
        rcases List.mem_cons.mp ha with rfl | ha
        · rfl
        · have hab := hle ⟨List.mem_cons_self, hp⟩
          have hba := hb a ha
          omega
    | false =>
      have hsame : {c | c ∈ b :: l ∧ p c = true} = {c | c ∈ l ∧ p c = true} := by
        ext c
        simp only [Set.mem_ofPred_eq, List.mem_cons]
        constructor
        · rintro ⟨rfl | hc, hpc⟩
          · rw [hp] at hpc
            cases hpc
          · exact ⟨hc, hpc⟩
        · rintro ⟨hc, hpc⟩
          exact ⟨.inr hc, hpc⟩
      rw [hsame]
      exact ih hl

theorem free_iff {clients : Table Client} {server : Server} {a : IPv4Address} :
    FreeAddress clients server a ↔
      a ∈ server.subnet.hosts ∧ (!(takenAddresses clients server).contains a) = true := by
  rw [IPv4Network.mem_hosts_iff, Bool.not_eq_true', List.contains_eq_mem, decide_eq_false_iff_not,
    takenAddresses, List.mem_cons, List.mem_cons, List.mem_cons, mem_clientAddresses, not_or,
    not_or,
    not_or]
  constructor
  · intro h
    refine ⟨⟨h.contains, fun _ ↦ ⟨h.not_network, h.not_broadcast⟩⟩, h.not_network, h.not_broadcast,
      h.not_hub, ?_⟩
    rintro ⟨c, hc, hid, i, hi, hip⟩
    exact h.not_held c hc hid i hi hip
  · rintro ⟨⟨hin, -⟩, hnetwork, hbroadcast, hhub, hclients⟩
    exact ⟨hin, hnetwork, hbroadcast, hhub, fun c hc hid i hi hip ↦
      hclients ⟨c, hc, hid, i, hi, hip⟩⟩

/-- `allocate_client_ip` returns the least address that is free. -/
theorem allocateClientIp_eq_some_iff {clients : Table Client} {server : Server} {a : IPv4Address} :
    allocateClientIp clients server = some a ↔ IsLeast {b | FreeAddress clients server b} a := by
  rw [allocateClientIp, find?_eq_some_iff_isLeast server.subnet.sorted_hosts]
  simp only [free_iff]

/-- It raises when there is none. -/
theorem allocateClientIp_eq_none_iff {clients : Table Client} {server : Server} :
    allocateClientIp clients server = none ↔ ∀ a, ¬FreeAddress clients server a := by
  rw [allocateClientIp, List.find?_eq_none]
  simp only [free_iff, not_and]

end WgManager
