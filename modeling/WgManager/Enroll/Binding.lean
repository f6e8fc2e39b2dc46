import WgManager.Cidrs
import WgManager.Routers.EnrollmentTokens

/-!
# Where a token may be redeemed from

An admin enters a list of networks; `mint_token` stores the normalised texts in one column, with
commas between them, and `source_allowed` reads them back at every redemption.  The column means
what was entered for the lists whose networks all `Survives`: a comma in a zone is taken for the end
of a text, and a network of version 6 has none of the IPv4 addresses whose mapped forms lie in it
(`binding_means_entered_iff`).
-/

set_option autoImplicit false

namespace WgManager

/-- The column `allowed_cidrs` of a token that is minted with these texts. -/
def storedCidrs (texts : List String) : Option String :=
  if texts = [] then none else some (",".intercalate texts)

theorem allowedCidrs_mintToken (ctx : Context) (lib : TokenLibrary) (token : String)
    (server : Server)
    (sshKey : SSHKey) (payload : EnrollmentTokenCreate) :
    (mintToken ctx lib token server sshKey payload).allowedCidrs =
      payload.allowedCidrs.bind storedCidrs := rfl

/-- The library with the networks and addresses of `ipaddress`. -/
def IPv6Library.tokenLibrary (v6 : IPv6Library) (sha256Hex : String → String) : TokenLibrary where
  sha256Hex
  ipNetwork := v6.ipNetwork
  ipAddress := v6.ipAddress

theorem ipAddress_tokenLibrary (v6 : IPv6Library) (sha256Hex : String → String) (text : String) :
    (v6.tokenLibrary sha256Hex).ipAddress text = v6.ipAddress text := rfl

/-- The address lies in one of the networks, when an IPv4-mapped address and the address that it
maps count as the same. -/
def LiesIn (networks : List IPNetwork) (addr : IPAddress) : Prop :=
  ∃ n ∈ networks, ∃ twin : IPAddress, twin.unmapped = addr.unmapped ∧ n.contains twin = true

/-- The stored texts stand for the networks, and a caller is let through exactly when its address
lies in one of them. -/
structure BindingMeans (v6 : IPv6Library) (sha256Hex : String → String) (networks : List IPNetwork)
    (texts : List String) : Prop where
  read_back : ∀ row : EnrollmentToken, row.allowedCidrs = storedCidrs texts →
    allowedNetworks (v6.tokenLibrary sha256Hex) row = some (some networks)
  normalised : v6.normalizeCidrs texts = some texts
  source : ∀ (row : EnrollmentToken) (host : Option String), row.allowedCidrs = storedCidrs texts →
    ∃ allowed, sourceAllowed (v6.tokenLibrary sha256Hex) row host = some allowed ∧
      (allowed = true ↔
        ∃ text addr, host = some text ∧ v6.ipAddress text = some addr ∧ LiesIn networks addr)

/-- The networks that come through the column as they are. -/
structure Survives (networks : List IPNetwork) : Prop where
  ne_nil : networks ≠ []
  no_comma : ∀ n ∈ networks, ∀ zone ∈ n.scopeId, ',' ∉ zone.toList
  mapped : ∀ n ∈ networks, ∀ a < 2 ^ 32, n.contains (.v6 (0xffff * 2 ^ 32 + a)) = true →
    ∃ m ∈ networks, m.contains (.v4 a) = true

section

variable {v6 : IPv6Library} (hlib : v6.Lawful) {networks : List IPNetwork} {row : EnrollmentToken}

theorem unmapped_mapped {a : ℕ} (h : a < 2 ^ 32) :
    (IPAddress.v6 (0xffff * 2 ^ 32 + a)).unmapped = .v4 a := by
  have hhigh : (0xffff * 2 ^ 32 + a) / 2 ^ 32 = 0xffff := by omega
  have hlow : (0xffff * 2 ^ 32 + a) % 2 ^ 32 = a := by omega
  rw [IPAddress.unmapped, if_pos hhigh, hlow]

theorem unmapped_unmapped (addr : IPAddress) : addr.unmapped.unmapped = addr.unmapped := by
  cases addr with
  | v4 a => rfl
  | v6 a =>
    rw [IPAddress.unmapped]
    split
    · rfl
    · next h => rw [IPAddress.unmapped, if_neg h]

/-- A printed network is not empty. -/
theorem str_ne_empty (n : IPNetwork) : v6.str n ≠ "" := by
  intro h
  have hchars := congrArg String.toList h
  cases n with
  | v4 n =>
    have hslash : '/' ∈ (v6.str (.v4 n)).toList := by
      have hseparator : (toString "/").toList = ['/'] := rfl
      simp [IPv6Library.str, IPv4Network.text, hseparator]
    rw [hchars] at hslash
    exact absurd hslash (by decide)
  | v6 a p scopeId =>
    rw [IPv6Library.toList_str_v6] at hchars
    exact absurd (List.append_eq_nil_iff.mp hchars).2 (List.cons_ne_nil _ _)

theorem storedCidrs_map_str (hne : networks ≠ []) :
    storedCidrs (networks.map v6.str) = some (",".intercalate (networks.map v6.str)) := by
  rw [storedCidrs, if_neg]
  simpa using hne

/-- What is read back is read from the pieces between the commas. -/
theorem allowedNetworks_stored {sha256Hex : String → String} (hne : networks ≠ [])
    (hrow : row.allowedCidrs = storedCidrs (networks.map v6.str)) :
    allowedNetworks (v6.tokenLibrary sha256Hex) row =
      some ((PyStr.splitOn ',' (",".intercalate (networks.map v6.str))).mapM v6.ipNetwork) := by
  have hempty : ",".intercalate (networks.map v6.str) ≠ "" := by
    obtain ⟨n, rest, rfl⟩ := List.exists_cons_of_ne_nil hne
    intro h
    have hchars := congrArg String.toList h
    rw [String.toList_intercalate, List.map_cons, List.map_cons] at hchars
    cases hrest : rest with
    | nil =>
      rw [hrest, List.map_nil, List.map_nil, List.intercalate_singleton] at hchars
      exact str_ne_empty n (String.toList_inj.mp hchars)
    | cons m rest =>
      rw [hrest, List.map_cons, List.map_cons, List.intercalate_cons_cons] at hchars
      have hleft := (List.append_eq_nil_iff.mp (List.append_eq_nil_iff.mp hchars).1).1
      exact str_ne_empty n (String.toList_inj.mp hleft)
  rw [storedCidrs_map_str hne] at hrow
  rw [allowedNetworks, hrow]
  split
  · next h => cases h
  · next h => exact absurd (Option.some.inj h) hempty
  · next cidrs h => rw [← Option.some.inj h]; rfl

include hlib

/-- Texts without commas are the pieces. -/
theorem read_back_of_no_comma (hnetworks : ∀ n ∈ networks, IsNetwork n) (hne : networks ≠ [])
    (hcomma : ∀ n ∈ networks, ∀ zone ∈ n.scopeId, ',' ∉ zone.toList) :
    (PyStr.splitOn ',' (",".intercalate (networks.map v6.str))).mapM v6.ipNetwork =
      some networks := by
  rw [PyStr.splitOn_intercalate rfl (by simpa using hne)]
  · rw [mapM_eq_some_iff, List.forall₂_map_left_iff, List.forall₂_same]
    exact fun n hn ↦ IPv6Library.ipNetwork_str hlib (hnetworks n hn)
  · intro text htext
    obtain ⟨n, hn, rfl⟩ := List.mem_map.mp htext
    rw [IPv6Library.comma_mem_str_iff hlib (hnetworks n hn)]
    rintro ⟨zone, hzone, hmem⟩
    exact hcomma n hn zone hzone hmem

/-- With a comma in a text there are more pieces than networks. -/
theorem no_comma_of_read_back (hnetworks : ∀ n ∈ networks, IsNetwork n) (hne : networks ≠ [])
    (h : (PyStr.splitOn ',' (",".intercalate (networks.map v6.str))).mapM v6.ipNetwork =
      some networks) : ∀ n ∈ networks, ∀ zone ∈ n.scopeId, ',' ∉ zone.toList := by
  have hlen := (mapM_eq_some_iff.mp h).length_eq
  have hcount : (",".intercalate (networks.map v6.str)).toList.count ',' + 1 =
      (networks.map v6.str).length + ((networks.map v6.str).flatMap String.toList).count ',' :=
    PyStr.count_intercalate rfl (mt List.map_eq_nil_iff.mp hne)
  rw [PyStr.length_splitOn, hcount, List.length_map] at hlen
  have hzero : ((networks.map v6.str).flatMap String.toList).count ',' = 0 := by omega
  rw [List.count_eq_zero] at hzero
  intro n hn zone hzone hmem
  exact hzero (List.mem_flatMap.mpr ⟨v6.str n, List.mem_map_of_mem hn,
    (IPv6Library.comma_mem_str_iff hlib (hnetworks n hn)).mpr ⟨zone, hzone, hmem⟩⟩)

theorem ipAddress_empty : v6.ipAddress "" = none := by
  have hparse : v6.parse "" = none := by
    cases h : v6.parse "" with
    | none => rfl
    | some a => exact absurd (hlib.colon_of_parse h) (by decide)
  show ((v6.parse (String.ofList [])).bind fun a ↦ some (a, none)).map _ = none
  rw [String.ofList_nil, hparse]
  rfl

omit hlib in
theorem sourceAllowed_of_read_back {lib : TokenLibrary} {host : Option String}
    (h : allowedNetworks lib row = some (some networks)) :
    sourceAllowed lib row host = some ((lib.ipAddress (host.getD "")).any fun addr ↦
      networks.any (·.contains addr.unmapped)) := by
  rw [sourceAllowed, h]
  dsimp only
  cases lib.ipAddress (host.getD "") with
  | none => rfl
  | some addr => rfl

omit hlib in
/-- The caller is matched as IPv4 where its address is a mapped one; the networks are not. -/
theorem any_contains_iff (hmapped : ∀ n ∈ networks, ∀ a < 2 ^ 32,
      n.contains (.v6 (0xffff * 2 ^ 32 + a)) = true → ∃ m ∈ networks, m.contains (.v4 a) = true)
    (addr : IPAddress) :
    networks.any (·.contains addr.unmapped) = true ↔ LiesIn networks addr := by
  rw [List.any_eq_true]
  constructor
  · rintro ⟨n, hn, hcontains⟩
    exact ⟨n, hn, addr.unmapped, unmapped_unmapped addr, hcontains⟩
  · rintro ⟨n, hn, twin, htwin, hcontains⟩
    rw [← htwin]
    cases twin with
    | v4 a => exact ⟨n, hn, hcontains⟩
    | v6 a =>
      by_cases hhigh : a / 2 ^ 32 = 0xffff
      · -- the mapped form of an IPv4 address, which has to lie in a network of version 4
        have ha : 0xffff * 2 ^ 32 + a % 2 ^ 32 = a := by omega
        have hlow : a % 2 ^ 32 < 2 ^ 32 := Nat.mod_lt a (by decide)
        obtain ⟨m, hm, hcontained⟩ := hmapped n hn (a % 2 ^ 32) hlow (by rwa [ha])
        rw [← ha, unmapped_mapped hlow]
        exact ⟨m, hm, hcontained⟩
      · rw [IPAddress.unmapped, if_neg hhigh]
        exact ⟨n, hn, hcontains⟩

/-- **What was entered is what a token is bound to, for the networks that survive the column.** -/
theorem binding_means_entered_iff (sha256Hex : String → String) {values texts : List String}
    (h : v6.normalizeCidrs values = some texts) :
    ∃ networks, v6.networksOf values = some networks ∧
      (BindingMeans v6 sha256Hex networks texts ↔ Survives networks) := by
  rw [IPv6Library.normalizeCidrs_eq hlib] at h
  obtain ⟨networks, hentered, rfl⟩ := Option.map_eq_some_iff.mp h
  have hnetworks := IPv6Library.isNetwork_of_networksOf hlib hentered
  refine ⟨networks, hentered, ?_⟩
  constructor
  · rintro ⟨hread, -, hsource⟩
    let row : EnrollmentToken :=
      { id := 0, serverId := 0, sshKeyId := 0, sshUsername := "", tokenHash := "", expiresAt := 0,
        createdAt := 0, allowedCidrs := storedCidrs (networks.map v6.str) }
    have hrow := hread row rfl
    have hne : networks ≠ [] := by
      rintro rfl
      exact absurd hrow.symm (Option.some_ne_none _)
    refine ⟨hne, ?_, ?_⟩
    · rw [allowedNetworks_stored hne rfl, Option.some.injEq] at hrow
      exact no_comma_of_read_back hlib hnetworks hne hrow
    · intro n hn a ha hcontains
      -- the IPv4 address itself comes to redeem the token
      obtain ⟨allowed, hallowed, hiff⟩ := hsource row (some (IPv4Address.text a)) rfl
      have haddr : v6.ipAddress (IPv4Address.text a) = some (.v4 a) := by
        rw [IPv6Library.ipAddress, IPv4Address.parse_text ha]
      have hlies : LiesIn networks (.v4 a) := ⟨n, hn, _, unmapped_mapped ha, hcontains⟩
      rw [hiff.mpr ⟨_, _, rfl, haddr, hlies⟩, sourceAllowed_of_read_back hrow] at hallowed
      rw [ipAddress_tokenLibrary, Option.getD_some, haddr, Option.any_some, Option.some.injEq,
        List.any_eq_true] at hallowed
      exact hallowed
  · rintro ⟨hne, hcomma, hmapped⟩
    have hread : ∀ row : EnrollmentToken, row.allowedCidrs = storedCidrs (networks.map v6.str) →
        allowedNetworks (v6.tokenLibrary sha256Hex) row = some (some networks) := by
      intro row hrow
      rw [allowedNetworks_stored hne hrow, read_back_of_no_comma hlib hnetworks hne hcomma]
    refine ⟨hread, IPv6Library.normalizeCidrs_map_str hlib hentered, fun row host hrow ↦ ?_⟩
    refine ⟨_, sourceAllowed_of_read_back (hread row hrow), ?_⟩
    rw [ipAddress_tokenLibrary, Option.any_eq_true]
    simp only [any_contains_iff hmapped]
    cases host with
    | none => simp [ipAddress_empty hlib]
    | some text => simp

end

/-! ## A zone with a comma -/

/-- Addresses of version 6 in full groups, as Python prints those whose groups have four digits. -/
def fullV6 : IPv6Library where
  parse := Ipv6.parseFull
  text := Ipv6.fullText

theorem parse_fullV6 (text : String) : fullV6.parse text = Ipv6.parseFull text := rfl

theorem toList_text_fullV6 (a : ℕ) : (fullV6.text a).toList = Ipv6.groups 7 a :=
  String.toList_ofList

theorem fullV6_lawful : fullV6.Lawful where
  parse_text a ha := by
    rw [parse_fullV6]
    exact Ipv6.parseFull_fullText ha
  lt_of_parse h := by
    rw [parse_fullV6] at h
    exact (Ipv6.toList_of_parseFull h).1
  colon_of_parse h := by
    rw [parse_fullV6] at h
    rw [(Ipv6.toList_of_parseFull h).2]
    exact Ipv6.colon_mem_groups _
  chars_of_text a _ c hc := by
    rw [toList_text_fullV6] at hc
    exact (Ipv6.isAddrChar_of_groups hc).1

/-- A network of one host, with the zone. -/
def zonedNetwork (zone : String) : IPNetwork :=
  .v6 0x20011db8111122223333444455556666 128 (some zone)

theorem binding_means_entered_eth0 :
    BindingMeans fullV6 id [zonedNetwork "eth0"]
      ["2001:1db8:1111:2222:3333:4444:5555:6666%eth0/128"] := by
  have htexts : fullV6.normalizeCidrs [" 2001:1db8:1111:2222:3333:4444:5555:6666%eth0"] =
      some ["2001:1db8:1111:2222:3333:4444:5555:6666%eth0/128"] := by decide +kernel
  obtain ⟨networks, hnetworks, hiff⟩ := binding_means_entered_iff fullV6_lawful id htexts
  have hentered : fullV6.networksOf [" 2001:1db8:1111:2222:3333:4444:5555:6666%eth0"] =
      some [zonedNetwork "eth0"] := by decide +kernel
  rw [hentered, Option.some.injEq] at hnetworks
  subst hnetworks
  refine hiff.mpr ⟨List.cons_ne_nil _ _, ?_, ?_⟩
  · decide
  · intro n hn a ha hcontains
    rw [List.mem_singleton.mp hn] at hcontains
    simp only [zonedNetwork, IPNetwork.contains, Bool.and_eq_true, decide_eq_true_eq] at hcontains
    omega

/-- The network is accepted, and then every redemption of the token raises. -/
theorem zone_with_comma_raises :
    fullV6.normalizeCidrs ["2001:1db8:1111:2222:3333:4444:5555:6666%a,b"] =
      some ["2001:1db8:1111:2222:3333:4444:5555:6666%a,b/128"] ∧
    fullV6.networksOf ["2001:1db8:1111:2222:3333:4444:5555:6666%a,b"] =
      some [zonedNetwork "a,b"] ∧
    ¬ BindingMeans fullV6 id [zonedNetwork "a,b"]
      ["2001:1db8:1111:2222:3333:4444:5555:6666%a,b/128"] := by
  refine ⟨by decide +kernel, by decide +kernel, fun h ↦ ?_⟩
  let row : EnrollmentToken :=
    { id := 1, serverId := 1, sshKeyId := 1, sshUsername := "root", tokenHash := "", expiresAt := 0,
      createdAt := 0,
      allowedCidrs := storedCidrs ["2001:1db8:1111:2222:3333:4444:5555:6666%a,b/128"] }
  have hraises : sourceAllowed (fullV6.tokenLibrary id) row (some "10.0.0.1") = none := by
    decide +kernel
  obtain ⟨allowed, hallowed, -⟩ := h.source row (some "10.0.0.1") rfl
  rw [hraises] at hallowed
  cases hallowed

end WgManager
