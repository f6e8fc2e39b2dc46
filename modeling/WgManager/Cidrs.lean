import Mathlib.Data.List.TakeWhile
import WgManager.Enrollment
import WgManager.Lib.Except
import WgManager.Lib.Ipv6Text

/-!
# The networks that a token is bound to

`normalize_cidrs` of `enrollment.py`, with `ipaddress.ip_network` for both families as far as it
goes beyond the digits of an address: a network is an address, which may have a zone after a percent
sign, and a prefix length after a slash.  The texts it prints are read back as the same network
(`ipNetwork_str`), so that normalising twice is normalising once (`normalizeCidrs_map_str`).
-/

set_option autoImplicit false

namespace WgManager

/-- The addresses of version 6 without their zones, as Python reads and prints them. -/
structure IPv6Library where
  /-- `IPv6Address._ip_int_from_string`; `none` is a `ValueError`. -/
  parse : String → Option ℕ
  /-- `IPv6Address._string_from_ip_int`. -/
  text : ℕ → String

/-- What the documentation of `ipaddress` says of them. -/
structure IPv6Library.Lawful (v6 : IPv6Library) : Prop where
  parse_text : ∀ a < 2 ^ 128, v6.parse (v6.text a) = some a
  lt_of_parse : ∀ {text a}, v6.parse text = some a → a < 2 ^ 128
  colon_of_parse : ∀ {text a}, v6.parse text = some a → ':' ∈ text.toList
  chars_of_text : ∀ a < 2 ^ 128, ∀ c ∈ (v6.text a).toList, Ipv6.isAddrChar c = true

/-- `_split_scope_id`: what stands before the first percent sign, and after it. -/
def splitScopeId (cs : List Char) : Option (List Char × Option String) :=
  match cs.dropWhile (· ≠ '%') with
  | [] => some (cs, none)
  | _ :: scopeId =>
    if scopeId = [] ∨ '%' ∈ scopeId then none
    else some (cs.takeWhile (· ≠ '%'), some (String.ofList scopeId))

/-- `_prefix_from_prefix_string`. -/
def parseV6Prefixlen (cs : List Char) : Option ℕ := (decimal cs).filter (· ≤ 128)

namespace IPv6Library

variable (v6 : IPv6Library)

/-- `IPv6Address(text)`. -/
def address (cs : List Char) : Option (ℕ × Option String) :=
  if '/' ∈ cs then none
  else do
    let (addr, scopeId) ← splitScopeId cs
    let a ← v6.parse (String.ofList addr)
    some (a, scopeId)

/-- The network of an address and a prefix length, when no host bit is set. -/
def ofAddress (cs : List Char) (p : ℕ) : Option IPNetwork := do
  let (a, scopeId) ← v6.address cs
  if a % 2 ^ (128 - p) = 0 then some (.v6 a p scopeId) else none

/-- `IPv6Network(text, strict=True)`. -/
def network (text : String) : Option IPNetwork :=
  match PyStr.pieces (· == '/') text.toList with
  | [a] => v6.ofAddress a 128
  | [a, mask] => do v6.ofAddress a (← parseV6Prefixlen mask)
  | _ => none

/-- `ipaddress.ip_network(text, strict=True)`: version 4 is tried first. -/
def ipNetwork (text : String) : Option IPNetwork :=
  match IPv4Network.parse text with
  | some n => some (.v4 n)
  | none => v6.network text

/-- `ipaddress.ip_address(text)`. -/
def ipAddress (text : String) : Option IPAddress :=
  match IPv4Address.parse text.toList with
  | some a => some (.v4 a)
  | none => (v6.address text.toList).map fun (a, _) ↦ .v6 a

/-- The text of an address and its zone. -/
def addressText (a : ℕ) : Option String → String
  | none => v6.text a
  | some scopeId => v6.text a ++ "%" ++ scopeId

/-- `str(network)`. -/
def str : IPNetwork → String
  | .v4 n => n.text
  | .v6 a p scopeId => v6.addressText a scopeId ++ "/" ++ toString p

/-- The body of the loop of `normalize_cidrs`. -/
def addCidr (out : List String) (value : String) : Option (List String) := do
  let network ← v6.ipNetwork (PyStr.strip value)
  let text := v6.str network
  some (if text ∈ out then out else out ++ [text])

/-- `normalize_cidrs`: the canonical texts in the order of the input, without duplicates; `none` is
a `ValueError`. -/
def normalizeCidrs (values : List String) : Option (List String) := values.foldlM v6.addCidr []

/-- The networks that a list names, in its order and without duplicates. -/
def networksOf (values : List String) : Option (List IPNetwork) :=
  (values.mapM fun value ↦ v6.ipNetwork (PyStr.strip value)).map List.eraseDups

end IPv6Library

/-- The zone of a network, if it has one. -/
def IPNetwork.scopeId : IPNetwork → Option String
  | .v4 _ => none
  | .v6 _ _ scopeId => scopeId

/-! ## Reading back what is printed -/

/-- What a network that is read fulfils: its address is in range and has no host bits, and its zone
is not empty and has neither a percent sign nor a slash. -/
def IsNetwork : IPNetwork → Prop
  | .v4 _ => True
  | .v6 a p scopeId => a < 2 ^ 128 ∧ p ≤ 128 ∧ a % 2 ^ (128 - p) = 0 ∧
      ∀ zone ∈ scopeId, zone ≠ "" ∧ '%' ∉ zone.toList ∧ '/' ∉ zone.toList

theorem zone_of_splitScopeId {cs addr : List Char} {scopeId : Option String}
    (h : splitScopeId cs = some (addr, scopeId)) (hslash : '/' ∉ cs) :
    ∀ zone ∈ scopeId, zone ≠ "" ∧ '%' ∉ zone.toList ∧ '/' ∉ zone.toList := by
  rw [splitScopeId] at h
  split at h
  · cases h
    exact fun zone hzone ↦ absurd hzone (by simp)
  · next c rest hrest =>
    split at h
    · cases h
    · next hzone =>
      cases h
      rw [not_or] at hzone
      rintro _ ⟨⟩
      refine ⟨?_, ?_, ?_⟩
      · rw [← String.ofList_nil, Ne, String.ofList_inj]
        exact hzone.1
      · rw [String.toList_ofList]
        exact hzone.2
      · rw [String.toList_ofList]
        have hsuffix : c :: rest <:+ cs := hrest ▸ List.dropWhile_suffix _
        exact fun hmem ↦ hslash (hsuffix.mem (List.mem_cons_of_mem c hmem))

namespace IPv6Library

variable {v6 : IPv6Library}

theorem isNetwork_of_ofAddress (hlib : v6.Lawful) {cs : List Char} {p : ℕ} {n : IPNetwork}
    (hp : p ≤ 128) (h : v6.ofAddress cs p = some n) : IsNetwork n := by
  rw [ofAddress, Option.bind_eq_bind, Option.bind_eq_some_iff] at h
  obtain ⟨⟨a, scopeId⟩, haddress, h⟩ := h
  rw [address] at haddress
  split at haddress
  · cases haddress
  · next hslash =>
    rw [Option.bind_eq_bind, Option.bind_eq_some_iff] at haddress
    obtain ⟨⟨addr, scopeId'⟩, hsplit, haddress⟩ := haddress
    rw [Option.bind_eq_bind, Option.bind_eq_some_iff] at haddress
    obtain ⟨a', ha', haddress⟩ := haddress
    cases haddress
    dsimp only at h
    split at h
    · next haligned =>
      cases h
      exact ⟨hlib.lt_of_parse ha', hp, haligned, zone_of_splitScopeId hsplit hslash⟩
    · cases h

theorem isNetwork_of_ipNetwork (hlib : v6.Lawful) {text : String} {n : IPNetwork}
    (h : v6.ipNetwork text = some n) : IsNetwork n := by
  rw [ipNetwork] at h
  split at h
  · cases h
    trivial
  · rw [network] at h
    split at h
    · exact isNetwork_of_ofAddress hlib (Nat.le_refl _) h
    · rw [Option.bind_eq_bind, Option.bind_eq_some_iff] at h
      obtain ⟨p, hp, h⟩ := h
      have hle := (Option.filter_eq_some_iff.mp hp).2
      exact isNetwork_of_ofAddress hlib (by simpa using hle) h
    · cases h

section

variable (hlib : v6.Lawful) {a p : ℕ} {scopeId : Option String}
include hlib

theorem not_mem_text {c : Char} (ha : a < 2 ^ 128) (hc : Ipv6.isAddrChar c = false) :
    c ∉ (v6.text a).toList := by
  intro hmem
  rw [hlib.chars_of_text a ha c hmem] at hc
  cases hc

theorem colon_mem_addressText (ha : a < 2 ^ 128) : ':' ∈ (v6.addressText a scopeId).toList := by
  have htext : ':' ∈ (v6.text a).toList := hlib.colon_of_parse (hlib.parse_text a ha)
  cases scopeId with
  | none => exact htext
  | some zone =>
    rw [addressText, String.toList_append, String.toList_append]
    simp [htext]

theorem slash_not_mem_addressText (ha : a < 2 ^ 128)
    (hzone : ∀ zone ∈ scopeId, '/' ∉ zone.toList) : '/' ∉ (v6.addressText a scopeId).toList := by
  have htext : '/' ∉ (v6.text a).toList := not_mem_text hlib ha (by decide)
  cases scopeId with
  | none => exact htext
  | some zone =>
    have hpercent : "%".toList = ['%'] := rfl
    rw [addressText, String.toList_append, String.toList_append, hpercent]
    simp [htext, hzone zone rfl]

theorem splitScopeId_addressText (ha : a < 2 ^ 128)
    (hzone : ∀ zone ∈ scopeId, zone ≠ "" ∧ '%' ∉ zone.toList) :
    splitScopeId (v6.addressText a scopeId).toList = some ((v6.text a).toList, scopeId) := by
  have htext : ∀ c ∈ (v6.text a).toList, decide (c ≠ '%') = true := by
    intro c hc
    rw [decide_eq_true_iff]
    rintro rfl
    exact not_mem_text hlib ha (by decide) hc
  cases scopeId with
  | none => rw [addressText, splitScopeId, List.dropWhile_eq_nil_iff.mpr htext]
  | some zone =>
    have hchars : (v6.addressText a (some zone)).toList =
        (v6.text a).toList ++ '%' :: zone.toList := by
      rw [addressText, String.toList_append, String.toList_append, List.append_assoc]
      rfl
    obtain ⟨hne, hpercent⟩ := hzone zone rfl
    have hchars_ne : zone.toList ≠ [] := by
      rw [Ne, String.toList_eq_nil_iff]
      exact hne
    rw [hchars, splitScopeId, List.dropWhile_append_of_pos htext,
      List.takeWhile_append_of_pos htext, List.dropWhile_cons_of_neg (by decide),
      List.takeWhile_cons_of_neg (by decide)]
    dsimp only
    rw [if_neg (not_or.mpr ⟨hchars_ne, hpercent⟩), List.append_nil, String.ofList_toList]

theorem address_addressText (ha : a < 2 ^ 128)
    (hzone : ∀ zone ∈ scopeId, zone ≠ "" ∧ '%' ∉ zone.toList ∧ '/' ∉ zone.toList) :
    v6.address (v6.addressText a scopeId).toList = some (a, scopeId) := by
  rw [address, if_neg (slash_not_mem_addressText hlib ha fun zone h ↦ (hzone zone h).2.2),
    splitScopeId_addressText hlib ha fun zone h ↦ ⟨(hzone zone h).1, (hzone zone h).2.1⟩,
    Option.bind_eq_bind, Option.bind_some]
  dsimp only
  rw [String.ofList_toList, hlib.parse_text a ha]
  rfl

end

theorem parseV6Prefixlen_toDigits : ∀ p < 129, parseV6Prefixlen (Nat.toDigits 10 p) = some p := by
  decide +kernel

theorem toList_str_v6 (v6 : IPv6Library) (a p : ℕ) (scopeId : Option String) :
    (v6.str (.v6 a p scopeId)).toList =
      (v6.addressText a scopeId).toList ++ '/' :: Nat.toDigits 10 p := by
  have hdigits : (toString p).toList = Nat.toDigits 10 p := Nat.toList_repr
  rw [str, String.toList_append, String.toList_append, hdigits, List.append_assoc]
  rfl

/-- **What is printed is read back.** -/
theorem ipNetwork_str (hlib : v6.Lawful) {n : IPNetwork} (h : IsNetwork n) :
    v6.ipNetwork (v6.str n) = some n := by
  cases n with
  | v4 n => rw [ipNetwork, str, n.parse_text]
  | v6 a p scopeId =>
    obtain ⟨ha, hp, haligned, hzone⟩ := h
    have hpieces : PyStr.pieces (· == '/') (v6.str (.v6 a p scopeId)).toList =
        [(v6.addressText a scopeId).toList, Nat.toDigits 10 p] := by
      have hslash := slash_not_mem_addressText hlib ha fun zone h ↦ (hzone zone h).2.2
      rw [toList_str_v6, PyStr.pieces_append_cons _ (by decide),
        PyStr.pieces_of_forall fun _ ↦ ne_of_mem_toDigits (by decide)]
      intro c hc
      rw [beq_eq_false_iff_ne]
      rintro rfl
      exact hslash hc
    -- an address with a colon is not one of version 4
    have hv4 : IPv4Network.parse (v6.str (.v6 a p scopeId)) = none := by
      have hnone : IPv4Address.parse (v6.addressText a scopeId).toList = none := by
        cases hparse : IPv4Address.parse (v6.addressText a scopeId).toList with
        | none => rfl
        | some b =>
          rcases chars_of_parse_v4 hparse ':' (colon_mem_addressText hlib ha) with hdigit | hdot
          · exact absurd hdigit (by decide)
          · exact absurd hdot (by decide)
      rw [IPv4Network.parse, hpieces]
      dsimp only
      rw [hnone]
      rfl
    rw [ipNetwork, hv4]
    dsimp only
    rw [network, hpieces]
    dsimp only
    rw [parseV6Prefixlen_toDigits p (Nat.lt_succ_of_le hp), Option.bind_eq_bind, Option.bind_some,
      ofAddress, address_addressText hlib ha hzone, Option.bind_eq_bind, Option.bind_some]
    exact if_pos haligned

theorem str_inj (hlib : v6.Lawful) {m n : IPNetwork} (hm : IsNetwork m) (hn : IsNetwork n)
    (h : v6.str m = v6.str n) : m = n := by
  have hread := ipNetwork_str hlib hm
  rw [h, ipNetwork_str hlib hn] at hread
  exact (Option.some.inj hread).symm

/-! ## Normalising -/

theorem isSpace_eq_false {c : Char} (h : 33 ≤ c.toNat ∧ c.toNat ≤ 126) :
    PyStr.isSpace c = false := by
  simp only [PyStr.isSpace, Bool.or_eq_false_iff, Bool.and_eq_false_iff, decide_eq_false_iff_not]
  omega

theorem toNat_of_isAddressChar {c : Char} (h : isAddressChar c = true) :
    33 ≤ c.toNat ∧ c.toNat ≤ 126 := by
  simp only [isAddressChar, Bool.or_eq_true, decide_eq_true_eq] at h
  rcases h with ((hdigit | rfl) | rfl) | rfl
  · exact Ipv6.toNat_of_isAddrChar (Ipv6.isAddrChar_of_isDigit hdigit)
  · decide
  · decide
  · decide

/-- There is no white space around a printed network. -/
theorem strip_str (hlib : v6.Lawful) {n : IPNetwork} (h : IsNetwork n) :
    PyStr.strip (v6.str n) = v6.str n := by
  cases n with
  | v4 n =>
    have hchars : ∀ c ∈ n.text.toList, PyStr.isSpace c = false := fun c hc ↦
      isSpace_eq_false (toNat_of_isAddressChar (isAddressChar_of_mem_network hc))
    exact PyStr.strip_eq_self (fun c hc ↦ hchars c (List.mem_of_mem_head? hc))
      fun c hc ↦ hchars c (List.mem_of_mem_getLast? hc)
  | v6 a p scopeId =>
    have ha : a < 2 ^ 128 := h.1
    have hne : (v6.text a).toList ≠ [] :=
      List.ne_nil_of_mem (hlib.colon_of_parse (hlib.parse_text a ha))
    -- it begins with the address, and ends with the prefix length
    have hhead : (v6.str (.v6 a p scopeId)).toList.head? = (v6.text a).toList.head? := by
      rw [toList_str_v6]
      cases scopeId with
      | none => rw [addressText, List.head?_append_of_ne_nil _ hne]
      | some zone =>
        rw [addressText, String.toList_append, String.toList_append, List.append_assoc,
          List.append_assoc, List.head?_append_of_ne_nil _ hne]
    have hlast : (v6.str (.v6 a p scopeId)).toList.getLast? = (Nat.toDigits 10 p).getLast? := by
      rw [toList_str_v6, ← List.singleton_append, ← List.append_assoc,
        List.getLast?_append_of_ne_nil _ Nat.toDigits_ne_nil]
    refine PyStr.strip_eq_self ?_ ?_
    · intro c hc
      rw [hhead] at hc
      exact isSpace_eq_false (Ipv6.toNat_of_isAddrChar
        (hlib.chars_of_text a ha c (List.mem_of_mem_head? hc)))
    · intro c hc
      rw [hlast] at hc
      have hdigit : c.isDigit = true :=
        Nat.isDigit_of_mem_toDigits (by decide) (by decide) (List.mem_of_mem_getLast? hc)
      exact isSpace_eq_false (Ipv6.toNat_of_isAddrChar (Ipv6.isAddrChar_of_isDigit hdigit))

theorem mem_map_str_iff (hlib : v6.Lawful) {networks : List IPNetwork} {n : IPNetwork}
    (h : ∀ m ∈ networks, IsNetwork m) (hn : IsNetwork n) :
    v6.str n ∈ networks.map v6.str ↔ n ∈ networks := by
  constructor
  · intro hmem
    obtain ⟨m, hm, htext⟩ := List.mem_map.mp hmem
    rwa [← str_inj hlib (h m hm) hn htext]
  · exact List.mem_map_of_mem

theorem eraseDups_append_singleton {networks : List IPNetwork} {n : IPNetwork} :
    (networks ++ [n]).eraseDups =
      if n ∈ networks then networks.eraseDups else networks.eraseDups ++ [n] := by
  rw [List.eraseDups_append]
  split
  · next hmem => simp [List.removeAll, hmem]
  · next hmem => simp [List.removeAll, hmem, List.eraseDups_cons]

theorem addCidr_map_str (hlib : v6.Lawful) {seen : List IPNetwork}
    (hseen : ∀ m ∈ seen, IsNetwork m) {value : String} {n : IPNetwork}
    (hn : v6.ipNetwork (PyStr.strip value) = some n) :
    v6.addCidr (seen.eraseDups.map v6.str) value = some ((seen ++ [n]).eraseDups.map v6.str) := by
  have hmem : v6.str n ∈ seen.eraseDups.map v6.str ↔ n ∈ seen := by
    rw [mem_map_str_iff hlib (fun m hm ↦ hseen m (List.mem_eraseDups.mp hm))
      (isNetwork_of_ipNetwork hlib hn), List.mem_eraseDups]
  rw [addCidr, hn, Option.bind_eq_bind, Option.bind_some, eraseDups_append_singleton]
  by_cases hold : n ∈ seen
  · rw [if_pos hold]
    exact congrArg some (if_pos (hmem.mpr hold))
  · rw [if_neg hold, List.map_append, List.map_singleton]
    exact congrArg some (if_neg fun h ↦ hold (hmem.mp h))

/-- The loop of `normalize_cidrs`, after some networks have been read. -/
theorem foldlM_addCidr (hlib : v6.Lawful) (values : List String) {seen : List IPNetwork}
    (hseen : ∀ m ∈ seen, IsNetwork m) :
    values.foldlM v6.addCidr (seen.eraseDups.map v6.str) =
      (values.mapM fun value ↦ v6.ipNetwork (PyStr.strip value)).map fun networks ↦
        (seen ++ networks).eraseDups.map v6.str := by
  induction values generalizing seen with
  | nil =>
    rw [List.foldlM_nil, List.mapM_nil]
    show some (seen.eraseDups.map v6.str) = some ((seen ++ []).eraseDups.map v6.str)
    rw [List.append_nil]
  | cons value values ih =>
    rw [List.foldlM_cons, List.mapM_cons]
    cases hn : v6.ipNetwork (PyStr.strip value) with
    | none =>
      rw [addCidr, hn]
      rfl
    | some n =>
      have hall : ∀ m ∈ seen ++ [n], IsNetwork m := by
        intro m hm
        rcases List.mem_append.mp hm with hm | hm
        · exact hseen m hm
        · rw [List.mem_singleton.mp hm]
          exact isNetwork_of_ipNetwork hlib hn
      rw [addCidr_map_str hlib hseen hn, Option.bind_eq_bind, Option.bind_some, ih hall]
      cases values.mapM fun value ↦ v6.ipNetwork (PyStr.strip value) with
      | none => rfl
      | some networks =>
        show some ((seen ++ [n] ++ networks).eraseDups.map v6.str) =
          some ((seen ++ n :: networks).eraseDups.map v6.str)
        rw [List.append_assoc, List.singleton_append]

/-- **The texts are those of the networks that the list names.** -/
theorem normalizeCidrs_eq (hlib : v6.Lawful) (values : List String) :
    v6.normalizeCidrs values = (v6.networksOf values).map (List.map v6.str) := by
  have hnone : ∀ m ∈ ([] : List IPNetwork), IsNetwork m := fun m hm ↦ absurd hm List.not_mem_nil
  rw [networksOf, Option.map_map]
  exact foldlM_addCidr hlib values hnone

theorem isNetwork_of_networksOf (hlib : v6.Lawful) {values : List String}
    {networks : List IPNetwork} (h : v6.networksOf values = some networks) :
    ∀ n ∈ networks, IsNetwork n := by
  obtain ⟨all, hall, rfl⟩ := Option.map_eq_some_iff.mp h
  simp only [List.mem_eraseDups]
  have hread := mapM_eq_some_iff.mp hall
  clear h hall
  induction hread with
  | nil => exact fun n hn ↦ absurd hn List.not_mem_nil
  | cons hvalue _ ih => exact List.forall_mem_cons.mpr ⟨isNetwork_of_ipNetwork hlib hvalue, ih⟩


theorem eraseDups_eraseDups (networks : List IPNetwork) :
    networks.eraseDups.eraseDups = networks.eraseDups := by
  induction hlen : networks.length using Nat.strongRecOn generalizing networks with
  | ind len ih =>
    cases networks with
    | nil => rfl
    | cons n networks =>
      have hfilter : ((networks.filter fun m ↦ !m == n).eraseDups.filter fun m ↦ !m == n) =
          (networks.filter fun m ↦ !m == n).eraseDups := by
        rw [List.filter_eq_self]
        intro m hm
        rw [List.mem_eraseDups] at hm
        exact (List.mem_filter.mp hm).2
      have hshort : (networks.filter fun m ↦ !m == n).length < len := by
        have := List.length_filter_le (fun m ↦ !m == n) networks
        rw [List.length_cons] at hlen
        omega
      rw [List.eraseDups_cons, List.eraseDups_cons, hfilter, ih _ hshort _ rfl]

/-- **Normalising again changes nothing.** -/
theorem normalizeCidrs_map_str (hlib : v6.Lawful) {values : List String}
    {networks : List IPNetwork} (h : v6.networksOf values = some networks) :
    v6.normalizeCidrs (networks.map v6.str) = some (networks.map v6.str) := by
  have hnetworks := isNetwork_of_networksOf hlib h
  obtain ⟨all, -, rfl⟩ := Option.map_eq_some_iff.mp h
  have hread : ((all.eraseDups.map v6.str).mapM fun value ↦ v6.ipNetwork (PyStr.strip value)) =
      some all.eraseDups := by
    rw [mapM_eq_some_iff, List.forall₂_map_left_iff, List.forall₂_same]
    intro n hn
    rw [strip_str hlib (hnetworks n hn), ipNetwork_str hlib (hnetworks n hn)]
  rw [normalizeCidrs_eq hlib, networksOf, hread, Option.map_some, eraseDups_eraseDups,
    Option.map_some]

/-- A comma in the text of a network is one of its zone. -/
theorem comma_mem_str_iff (hlib : v6.Lawful) {n : IPNetwork} (h : IsNetwork n) :
    ',' ∈ (v6.str n).toList ↔ ∃ zone ∈ n.scopeId, ',' ∈ zone.toList := by
  cases n with
  | v4 n =>
    have hcomma : ',' ∉ n.text.toList := fun hmem ↦
      absurd (isAddressChar_of_mem_network hmem) (by decide)
    simp [str, IPNetwork.scopeId, hcomma]
  | v6 a p scopeId =>
    have htext : ',' ∉ (v6.text a).toList := not_mem_text hlib h.1 (by decide)
    have hdigits : ',' ∉ Nat.toDigits 10 p := fun hmem ↦
      absurd (ne_of_mem_toDigits (d := ',') (by decide) hmem) (by decide)
    rw [toList_str_v6, IPNetwork.scopeId]
    cases scopeId with
    | none => simp [addressText, htext, hdigits]
    | some zone => simp [addressText, htext, hdigits]

end IPv6Library

end WgManager
