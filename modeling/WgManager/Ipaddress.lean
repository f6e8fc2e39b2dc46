import Mathlib.Algebra.Group.Nat.Defs
import Mathlib.Data.List.Basic
import WgManager.Lib.PyStr

/-!
# IPv4 addresses, networks and interfaces

The part of Python's `ipaddress` that the control plane computes with.  An address is its number;
a network carries the two facts `IPv4Network(..., strict=True)` checks when it is built — the
prefix length is at most 32 and no host bit is set — so a value that breaks them cannot be
written down.

`IPv4Network.hosts` is `IPv4Network.hosts()`: everything strictly between the network and the
broadcast address, except that a `/31` has both of its addresses as hosts and a `/32` its one.
-/

set_option autoImplicit false

namespace WgManager

/-- An IPv4 address, as the number its four octets spell. -/
abbrev IPv4Address := ℕ

/-- An IPv4 network: `ipaddress.IPv4Network` built with `strict=True`. -/
structure IPv4Network where
  /-- The lowest address of the network. -/
  networkAddress : IPv4Address
  /-- The prefix length. -/
  prefixlen : ℕ
  prefixlen_le : prefixlen ≤ 32
  lt_two_pow : networkAddress < 2 ^ 32
  /-- No host bit is set. -/
  aligned : networkAddress % 2 ^ (32 - prefixlen) = 0
  deriving DecidableEq

namespace IPv4Network

/-- How many addresses the network has. -/
def numAddresses (n : IPv4Network) : ℕ := 2 ^ (32 - n.prefixlen)

/-- The highest address of the network. -/
def broadcastAddress (n : IPv4Network) : IPv4Address := n.networkAddress + n.numAddresses - 1

/-- The usable host addresses, lowest first. -/
def hosts (n : IPv4Network) : List IPv4Address :=
  if n.prefixlen = 32 then [n.networkAddress]
  else if n.prefixlen = 31 then [n.networkAddress, n.broadcastAddress]
  else List.range' (n.networkAddress + 1) (n.numAddresses - 2)

/-- `a in network`. -/
def contains (n : IPv4Network) (a : IPv4Address) : Bool :=
  n.networkAddress ≤ a && a ≤ n.broadcastAddress

/-- `self.subnet_of(other)`. -/
def subnetOf (n m : IPv4Network) : Bool :=
  m.networkAddress ≤ n.networkAddress && n.broadcastAddress ≤ m.broadcastAddress

/-- `self.overlaps(other)`. -/
def overlaps (n m : IPv4Network) : Bool :=
  n.contains m.networkAddress || n.contains m.broadcastAddress ||
    m.contains n.networkAddress || m.contains n.broadcastAddress

theorem networkAddress_le (n : IPv4Network) : n.networkAddress ≤ n.broadcastAddress := by
  have hpos : 1 ≤ n.numAddresses := Nat.one_le_two_pow
  exact Nat.le_sub_of_add_le (Nat.add_le_add_left hpos _)

theorem contains_iff {n : IPv4Network} {a : IPv4Address} :
    n.contains a = true ↔ n.networkAddress ≤ a ∧ a ≤ n.broadcastAddress := by
  simp [contains]

/-- Two networks overlap when they share an address. -/
theorem overlaps_iff {n m : IPv4Network} :
    n.overlaps m = true ↔ ∃ a, n.contains a = true ∧ m.contains a = true := by
  have hn := n.networkAddress_le
  have hm := m.networkAddress_le
  simp only [overlaps, Bool.or_eq_true, contains_iff]
  constructor
  · rintro (((h | h) | h) | h)
    · exact ⟨m.networkAddress, h, Nat.le_refl _, hm⟩
    · exact ⟨m.broadcastAddress, h, hm, Nat.le_refl _⟩
    · exact ⟨n.networkAddress, ⟨Nat.le_refl _, hn⟩, h⟩
    · exact ⟨n.broadcastAddress, ⟨hn, Nat.le_refl _⟩, h⟩
  · rintro ⟨a, ⟨hna, han⟩, hma, ham⟩
    -- the one that begins later begins inside the other
    rcases Nat.le_total n.networkAddress m.networkAddress with h | h
    · exact .inl (.inl (.inl ⟨h, Nat.le_trans hma han⟩))
    · exact .inl (.inr ⟨h, Nat.le_trans hna ham⟩)

theorem overlaps_comm (n m : IPv4Network) : n.overlaps m = m.overlaps n := by
  rw [Bool.eq_iff_iff, overlaps_iff, overlaps_iff]
  simp only [and_comm]

theorem broadcastAddress_lt (n : IPv4Network) : n.broadcastAddress < 2 ^ 32 := by
  have hsplit : 2 ^ 32 = 2 ^ n.prefixlen * 2 ^ (32 - n.prefixlen) := by
    rw [← Nat.pow_add, Nat.add_sub_cancel' n.prefixlen_le]
  obtain ⟨q, hq⟩ := Nat.dvd_of_mod_eq_zero n.aligned
  -- the network is block `q` of `2 ^ prefixlen` blocks
  have hblock : q < 2 ^ n.prefixlen := by
    have hlt := n.lt_two_pow
    rw [hq, hsplit, Nat.mul_comm (2 ^ n.prefixlen)] at hlt
    exact Nat.lt_of_mul_lt_mul_left hlt
  have hnext : n.networkAddress + n.numAddresses ≤ 2 ^ 32 := by
    calc n.networkAddress + n.numAddresses
        = 2 ^ (32 - n.prefixlen) * (q + 1) := by rw [hq, numAddresses, Nat.mul_succ]
      _ ≤ 2 ^ (32 - n.prefixlen) * 2 ^ n.prefixlen := Nat.mul_le_mul_left _ hblock
      _ = 2 ^ 32 := by rw [hsplit, Nat.mul_comm]
  have hpos : 0 < n.numAddresses := Nat.two_pow_pos _
  exact Nat.lt_of_lt_of_le (Nat.sub_lt (Nat.add_pos_right _ hpos) Nat.one_pos) hnext

theorem lt_of_mem_hosts {n : IPv4Network} {a : IPv4Address} (h : a ∈ n.hosts) : a < 2 ^ 32 := by
  have hlast := n.broadcastAddress_lt
  have hfirst := n.lt_two_pow
  rw [hosts] at h
  split at h
  · rw [List.mem_singleton.mp h]
    exact hfirst
  · split at h
    · rcases List.mem_pair.mp h with rfl | rfl
      · exact hfirst
      · exact hlast
    · rw [List.mem_range'_1] at h
      refine Nat.lt_of_le_of_lt ?_ hlast
      rw [broadcastAddress]
      exact Nat.le_sub_one_of_lt (Nat.lt_of_lt_of_le h.2 (by omega))

end IPv4Network

/-- An address of either family, as `ipaddress.ip_address` returns it. -/
inductive IPAddress
  | v4 (a : IPv4Address)
  | v6 (a : ℕ)
  deriving DecidableEq

/-- A network of either family; one of version 6 may have a zone. -/
inductive IPNetwork
  | v4 (n : IPv4Network)
  | v6 (networkAddress prefixlen : ℕ) (scopeId : Option String)
  deriving DecidableEq

/-- `addr.ipv4_mapped`, where there is one: `::ffff:a.b.c.d` is matched as `a.b.c.d`. -/
def IPAddress.unmapped : IPAddress → IPAddress
  | v4 a => v4 a
  | v6 a => if a / 2 ^ 32 = 0xffff then v4 (a % 2 ^ 32) else v6 a

/-- `addr in net`; false when the families differ.  Zones are not looked at. -/
def IPNetwork.contains : IPNetwork → IPAddress → Bool
  | v4 n, .v4 a => n.contains a
  | v6 networkAddress prefixlen _, .v6 a =>
    networkAddress ≤ a && a < networkAddress + 2 ^ (128 - prefixlen)
  | _, _ => false

/-- An address with the prefix length it is written with: `ipaddress.IPv4Interface`. -/
structure IPv4Interface where
  /-- The address. -/
  ip : IPv4Address
  /-- The prefix length after the slash. -/
  prefixlen : ℕ
  deriving DecidableEq

/-- The dotted-quad text of an address. -/
def IPv4Address.text (a : IPv4Address) : String :=
  s!"{a / 2 ^ 24 % 256}.{a / 2 ^ 16 % 256}.{a / 2 ^ 8 % 256}.{a % 256}"

/-- The text of an interface, `a.b.c.d/n`. -/
def IPv4Interface.text (i : IPv4Interface) : String :=
  s!"{IPv4Address.text i.ip}/{i.prefixlen}"

/-- The text of a network, `a.b.c.d/n`. -/
def IPv4Network.text (n : IPv4Network) : String :=
  s!"{IPv4Address.text n.networkAddress}/{n.prefixlen}"

/-! ## Reading a network

`IPv4Network(text, strict=True)`.  A mask may be a prefix length, a netmask or a host mask.
-/

/-- `int(text)` for a text of decimal digits; Python refuses more than 4300 of them. -/
def decimal (cs : List Char) : Option ℕ :=
  if cs ≠ [] ∧ cs.length ≤ 4300 ∧ cs.all Char.isDigit then
    some (cs.foldl (fun n c ↦ 10 * n + (c.toNat - 48)) 0)
  else none

/-- `_parse_octet`: at most three digits, no leading zero, at most 255. -/
def parseOctet (cs : List Char) : Option ℕ :=
  if cs.length ≤ 3 ∧ (cs = ['0'] ∨ cs.head? ≠ some '0') then (decimal cs).filter (· ≤ 255)
  else none

/-- `_ip_int_from_string`. -/
def IPv4Address.parse (cs : List Char) : Option IPv4Address :=
  match PyStr.pieces (· == '.') cs with
  | [a, b, c, d] => do
    let a ← parseOctet a
    let b ← parseOctet b
    let c ← parseOctet c
    let d ← parseOctet d
    some (((a * 256 + b) * 256 + c) * 256 + d)
  | _ => none

/-- `_prefix_from_ip_int`: the prefix length whose netmask is the number. -/
def prefixFromIpInt (n : ℕ) : Option ℕ := (List.range 33).find? fun p ↦ n = 2 ^ 32 - 2 ^ (32 - p)

/-- `_make_netmask`: a prefix length, or else a netmask or a host mask in dotted form. -/
def parsePrefixlen (cs : List Char) : Option ℕ :=
  match (decimal cs).filter (· ≤ 32) with
  | some p => some p
  | none => do
    let n ← IPv4Address.parse cs
    match prefixFromIpInt n with
    | some p => some p
    | none => prefixFromIpInt (2 ^ 32 - 1 - n)

/-- The network of an address and a prefix length, when no host bit is set. -/
def IPv4Network.ofAddress (a p : ℕ) : Option IPv4Network :=
  if h : p ≤ 32 ∧ a < 2 ^ 32 ∧ a % 2 ^ (32 - p) = 0 then some ⟨a, p, h.1, h.2.1, h.2.2⟩ else none

/-- `IPv4Network(text, strict=True)`; `none` is a `ValueError`. -/
def IPv4Network.parse (text : String) : Option IPv4Network :=
  match PyStr.pieces (· == '/') text.toList with
  | [a] => do IPv4Network.ofAddress (← IPv4Address.parse a) 32
  | [a, mask] => do IPv4Network.ofAddress (← IPv4Address.parse a) (← parsePrefixlen mask)
  | _ => none

theorem IPv4Network.parse_empty : IPv4Network.parse "" = none := rfl

/-- `IPv4Network(text, strict=False)`: host bits are cleared. -/
def IPv4Network.parseLoose (text : String) : Option IPv4Network :=
  let masked (a p : ℕ) := IPv4Network.ofAddress (a - a % 2 ^ (32 - p)) p
  match PyStr.pieces (· == '/') text.toList with
  | [a] => do masked (← IPv4Address.parse a) 32
  | [a, mask] => do masked (← IPv4Address.parse a) (← parsePrefixlen mask)
  | _ => none

/-- `ip_interface(text)`, for a text of the IPv4 family. -/
def IPv4Interface.parse (text : String) : Option IPv4Interface :=
  match PyStr.pieces (· == '/') text.toList with
  | [a] => do some ⟨← IPv4Address.parse a, 32⟩
  | [a, mask] => do some ⟨← IPv4Address.parse a, ← parsePrefixlen mask⟩
  | _ => none

/-! ## The characters of a text -/

/-- The characters that addresses, networks and numbers are written with. -/
def isAddressChar (c : Char) : Bool := c.isDigit || c = '.' || c = '/' || c = '-'

theorem isAddressChar_of_mem_nat {n : ℕ} {c : Char} (h : c ∈ (toString n).toList) :
    isAddressChar c = true := by
  have hmem : c ∈ Nat.toDigits 10 n := by
    rw [← Nat.toList_repr]
    exact h
  have hdigit : c.isDigit = true := Nat.isDigit_of_mem_toDigits (by decide) (by decide) hmem
  simp [isAddressChar, hdigit]

theorem isAddressChar_of_mem_int {n : ℤ} {c : Char} (h : c ∈ (toString n).toList) :
    isAddressChar c = true := by
  cases n with
  | ofNat n => exact isAddressChar_of_mem_nat h
  | negSucc n =>
    have hneg : (toString (Int.negSucc n)).toList = '-' :: (toString (n + 1)).toList := by
      show ("-" ++ (n + 1).repr).toList = _
      rw [String.toList_append]
      rfl
    rw [hneg, List.mem_cons] at h
    rcases h with rfl | h
    · decide
    · exact isAddressChar_of_mem_nat h

theorem isAddressChar_of_mem_address {a : IPv4Address} {c : Char} (h : c ∈ a.text.toList) :
    isAddressChar c = true := by
  have hdot : c ∈ (toString ".").toList → isAddressChar c = true := by
    intro hc
    rw [List.mem_singleton.mp (show c ∈ ['.'] from hc)]
    decide
  simp only [IPv4Address.text, String.toList_append, List.mem_append] at h
  rcases h with (((((h | h) | h) | h) | h) | h) | h
  · exact isAddressChar_of_mem_nat h
  · exact hdot h
  · exact isAddressChar_of_mem_nat h
  · exact hdot h
  · exact isAddressChar_of_mem_nat h
  · exact hdot h
  · exact isAddressChar_of_mem_nat h

theorem isAddressChar_of_mem_interface {i : IPv4Interface} {c : Char} (h : c ∈ i.text.toList) :
    isAddressChar c = true := by
  simp only [IPv4Interface.text, String.toList_append, List.mem_append] at h
  rcases h with (h | h) | h
  · exact isAddressChar_of_mem_address h
  · rw [List.mem_singleton.mp (show c ∈ ['/'] from h)]
    decide
  · exact isAddressChar_of_mem_nat h

theorem isAddressChar_of_mem_network {n : IPv4Network} {c : Char} (h : c ∈ n.text.toList) :
    isAddressChar c = true :=
  isAddressChar_of_mem_interface (i := ⟨n.networkAddress, n.prefixlen⟩) h

theorem digits_of_parseOctet {cs : List Char} {n : ℕ} (h : parseOctet cs = some n) :
    ∀ c ∈ cs, c.isDigit = true := by
  rw [parseOctet] at h
  split at h
  · obtain ⟨hdecimal, -⟩ := Option.filter_eq_some_iff.mp h
    rw [decimal] at hdecimal
    split at hdecimal
    · next hdigits => exact List.all_eq_true.mp hdigits.2.2
    · cases hdecimal
  · cases h

/-- Four octets between dots have only digits and dots. -/
theorem chars_of_parse_v4 {cs : List Char} {a : ℕ} (h : IPv4Address.parse cs = some a) :
    ∀ c ∈ cs, c.isDigit = true ∨ c = '.' := by
  intro c hc
  by_cases hdot : c = '.'
  · exact .inr hdot
  · obtain ⟨w, hw, hcw⟩ := PyStr.mem_pieces_of_mem (p := (· == '.')) hc (by simpa using hdot)
    rw [IPv4Address.parse] at h
    split at h
    · next o₁ o₂ o₃ o₄ hpieces =>
      simp only [Option.bind_eq_bind, Option.bind_eq_some_iff] at h
      obtain ⟨n₁, h₁, n₂, h₂, n₃, h₃, n₄, h₄, -⟩ := h
      rw [hpieces] at hw
      simp only [List.mem_cons, List.not_mem_nil, or_false] at hw
      rcases hw with rfl | rfl | rfl | rfl
      · exact .inl (digits_of_parseOctet h₁ c hcw)
      · exact .inl (digits_of_parseOctet h₂ c hcw)
      · exact .inl (digits_of_parseOctet h₃ c hcw)
      · exact .inl (digits_of_parseOctet h₄ c hcw)
    · cases h

theorem toDigits_inj {m n : ℕ} (h : Nat.toDigits 10 m = Nat.toDigits 10 n) : m = n := by
  have hvalue := congrArg (Nat.ofDigitChars 10 · 0) h
  simpa only [Nat.ofDigitChars_ten_toDigits] using hvalue

theorem toList_text (a : IPv4Address) :
    a.text.toList =
      Nat.toDigits 10 (a / 2 ^ 24 % 256) ++ '.' :: (Nat.toDigits 10 (a / 2 ^ 16 % 256) ++
      '.' :: (Nat.toDigits 10 (a / 2 ^ 8 % 256) ++ '.' :: Nat.toDigits 10 (a % 256))) := by
  have hdot : (toString ".").toList = ['.'] := rfl
  simp [IPv4Address.text, String.toList_append, Nat.toList_repr, hdot]

/-- What stands before the first dot can be read off, and so can the rest. -/
theorem dotted_inj {m n : ℕ} {xs ys : List Char}
    (h : Nat.toDigits 10 m ++ '.' :: xs = Nat.toDigits 10 n ++ '.' :: ys) : m = n ∧ xs = ys := by
  have hdigits : ∀ k : ℕ, ∀ c ∈ Nat.toDigits 10 k, decide (c ≠ '.') = true := by
    intro k c hc
    have hdigit := Nat.isDigit_of_mem_toDigits (by decide) (by decide) hc
    rw [decide_eq_true_iff]
    rintro rfl
    exact absurd hdigit (by decide)
  have hlead := congrArg (List.takeWhile fun c ↦ decide (c ≠ '.')) h
  rw [List.takeWhile_append_of_pos (hdigits m), List.takeWhile_append_of_pos (hdigits n),
    List.takeWhile_cons_of_neg (by decide), List.takeWhile_cons_of_neg (by decide),
    List.append_nil, List.append_nil] at hlead
  rw [hlead, List.append_cancel_left_eq, List.cons.injEq] at h
  exact ⟨toDigits_inj hlead, h.2⟩

/-- The text of an address denotes it. -/
theorem IPv4Address.text_inj {a b : ℕ} (ha : a < 2 ^ 32) (hb : b < 2 ^ 32)
    (h : IPv4Address.text a = IPv4Address.text b) : a = b := by
  have hchars := congrArg String.toList h
  rw [toList_text, toList_text] at hchars
  obtain ⟨h₁, hchars⟩ := dotted_inj hchars
  obtain ⟨h₂, hchars⟩ := dotted_inj hchars
  obtain ⟨h₃, hchars⟩ := dotted_inj hchars
  have h₄ := toDigits_inj hchars
  omega

/-! ## A text is read back as what was written -/

theorem parseOctet_toDigits : ∀ n < 256, parseOctet (Nat.toDigits 10 n) = some n := by
  decide +kernel

theorem parsePrefixlen_toDigits : ∀ p < 33, parsePrefixlen (Nat.toDigits 10 p) = some p := by
  decide +kernel

theorem ne_of_mem_toDigits {n : ℕ} {c d : Char} (hd : d.isDigit = false)
    (h : c ∈ Nat.toDigits 10 n) : (c == d) = false := by
  have hdigit := Nat.isDigit_of_mem_toDigits (by decide) (by decide) h
  rw [beq_eq_false_iff_ne]
  rintro rfl
  rw [hd] at hdigit
  cases hdigit

theorem IPv4Address.parse_text {a : ℕ} (h : a < 2 ^ 32) :
    IPv4Address.parse (IPv4Address.text a).toList = some a := by
  have hdot : ∀ n : ℕ, ∀ c ∈ Nat.toDigits 10 n, (c == '.') = false :=
    fun _ _ ↦ ne_of_mem_toDigits (by decide)
  have hoctet : ∀ n : ℕ, parseOctet (Nat.toDigits 10 (n % 256)) = some (n % 256) :=
    fun n ↦ parseOctet_toDigits _ (Nat.mod_lt _ (by decide))
  rw [IPv4Address.parse, toList_text, PyStr.pieces_append_cons (hdot _) (by decide),
    PyStr.pieces_append_cons (hdot _) (by decide), PyStr.pieces_append_cons (hdot _) (by decide),
    PyStr.pieces_of_forall (hdot _)]
  have hvalue : ((a / 2 ^ 24 % 256 * 256 + a / 2 ^ 16 % 256) * 256 + a / 2 ^ 8 % 256) * 256 +
      a % 256 = a := by
    omega
  simp only [hoctet, Option.bind_eq_bind, Option.bind_some, hvalue]

/-- The pieces of `a.b.c.d/n`. -/
theorem pieces_interface_text (i : IPv4Interface) :
    PyStr.pieces (· == '/') i.text.toList =
      [i.ip.text.toList, Nat.toDigits 10 i.prefixlen] := by
  have htext : i.text.toList = i.ip.text.toList ++ '/' :: Nat.toDigits 10 i.prefixlen := by
    have hslash : (toString "/").toList = ['/'] := rfl
    have haddress : toString i.ip.text = i.ip.text := rfl
    simp [IPv4Interface.text, String.toList_append, Nat.toList_repr, hslash, haddress]
  have haddress : ∀ c ∈ i.ip.text.toList, (c == '/') = false := by
    intro c hc
    rw [beq_eq_false_iff_ne]
    rintro rfl
    rw [toList_text] at hc
    simp only [List.mem_append, List.mem_cons] at hc
    have hdigits : ∀ n, '/' ∉ Nat.toDigits 10 n :=
      fun n hn ↦ absurd (ne_of_mem_toDigits (d := '/') (by decide) hn) (by decide)
    simp [hdigits] at hc
  rw [htext, PyStr.pieces_append_cons haddress (by decide),
    PyStr.pieces_of_forall fun _ ↦ ne_of_mem_toDigits (by decide)]

theorem IPv4Interface.parse_text {i : IPv4Interface} (hip : i.ip < 2 ^ 32)
    (hlength : i.prefixlen ≤ 32) : IPv4Interface.parse i.text = some i := by
  rw [IPv4Interface.parse, pieces_interface_text]
  simp only [IPv4Address.parse_text hip,
    parsePrefixlen_toDigits _ (Nat.lt_succ_of_le hlength), Option.bind_eq_bind, Option.bind_some]

theorem IPv4Network.ofAddress_self (n : IPv4Network) :
    IPv4Network.ofAddress n.networkAddress n.prefixlen = some n := by
  rw [IPv4Network.ofAddress, dif_pos ⟨n.prefixlen_le, n.lt_two_pow, n.aligned⟩]

theorem IPv4Network.parseLoose_text (n : IPv4Network) : IPv4Network.parseLoose n.text = some n := by
  have hpieces := pieces_interface_text ⟨n.networkAddress, n.prefixlen⟩
  rw [IPv4Network.parseLoose, IPv4Network.text, ← IPv4Interface.text.eq_1
    ⟨n.networkAddress, n.prefixlen⟩, hpieces]
  simp only [IPv4Address.parse_text n.lt_two_pow,
    parsePrefixlen_toDigits _ (Nat.lt_succ_of_le n.prefixlen_le), Option.bind_eq_bind,
    Option.bind_some, n.aligned, Nat.sub_zero]
  exact n.ofAddress_self

theorem IPv4Network.parse_text (n : IPv4Network) : IPv4Network.parse n.text = some n := by
  have hpieces := pieces_interface_text ⟨n.networkAddress, n.prefixlen⟩
  rw [IPv4Network.parse, IPv4Network.text, ← IPv4Interface.text.eq_1
    ⟨n.networkAddress, n.prefixlen⟩, hpieces]
  simp only [IPv4Address.parse_text n.lt_two_pow,
    parsePrefixlen_toDigits _ (Nat.lt_succ_of_le n.prefixlen_le), Option.bind_eq_bind,
    Option.bind_some]
  exact n.ofAddress_self

theorem newline_not_mem_of_addressChars {cs : List Char} (h : ∀ d ∈ cs, isAddressChar d = true) :
    '\n' ∉ cs := by
  intro hmem
  exact absurd (h _ hmem) (by decide)

end WgManager
