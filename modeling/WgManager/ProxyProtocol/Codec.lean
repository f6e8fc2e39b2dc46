import WgManager.ProxyProtocol.Grammar

/-!
# Headers as proxies write them

What the proxy writes before the first byte of its client is read back as the client and the length
of the header (`parseHeader_encodeV1`, `parseHeader_encodeV2`).
-/

set_option autoImplicit false

namespace WgManager.ProxyProtocol

open PyBytes

/-! ## What a proxy writes -/

/-- The two ends of a connection, both of one family. -/
structure Endpoints where
  src : IPAddress
  dst : IPAddress
  sport : ℕ
  dport : ℕ
  src_isAddr : IsAddr src
  dst_isAddr : IsAddr dst
  version_eq : version src = version dst
  sport_le : sport ≤ 65535
  dport_le : dport ≤ 65535

namespace Endpoints

/-- The line of version 1, with the addresses as they are printed. -/
def encodeV1 (lib : Library) (c : Endpoints) : Bytes :=
  v1Line (version c.src) (lib.str c.src) (lib.str c.dst) c.sport c.dport

/-- The bytes of an address. -/
def packed : IPAddress → Bytes
  | .v4 a => toBytes 4 a
  | .v6 a => toBytes 16 a

/-- TCP over the family of the address. -/
def family : IPAddress → UInt8
  | .v4 _ => 0x11
  | .v6 _ => 0x21

/-- The address block of version 2 and the fields after it. -/
def v2Body (c : Endpoints) (tlvs : Bytes) : Bytes :=
  packed c.src ++ (packed c.dst ++ (toBytes 2 c.sport ++ (toBytes 2 c.dport ++ tlvs)))

/-- The header of version 2, for the command `PROXY`. -/
def encodeV2 (c : Endpoints) (tlvs : Bytes) : Bytes :=
  v2Signature ++ (0x21 :: family c.src :: toBytes 2 (c.v2Body tlvs).length ++ c.v2Body tlvs)

variable {lib : Library} (c : Endpoints)

theorem version_cases (addr : IPAddress) : version addr = 4 ∨ version addr = 6 := by
  cases addr with
  | v4 a => exact .inl rfl
  | v6 a => exact .inr rfl

theorem length_port {port : ℕ} (h : port ≤ 65535) : (toString port).toList.length ≤ 5 := by
  have htoList : (toString port).toList = Nat.toDigits 10 port := Nat.toList_repr
  rw [htoList]
  exact (Nat.length_toDigits_le_iff (by decide) (by decide)).mpr (by omega)

theorem parseHeader_encodeV1 (hlib : lib.Lawful) (trailing : Bytes) :
    parseHeader lib (c.encodeV1 lib ++ trailing) =
      .ok (some (some (lib.str c.src, c.sport), (c.encodeV1 lib).length)) := by
  have hlen : (c.encodeV1 lib).length ≤ v1MaxLen := by
    have hsrc := length_str hlib c.src_isAddr
    have hdst := length_str hlib c.dst_isAddr
    have hsport := length_port c.sport_le
    have hdport := length_port c.dport_le
    rw [encodeV1, length_v1Line, v1MaxLen]
    omega
  have hfirst : (c.encodeV1 lib ++ trailing).head? = some 80 := by
    obtain ⟨rest, hrest⟩ :=
      exists_ascii_v1Fields (version c.src) (lib.str c.src) (lib.str c.dst) c.sport c.dport
    rw [encodeV1, v1Line, hrest]
    rfl
  rw [parseHeader_v1 hfirst]
  exact parseV1_v1Line hlib (version_cases c.src) (names_str hlib c.src_isAddr)
    (c.version_eq ▸ names_str hlib c.dst_isAddr) c.sport_le c.dport_le hlen trailing

theorem length_packed (addr : IPAddress) :
    (packed addr).length = if version addr = 4 then 4 else 16 := by
  cases addr with
  | v4 a => exact length_toBytes 4 a
  | v6 a => exact length_toBytes 16 a

theorem strOfBytes_packed {addr : IPAddress} (h : IsAddr addr) :
    strOfBytes lib (packed addr) = lib.str addr := by
  cases addr with
  | v4 a =>
    rw [strOfBytes, packed, length_toBytes, if_pos rfl, ofBytes_toBytes]
    exact h
  | v6 a =>
    rw [strOfBytes, packed, length_toBytes, if_neg (by decide), ofBytes_toBytes]
    exact h

/-- The number of bytes of one address, and of the block of the two ends. -/
theorem v2Addr_family (addr : IPAddress) :
    v2Addr (family addr).toNat = some (2 * (packed addr).length + 4, (packed addr).length) := by
  cases addr with
  | v4 a =>
    rw [packed, length_toBytes]
    rfl
  | v6 a =>
    rw [packed, length_toBytes]
    rfl

theorem family_ne_zero (addr : IPAddress) : (family addr).toNat ≠ 0 := by
  cases addr with
  | v4 a => exact Nat.succ_ne_zero 16
  | v6 a => exact Nat.succ_ne_zero 32

theorem length_packed_dst : (packed c.dst).length = (packed c.src).length := by
  rw [length_packed, length_packed, c.version_eq]

theorem length_v2Body (tlvs : Bytes) :
    (c.v2Body tlvs).length = 2 * (packed c.src).length + 4 + tlvs.length := by
  have hdst := c.length_packed_dst
  simp only [v2Body, List.length_append, length_toBytes]
  omega

theorem v2Checks_encodeV2 {tlvs : Bytes} (h : (c.v2Body tlvs).length ≤ v2MaxBody) :
    v2Checks 33 (family c.src).toNat (c.v2Body tlvs).length = .ok () := by
  have hlen := c.length_v2Body tlvs
  rw [v2Checks, if_neg (by decide), if_neg (by decide), if_neg (Nat.not_lt.mpr h),
    if_pos ⟨by decide, family_ne_zero c.src⟩, v2Addr_family]
  dsimp only
  rw [if_neg (by omega)]

theorem v2Client_encodeV2 (tlvs : Bytes) :
    v2Client lib 33 (family c.src).toNat (c.v2Body tlvs) = some (lib.str c.src, c.sport) := by
  have hsport : c.sport < 256 ^ 2 := Nat.lt_of_le_of_lt c.sport_le (by decide)
  have hdrop : (c.v2Body tlvs).drop (2 * (packed c.src).length) =
      toBytes 2 c.sport ++ (toBytes 2 c.dport ++ tlvs) := by
    rw [v2Body, ← List.append_assoc]
    refine List.drop_left' ?_
    rw [List.length_append, c.length_packed_dst]
    omega
  have htake : (toBytes 2 c.sport ++ (toBytes 2 c.dport ++ tlvs)).take 2 = toBytes 2 c.sport :=
    List.take_left' (length_toBytes 2 c.sport)
  rw [v2Client, if_neg, v2Addr_family, Option.map_some]
  · dsimp only
    rw [hdrop, htake, ofBytes_toBytes hsport, v2Body, List.take_left,
      strOfBytes_packed c.src_isAddr]
  · rintro (hlocal | hunspec)
    · exact absurd hlocal (by decide)
    · exact family_ne_zero c.src hunspec

theorem parseHeader_encodeV2 {tlvs : Bytes} (h : (c.v2Body tlvs).length ≤ v2MaxBody)
    (trailing : Bytes) :
    parseHeader lib (c.encodeV2 tlvs ++ trailing) =
      .ok (some (some (lib.str c.src, c.sport), (c.encodeV2 tlvs).length)) := by
  have hbody : (c.v2Body tlvs).length < 256 ^ 2 := Nat.lt_of_le_of_lt h (by decide)
  have hlength : (c.encodeV2 tlvs).length = v2HeaderLen + (c.v2Body tlvs).length := by
    simp only [encodeV2, List.length_append, List.length_cons, length_toBytes]
    rw [v2HeaderLen, v2Signature]
    simp only [List.length_cons, List.length_nil]
    omega
  have hstart : startsLike v2Signature (c.encodeV2 tlvs ++ trailing) = true := by
    rw [encodeV2, List.append_assoc]
    exact startsLike_append_self _ _
  have hfields : (c.encodeV2 tlvs ++ trailing).drop 12 =
      0x21 :: family c.src ::
        (toBytes 2 (c.v2Body tlvs).length ++ (c.v2Body tlvs ++ trailing)) := by
    rw [encodeV2, List.append_assoc, List.append_assoc]
    rfl
  have hpair : toBytes 2 (c.v2Body tlvs).length =
      [UInt8.ofNat ((c.v2Body tlvs).length / 256), UInt8.ofNat (c.v2Body tlvs).length] := rfl
  have hvalue := ofBytes_toBytes hbody
  rw [hpair] at hfields hvalue
  rw [List.cons_append, List.cons_append, List.nil_append] at hfields
  have hfirst : parseHeader lib (c.encodeV2 tlvs ++ trailing) =
      parseV2 lib (c.encodeV2 tlvs ++ trailing) := rfl
  have hchecks :
      v2Checks (0x21 : UInt8).toNat (family c.src).toNat (c.v2Body tlvs).length = .ok () :=
    c.v2Checks_encodeV2 h
  rw [hfirst, parseV2_of_drop hstart hfields, hvalue, hchecks, hlength]
  show (if (c.v2Body tlvs ++ trailing).length < (c.v2Body tlvs).length then _ else _) = _
  rw [if_neg, List.take_left]
  · have hclient : v2Client lib (0x21 : UInt8).toNat (family c.src).toNat (c.v2Body tlvs) =
        some (lib.str c.src, c.sport) := c.v2Client_encodeV2 tlvs
    rw [hclient]
  · rw [List.length_append]
    omega

end Endpoints

/-- **A header is read as the proxy wrote it, and version 1 is its grammar.** -/
theorem headers_read_as_written {lib : Library} (hlib : lib.Lawful) :
    (∀ (c : Endpoints) (trailing : Bytes), parseHeader lib (c.encodeV1 lib ++ trailing) =
      .ok (some (some (lib.str c.src, c.sport), (c.encodeV1 lib).length))) ∧
    (∀ (c : Endpoints) (tlvs trailing : Bytes), (c.v2Body tlvs).length ≤ 4096 →
      parseHeader lib (c.encodeV2 tlvs ++ trailing) =
        .ok (some (some (lib.str c.src, c.sport), (c.encodeV2 tlvs).length))) ∧
    ∀ (buf : Bytes) (client : Client) (n : ℕ), buf.head? = some 80 →
      (parseHeader lib buf = .ok (some (some client, n)) ↔
        n ≤ buf.length ∧ V1Header lib (buf.take n) client) := by
  refine ⟨fun c ↦ c.parseHeader_encodeV1 hlib,
    fun c tlvs trailing h ↦ c.parseHeader_encodeV2 h trailing, fun buf client n hfirst ↦ ?_⟩
  rw [parseHeader_v1 hfirst]
  exact parseV1_iff hlib

/-- A library that prints the eight groups of an address with four digits each, and reads no other
text.  It agrees with Python on the addresses whose groups all have four digits. -/
def fullLibrary : Library where
  repr text := "'" ++ text ++ "'"
  parseV6 := Ipv6.parseFull
  textV6 := Ipv6.fullText

theorem parseV6_fullLibrary (text : String) : fullLibrary.parseV6 text = Ipv6.parseFull text := rfl

theorem toList_textV6_fullLibrary (a : ℕ) : (fullLibrary.textV6 a).toList = Ipv6.groups 7 a :=
  String.toList_ofList

theorem fullLibrary_lawful : fullLibrary.Lawful where
  parse_text a ha := by
    rw [parseV6_fullLibrary]
    exact Ipv6.parseFull_fullText ha
  length_text a _ := by
    rw [toList_textV6_fullLibrary, Ipv6.length_groups]
  no_zone a _ := by
    rw [toList_textV6_fullLibrary]
    exact fun h ↦ (Ipv6.isAddrChar_of_groups h).2 rfl
  colon_of_parse h := by
    rw [parseV6_fullLibrary] at h
    rw [(Ipv6.toList_of_parseFull h).2]
    exact Ipv6.colon_mem_groups _
  chars_of_parse h _ c hc := by
    rw [parseV6_fullLibrary] at h
    rw [(Ipv6.toList_of_parseFull h).2] at hc
    exact (Ipv6.isAddrChar_of_groups hc).1

/-- A connection from port 56324 of one host to port 443 of another. -/
def hostToHost : Endpoints where
  src := .v6 0x20011db8111122223333444455556666
  dst := .v6 0x20011db8111122223333444455557777
  sport := 56324
  dport := 443
  src_isAddr := by decide
  dst_isAddr := by decide
  version_eq := rfl
  sport_le := by decide
  dport_le := by decide

theorem headers_read_as_written_hostToHost :
    fullLibrary.str hostToHost.src = "2001:1db8:1111:2222:3333:4444:5555:6666" ∧
    parseHeader fullLibrary (hostToHost.encodeV1 fullLibrary ++ [22, 3, 1]) =
      .ok (some (some (fullLibrary.str hostToHost.src, 56324),
        (hostToHost.encodeV1 fullLibrary).length)) ∧
    parseHeader fullLibrary (hostToHost.encodeV2 [4, 0, 1, 0] ++ [22, 3, 1]) =
      .ok (some (some (fullLibrary.str hostToHost.src, 56324),
        (hostToHost.encodeV2 [4, 0, 1, 0]).length)) := by
  obtain ⟨hv1, hv2, -⟩ := headers_read_as_written fullLibrary_lawful
  exact ⟨by decide +kernel, hv1 hostToHost [22, 3, 1],
    hv2 hostToHost [4, 0, 1, 0] [22, 3, 1] (by decide)⟩

end WgManager.ProxyProtocol
