import Mathlib.Tactic.IntervalCases
import WgManager.Lib.Ipv6Text
import WgManager.ProxyProtocol.Stream

/-!
# The lines of version 1

`PROXY TCP4|TCP6 <src> <dst> <sport> <dport>` and the end of the line, in at most 107 bytes.  Every
such line is read, whatever comes after it (`parseV1_v1Line`), and a client is read from no other
line (`parseV1_iff`).
-/

set_option autoImplicit false

namespace WgManager.ProxyProtocol

open PyBytes
open Ipv6 (isAddrChar isDigit_bounds isAddrChar_of_isDigit toNat_of_isAddrChar)

/-! ## Decimal numerals -/

section

variable {n : ℕ} {cs : List Char}

theorem toDigits_of_isDigit {c : Char} (h : c.isDigit = true) :
    Nat.toDigits 10 (c.toNat - 48) = [c] := by
  obtain ⟨hlow, hhigh⟩ := isDigit_bounds h
  have hchar : Char.ofNat c.toNat = c := Char.ofNat_toNat c
  generalize c.toNat = n at hlow hhigh hchar
  rw [← hchar]
  interval_cases n <;> rfl

theorem decimal_toDigits (h : (Nat.toDigits 10 n).length ≤ 4300) :
    decimal (Nat.toDigits 10 n) = some n := by
  have hdigits : (Nat.toDigits 10 n).all Char.isDigit = true :=
    List.all_eq_true.mpr fun c hc ↦ Nat.isDigit_of_mem_toDigits (by decide) (by decide) hc
  rw [decimal, if_pos ⟨Nat.toDigits_ne_nil, h, hdigits⟩]
  have hvalue := Nat.ofDigitChars_ten_toDigits (n := n)
  rw [Nat.ofDigitChars_eq_foldl] at hvalue
  exact congrArg some hvalue

/-- The only numeral that begins with a zero is that of zero. -/
theorem eq_zero_of_head (h : (Nat.toDigits 10 n).head? = some '0') : n = 0 := by
  induction n using Nat.strongRecOn with
  | ind n ih =>
    rcases Nat.lt_or_ge n 10 with hlt | hge
    · rw [Nat.toDigits_of_lt_base hlt] at h
      interval_cases n <;> first | rfl | exact absurd h (by decide)
    · rw [Nat.toDigits_of_base_le (by decide) hge,
        List.head?_append_of_ne_nil _ Nat.toDigits_ne_nil] at h
      have := ih (n / 10) (by omega) h
      omega

/-- The digits after the first ones, whose number is not zero. -/
theorem toDigits_append_digits {first : ℕ} (hfirst : 0 < first)
    (hdigits : ∀ c ∈ cs, c.isDigit = true) :
    Nat.toDigits 10 (cs.foldl (fun n c ↦ 10 * n + (c.toNat - 48)) first) =
      Nat.toDigits 10 first ++ cs := by
  induction cs generalizing first with
  | nil => rw [List.foldl_nil, List.append_nil]
  | cons c cs ih =>
    have hc : c.isDigit = true := hdigits c List.mem_cons_self
    have hsmall : c.toNat - 48 < 10 := by
      have := (isDigit_bounds hc).2
      omega
    rw [List.foldl_cons, ih (by omega) fun d hd ↦ hdigits d (List.mem_cons_of_mem c hd),
      ← Nat.toDigits_append_toDigits (by decide) hfirst hsmall, toDigits_of_isDigit hc,
      List.append_assoc, List.singleton_append]

/-- Digits without a leading zero are the numeral of the number they stand for. -/
theorem toDigits_of_digits (hne : cs ≠ []) (hdigits : ∀ c ∈ cs, c.isDigit = true)
    (hzero : 1 < cs.length → cs.head? ≠ some '0') :
    Nat.toDigits 10 (cs.foldl (fun n c ↦ 10 * n + (c.toNat - 48)) 0) = cs := by
  obtain ⟨c, rest, rfl⟩ := List.exists_cons_of_ne_nil hne
  have hc : c.isDigit = true := hdigits c List.mem_cons_self
  rw [List.foldl_cons, Nat.mul_zero, Nat.zero_add]
  by_cases hrest : rest = []
  · rw [hrest, List.foldl_nil, toDigits_of_isDigit hc]
  · have hpos : 0 < c.toNat - 48 := by
      rw [Nat.pos_iff_ne_zero]
      intro hvalue
      have hfirst := toDigits_of_isDigit hc
      rw [hvalue, Nat.toDigits_zero, List.cons.injEq] at hfirst
      have := List.length_pos_iff.mpr hrest
      exact hzero (by rw [List.length_cons]; omega) (by rw [← hfirst.1]; rfl)
    rw [toDigits_append_digits hpos fun d hd ↦ hdigits d (List.mem_cons_of_mem c hd),
      toDigits_of_isDigit hc, List.singleton_append]

end

theorem v1Port_iff {lib : Library} {text : String} {port : ℕ} :
    v1Port lib text = .ok port ↔ port ≤ 65535 ∧ text = toString port := by
  have htoList : (toString port).toList = Nat.toDigits 10 port := Nat.toList_repr
  constructor
  · intro h
    rw [v1Port] at h
    split at h
    · cases h
    · next port' hdecimal =>
      split at h
      · cases h
      · next hchecks =>
        cases h
        rw [not_or, Nat.not_lt] at hchecks
        refine ⟨hchecks.2, ?_⟩
        rw [decimal] at hdecimal
        split at hdecimal
        · next hdigits =>
          cases hdecimal
          rw [← String.toList_inj]
          exact (Nat.toList_repr.trans (toDigits_of_digits hdigits.1
            (List.all_eq_true.mp hdigits.2.2) fun hlen hhead ↦ hchecks.1 ⟨hlen, hhead⟩)).symm
        · cases hdecimal
  · rintro ⟨hport, rfl⟩
    have hlen : (Nat.toDigits 10 port).length ≤ 5 :=
      (Nat.length_toDigits_le_iff (by decide) (by decide)).mpr (by omega)
    rw [v1Port, htoList, decimal_toDigits (by omega)]
    dsimp only
    rw [if_neg]
    rintro (⟨hlong, hhead⟩ | hlarge)
    · rw [eq_zero_of_head hhead] at hlong
      exact absurd hlong (by decide)
    · omega

/-! ## The first end of a line -/

theorem findCrlf_append_of_not_mem {line rest : Bytes} (h : 13 ∉ line) :
    findCrlf (line ++ rest) = (findCrlf rest).map (· + line.length) := by
  induction line with
  | nil => exact Option.map_id_apply.symm
  | cons b line ih =>
    rw [List.mem_cons, not_or] at h
    rw [List.cons_append, findCrlf, if_neg fun hcrlf ↦ h.1 hcrlf.1.symm, ih h.2, Option.map_map]
    rfl

theorem take_of_findCrlf {buf : Bytes} {stop : ℕ} (h : findCrlf buf = some stop) :
    buf.take (stop + 2) = buf.take stop ++ [13, 10] := by
  induction buf generalizing stop with
  | nil => exact absurd h.symm (Option.some_ne_none _)
  | cons b rest ih =>
    rw [findCrlf] at h
    split at h
    · next hcrlf =>
      cases h
      obtain ⟨rest', rfl⟩ := List.head?_eq_some_iff.mp hcrlf.2
      rw [hcrlf.1]
      rfl
    · obtain ⟨stop', hstop', rfl⟩ := Option.map_eq_some_iff.mp h
      rw [Nat.add_right_comm, List.take_succ_cons, List.take_succ_cons, ih hstop', List.cons_append]

/-! ## Addresses -/

/-- What the documentation of `ipaddress` says of addresses of version 6: a text is read back as the
address it was printed for, is short and has no zone; a text that is read has a colon, and without a
zone only hexadecimal digits, colons and dots. -/
structure Library.Lawful (lib : Library) : Prop where
  parse_text : ∀ a < 2 ^ 128, lib.parseV6 (lib.textV6 a) = some a
  length_text : ∀ a < 2 ^ 128, (lib.textV6 a).toList.length ≤ 39
  no_zone : ∀ a < 2 ^ 128, '%' ∉ (lib.textV6 a).toList
  colon_of_parse : ∀ {text a}, lib.parseV6 text = some a → ':' ∈ text.toList
  chars_of_parse : ∀ {text a}, lib.parseV6 text = some a → '%' ∉ text.toList →
    ∀ c ∈ text.toList, isAddrChar c = true

/-- The text names the address, which is of that version, and no zone. -/
def Names (lib : Library) (v : ℕ) (text : String) (addr : IPAddress) : Prop :=
  lib.ipAddress text = some addr ∧ version addr = v ∧ '%' ∉ text.toList

theorem v1Address_iff {lib : Library} {text host : String} {v : ℕ} :
    v1Address lib text v = .ok host ↔ ∃ addr, Names lib v text addr ∧ lib.str addr = host := by
  rw [v1Address]
  cases haddr : lib.ipAddress text with
  | none => simp [Names, haddr]
  | some addr =>
    dsimp only
    split
    · next hbad =>
      simp only [Names, haddr, Option.some.injEq, reduceCtorEq, false_iff]
      rintro ⟨_, ⟨rfl, hv, hzone⟩, -⟩
      rcases hbad with hbad | hbad
      · exact hbad hv
      · exact hzone hbad
    · next hgood =>
      rw [not_or, not_not] at hgood
      simp [Names, haddr, hgood.1, hgood.2]

section

variable {lib : Library} (hlib : lib.Lawful) {v : ℕ} {text : String} {addr : IPAddress}
include hlib

theorem Names.chars (h : Names lib v text addr) : ∀ c ∈ text.toList, isAddrChar c = true := by
  obtain ⟨hparse, -, hzone⟩ := h
  rw [Library.ipAddress] at hparse
  split at hparse
  · next a hv4 =>
    intro c hc
    rcases chars_of_parse_v4 hv4 c hc with hdigit | rfl
    · exact isAddrChar_of_isDigit hdigit
    · decide
  · obtain ⟨a, hv6, -⟩ := Option.map_eq_some_iff.mp hparse
    exact hlib.chars_of_parse hv6 hzone

/-- The width of an address of its family. -/
def IsAddr : IPAddress → Prop
  | .v4 a => a < 2 ^ 32
  | .v6 a => a < 2 ^ 128

instance : DecidablePred IsAddr
  | .v4 a => inferInstanceAs (Decidable (a < 2 ^ 32))
  | .v6 a => inferInstanceAs (Decidable (a < 2 ^ 128))

theorem names_str (h : IsAddr addr) : Names lib (version addr) (lib.str addr) addr := by
  cases addr with
  | v4 a =>
    refine ⟨?_, rfl, ?_⟩
    · rw [Library.ipAddress, Library.str, IPv4Address.parse_text h]
    · intro hmem
      exact absurd (isAddressChar_of_mem_address hmem) (by decide)
  | v6 a =>
    refine ⟨?_, rfl, hlib.no_zone a h⟩
    have hv4 : IPv4Address.parse (lib.textV6 a).toList = none := by
      cases hparse : IPv4Address.parse (lib.textV6 a).toList with
      | none => rfl
      | some b =>
        have hcolon := hlib.colon_of_parse (hlib.parse_text a h)
        rcases chars_of_parse_v4 hparse ':' hcolon with hdigit | hdot
        · exact absurd hdigit (by decide)
        · exact absurd hdot (by decide)
    rw [Library.ipAddress, Library.str, hv4]
    show (lib.parseV6 (lib.textV6 a)).map IPAddress.v6 = some (.v6 a)
    rw [hlib.parse_text a h, Option.map_some]

theorem length_str (h : IsAddr addr) : (lib.str addr).toList.length ≤ 39 := by
  cases addr with
  | v4 a =>
    have hoctet : ∀ n : ℕ, (Nat.toDigits 10 (n % 256)).length ≤ 3 :=
      fun n ↦ (Nat.length_toDigits_le_iff (by decide) (by decide)).mpr
        (Nat.lt_trans (Nat.mod_lt n (by decide)) (by decide))
    have h₁ := hoctet (a / 2 ^ 24)
    have h₂ := hoctet (a / 2 ^ 16)
    have h₃ := hoctet (a / 2 ^ 8)
    have h₄ := hoctet a
    rw [Library.str, toList_text]
    simp only [List.length_append, List.length_cons]
    omega
  | v6 a => exact hlib.length_text a h

end

/-! ## The lines of version 1 -/

/-- The fields of a line. -/
def v1Fields (v : ℕ) (src dst : String) (sport dport : ℕ) : List String :=
  ["PROXY", if v = 4 then "TCP4" else "TCP6", src, dst, toString sport, toString dport]

/-- `PROXY TCP4|TCP6 <src> <dst> <sport> <dport>` and the end of the line. -/
def v1Line (v : ℕ) (src dst : String) (sport dport : ℕ) : Bytes :=
  ascii (" ".intercalate (v1Fields v src dst sport dport)) ++ [13, 10]

/-- The headers of version 1 that name a client: two addresses of one family without a zone, and two
ports. -/
inductive V1Header (lib : Library) : Bytes → Client → Prop
  | tcp {v : ℕ} {src dst : String} {srcAddr dstAddr : IPAddress} {sport dport : ℕ}
      (hv : v = 4 ∨ v = 6) (hsrc : Names lib v src srcAddr) (hdst : Names lib v dst dstAddr)
      (hsport : sport ≤ 65535) (hdport : dport ≤ 65535)
      (hlen : (v1Line v src dst sport dport).length ≤ v1MaxLen) :
      V1Header lib (v1Line v src dst sport dport) (lib.str srcAddr, sport)

section

variable {lib : Library} {v sport dport : ℕ} {src dst : String} {srcAddr dstAddr : IPAddress}

theorem isDigit_of_mem_port {port : ℕ} {c : Char} (h : c ∈ (toString port).toList) :
    c.isDigit = true := by
  have hmem : c ∈ Nat.toDigits 10 port := by
    rw [← Nat.toList_repr]
    exact h
  exact Nat.isDigit_of_mem_toDigits (by decide) (by decide) hmem

theorem fieldChar_of_all {word : String}
    (h : word.toList.all (fun c ↦ isAddrChar c || ['P', 'R', 'O', 'X', 'Y', 'T'].contains c) = true)
    {c : Char} (hc : c ∈ word.toList) :
    isAddrChar c = true ∨ c ∈ ['P', 'R', 'O', 'X', 'Y', 'T'] := by
  have hchar := List.all_eq_true.mp h c hc
  rwa [Bool.or_eq_true, List.contains_iff_mem] at hchar

/-- No field of a line has a character beside letters, digits, colons and dots. -/
theorem chars_of_v1Fields (hlib : lib.Lawful) (hsrc : Names lib v src srcAddr)
    (hdst : Names lib v dst dstAddr) {field : String}
    (hfield : field ∈ v1Fields v src dst sport dport) :
    ∀ c ∈ field.toList, isAddrChar c = true ∨ c ∈ ['P', 'R', 'O', 'X', 'Y', 'T'] := by
  intro c hc
  simp only [v1Fields, List.mem_cons, List.not_mem_nil, or_false] at hfield
  rcases hfield with rfl | rfl | rfl | rfl | rfl | rfl
  · exact fieldChar_of_all (by decide) hc
  · split at hc
    · exact fieldChar_of_all (by decide) hc
    · exact fieldChar_of_all (by decide) hc
  · exact .inl (hsrc.chars hlib c hc)
  · exact .inl (hdst.chars hlib c hc)
  · exact .inl (isAddrChar_of_isDigit (isDigit_of_mem_port hc))
  · exact .inl (isAddrChar_of_isDigit (isDigit_of_mem_port hc))

theorem toNat_of_fieldChar {c : Char}
    (h : isAddrChar c = true ∨ c ∈ ['P', 'R', 'O', 'X', 'Y', 'T']) :
    32 < c.toNat ∧ c.toNat < 128 := by
  rcases h with h | h
  · obtain ⟨hlow, hhigh⟩ := toNat_of_isAddrChar h
    omega
  · simp only [List.mem_cons, List.not_mem_nil, or_false] at h
    rcases h with rfl | rfl | rfl | rfl | rfl | rfl
    all_goals decide

theorem mem_splitOn_of_mem {line : String} {c : Char} (h : c ∈ line.toList) (hc : c ≠ ' ') :
    ∃ field ∈ PyStr.splitOn ' ' line, c ∈ field.toList := by
  obtain ⟨w, hw, hcw⟩ := PyStr.mem_pieces_of_mem (p := (· == ' ')) h (by simpa using hc)
  refine ⟨String.ofList w, List.mem_map_of_mem hw, ?_⟩
  rwa [String.toList_ofList]

theorem splitOn_v1Fields (hlib : lib.Lawful) (hsrc : Names lib v src srcAddr)
    (hdst : Names lib v dst dstAddr) :
    PyStr.splitOn ' ' (" ".intercalate (v1Fields v src dst sport dport)) =
      v1Fields v src dst sport dport := by
  refine PyStr.splitOn_intercalate rfl (List.cons_ne_nil _ _) fun field hfield hspace ↦ ?_
  have := toNat_of_fieldChar (chars_of_v1Fields hlib hsrc hdst hfield ' ' hspace)
  exact absurd this (by decide)

theorem toNat_of_mem_line (hlib : lib.Lawful) (hsrc : Names lib v src srcAddr)
    (hdst : Names lib v dst dstAddr) {c : Char}
    (h : c ∈ (" ".intercalate (v1Fields v src dst sport dport)).toList) :
    32 ≤ c.toNat ∧ c.toNat < 128 := by
  by_cases hc : c = ' '
  · rw [hc]
    decide
  · obtain ⟨field, hfield, hcf⟩ := mem_splitOn_of_mem h hc
    rw [splitOn_v1Fields hlib hsrc hdst] at hfield
    have := toNat_of_fieldChar (chars_of_v1Fields hlib hsrc hdst hfield c hcf)
    omega

theorem cr_not_mem_line (hlib : lib.Lawful) (hsrc : Names lib v src srcAddr)
    (hdst : Names lib v dst dstAddr) :
    13 ∉ ascii (" ".intercalate (v1Fields v src dst sport dport)) := by
  intro hmem
  obtain ⟨c, hc, hbyte⟩ := List.mem_map.mp hmem
  have hrange := toNat_of_mem_line hlib hsrc hdst hc
  have hvalue := congrArg UInt8.toNat hbyte
  rw [toNat_asciiByte hrange.2] at hvalue
  have : (13 : UInt8).toNat = 13 := rfl
  omega

theorem length_v1Line : (v1Line v src dst sport dport).length =
    src.toList.length + dst.toList.length + (toString sport).toList.length +
      (toString dport).toList.length + 16 := by
  rw [v1Line, List.length_append, length_ascii, String.toList_intercalate]
  have hproto : (if v = 4 then "TCP4" else "TCP6").toList.length = 4 := by
    split
    · rfl
    · rfl
  have hspace : " ".toList.length = 1 := rfl
  have hproxy : "PROXY".toList.length = 5 := rfl
  simp only [v1Fields, List.map_cons, List.map_nil, List.intercalate_cons_cons,
    List.intercalate_singleton, List.length_append, List.length_cons, List.length_nil, hproto,
    hspace, hproxy]
  omega

/-- Six fields, the second of which is not `UNKNOWN`. -/
theorem v1Client_tcp {line first : String} {sportText dportText : String} {client : Client}
    (hv : v = 4 ∨ v = 6)
    (hline : PyStr.splitOn ' ' line =
      [first, if v = 4 then "TCP4" else "TCP6", src, dst, sportText, dportText]) :
    v1Client lib line = .ok (some client) ↔
      ∃ srcAddr dstAddr sport dport, Names lib v src srcAddr ∧ Names lib v dst dstAddr ∧
        sport ≤ 65535 ∧ dport ≤ 65535 ∧ sportText = toString sport ∧ dportText = toString dport ∧
        client = (lib.str srcAddr, sport) := by
  have hchecks : v1Client lib line = (do
      let src ← v1Address lib src v
      let _ ← v1Address lib dst v
      let sport ← v1Port lib sportText
      let _ ← v1Port lib dportText
      .ok (some (src, sport))) := by
    rcases hv with rfl | rfl
    · rw [v1Client, hline]
      rfl
    · rw [v1Client, hline]
      rfl
  rw [hchecks]
  simp only [bind_eq_ok_iff, v1Address_iff, v1Port_iff, Except.ok.injEq, Option.some.injEq]
  constructor
  · rintro ⟨_, ⟨srcAddr, hsrc, rfl⟩, _, ⟨dstAddr, hdst, -⟩, sport, hsport, dport, hdport, rfl⟩
    exact ⟨srcAddr, dstAddr, sport, dport, hsrc, hdst, hsport.1, hdport.1, hsport.2, hdport.2, rfl⟩
  · rintro ⟨srcAddr, dstAddr, sport, dport, hsrc, hdst, hsport, hdport, hstext, hdtext, rfl⟩
    exact ⟨_, ⟨srcAddr, hsrc, rfl⟩, _, ⟨dstAddr, hdst, rfl⟩, sport, ⟨hsport, hstext⟩, dport,
      ⟨hdport, hdtext⟩, rfl⟩

/-- A line that names a client has the fields of the grammar, but for the first. -/
theorem fields_of_v1Client {line : String} {client : Client}
    (h : v1Client lib line = .ok (some client)) :
    ∃ first v src dst srcAddr dstAddr sport dport, (v = 4 ∨ v = 6) ∧
      PyStr.splitOn ' ' line = first :: (v1Fields v src dst sport dport).tail ∧
      Names lib v src srcAddr ∧ Names lib v dst dstAddr ∧ sport ≤ 65535 ∧ dport ≤ 65535 ∧
      client = (lib.str srcAddr, sport) := by
  have hfields : ∃ first v src dst sportText dportText, (v = 4 ∨ v = 6) ∧
      PyStr.splitOn ' ' line =
        [first, if v = 4 then "TCP4" else "TCP6", src, dst, sportText, dportText] := by
    rw [v1Client] at h
    split at h
    · cases h
    · next first proto src dst sportText dportText _ hline =>
      split at h
      · next hproto =>
        rcases hproto with rfl | rfl
        · exact ⟨first, 4, src, dst, sportText, dportText, .inl rfl, hline⟩
        · exact ⟨first, 6, src, dst, sportText, dportText, .inr rfl, hline⟩
      · cases h
    · cases h
  obtain ⟨first, v, src, dst, sportText, dportText, hv, hline⟩ := hfields
  obtain ⟨srcAddr, dstAddr, sport, dport, hsrc, hdst, hsport, hdport, rfl, rfl, hclient⟩ :=
    (v1Client_tcp hv hline).mp h
  exact ⟨first, v, src, dst, srcAddr, dstAddr, sport, dport, hv, hline, hsrc, hdst, hsport, hdport,
    hclient⟩

/-- After the prefix, the first field is `PROXY`. -/
theorem splitOn_of_v1Prefix {line : String} {rest : Bytes}
    (h : decodeAscii (v1Prefix ++ rest) = some line) :
    ∃ fields, PyStr.splitOn ' ' line = "PROXY" :: fields := by
  rw [decodeAscii] at h
  split at h
  · cases h
    have hchars : (v1Prefix ++ rest).map (fun b ↦ Char.ofNat b.toNat) =
        "PROXY".toList ++ ' ' :: rest.map fun b ↦ Char.ofNat b.toNat := by
      rw [List.map_append]
      rfl
    have hword : ∀ d ∈ "PROXY".toList, (d == ' ') = false := by
      intro d hd
      have hblank : ¬ "PROXY".toList.contains ' ' = true := by decide
      rw [List.contains_iff_mem] at hblank
      rw [beq_eq_false_iff_ne]
      rintro rfl
      exact hblank hd
    rw [PyStr.splitOn, String.toList_ofList, hchars,
      PyStr.pieces_append_cons hword (by decide), List.map_cons, String.ofList_toList]
    exact ⟨_, rfl⟩
  · cases h

/-- Bytes that start like the prefix and hold an end of a line start with the prefix. -/
theorem exists_v1Prefix_append {buf : Bytes} {stop : ℕ} (h : startsLike v1Prefix buf = true)
    (hstop : findCrlf (buf.take v1MaxLen) = some stop) :
    ∃ rest, buf.take stop = v1Prefix ++ rest := by
  have hlen := length_of_findCrlf h hstop
  rw [startsLike_iff, List.take_of_length_le hlen] at h
  have hbuf : buf = v1Prefix ++ buf.drop v1Prefix.length := by
    conv_lhs => rw [← List.take_append_drop v1Prefix.length buf, h]
  -- the carriage return stands behind the prefix, which has none
  have hmax : v1MaxLen = v1Prefix.length + 101 := rfl
  rw [hbuf, hmax, List.take_length_add_append, findCrlf_append_of_not_mem (by decide)] at hstop
  obtain ⟨stop, -, rfl⟩ := Option.map_eq_some_iff.mp hstop
  rw [hbuf, Nat.add_comm, List.take_length_add_append]
  exact ⟨_, rfl⟩

theorem exists_ascii_v1Fields (v : ℕ) (src dst : String) (sport dport : ℕ) : ∃ rest,
    ascii (" ".intercalate (v1Fields v src dst sport dport)) = v1Prefix ++ rest := by
  rw [ascii, String.toList_intercalate, v1Fields, List.map_cons, List.map_cons,
    List.intercalate_cons_cons, List.append_assoc, List.map_append, List.map_append,
    ← List.append_assoc]
  exact ⟨_, rfl⟩

theorem startsLike_append_self (expected rest : Bytes) :
    startsLike expected (expected ++ rest) = true := by
  rw [startsLike_iff, List.take_left, List.take_of_length_le]
  rw [List.length_append]
  omega

/-- The parser reads every line of the grammar, whatever comes after it. -/
theorem parseV1_v1Line (hlib : lib.Lawful) (hv : v = 4 ∨ v = 6) (hsrc : Names lib v src srcAddr)
    (hdst : Names lib v dst dstAddr) (hsport : sport ≤ 65535) (hdport : dport ≤ 65535)
    (hlen : (v1Line v src dst sport dport).length ≤ v1MaxLen) (trailing : Bytes) :
    parseV1 lib (v1Line v src dst sport dport ++ trailing) =
      .ok (some (some (lib.str srcAddr, sport), (v1Line v src dst sport dport).length)) := by
  generalize hline : " ".intercalate (v1Fields v src dst sport dport) = line
  have hchars : IsAscii line := by
    subst hline
    exact fun c hc ↦ (toNat_of_mem_line hlib hsrc hdst hc).2
  have hcr : 13 ∉ ascii line := by
    subst hline
    exact cr_not_mem_line hlib hsrc hdst
  have hclient : v1Client lib line = .ok (some (lib.str srcAddr, sport)) := by
    have hfields : PyStr.splitOn ' ' line = v1Fields v src dst sport dport := by
      subst hline
      exact splitOn_v1Fields hlib hsrc hdst
    exact (v1Client_tcp hv hfields).mpr
      ⟨srcAddr, dstAddr, sport, dport, hsrc, hdst, hsport, hdport, rfl, rfl, rfl⟩
  have hstart : startsLike v1Prefix (ascii line ++ 13 :: 10 :: trailing) = true := by
    subst hline
    obtain ⟨rest, hrest⟩ := exists_ascii_v1Fields v src dst sport dport
    rw [hrest, List.append_assoc]
    exact startsLike_append_self v1Prefix _
  have hbytes : v1Line v src dst sport dport ++ trailing = ascii line ++ 13 :: 10 :: trailing := by
    rw [v1Line, hline, List.append_assoc]
    rfl
  have hlength : (v1Line v src dst sport dport).length = (ascii line).length + 2 := by
    rw [v1Line, hline, List.length_append]
    rfl
  rw [hlength] at hlen ⊢
  have hstop : findCrlf ((ascii line ++ 13 :: 10 :: trailing).take v1MaxLen) =
      some (ascii line).length := by
    obtain ⟨more, hmore⟩ : ∃ more, v1MaxLen = (ascii line).length + (2 + more) :=
      ⟨v1MaxLen - ((ascii line).length + 2), by omega⟩
    rw [hmore, List.take_length_add_append, findCrlf_append_of_not_mem hcr, Nat.add_comm 2]
    show (some 0).map (· + (ascii line).length) = some (ascii line).length
    rw [Option.map_some, Nat.zero_add]
  rw [hbytes, parseV1, hstart, if_neg (by decide), hstop]
  dsimp only
  rw [List.take_left, decodeAscii_ascii hchars]
  dsimp only
  rw [hclient]
  rfl

/-- The lines from which a client is read are those of the grammar. -/
theorem parseV1_iff (hlib : lib.Lawful) {buf : Bytes} {client : Client} {n : ℕ} :
    parseV1 lib buf = .ok (some (some client, n)) ↔
      n ≤ buf.length ∧ V1Header lib (buf.take n) client := by
  constructor
  · intro h
    rw [parseV1] at h
    split at h
    · cases h
    · next hstart =>
      rw [Bool.not_eq_true, Bool.not_eq_false'] at hstart
      split at h
      · split at h
        · cases h
        · cases h
      · next stop hstop =>
        split at h
        · cases h
        · next line hline =>
          obtain ⟨_, hclient, hresult⟩ := bind_eq_ok_iff.mp h
          cases hresult
          have hbounds := (findCrlf_spec hstop).1
          rw [List.length_take] at hbounds
          obtain ⟨first, v, src, dst, srcAddr, dstAddr, sport, dport, hv, hfields, hsrc, hdst,
            hsport, hdport, rfl⟩ := fields_of_v1Client hclient
          -- the fields after the first are those of the grammar, and the prefix gives the first
          obtain ⟨rest, hrest⟩ := exists_v1Prefix_append hstart hstop
          obtain ⟨fields, hfirst⟩ := splitOn_of_v1Prefix (hrest ▸ hline)
          rw [hfields, List.cons.injEq] at hfirst
          rw [hfirst.1] at hfields
          have htext : " ".intercalate (v1Fields v src dst sport dport) = line := by
            have hjoin : " ".intercalate (PyStr.splitOn ' ' line) = line :=
              PyStr.intercalate_splitOn rfl line
            rw [hfields] at hjoin
            exact hjoin
          have hbytes : buf.take (stop + 2) = v1Line v src dst sport dport := by
            have htake := take_of_findCrlf hstop
            rw [List.take_take, List.take_take, Nat.min_eq_left (by omega),
              Nat.min_eq_left (by omega)] at htake
            rw [htake, v1Line, htext, ascii_of_decodeAscii hline]
          refine ⟨by omega, ?_⟩
          rw [hbytes]
          refine .tcp hv hsrc hdst hsport hdport ?_
          rw [← hbytes, List.length_take]
          omega
  · rintro ⟨hn, hheader⟩
    have hbuf := List.take_append_drop n buf
    have hlength := List.length_take_of_le hn
    generalize buf.take n = header at hheader hbuf hlength
    obtain ⟨hv, hsrc, hdst, hsport, hdport, hlen⟩ := hheader
    rw [← hbuf, parseV1_v1Line hlib hv hsrc hdst hsport hdport hlen, hlength]

theorem parseHeader_v1 {buf : Bytes} (h : buf.head? = some 80) :
    parseHeader lib buf = parseV1 lib buf := by
  obtain ⟨rest, rfl⟩ := List.head?_eq_some_iff.mp h
  rfl

end

end WgManager.ProxyProtocol
