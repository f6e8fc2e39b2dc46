import WgManager.Lib.PyBytes
import WgManager.Lib.PyInt

/-!
# Serial numbers

The control plane keeps the serial number of a certificate as an integer, Vault writes it as its
bytes in hexadecimal with colons between them.  `pki.py` reads the one when a certificate is issued
and writes the other when it is revoked.

Both are the bytes of the same number (`intToHexColon_ofNat`, `hexColonToInt_colonText`), so that
what is revoked is what has been recorded (`serials_survive_hex_colon_text`).
-/

set_option autoImplicit false

namespace WgManager.Pki

open PyBytes

/-! ## The code -/

/-- `_hex_colon_to_int`. -/
def hexColonToInt (serialHex : String) : Option ℤ :=
  PyInt.parse 16 (String.ofList (serialHex.toList.filter (· ≠ ':')))

/-- `f"{serial:x}"`. -/
def hex : ℤ → List Char
  | .ofNat n => Nat.toDigits 16 n
  | .negSucc n => '-' :: Nat.toDigits 16 (n + 1)

/-- `raw[i : i + 2]` for every second `i`. -/
def pairs : List Char → List String
  | [] => []
  | [c] => [String.ofList [c]]
  | c :: d :: cs => String.ofList [c, d] :: pairs cs

/-- `_int_to_hex_colon`. -/
def intToHexColon (serial : ℤ) : String :=
  let raw := hex serial
  let raw := if raw.length % 2 ≠ 0 then '0' :: raw else raw
  ":".intercalate (pairs raw)

/-! ## The notation -/

/-- The lower-case hexadecimal digits. -/
def hexDigits : List Char :=
  ['0', '1', '2', '3', '4', '5', '6', '7', '8', '9', 'a', 'b', 'c', 'd', 'e', 'f']

/-- Two lower-case hexadecimal digits. -/
def IsHexByte (part : String) : Prop :=
  ∃ high ∈ hexDigits, ∃ low ∈ hexDigits, part.toList = [high, low]

/-- Bytes of two lower-case digits with colons between them. -/
def IsByteSequence (s : String) : Prop := ∀ part ∈ PyStr.splitOn ':' s, IsHexByte part

/-- The two digits of a byte. -/
def nibbles (b : UInt8) : List ℕ := [b.toNat / 16, b.toNat % 16]

/-- A byte in hexadecimal. -/
def hexByte (b : UInt8) : String := String.ofList ((nibbles b).map Nat.digitChar)

/-- Bytes in Vault's notation. -/
def colonText (bytes : Bytes) : String := ":".intercalate (bytes.map hexByte)

theorem nibbles_lt (b : UInt8) : ∀ d ∈ nibbles b, d < 16 := by
  have hb : b.toNat < 256 := b.toNat_lt
  simp only [nibbles, List.forall_mem_cons, List.not_mem_nil, false_implies, implies_true, and_true]
  omega

theorem toList_hexByte (b : UInt8) : (hexByte b).toList = (nibbles b).map Nat.digitChar :=
  String.toList_ofList

theorem colon_notMem_hexByte (b : UInt8) : ':' ∉ (hexByte b).toList := by
  have hall : ∀ d < 16, d.digitChar ≠ ':' := by decide
  rw [toList_hexByte, List.mem_map]
  rintro ⟨d, hd, hcolon⟩
  exact hall d (nibbles_lt b d hd) hcolon

theorem isHexByte_hexByte (b : UInt8) : IsHexByte (hexByte b) := by
  have hall : ∀ d < 16, d.digitChar ∈ hexDigits := by decide
  have hnibbles := nibbles_lt b
  exact ⟨(b.toNat / 16).digitChar, hall _ (hnibbles _ (by simp [nibbles])),
    (b.toNat % 16).digitChar, hall _ (hnibbles _ (by simp [nibbles])), toList_hexByte b⟩

/-- Every pair of digits is that of a byte. -/
theorem exists_hexByte {part : String} (h : IsHexByte part) : ∃ b, hexByte b = part := by
  have hdigits : hexDigits = (List.range 16).map Nat.digitChar := by decide
  obtain ⟨high, hhigh, low, hlow, htoList⟩ := h
  rw [hdigits] at hhigh hlow
  obtain ⟨i, hi, rfl⟩ := List.mem_map.mp hhigh
  obtain ⟨j, hj, rfl⟩ := List.mem_map.mp hlow
  rw [List.mem_range] at hi hj
  refine ⟨UInt8.ofNat (16 * i + j), ?_⟩
  have hvalue : (UInt8.ofNat (16 * i + j)).toNat = 16 * i + j := by
    rw [UInt8.toNat_ofNat']
    omega
  have hquot : (16 * i + j) / 16 = i := by omega
  have hrem : (16 * i + j) % 16 = j := by omega
  rw [← String.toList_inj, toList_hexByte, nibbles, hvalue, hquot, hrem, htoList]
  rfl

theorem splitOn_colonText {bytes : Bytes} (hne : bytes ≠ []) :
    PyStr.splitOn ':' (colonText bytes) = bytes.map hexByte := by
  refine PyStr.splitOn_intercalate rfl (by simpa using hne) fun part hpart ↦ ?_
  obtain ⟨b, -, rfl⟩ := List.mem_map.mp hpart
  exact colon_notMem_hexByte b

theorem isByteSequence_colonText {bytes : Bytes} (hne : bytes ≠ []) :
    IsByteSequence (colonText bytes) := by
  intro part hpart
  rw [splitOn_colonText hne] at hpart
  obtain ⟨b, -, rfl⟩ := List.mem_map.mp hpart
  exact isHexByte_hexByte b

theorem exists_bytes {s : String} (h : IsByteSequence s) : ∃ bytes ≠ [], colonText bytes = s := by
  have hparts : ∀ parts : List String, (∀ part ∈ parts, IsHexByte part) →
      ∃ bytes : Bytes, bytes.map hexByte = parts := by
    intro parts
    induction parts with
    | nil => exact fun _ ↦ ⟨[], rfl⟩
    | cons part parts ih =>
      intro hall
      obtain ⟨b, hb⟩ := exists_hexByte (hall part List.mem_cons_self)
      obtain ⟨bytes, hbytes⟩ := ih fun p hp ↦ hall p (List.mem_cons_of_mem part hp)
      exact ⟨b :: bytes, by rw [List.map_cons, hb, hbytes]⟩
  obtain ⟨bytes, hbytes⟩ := hparts _ h
  refine ⟨bytes, ?_, ?_⟩
  · rintro rfl
    have hlen := PyStr.length_splitOn ':' s
    rw [← hbytes] at hlen
    simp at hlen
  · rw [colonText, hbytes, PyStr.intercalate_splitOn rfl]

/-! ## Reading -/

theorem foldl_nibbles (bytes : Bytes) (n : ℕ) :
    (bytes.flatMap nibbles).foldl (fun n d ↦ 16 * n + d) n =
      bytes.foldl (fun n b ↦ 256 * n + b.toNat) n := by
  induction bytes generalizing n with
  | nil => rfl
  | cons b bytes ih =>
    have hbyte : 16 * (16 * n + b.toNat / 16) + b.toNat % 16 = 256 * n + b.toNat := by omega
    rw [List.flatMap_cons, List.foldl_append, List.foldl_cons, ← hbyte]
    exact ih _

theorem hexColonToInt_colonText {bytes : Bytes} (hne : bytes ≠ []) :
    hexColonToInt (colonText bytes) = some (ofBytes bytes : ℤ) := by
  have hdigits : (colonText bytes).toList.filter (· ≠ ':') =
      (bytes.flatMap nibbles).map Nat.digitChar := by
    rw [colonText, PyStr.filter_intercalate rfl, List.flatMap_map, List.map_flatMap]
    · exact List.flatMap_congr fun b _ ↦ toList_hexByte b
    · intro part hpart
      obtain ⟨b, -, rfl⟩ := List.mem_map.mp hpart
      exact colon_notMem_hexByte b
  have hlt : ∀ d ∈ bytes.flatMap nibbles, d < 16 := by
    intro d hd
    obtain ⟨b, -, hb⟩ := List.mem_flatMap.mp hd
    exact nibbles_lt b d hb
  have hsome : bytes.flatMap nibbles ≠ [] := by
    obtain ⟨b, rest, rfl⟩ := List.exists_cons_of_ne_nil hne
    exact List.cons_ne_nil _ _
  rw [hexColonToInt, hdigits, PyInt.parse_hexDigits hsome hlt, foldl_nibbles]
  rfl

/-! ## Writing -/

theorem pairs_flatMap (bytes : Bytes) :
    pairs ((bytes.flatMap nibbles).map Nat.digitChar) = bytes.map hexByte := by
  induction bytes with
  | nil => rfl
  | cons b bytes ih =>
    rw [List.map_cons, ← ih]
    rfl

/-- The digits of a number, after a zero if there is an odd number of them, are those of its
bytes. -/
theorem padded_digits (n : ℕ) :
    (if (Nat.toDigits 16 n).length % 2 ≠ 0 then '0' :: Nat.toDigits 16 n else Nat.toDigits 16 n) =
      ((shortest n).flatMap nibbles).map Nat.digitChar := by
  induction n using Nat.strongRecOn with
  | ind n ih =>
    rcases Nat.lt_or_ge n 16 with hsmall | hlarge
    · have hbyte : (UInt8.ofNat n).toNat = n := by
        rw [UInt8.toNat_ofNat']
        omega
      rw [Nat.toDigits_of_lt_base hsmall, shortest_of_lt (by omega), List.flatMap_singleton,
        nibbles, hbyte, Nat.div_eq_of_lt hsmall, Nat.mod_eq_of_lt hsmall]
      rfl
    · rw [Nat.toDigits_of_base_le (by decide) hlarge]
      rcases Nat.lt_or_ge n 256 with hlt | hge
      · have hbyte : (UInt8.ofNat n).toNat = n := by
          rw [UInt8.toNat_ofNat']
          omega
        rw [Nat.toDigits_of_lt_base (by omega), shortest_of_lt hlt, List.flatMap_singleton, nibbles,
          hbyte, if_neg (by simp)]
        rfl
      · -- two more digits for one more byte
        have hrest := ih (n / 256) (by omega)
        have hdiv : n / 16 / 16 = n / 256 := Nat.div_div_eq_div_mul n 16 16
        have hnibbles : nibbles (UInt8.ofNat n) = [n / 16 % 16, n % 16] := by
          have hbyte : (UInt8.ofNat n).toNat = n % 256 := UInt8.toNat_ofNat'
          have hhigh : n % 256 / 16 = n / 16 % 16 := by omega
          have hlow : n % 256 % 16 = n % 16 := by omega
          rw [nibbles, hbyte, hhigh, hlow]
        rw [Nat.toDigits_of_base_le (by decide) (show 16 ≤ n / 16 by omega), hdiv,
          shortest_of_le hge, List.flatMap_append, List.flatMap_singleton, hnibbles,
          List.map_append, ← hrest]
        have hparity : ((Nat.toDigits 16 (n / 256) ++ [(n / 16 % 16).digitChar]) ++
            [(n % 16).digitChar]).length % 2 = (Nat.toDigits 16 (n / 256)).length % 2 := by
          rw [List.length_append, List.length_append, List.length_singleton, List.length_singleton]
          omega
        rw [hparity]
        split <;> simp

theorem intToHexColon_ofNat (n : ℕ) : intToHexColon n = colonText (shortest n) := by
  have hraw : intToHexColon n = ":".intercalate (pairs (if (Nat.toDigits 16 n).length % 2 ≠ 0 then
      '0' :: Nat.toDigits 16 n else Nat.toDigits 16 n)) := rfl
  rw [hraw, padded_digits, pairs_flatMap, colonText]

/-! ## Both -/

/-- **Serial numbers survive Vault's notation.**  A number is written as a sequence of bytes that is
read as this number, and a sequence of bytes without a needless zero in front is read as a number
that is written as this sequence. -/
theorem serials_survive_hex_colon_text :
    (∀ n : ℕ, hexColonToInt (intToHexColon n) = some (n : ℤ) ∧ IsByteSequence (intToHexColon n)) ∧
      ∀ s, IsByteSequence s → (PyStr.splitOn ':' s).head? ≠ some "00" ∨ s = "00" →
        ∃ n : ℕ, hexColonToInt s = some (n : ℤ) ∧ intToHexColon n = s := by
  refine ⟨fun n ↦ ?_, fun s hs hlead ↦ ?_⟩
  · rw [intToHexColon_ofNat, hexColonToInt_colonText (shortest_ne_nil n), ofBytes_shortest]
    exact ⟨rfl, isByteSequence_colonText (shortest_ne_nil n)⟩
  · obtain ⟨bytes, hne, rfl⟩ := exists_bytes hs
    refine ⟨ofBytes bytes, hexColonToInt_colonText hne, ?_⟩
    rcases hlead with hlead | hzero
    · rw [splitOn_colonText hne, List.head?_map] at hlead
      have hhead : bytes.head? ≠ some 0 := by
        intro hhead
        rw [hhead] at hlead
        exact hlead rfl
      rw [intToHexColon_ofNat, shortest_ofBytes hne hhead]
    · have hbytes := hexColonToInt_colonText hne
      rw [hzero] at hbytes ⊢
      have hvalue : hexColonToInt "00" = some 0 := by decide +kernel
      rw [hvalue, Option.some_inj] at hbytes
      rw [← hbytes]
      decide +kernel

/-- Vault revokes what it has issued. -/
theorem serials_survive_hex_colon_text_3a_0f :
    hexColonToInt (intToHexColon 14863) = some 14863 ∧
      ∃ n : ℕ, hexColonToInt "3a:0f" = some (n : ℤ) ∧ intToHexColon n = "3a:0f" := by
  have htext : colonText [0x3a, 0x0f] = "3a:0f" := by decide +kernel
  have hsequence : IsByteSequence "3a:0f" := htext ▸ isByteSequence_colonText (List.cons_ne_nil _ _)
  exact ⟨(serials_survive_hex_colon_text.1 14863).1,
    serials_survive_hex_colon_text.2 "3a:0f" hsequence (.inl (by decide))⟩

end WgManager.Pki
