import Mathlib.Algebra.Group.Nat.Defs
import Mathlib.Data.List.Induction

/-!
# Python bytes

The encodings of numbers and texts that the control plane reads and writes byte by byte, and that
each of them is read back.
-/

set_option autoImplicit false

namespace PyBytes

abbrev Bytes := List UInt8

/-! ## Numbers -/

/-- The number that bytes stand for, the highest first. -/
def ofBytes (bytes : Bytes) : ℕ := bytes.foldl (fun n b ↦ 256 * n + b.toNat) 0

/-- `n.to_bytes(k, "big")`. -/
def toBytes : ℕ → ℕ → Bytes
  | 0, _ => []
  | k + 1, n => toBytes k (n / 256) ++ [UInt8.ofNat n]

theorem length_toBytes (k n : ℕ) : (toBytes k n).length = k := by
  induction k generalizing n with
  | zero => rfl
  | succ k ih => rw [toBytes, List.length_append, ih, List.length_singleton]

theorem ofBytes_toBytes {k n : ℕ} (h : n < 256 ^ k) : ofBytes (toBytes k n) = n := by
  induction k generalizing n with
  | zero =>
    rw [Nat.pow_zero, Nat.lt_one_iff] at h
    rw [h]
    rfl
  | succ k ih =>
    have hhigh : n / 256 < 256 ^ k := Nat.div_lt_of_lt_mul (by rwa [Nat.mul_comm, ← Nat.pow_succ])
    have hrest := ih hhigh
    rw [ofBytes] at hrest ⊢
    rw [toBytes, List.foldl_append, hrest, List.foldl_cons, List.foldl_nil, UInt8.toNat_ofNat']
    omega

theorem ofBytes_append_singleton (bytes : Bytes) (b : UInt8) :
    ofBytes (bytes ++ [b]) = 256 * ofBytes bytes + b.toNat := by
  rw [ofBytes, List.foldl_append]
  rfl

theorem ofBytes_toBytes_le (k n : ℕ) : ofBytes (toBytes k n) ≤ n := by
  induction k generalizing n with
  | zero => exact Nat.zero_le n
  | succ k ih =>
    have hhigh := ih (n / 256)
    rw [toBytes, ofBytes_append_singleton, UInt8.toNat_ofNat']
    omega

theorem toBytes_ofBytes (bytes : Bytes) : toBytes bytes.length (ofBytes bytes) = bytes := by
  induction bytes using List.reverseRecOn with
  | nil => rfl
  | append_singleton bytes b ih =>
    have hb : b.toNat < 256 := b.toNat_lt
    have hhigh : (256 * ofBytes bytes + b.toNat) / 256 = ofBytes bytes := by omega
    rw [List.length_append, List.length_singleton, ofBytes_append_singleton, toBytes, hhigh, ih]
    congr 1
    rw [List.cons.injEq, ← UInt8.toNat_inj, UInt8.toNat_ofNat']
    exact ⟨by omega, rfl⟩

/-- The bytes of a number without zeros in front, and one byte for zero. -/
def shortest (n : ℕ) : Bytes :=
  if n < 256 then [UInt8.ofNat n] else shortest (n / 256) ++ [UInt8.ofNat n]
termination_by n

theorem shortest_of_lt {n : ℕ} (h : n < 256) : shortest n = [UInt8.ofNat n] := by
  rw [shortest, if_pos h]

theorem shortest_of_le {n : ℕ} (h : 256 ≤ n) :
    shortest n = shortest (n / 256) ++ [UInt8.ofNat n] := by
  rw [shortest, if_neg (Nat.not_lt.mpr h)]

theorem shortest_ne_nil (n : ℕ) : shortest n ≠ [] := by
  rcases Nat.lt_or_ge n 256 with hlt | hge
  · rw [shortest_of_lt hlt]
    exact List.cons_ne_nil _ _
  · rw [shortest_of_le hge]
    exact List.append_ne_nil_of_right_ne_nil _ (List.cons_ne_nil _ _)

theorem ofBytes_shortest (n : ℕ) : ofBytes (shortest n) = n := by
  induction n using Nat.strongRecOn with
  | ind n ih =>
    rcases Nat.lt_or_ge n 256 with hlt | hge
    · rw [shortest_of_lt hlt, ofBytes, List.foldl_cons, List.foldl_nil, UInt8.toNat_ofNat']
      omega
    · rw [shortest_of_le hge, ofBytes_append_singleton, ih (n / 256) (by omega),
        UInt8.toNat_ofNat']
      omega

/-- Bytes that do not begin with a zero are not those of zero. -/
theorem ofBytes_pos {bytes : Bytes} (hne : bytes ≠ []) (h : bytes.head? ≠ some 0) :
    0 < ofBytes bytes := by
  induction bytes using List.reverseRecOn with
  | nil => exact absurd rfl hne
  | append_singleton bytes b ih =>
    rw [ofBytes_append_singleton]
    cases bytes with
    | nil =>
      have hb : b.toNat ≠ 0 := by
        intro hzero
        rw [UInt8.toNat_inj.mp (hzero.trans UInt8.toNat_zero.symm)] at h
        exact h rfl
      omega
    | cons c cs =>
      have hpos := ih (List.cons_ne_nil c cs) h
      omega

/-- A number has no other bytes without zeros in front. -/
theorem shortest_ofBytes {bytes : Bytes} (hne : bytes ≠ []) (h : bytes.head? ≠ some 0) :
    shortest (ofBytes bytes) = bytes := by
  induction bytes using List.reverseRecOn with
  | nil => exact absurd rfl hne
  | append_singleton bytes b ih =>
    rw [ofBytes_append_singleton]
    have hb : b.toNat < 256 := b.toNat_lt
    cases bytes with
    | nil =>
      have hvalue : 256 * ofBytes [] + b.toNat = b.toNat := Nat.zero_add _
      rw [hvalue, shortest_of_lt hb, UInt8.ofNat_toNat, List.nil_append]
    | cons c cs =>
      have hpos := ofBytes_pos (List.cons_ne_nil c cs) h
      have hhigh : (256 * ofBytes (c :: cs) + b.toNat) / 256 = ofBytes (c :: cs) := by omega
      have hlow : UInt8.ofNat (256 * ofBytes (c :: cs) + b.toNat) = b := by
        rw [← UInt8.toNat_inj, UInt8.toNat_ofNat']
        omega
      rw [shortest_of_le (by omega), hhigh, hlow, ih (List.cons_ne_nil c cs) h]

/-! ## Texts -/

/-- `text.encode("ascii")`. -/
def ascii (text : String) : Bytes := text.toList.map fun c ↦ UInt8.ofNat c.toNat

/-- Every character is one of ASCII. -/
def IsAscii (text : String) : Prop := ∀ c ∈ text.toList, c.toNat < 128

/-- `bytes.decode("ascii")`. -/
def decodeAscii (bytes : Bytes) : Option String :=
  if bytes.all (· < 128) then some (String.ofList (bytes.map fun b ↦ Char.ofNat b.toNat)) else none

theorem length_ascii (text : String) : (ascii text).length = text.toList.length :=
  List.length_map ..

theorem toNat_asciiByte {n : ℕ} (h : n < 128) : (UInt8.ofNat n).toNat = n := by
  rw [UInt8.toNat_ofNat']
  omega

theorem toNat_asciiChar : ∀ n < 128, (Char.ofNat n).toNat = n := by
  decide +kernel

theorem decodeAscii_ascii {text : String} (h : IsAscii text) :
    decodeAscii (ascii text) = some text := by
  have hall : (ascii text).all (· < 128) = true := by
    rw [List.all_eq_true]
    intro b hb
    obtain ⟨c, hc, rfl⟩ := List.mem_map.mp hb
    rw [decide_eq_true_eq, UInt8.lt_iff_toNat_lt, toNat_asciiByte (h c hc)]
    exact h c hc
  have hchars : (ascii text).map (fun b ↦ Char.ofNat b.toNat) = text.toList := by
    rw [ascii, List.map_map, ← List.map_id text.toList, List.map_map]
    refine List.map_congr_left fun c hc ↦ ?_
    show Char.ofNat (UInt8.ofNat c.toNat).toNat = c
    rw [toNat_asciiByte (h c hc), Char.ofNat_toNat]
  rw [decodeAscii, if_pos hall, hchars, String.ofList_toList]

theorem ascii_of_decodeAscii {bytes : Bytes} {text : String} (h : decodeAscii bytes = some text) :
    ascii text = bytes := by
  rw [decodeAscii] at h
  split at h
  · next hall =>
    cases h
    rw [ascii, String.toList_ofList, List.map_map]
    refine (List.map_congr_left fun b hb ↦ ?_).trans (List.map_id bytes)
    have hb : b.toNat < 128 := by
      have := List.all_eq_true.mp hall b hb
      rwa [decide_eq_true_eq, UInt8.lt_iff_toNat_lt] at this
    show UInt8.ofNat (Char.ofNat b.toNat).toNat = b
    rw [toNat_asciiChar _ hb, UInt8.ofNat_toNat]
  · cases h

theorem exists_decodeAscii {bytes : Bytes} (h : ∀ b ∈ bytes, b < 128) :
    ∃ text, decodeAscii bytes = some text ∧ IsAscii text := by
  have hall : bytes.all (· < 128) = true :=
    List.all_eq_true.mpr fun b hb ↦ decide_eq_true (h b hb)
  refine ⟨_, if_pos hall, fun c hc ↦ ?_⟩
  rw [String.toList_ofList] at hc
  obtain ⟨b, hb, rfl⟩ := List.mem_map.mp hc
  have hlt : b.toNat < 128 := UInt8.lt_iff_toNat_lt.mp (h b hb)
  rw [toNat_asciiChar _ hlt]
  exact hlt

/-- The bytes of a text in UTF-8. -/
def encodeUtf8 (s : String) : Bytes := s.toUTF8.data.toList

/-- `bytes.decode("utf-8")`; `none` is a `UnicodeDecodeError`. -/
def decodeUtf8 (raw : Bytes) : Option String := String.fromUTF8? ⟨raw.toArray⟩

theorem decodeUtf8_encodeUtf8 (s : String) : decodeUtf8 (encodeUtf8 s) = some s := by
  rw [decodeUtf8, encodeUtf8, Array.toArray_toList]
  exact dif_pos s.isValidUTF8

theorem encodeUtf8_of_decodeUtf8 {raw : Bytes} {s : String} (h : decodeUtf8 raw = some s) :
    encodeUtf8 s = raw := by
  rw [decodeUtf8, String.fromUTF8?] at h
  split at h
  · rw [Option.some.injEq] at h
    rw [← h, encodeUtf8]
    rfl
  · cases h

end PyBytes
