import Mathlib.Data.List.Basic

/-!
# Base64

The standard alphabet with padding.  `Base64.encode` is the encoder; `Base64.decode` is a *strict*
decoder: it takes only whole groups of four digits, the last of which may be padded, and nothing
after the padding.  It does not look at the bits of the last digit that no byte uses, so it accepts
more than the encoder produces.  `Base64.encode_eq_iff` says exactly how much more: a text is the
encoding of what it decodes to when `unusedBits` is zero.

`Base64.lenient` is the decoder that skips everything that is no digit, and `Base64.lenient_encode`
is its round trip.
-/

set_option autoImplicit false

namespace Base64

def alphabet : List Char :=
  ['A', 'B', 'C', 'D', 'E', 'F', 'G', 'H', 'I', 'J', 'K', 'L', 'M', 'N', 'O', 'P',
   'Q', 'R', 'S', 'T', 'U', 'V', 'W', 'X', 'Y', 'Z', 'a', 'b', 'c', 'd', 'e', 'f',
   'g', 'h', 'i', 'j', 'k', 'l', 'm', 'n', 'o', 'p', 'q', 'r', 's', 't', 'u', 'v',
   'w', 'x', 'y', 'z', '0', '1', '2', '3', '4', '5', '6', '7', '8', '9', '+', '/']

/-- The digit for a number below 64. -/
def digit (n : ℕ) : Char := alphabet.getD n '='

/-- The number a digit stands for. -/
def value (c : Char) : Option ℕ := alphabet.idxOf? c

/-- The encoding of a sequence of bytes. -/
def encode : List UInt8 → List Char
  | [] => []
  | [a] =>
    let n := a.toNat * 65536
    [digit (n / 262144), digit (n / 4096 % 64), '=', '=']
  | [a, b] =>
    let n := a.toNat * 65536 + b.toNat * 256
    [digit (n / 262144), digit (n / 4096 % 64), digit (n / 64 % 64), '=']
  | a :: b :: c :: rest =>
    let n := a.toNat * 65536 + b.toNat * 256 + c.toNat
    digit (n / 262144) :: digit (n / 4096 % 64) :: digit (n / 64 % 64) :: digit (n % 64) ::
      encode rest

/-- The three bytes of a group of four digits. -/
def group (x y z w : ℕ) : List UInt8 :=
  let n := x * 262144 + y * 4096 + z * 64 + w
  [UInt8.ofNat (n / 65536), UInt8.ofNat (n / 256 % 256), UInt8.ofNat (n % 256)]

/-- The bytes of a full group of digits. -/
def decodeGroup (a b c d : Char) : Option (List UInt8) := do
  some (group (← value a) (← value b) (← value c) (← value d))

/-- The bytes of the last group, which may be padded. -/
def decodeLast (a b c d : Char) : Option (List UInt8) :=
  if d ≠ '=' then decodeGroup a b c d
  else if c ≠ '=' then do some ((group (← value a) (← value b) (← value c) 0).take 2)
  else do some ((group (← value a) (← value b) 0 0).take 1)

/-- The bytes a text stands for; `none` when it is not well formed. -/
def decode : List Char → Option (List UInt8)
  | [] => some []
  | [a, b, c, d] => decodeLast a b c d
  | a :: b :: c :: d :: e :: rest => do
    some ((← decodeGroup a b c d) ++ (← decode (e :: rest)))
  | _ => none

/-- The bits of the last digit that no byte uses, as a number. -/
def unusedBits : List Char → ℕ
  | [_, b, c, d] =>
    if d ≠ '=' then 0 else if c ≠ '=' then (value c).getD 0 % 4 else (value b).getD 0 % 16
  | _ :: _ :: _ :: _ :: e :: rest => unusedBits (e :: rest)
  | _ => 0

/-! ## Digits -/

theorem value_lt {c : Char} {n : ℕ} (h : value c = some n) : n < 64 := by
  obtain ⟨hlt, -⟩ := List.idxOf?_eq_some_iff.mp h
  exact hlt

theorem digit_value {c : Char} {n : ℕ} (h : value c = some n) : digit n = c := by
  obtain ⟨hlt, hget, -⟩ := List.idxOf?_eq_some_iff.mp h
  rw [digit, List.getD_eq_getElem?_getD, List.getElem?_eq_getElem hlt]
  exact hget

theorem value_digit {n : ℕ} (h : n < 64) : value (digit n) = some n := by
  revert n
  decide

theorem digit_ne_pad {n : ℕ} (h : n < 64) : digit n ≠ '=' := by
  intro hpad
  have hv := value_digit h
  rw [hpad] at hv
  have hnone : value '=' = none := by decide
  rw [hnone] at hv
  cases hv

theorem value_ne_pad {c : Char} {n : ℕ} (h : value c = some n) : c ≠ '=' := by
  rw [← digit_value h]
  exact digit_ne_pad (value_lt h)

theorem digit_inj {m n : ℕ} (hm : m < 64) (hn : n < 64) : digit m = digit n ↔ m = n := by
  refine ⟨fun h ↦ ?_, fun h ↦ by rw [h]⟩
  have hv : some m = some n := by rw [← value_digit hm, ← value_digit hn, h]
  exact Option.some.inj hv

/-! ## Groups -/

theorem decodeGroup_eq_some {a b c d : Char} {bytes : List UInt8} :
    decodeGroup a b c d = some bytes ↔ ∃ x y z w, value a = some x ∧ value b = some y ∧
      value c = some z ∧ value d = some w ∧ bytes = group x y z w := by
  simp only [decodeGroup, Option.bind_eq_bind, Option.bind_eq_some_iff, Option.some.injEq]
  constructor
  · rintro ⟨x, hx, y, hy, z, hz, w, hw, rfl⟩
    exact ⟨x, y, z, w, hx, hy, hz, hw, rfl⟩
  · rintro ⟨x, y, z, w, hx, hy, hz, hw, rfl⟩
    exact ⟨x, hx, y, hy, z, hz, w, hw, rfl⟩

/-- The three bytes of a number below `2 ^ 24` put together again. -/
theorem bytes_sum {n : ℕ} (h : n < 16777216) :
    (UInt8.ofNat (n / 65536)).toNat * 65536 + (UInt8.ofNat (n / 256 % 256)).toNat * 256 +
      (UInt8.ofNat (n % 256)).toNat = n := by
  simp only [UInt8.toNat_ofNat', Nat.reducePow]
  omega

/-- Encoding the bytes of a group gives its digits back, before anything that follows. -/
theorem encode_group_append {x y z w : ℕ} (hx : x < 64) (hy : y < 64) (hz : z < 64) (hw : w < 64)
    (rest : List UInt8) :
    encode (group x y z w ++ rest) = digit x :: digit y :: digit z :: digit w :: encode rest := by
  have hn : x * 262144 + y * 4096 + z * 64 + w < 16777216 := by omega
  have h₁ : (x * 262144 + y * 4096 + z * 64 + w) / 262144 = x := by omega
  have h₂ : (x * 262144 + y * 4096 + z * 64 + w) / 4096 % 64 = y := by omega
  have h₃ : (x * 262144 + y * 4096 + z * 64 + w) / 64 % 64 = z := by omega
  have h₄ : (x * 262144 + y * 4096 + z * 64 + w) % 64 = w := by omega
  simp only [group, List.cons_append, List.nil_append, encode, bytes_sum hn, h₁, h₂, h₃, h₄]

/-- Of a group with one pad, the encoder keeps all but the two lowest bits of the last digit. -/
theorem encode_take_two {x y z : ℕ} (hx : x < 64) (hy : y < 64) (hz : z < 64) :
    encode ((group x y z 0).take 2) = [digit x, digit y, digit (z - z % 4), '='] := by
  have h₁ : (x * 262144 + y * 4096 + z * 64 + 0) / 65536 % 256 * 65536 +
      (x * 262144 + y * 4096 + z * 64 + 0) / 256 % 256 * 256 =
        x * 262144 + y * 4096 + (z - z % 4) * 64 := by omega
  have h₂ : (x * 262144 + y * 4096 + (z - z % 4) * 64) / 262144 = x := by omega
  have h₃ : (x * 262144 + y * 4096 + (z - z % 4) * 64) / 4096 % 64 = y := by omega
  have h₄ : (x * 262144 + y * 4096 + (z - z % 4) * 64) / 64 % 64 = z - z % 4 := by omega
  simp only [group, List.take_succ_cons, List.take_zero, encode, UInt8.toNat_ofNat', Nat.reducePow,
    Nat.mod_mod, h₁, h₂, h₃, h₄]

/-- Of a group with two pads, it keeps all but the four lowest bits. -/
theorem encode_take_one {x y : ℕ} (hx : x < 64) (hy : y < 64) :
    encode ((group x y 0 0).take 1) = [digit x, digit (y - y % 16), '=', '='] := by
  have h₁ : (x * 262144 + y * 4096 + 0 * 64 + 0) / 65536 % 256 * 65536 =
      x * 262144 + (y - y % 16) * 4096 := by omega
  have h₂ : (x * 262144 + (y - y % 16) * 4096) / 262144 = x := by omega
  have h₃ : (x * 262144 + (y - y % 16) * 4096) / 4096 % 64 = y - y % 16 := by omega
  simp only [group, List.take_succ_cons, List.take_zero, encode, UInt8.toNat_ofNat', Nat.reducePow,
    h₁, h₂, h₃]

/-- A digit keeps its value without its lowest bits when these are zero. -/
theorem digit_sub_mod_eq {c : Char} {n : ℕ} (h : value c = some n) (m : ℕ) :
    digit (n - n % m) = c ↔ n % m = 0 := by
  have hn : n < 64 := value_lt h
  have hle : n % m ≤ n := Nat.mod_le n m
  rw [← digit_value h, digit_inj (by omega) hn]
  omega

/-! ## What the decoder accepts -/

theorem encode_eq_iff_last {a b c d : Char} {bytes : List UInt8}
    (h : decodeLast a b c d = some bytes) :
    encode bytes = [a, b, c, d] ↔ unusedBits [a, b, c, d] = 0 := by
  by_cases hd : d = '='
  · by_cases hc : c = '='
    · simp only [decodeLast, hd, hc, ne_eq, not_true_eq_false, if_false, Option.bind_eq_bind,
        Option.bind_eq_some_iff, Option.some.injEq] at h
      obtain ⟨x, hx, y, hy, rfl⟩ := h
      rw [encode_take_one (value_lt hx) (value_lt hy)]
      simp [unusedBits, hc, hd, hy, digit_value hx, digit_sub_mod_eq hy]
    · simp only [decodeLast, hd, hc, ne_eq, not_true_eq_false, not_false_eq_true, if_true, if_false,
        Option.bind_eq_bind, Option.bind_eq_some_iff, Option.some.injEq] at h
      obtain ⟨x, hx, y, hy, z, hz, rfl⟩ := h
      rw [encode_take_two (value_lt hx) (value_lt hy) (value_lt hz)]
      simp [unusedBits, hc, hd, hz, digit_value hx, digit_value hy, digit_sub_mod_eq hz]
  · rw [decodeLast, if_pos hd, decodeGroup_eq_some] at h
    obtain ⟨x, y, z, w, hx, hy, hz, hw, rfl⟩ := h
    have hgroup := encode_group_append (value_lt hx) (value_lt hy) (value_lt hz) (value_lt hw) []
    rw [List.append_nil] at hgroup
    rw [hgroup]
    simp [unusedBits, hd, digit_value hx, digit_value hy, digit_value hz, digit_value hw, encode]

/-- **What the decoder accepts beyond the encodings**: a text that decodes is the encoding of its
bytes exactly when no unused bit is set. -/
theorem encode_eq_iff {cs : List Char} {bytes : List UInt8} (h : decode cs = some bytes) :
    encode bytes = cs ↔ unusedBits cs = 0 := by
  induction cs using decode.induct generalizing bytes with
  | case1 =>
    cases h
    simp [encode, unusedBits]
  | case2 a b c d => exact encode_eq_iff_last h
  | case3 a b c d e rest ih =>
    simp only [decode, Option.bind_eq_bind, Option.bind_eq_some_iff, Option.some.injEq] at h
    obtain ⟨front, hfront, back, hback, rfl⟩ := h
    obtain ⟨x, y, z, w, hx, hy, hz, hw, rfl⟩ := decodeGroup_eq_some.mp hfront
    rw [encode_group_append (value_lt hx) (value_lt hy) (value_lt hz) (value_lt hw), unusedBits,
      ← ih hback]
    simp [digit_value hx, digit_value hy, digit_value hz, digit_value hw]
  | case4 cs h₁ h₂ h₃ =>
    rw [decode] at h
    · cases h
    · exact h₁
    · exact h₂
    · exact h₃

/-- Two texts that encode their bytes are equal when their bytes are. -/
theorem eq_iff_of_canonical {cs ds : List Char} {bytes bytes' : List UInt8}
    (h : decode cs = some bytes) (h' : decode ds = some bytes') (hc : unusedBits cs = 0)
    (hc' : unusedBits ds = 0) : cs = ds ↔ bytes = bytes' := by
  refine ⟨fun heq ↦ ?_, fun heq ↦ ?_⟩
  · rw [heq, h'] at h
    exact (Option.some.inj h).symm
  · rw [← (encode_eq_iff h).mpr hc, ← (encode_eq_iff h').mpr hc', heq]

/-! ## Texts with one pad

When the number of bytes is two more than a multiple of three, the text ends in three digits and one
pad, and the unused bits are the two lowest of the last digit. -/

/-- The shape of a text that decodes to `3 * k + 2` bytes. -/
structure OnePad (cs : List Char) (bytes : List UInt8) : Prop where
  length : cs.length = bytes.length / 3 * 4 + 4
  last : cs[cs.length - 1]? = some '='
  digit : ∃ c n, cs[cs.length - 2]? = some c ∧ value c = some n ∧ unusedBits cs = n % 4

theorem group_length (x y z w : ℕ) : (group x y z w).length = 3 := rfl

theorem onePad_of_decode {cs : List Char} {bytes : List UInt8} (h : decode cs = some bytes)
    (hlen : bytes.length % 3 = 2) : OnePad cs bytes := by
  induction cs using decode.induct generalizing bytes with
  | case1 =>
    cases h
    simp at hlen
  | case2 a b c d =>
    rw [decode, decodeLast] at h
    split at h
    · obtain ⟨x, y, z, w, -, -, -, -, rfl⟩ := decodeGroup_eq_some.mp h
      simp [group_length] at hlen
    · next hd =>
      rw [not_not] at hd
      split at h
      · next hc =>
        simp only [Option.bind_eq_bind, Option.bind_eq_some_iff, Option.some.injEq] at h
        obtain ⟨x, hx, y, hy, z, hz, rfl⟩ := h
        refine ⟨by simp [group_length], by simp [hd], c, z, by simp, hz, ?_⟩
        simp [unusedBits, hd, hc, hz]
      · simp only [Option.bind_eq_bind, Option.bind_eq_some_iff, Option.some.injEq] at h
        obtain ⟨x, hx, y, hy, rfl⟩ := h
        simp [group_length] at hlen
  | case3 a b c d e rest ih =>
    simp only [decode, Option.bind_eq_bind, Option.bind_eq_some_iff, Option.some.injEq] at h
    obtain ⟨front, hfront, back, hback, rfl⟩ := h
    obtain ⟨x, y, z, w, -, -, -, -, rfl⟩ := decodeGroup_eq_some.mp hfront
    rw [List.length_append, group_length] at hlen
    obtain ⟨hlength, hlast, c', n, hget, hvalue, hbits⟩ := ih hback (by omega)
    have hrest : (e :: rest).length = rest.length + 1 := rfl
    have hback' : (group x y z w ++ back).length = back.length + 3 := by
      rw [List.length_append, group_length, Nat.add_comm]
    have hcs : (a :: b :: c :: d :: e :: rest).length = (e :: rest).length + 4 := rfl
    have hshift (i : ℕ) : (a :: b :: c :: d :: e :: rest)[i + 4]? = (e :: rest)[i]? := rfl
    refine ⟨by rw [hcs, hback']; omega, ?_, c', n, ?_, hvalue, hbits⟩
    · rw [hcs, show (e :: rest).length + 4 - 1 = (e :: rest).length - 1 + 4 by omega, hshift, hlast]
    · rw [hcs, show (e :: rest).length + 4 - 2 = (e :: rest).length - 2 + 4 by omega, hshift, hget]
  | case4 cs h₁ h₂ h₃ =>
    rw [decode] at h
    · cases h
    · exact h₁
    · exact h₂
    · exact h₃

/-! ## The lenient decoder -/

/-- The bytes of a group that is cut off after two or three digits. -/
def cutGroup : List ℕ → List UInt8
  | [x, y] => (group x y 0 0).take 1
  | [x, y, z] => (group x y z 0).take 2
  | _ => []

/-- The decoder that skips what is no digit: `quad` are the digits of the group it is in, and `pads`
counts the padding since the last digit.  It stops at the padding that completes a group. -/
def lenient : List ℕ → ℕ → List Char → Option (List UInt8)
  | [], _, [] => some []
  | _ :: _, _, [] => none
  | quad, pads, c :: cs =>
    if c = '=' then
      if quad.length < 2 then lenient quad pads cs
      else if quad.length + pads + 1 < 4 then lenient quad (pads + 1) cs
      else some (cutGroup quad)
    else
      match value c, quad with
      | none, _ => lenient quad pads cs
      | some w, [x, y, z] => (lenient [] 0 cs).map (group x y z w ++ ·)
      | some w, _ => lenient (quad ++ [w]) 0 cs

theorem lenient_digit {n : ℕ} (h : n < 64) {quad : List ℕ} (hquad : quad.length < 3) (pads : ℕ)
    (cs : List Char) : lenient quad pads (digit n :: cs) = lenient (quad ++ [n]) 0 cs := by
  rw [lenient.eq_def]
  rcases quad with - | ⟨x, - | ⟨y, - | ⟨z, quad⟩⟩⟩
  · simp [digit_ne_pad h, value_digit h]
  · simp [digit_ne_pad h, value_digit h]
  · simp [digit_ne_pad h, value_digit h]
  · simp only [List.length_cons] at hquad
    omega

theorem lenient_fourth {x y z w : ℕ} (h : w < 64) (pads : ℕ) (cs : List Char) :
    lenient [x, y, z] pads (digit w :: cs) = (lenient [] 0 cs).map (group x y z w ++ ·) := by
  rw [lenient.eq_def]
  simp [digit_ne_pad h, value_digit h]

/-- The digits of a number make up its bytes. -/
theorem group_digits (n : ℕ) : group (n / 262144) (n / 4096 % 64) (n / 64 % 64) (n % 64) =
    [UInt8.ofNat (n / 65536), UInt8.ofNat (n / 256 % 256), UInt8.ofNat (n % 256)] := by
  have hn : n / 262144 * 262144 + n / 4096 % 64 * 4096 + n / 64 % 64 * 64 + n % 64 = n := by omega
  rw [group, hn]

/-- **Decoding an encoding.** -/
theorem lenient_encode (bytes : List UInt8) : lenient [] 0 (encode bytes) = some bytes := by
  fun_induction encode bytes with
  | case1 => rfl
  | case2 a n =>
    have ha := a.toNat_lt
    have hn : n = a.toNat * 65536 := rfl
    have hgroup := group_digits n
    rw [show n / 64 % 64 = 0 by omega, show n % 64 = 0 by omega] at hgroup
    rw [lenient_digit (by omega) (by simp), lenient_digit (by omega) (by simp)]
    simp [lenient, cutGroup, hgroup, show n / 65536 = a.toNat by omega]
  | case3 a b n =>
    have ha := a.toNat_lt
    have hb := b.toNat_lt
    have hn : n = a.toNat * 65536 + b.toNat * 256 := rfl
    have hgroup := group_digits n
    rw [show n % 64 = 0 by omega] at hgroup
    rw [lenient_digit (by omega) (by simp), lenient_digit (by omega) (by simp),
      lenient_digit (by omega) (by simp)]
    simp [lenient, cutGroup, hgroup, show n / 65536 = a.toNat by omega,
      show n / 256 % 256 = b.toNat by omega]
  | case4 a b c rest n ih =>
    have ha := a.toNat_lt
    have hb := b.toNat_lt
    have hc := c.toNat_lt
    have hn : n = a.toNat * 65536 + b.toNat * 256 + c.toNat := rfl
    have hgroup := group_digits n
    rw [lenient_digit (by omega) (by simp), lenient_digit (by omega) (by simp),
      lenient_digit (by omega) (by simp), List.nil_append, List.singleton_append,
      List.cons_append, List.singleton_append, lenient_fourth (by omega), ih, hgroup]
    simp [show n / 65536 = a.toNat by omega, show n / 256 % 256 = b.toNat by omega,
      show n % 256 = c.toNat by omega]

theorem digit_lt (n : ℕ) : (digit n).val < 128 := by
  by_cases hn : n < 64
  · revert n
    decide
  · have hlen : alphabet.length ≤ n := Nat.le_of_not_lt hn
    rw [digit, List.getD_eq_getElem?_getD, List.getElem?_eq_none hlen]
    decide

/-- An encoding is ASCII. -/
theorem encode_lt (bytes : List UInt8) : ∀ c ∈ encode bytes, c.val < 128 := by
  fun_induction encode bytes with
  | case1 => simp
  | case2 a n => simp [digit_lt]
  | case3 a b n => simp [digit_lt]
  | case4 a b c rest n ih => simpa [digit_lt] using ih

end Base64
