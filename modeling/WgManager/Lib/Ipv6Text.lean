import Mathlib.Data.Nat.Notation
import Mathlib.Tactic.IntervalCases
import Mathlib.Tactic.NormNum.Basic

/-!
# Texts of IPv6 addresses

The characters that they are written with, and the form in which all eight groups are printed with
all of their four digits: reading it back gives the address (`parseFull_fullText`).
-/

set_option autoImplicit false

namespace Ipv6

/-- What an address without a zone is written with. -/
def isAddrChar (c : Char) : Bool :=
  c.isDigit || ('a' ≤ c && c ≤ 'f') || ('A' ≤ c && c ≤ 'F') || c = ':' || c = '.'

/-- The last `k` hexadecimal digits of a number. -/
def hexDigits : ℕ → ℕ → List Char
  | 0, _ => []
  | k + 1, n => hexDigits k (n / 16) ++ [Nat.digitChar (n % 16)]

/-- The last `k + 1` groups of an address. -/
def groups : ℕ → ℕ → List Char
  | 0, n => hexDigits 4 n
  | k + 1, n => groups k (n / 2 ^ 16) ++ ':' :: hexDigits 4 n

/-- One more digit of the number read so far; colons are passed over. -/
def readDigit (n : ℕ) (c : Char) : ℕ :=
  if c = ':' then n else if c.isDigit then 16 * n + (c.toNat - 48) else 16 * n + (c.toNat - 87)

/-- The address, printed in full. -/
def fullText (a : ℕ) : String := String.ofList (groups 7 a)

/-- The address of a text that is printed in full, and of no other text. -/
def parseFull (text : String) : Option ℕ :=
  let a := text.toList.foldl readDigit 0
  if a < 2 ^ 128 ∧ text = fullText a then some a else none

theorem isDigit_bounds {c : Char} (h : c.isDigit = true) : 48 ≤ c.toNat ∧ c.toNat ≤ 57 := by
  simp only [Char.isDigit, Bool.and_eq_true, decide_eq_true_eq, UInt32.le_iff_toNat_le] at h
  exact h

theorem toNat_of_isAddrChar {c : Char} (h : isAddrChar c = true) :
    33 ≤ c.toNat ∧ c.toNat ≤ 126 := by
  simp only [isAddrChar, Bool.or_eq_true, Bool.and_eq_true, decide_eq_true_eq, Char.le_def,
    UInt32.le_iff_toNat_le] at h
  rcases h with (((hdigit | hlower) | hupper) | rfl) | rfl
  · have := isDigit_bounds hdigit
    omega
  · have hlow : 97 ≤ c.toNat := hlower.1
    have hhigh : c.toNat ≤ 102 := hlower.2
    omega
  · have hlow : 65 ≤ c.toNat := hupper.1
    have hhigh : c.toNat ≤ 70 := hupper.2
    omega
  · decide
  · decide

theorem isAddrChar_of_isDigit {c : Char} (h : c.isDigit = true) : isAddrChar c = true := by
  simp [isAddrChar, h]

theorem readDigit_digitChar : ∀ d < 16, ∀ n, readDigit n (Nat.digitChar d) = 16 * n + d := by
  intro d hd n
  interval_cases d <;> rfl

theorem foldl_hexDigits (k n first : ℕ) :
    (hexDigits k n).foldl readDigit first = 16 ^ k * first + n % 16 ^ k := by
  induction k generalizing n with
  | zero => simp [hexDigits, Nat.mod_one]
  | succ k ih =>
    rw [hexDigits, List.foldl_append, ih, List.foldl_cons, List.foldl_nil,
      readDigit_digitChar _ (Nat.mod_lt n (by decide)), Nat.pow_succ', Nat.mod_mul, Nat.mul_add,
      Nat.mul_assoc]
    omega

theorem foldl_groups (k n : ℕ) : (groups k n).foldl readDigit 0 = n % (2 ^ 16) ^ (k + 1) := by
  induction k generalizing n with
  | zero =>
    rw [groups, foldl_hexDigits, Nat.mul_zero, Nat.zero_add]
    rfl
  | succ k ih =>
    have hcolon : readDigit (n / 2 ^ 16 % (2 ^ 16) ^ (k + 1)) ':' =
        n / 2 ^ 16 % (2 ^ 16) ^ (k + 1) := rfl
    have hfour : 16 ^ 4 = 2 ^ 16 := rfl
    rw [groups, List.foldl_append, ih, List.foldl_cons, hcolon, foldl_hexDigits, hfour,
      Nat.pow_succ' (n := k + 1), Nat.mod_mul]
    omega

theorem chars_of_groups {k n : ℕ} {c : Char} (h : c ∈ groups k n) :
    c = ':' ∨ ∃ d < 16, c = Nat.digitChar d := by
  have hdigits : ∀ j m, c ∈ hexDigits j m → ∃ d < 16, c = Nat.digitChar d := by
    intro j
    induction j with
    | zero => exact fun m hmem ↦ absurd hmem List.not_mem_nil
    | succ j ih =>
      intro m hmem
      rcases List.mem_append.mp hmem with hmem | hmem
      · exact ih _ hmem
      · exact ⟨m % 16, Nat.mod_lt m (by decide), List.mem_singleton.mp hmem⟩
  induction k generalizing n with
  | zero => exact .inr (hdigits 4 n h)
  | succ k ih =>
    rw [groups, List.mem_append, List.mem_cons] at h
    rcases h with h | rfl | h
    · exact ih h
    · exact .inl rfl
    · exact .inr (hdigits 4 n h)

theorem isAddrChar_of_groups {k n : ℕ} {c : Char} (h : c ∈ groups k n) :
    isAddrChar c = true ∧ c ≠ '%' := by
  rcases chars_of_groups h with rfl | ⟨d, hd, rfl⟩
  · decide
  · clear h
    revert d
    decide

theorem length_groups (k n : ℕ) : (groups k n).length = 5 * k + 4 := by
  induction k generalizing n with
  | zero => rfl
  | succ k ih =>
    have hfour : (hexDigits 4 n).length = 4 := rfl
    rw [groups, List.length_append, ih, List.length_cons, hfour]
    omega

theorem toList_of_parseFull {text : String} {a : ℕ} (h : parseFull text = some a) :
    a < 2 ^ 128 ∧ text.toList = groups 7 a := by
  simp only [parseFull] at h
  split at h
  · next hfull =>
    cases h
    have htext := congrArg String.toList hfull.2
    rw [fullText, String.toList_ofList] at htext
    exact ⟨hfull.1, htext⟩
  · cases h

theorem parseFull_fullText {a : ℕ} (h : a < 2 ^ 128) : parseFull (fullText a) = some a := by
  have hvalue : (groups 7 a).foldl readDigit 0 = a := by
    rw [foldl_groups, ← Nat.pow_mul, Nat.mod_eq_of_lt h]
  simp only [parseFull, fullText, String.toList_ofList, hvalue]
  rw [if_pos ⟨h, trivial⟩]

theorem colon_mem_groups (a : ℕ) : ':' ∈ groups 7 a := by
  rw [groups]
  simp

end Ipv6
