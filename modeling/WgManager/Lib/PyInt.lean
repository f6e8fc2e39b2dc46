import Mathlib.Data.Int.Notation
import WgManager.Lib.Except
import WgManager.Lib.PyStr

/-!
# Python's `int` of a text

`int(s)` and `int(s, 16)`, with all that they allow: white space around the numeral, a sign, single
underscores between digits, the prefix `0x`, and the decimal digits of every script.  A decimal
numeral may have 4300 digits.

`str.isdigit()` holds of more than that: superscripts, circled digits and the like are digits that
are not decimal, and `int` refuses them (`parse_of_isDigit`).
-/

set_option autoImplicit false

namespace PyInt

/-- The zeros of the scripts that have decimal digits, each followed by its nine others. -/
def zeros : List ℕ :=
  [0x30, 0x660, 0x6f0, 0x7c0, 0x966, 0x9e6, 0xa66, 0xae6, 0xb66, 0xbe6, 0xc66, 0xce6, 0xd66, 0xde6,
    0xe50, 0xed0, 0xf20, 0x1040, 0x1090, 0x17e0, 0x1810, 0x1946, 0x19d0, 0x1a80, 0x1a90, 0x1b50,
    0x1bb0, 0x1c40, 0x1c50, 0xa620, 0xa8d0, 0xa900, 0xa9d0, 0xa9f0, 0xaa50, 0xabf0, 0xff10, 0x104a0,
    0x10d30, 0x11066, 0x110f0, 0x11136, 0x111d0, 0x112f0, 0x11450, 0x114d0, 0x11650, 0x116c0,
    0x11730, 0x118e0, 0x11950, 0x11c50, 0x11d50, 0x11da0, 0x11f50, 0x16a60, 0x16ac0, 0x16b50,
    0x1d7ce, 0x1d7d8, 0x1d7e2, 0x1d7ec, 0x1d7f6, 0x1e140, 0x1e2f0, 0x1e4f0, 0x1e950, 0x1fbf0]

/-- The digits that are not decimal, as ranges. -/
def otherDigits : List (ℕ × ℕ) :=
  [(0xb2, 0xb3), (0xb9, 0xb9), (0x1369, 0x1371), (0x19da, 0x19da), (0x2070, 0x2070),
    (0x2074, 0x2079), (0x2080, 0x2089), (0x2460, 0x2468), (0x2474, 0x247c), (0x2488, 0x2490),
    (0x24ea, 0x24ea), (0x24f5, 0x24fd), (0x24ff, 0x24ff), (0x2776, 0x277e), (0x2780, 0x2788),
    (0x278a, 0x2792), (0x10a40, 0x10a43), (0x10e60, 0x10e68), (0x11052, 0x1105a),
    (0x1f100, 0x1f10a)]

/-- The value of the decimal digit with this code point. -/
def decimalAt (n : ℕ) : Option ℕ := (zeros.find? fun z ↦ z ≤ n && n < z + 10).map (n - ·)

/-- The value of a decimal digit. -/
def decimalValue (c : Char) : Option ℕ := decimalAt c.toNat

/-- The code point is that of a digit. -/
def isDigitAt (n : ℕ) : Bool :=
  (decimalAt n).isSome || otherDigits.any fun r ↦ r.1 ≤ n && n ≤ r.2

/-- `c.isdigit()`. -/
def isDigitChar (c : Char) : Bool := isDigitAt c.toNat

/-- `s.isdigit()`: the empty text is none. -/
def isDigit (s : String) : Bool := s.toList ≠ [] && s.toList.all isDigitChar

/-- A character as `int` looks at it: white space and decimal digits of other scripts are turned
into their ASCII counterparts. -/
def toAscii (c : Char) : Char :=
  if c.toNat < 128 then c
  else if PyStr.isSpace c then ' '
  else
    match decimalValue c with
    | some d => Char.ofNat (48 + d)
    | none => '?'

/-- White space of C. -/
def isCSpace (c : Char) : Bool := c = ' ' || (9 ≤ c.toNat && c.toNat ≤ 13)

/-- The value of a digit in a base of at most 36. -/
def digitValue (base : ℕ) (c : Char) : Option ℕ :=
  let n := c.toNat
  let value :=
    if 48 ≤ n && n ≤ 57 then n - 48
    else if 97 ≤ n && n ≤ 122 then n - 87
    else if 65 ≤ n && n ≤ 90 then n - 55
    else 36
  if value < base then some value else none

/-- The sign of a numeral, and the rest. -/
def sign : List Char → ℤ × List Char
  | '-' :: cs => (-1, cs)
  | '+' :: cs => (1, cs)
  | cs => (1, cs)

/-- The prefix of a hexadecimal numeral, with the underscore that may follow it. -/
def dropHexMark : List Char → List Char
  | '0' :: 'x' :: '_' :: cs | '0' :: 'X' :: '_' :: cs => cs
  | '0' :: 'x' :: cs | '0' :: 'X' :: cs => cs
  | cs => cs

/-- The value of the digits, which may have single underscores between them. -/
def magnitude (base : ℕ) (cs : List Char) : Option ℕ := do
  let groups := PyStr.pieces (· == '_') cs
  if groups.any (· = []) then none
  else
    let digits ← groups.flatten.mapM (digitValue base)
    if base = 10 && 4300 < digits.length then none
    else some (digits.foldl (fun n d ↦ base * n + d) 0)

/-- `int(s, base)`, for base 10 and 16; `none` stands for a `ValueError`. -/
def parse (base : ℕ) (s : String) : Option ℤ := do
  let cs := PyStr.dropEndWhile isCSpace ((s.toList.map toAscii).dropWhile isCSpace)
  let (negate, cs) := sign cs
  let n ← magnitude base (if base = 16 then dropHexMark cs else cs)
  some (negate * n)

/-! ## Characters -/

section

variable {c : Char} {d n : ℕ}

theorem isSpace_of_isDigitChar (h : isDigitChar c = true) : PyStr.isSpace c = false := by
  have hspaces : ∀ n ∈ List.range' 9 5 ++ List.range' 28 5 ++ [0x85, 0xa0, 0x1680] ++
      List.range' 0x2000 11 ++ [0x2028, 0x2029, 0x202f, 0x205f, 0x3000], isDigitAt n = false := by
    decide +kernel
  by_contra hspace
  have hmem : isDigitAt c.toNat = false := by
    refine hspaces c.toNat ?_
    simp only [PyStr.isSpace, Bool.not_eq_false, Bool.or_eq_true, Bool.and_eq_true,
      decide_eq_true_eq] at hspace
    simp only [List.mem_append, List.mem_range'_1, List.mem_cons, List.not_mem_nil, or_false]
    omega
  rw [isDigitChar, hmem] at h
  cases h

theorem lt_ten_of_decimalAt (h : decimalAt n = some d) : d < 10 := by
  obtain ⟨z, hz, rfl⟩ := Option.map_eq_some_iff.mp h
  have hrange := List.find?_some hz
  simp only [Bool.and_eq_true, decide_eq_true_eq] at hrange
  omega

theorem isDigitChar_of_decimalValue (h : decimalValue c = some d) : isDigitChar c = true := by
  rw [isDigitChar, isDigitAt, ← decimalValue, h]
  rfl

theorem ofNat_eq_digitChar (h : d < 10) : Char.ofNat (48 + d) = d.digitChar := by
  have hall : ∀ d < 10, Char.ofNat (48 + d) = d.digitChar := by decide
  exact hall d h

/-- A decimal digit of any script is read as one of ASCII. -/
theorem toAscii_of_decimalValue (h : decimalValue c = some d) : toAscii c = d.digitChar := by
  rw [toAscii]
  split
  · next hascii =>
    have hall : ∀ n < 128, ∀ d ∈ decimalAt n, Char.ofNat n = d.digitChar := by decide +kernel
    rw [← hall c.toNat hascii d h, Char.ofNat_toNat]
  · rw [isSpace_of_isDigitChar (isDigitChar_of_decimalValue h), h]
    exact ofNat_eq_digitChar (lt_ten_of_decimalAt h)

/-- A digit that is not decimal is not read. -/
theorem toAscii_of_not_decimal (h : isDigitChar c = true) (hnone : decimalValue c = none) :
    toAscii c = '?' := by
  rw [toAscii]
  split
  · next hascii =>
    have hall : ∀ n < 128, isDigitAt n = true → decimalAt n ≠ none := by decide +kernel
    exact absurd hnone (hall c.toNat hascii h)
  · rw [isSpace_of_isDigitChar h, hnone]
    rfl

end

/-! ## Numerals -/

/-- Neither white space nor a sign nor an underscore. -/
def IsPlain (c : Char) : Prop := isCSpace c = false ∧ c ≠ '_' ∧ c ≠ '-' ∧ c ≠ '+'

instance (c : Char) : Decidable (IsPlain c) := inferInstanceAs (Decidable (_ ∧ _))

theorem isPlain_digitChar {d : ℕ} (h : d < 16) : IsPlain d.digitChar := by
  have hall : ∀ d < 16, IsPlain d.digitChar := by decide
  exact hall d h

section

variable {base : ℕ} {cs : List Char} {s : String}

theorem trim_of_plain (h : ∀ c ∈ cs, IsPlain c) :
    PyStr.dropEndWhile isCSpace (cs.dropWhile isCSpace) = cs := by
  have hhead : ∀ c ∈ cs.head?, isCSpace c = false := fun c hc ↦ (h c (List.mem_of_head? hc)).1
  have hlast : ∀ c ∈ cs.reverse.head?, isCSpace c = false := fun c hc ↦
    (h c (List.mem_reverse.mp (List.mem_of_head? hc))).1
  rw [PyStr.dropWhile_of_head hhead, PyStr.dropEndWhile, PyStr.dropWhile_of_head hlast,
    List.reverse_reverse]

theorem sign_of_plain (h : ∀ c ∈ cs, IsPlain c) : sign cs = (1, cs) := by
  rw [sign]
  · rintro ds rfl
    exact (h '-' List.mem_cons_self).2.2.1 rfl
  · rintro ds rfl
    exact (h '+' List.mem_cons_self).2.2.2 rfl

theorem magnitude_of_plain (hne : cs ≠ []) (h : ∀ c ∈ cs, IsPlain c) :
    magnitude base cs = (cs.mapM (digitValue base)).bind fun digits ↦
      if base = 10 && 4300 < digits.length then none
      else some (digits.foldl (fun n d ↦ base * n + d) 0) := by
  have hpieces : PyStr.pieces (· == '_') cs = [cs] :=
    PyStr.pieces_of_forall fun c hc ↦ by simpa using (h c hc).2.1
  rw [magnitude, hpieces, List.any_cons, List.any_nil, Bool.or_false, if_neg (by simpa using hne),
    List.flatten_cons, List.flatten_nil, List.append_nil]
  rfl

theorem parse_ten_of_plain (hne : s ≠ "") (h : ∀ c ∈ s.toList.map toAscii, IsPlain c) :
    parse 10 s = ((s.toList.map toAscii).mapM (digitValue 10)).bind fun digits ↦
      if 4300 < digits.length then none
      else some ((digits.foldl (fun n d ↦ 10 * n + d) 0 : ℕ) : ℤ) := by
  have hne' : s.toList.map toAscii ≠ [] := by simpa using hne
  rw [parse, trim_of_plain h, sign_of_plain h]
  dsimp only
  rw [if_neg (by decide), magnitude_of_plain hne' h]
  cases (s.toList.map toAscii).mapM (digitValue 10) with
  | none => rfl
  | some digits =>
    simp only [Option.bind_some, decide_true, Bool.true_and, decide_eq_true_eq]
    split
    · rfl
    · simp

theorem digitValue_digitChar {d : ℕ} (hbase : base = 10 ∨ base = 16) (h : d < base) :
    digitValue base d.digitChar = some d := by
  have hten : ∀ d < 10, digitValue 10 d.digitChar = some d := by decide
  have hsixteen : ∀ d < 16, digitValue 16 d.digitChar = some d := by decide
  rcases hbase with rfl | rfl
  · exact hten d h
  · exact hsixteen d h

theorem mapM_digitChar {ds : List ℕ} (hbase : base = 10 ∨ base = 16) (h : ∀ d ∈ ds, d < base) :
    (ds.map Nat.digitChar).mapM (digitValue base) = some ds := by
  refine mapM_eq_some_iff.mpr ?_
  rw [List.forall₂_map_left_iff, List.forall₂_same]
  exact fun d hd ↦ digitValue_digitChar hbase (h d hd)

/-- The digits of a number. -/
theorem exists_digits (hbase : 1 < base) (n : ℕ) :
    ∃ ds : List ℕ, Nat.toDigits base n = ds.map Nat.digitChar ∧ (∀ d ∈ ds, d < base) ∧
      ds.foldl (fun n d ↦ base * n + d) 0 = n := by
  induction n using Nat.strongRecOn with
  | ind n ih =>
    rcases Nat.lt_or_ge n base with hlt | hge
    · exact ⟨[n], Nat.toDigits_of_lt_base hlt, by simpa using hlt, by simp⟩
    · obtain ⟨ds, hds, hlt, hvalue⟩ := ih (n / base)
        (Nat.div_lt_self (Nat.lt_of_lt_of_le (by omega) hge) hbase)
      refine ⟨ds ++ [n % base], ?_, fun d hd ↦ ?_, ?_⟩
      · rw [Nat.toDigits_of_base_le hbase hge, hds, List.map_append,
          List.map_singleton]
      · rcases List.mem_append.mp hd with hd | hd
        · exact hlt d hd
        · rw [List.mem_singleton.mp hd]
          exact Nat.mod_lt n (by omega)
      · rw [List.foldl_append, hvalue, List.foldl_cons, List.foldl_nil, Nat.div_add_mod]

theorem toAscii_digitChar {d : ℕ} (h : d < 16) : toAscii d.digitChar = d.digitChar := by
  have hall : ∀ d < 16, toAscii d.digitChar = d.digitChar := by decide
  exact hall d h

theorem map_toAscii_digitChar {ds : List ℕ} (h : ∀ d ∈ ds, d < 16) :
    (ds.map Nat.digitChar).map toAscii = ds.map Nat.digitChar := by
  rw [List.map_map]
  exact List.map_congr_left fun d hd ↦ toAscii_digitChar (h d hd)

theorem isPlain_of_mem_digits {ds : List ℕ} (h : ∀ d ∈ ds, d < 16) :
    ∀ c ∈ ds.map Nat.digitChar, IsPlain c := by
  intro c hc
  obtain ⟨d, hd, rfl⟩ := List.mem_map.mp hc
  exact isPlain_digitChar (h d hd)

/-- `int(str(n))` is `n`. -/
theorem parse_toString {n : ℕ} (h : (Nat.toDigits 10 n).length ≤ 4300) :
    parse 10 (toString n) = some (n : ℤ) := by
  obtain ⟨ds, hds, hlt, hvalue⟩ := exists_digits (by decide : 1 < 10) n
  have hlt' : ∀ d ∈ ds, d < 16 := fun d hd ↦ Nat.lt_trans (hlt d hd) (by decide)
  have htoList : (toString n).toList = ds.map Nat.digitChar := hds ▸ Nat.toList_repr
  have hmap : (toString n).toList.map toAscii = ds.map Nat.digitChar := by
    rw [htoList, map_toAscii_digitChar hlt']
  have hne : toString n ≠ "" := by
    intro hempty
    have hnil : (toString n).toList = [] := by rw [hempty]; rfl
    exact Nat.toDigits_ne_nil (hds.trans (htoList.symm.trans hnil))
  rw [parse_ten_of_plain hne (hmap ▸ isPlain_of_mem_digits hlt'), hmap,
    mapM_digitChar (.inl rfl) hlt, Option.bind_some, hvalue, if_neg]
  rw [hds, List.length_map] at h
  exact Nat.not_lt.mpr h

/-- `int(hex(n), 16)` is `n`. -/
theorem parse_hex (n : ℕ) :
    parse 16 ("0x" ++ String.ofList (Nat.toDigits 16 n)) = some (n : ℤ) := by
  obtain ⟨ds, hds, hlt, hvalue⟩ := exists_digits (by decide : 1 < 16) n
  have hplain := isPlain_of_mem_digits hlt
  have hne : ds.map Nat.digitChar ≠ [] := hds ▸ Nat.toDigits_ne_nil
  have htoList : ("0x" ++ String.ofList (Nat.toDigits 16 n)).toList =
      '0' :: 'x' :: ds.map Nat.digitChar := by
    rw [String.toList_append, hds, String.toList_ofList, String.toList_ofList]
    rfl
  have hmap : ('0' :: 'x' :: ds.map Nat.digitChar).map toAscii =
      '0' :: 'x' :: ds.map Nat.digitChar := by
    rw [List.map_cons, List.map_cons, map_toAscii_digitChar hlt]
    rfl
  have hall : ∀ c ∈ '0' :: 'x' :: ds.map Nat.digitChar, IsPlain c := by
    rw [List.forall_mem_cons, List.forall_mem_cons]
    exact ⟨by decide, by decide, hplain⟩
  have hmark : dropHexMark ('0' :: 'x' :: ds.map Nat.digitChar) = ds.map Nat.digitChar := by
    rw [dropHexMark]
    intro cs hcs
    have hunderscore : '_' ∈ ds.map Nat.digitChar := hcs ▸ List.mem_cons_self
    exact (hplain '_' hunderscore).2.1 rfl
  rw [parse, htoList, hmap, trim_of_plain hall, sign_of_plain hall]
  dsimp only
  rw [if_pos rfl, hmark, magnitude_of_plain hne hplain, mapM_digitChar (.inr rfl) hlt,
    Option.bind_some, hvalue]
  simp

/-- Digits are not taken for the prefix `0x`. -/
theorem dropHexMark_digits {ds : List ℕ} (h : ∀ d ∈ ds, d < 16) :
    dropHexMark (ds.map Nat.digitChar) = ds.map Nat.digitChar := by
  have hall : ∀ d < 16, d.digitChar ≠ 'x' ∧ d.digitChar ≠ 'X' := by decide
  have hmark : 'x' ∉ ds.map Nat.digitChar ∧ 'X' ∉ ds.map Nat.digitChar := by
    constructor <;> rw [List.mem_map] <;> rintro ⟨d, hd, hx⟩
    · exact (hall d (h d hd)).1 hx
    · exact (hall d (h d hd)).2 hx
  generalize ds.map Nat.digitChar = cs at hmark ⊢
  rw [dropHexMark]
  -- the digits begin with none of the four forms of the prefix
  all_goals
    rintro es rfl
    simp at hmark

/-- `int(s, 16)` of hexadecimal digits. -/
theorem parse_hexDigits {ds : List ℕ} (hne : ds ≠ []) (h : ∀ d ∈ ds, d < 16) :
    parse 16 (String.ofList (ds.map Nat.digitChar)) =
      some ((ds.foldl (fun n d ↦ 16 * n + d) 0 : ℕ) : ℤ) := by
  have hplain := isPlain_of_mem_digits h
  rw [parse, String.toList_ofList, map_toAscii_digitChar h, trim_of_plain hplain,
    sign_of_plain hplain]
  dsimp only
  rw [if_pos rfl, dropHexMark_digits h, magnitude_of_plain (by simpa using hne) hplain,
    mapM_digitChar (.inr rfl) h, Option.bind_some]
  simp

/-- Decimal digits, as many as Python takes. -/
def IsNumeral (s : String) : Prop :=
  (∀ c ∈ s.toList, (decimalValue c).isSome) ∧ s.toList.length ≤ 4300

theorem toAscii_of_isDigitChar {c : Char} (h : isDigitChar c = true) :
    (∃ d < 10, decimalValue c = some d ∧ toAscii c = d.digitChar) ∨
      (decimalValue c = none ∧ toAscii c = '?') := by
  cases hd : decimalValue c with
  | none => exact .inr ⟨rfl, toAscii_of_not_decimal h hd⟩
  | some d => exact .inl ⟨d, lt_ten_of_decimalAt hd, rfl, toAscii_of_decimalValue hd⟩

/-- **When `int` takes a text of digits**: when they are all decimal, and no more than 4300. -/
theorem parse_of_isDigit (h : isDigit s = true) :
    (IsNumeral s ∧ ∃ n : ℕ, parse 10 s = some (n : ℤ)) ∨ (¬IsNumeral s ∧ parse 10 s = none) := by
  simp only [isDigit, ne_eq, String.toList_eq_nil_iff, decide_not, Bool.and_eq_true,
    Bool.not_eq_eq_eq_not, Bool.not_true, decide_eq_false_iff_not, List.all_eq_true] at h
  obtain ⟨hne, hdigits⟩ := h
  have hplain : ∀ c ∈ s.toList.map toAscii, IsPlain c := by
    intro a ha
    obtain ⟨c, hc, rfl⟩ := List.mem_map.mp ha
    rcases toAscii_of_isDigitChar (hdigits c hc) with ⟨d, hd, -, heq⟩ | ⟨-, heq⟩
    · rw [heq]
      exact isPlain_digitChar (Nat.lt_trans hd (by decide))
    · rw [heq]
      decide
  rw [parse_ten_of_plain hne hplain]
  by_cases hdecimal : ∀ c ∈ s.toList, (decimalValue c).isSome
  · -- every character is read as a digit of ASCII
    have hmap : s.toList.map toAscii =
        (s.toList.map fun c ↦ (decimalValue c).getD 0).map Nat.digitChar := by
      rw [List.map_map]
      refine List.map_congr_left fun c hc ↦ ?_
      obtain ⟨d, hd⟩ := Option.isSome_iff_exists.mp (hdecimal c hc)
      rw [toAscii_of_decimalValue hd, Function.comp_apply, hd, Option.getD_some]
    have hlt : ∀ d ∈ s.toList.map fun c ↦ (decimalValue c).getD 0, d < 10 := by
      intro d hd
      obtain ⟨c, hc, rfl⟩ := List.mem_map.mp hd
      obtain ⟨d, hd⟩ := Option.isSome_iff_exists.mp (hdecimal c hc)
      rw [hd, Option.getD_some]
      exact lt_ten_of_decimalAt hd
    rw [hmap, mapM_digitChar (.inl rfl) hlt, Option.bind_some, List.length_map]
    split
    · next hlong => exact .inr ⟨fun hnum ↦ absurd hnum.2 (Nat.not_le.mpr hlong), rfl⟩
    · next hshort => exact .inl ⟨⟨hdecimal, Nat.not_lt.mp hshort⟩, _, rfl⟩
  · refine .inr ⟨fun hnum ↦ hdecimal hnum.1, ?_⟩
    cases hm : (s.toList.map toAscii).mapM (digitValue 10) with
    | none => rfl
    | some digits =>
      refine absurd (fun c hc ↦ ?_) hdecimal
      rcases toAscii_of_isDigitChar (hdigits c hc) with ⟨d, -, hd, -⟩ | ⟨-, heq⟩
      · rw [hd]
        rfl
      · obtain ⟨d, hd⟩ := exists_of_mapM hm (List.mem_map_of_mem hc)
        have hnone : digitValue 10 '?' = none := rfl
        rw [heq, hnone] at hd
        cases hd

theorem isDigit_toString (n : ℕ) : isDigit (toString n) = true := by
  obtain ⟨ds, hds, hlt, -⟩ := exists_digits (by decide : 1 < 10) n
  have htoList : (toString n).toList = ds.map Nat.digitChar := hds ▸ Nat.toList_repr
  have hne : ds.map Nat.digitChar ≠ [] := hds ▸ Nat.toDigits_ne_nil
  have hall : ∀ d < 10, isDigitChar d.digitChar = true := by decide +kernel
  rw [isDigit, htoList, Bool.and_eq_true, decide_eq_true_eq, List.all_eq_true]
  refine ⟨hne, fun c hc ↦ ?_⟩
  obtain ⟨d, hd, rfl⟩ := List.mem_map.mp hc
  exact hall d (hlt d hd)

end

end PyInt
