import WgManager.Lib.Json
import WgManager.Lib.PyInt

/-!
# The text of a JSON document

What `json.dumps` writes with compact separators: everything that is not printable ASCII is escaped
in strings, the characters beyond the basic plane as two surrogates.  How a float is written is a
parameter.

What is written can be read in one way only (`render_unique`).  A string ends with the first quote
that is not escaped, a number where there is no digit any more, and the first character of anything
else says what it is.
-/

set_option autoImplicit false

namespace JsonText

/-! ## Strings -/

/-- The characters with an escape of one letter. -/
def shortEscapes : List (Char × Char) :=
  [('"', '"'), ('\\', '\\'), ('\n', 'n'), ('\r', 'r'), ('\t', 't'), ('\x0c', 'f'), ('\x08', 'b')]

/-- `\uXXXX` for a number of 16 bits. -/
def escapeUnit (n : ℕ) : List Char :=
  ['\\', 'u', (n / 4096 % 16).digitChar, (n / 256 % 16).digitChar, (n / 16 % 16).digitChar,
    (n % 16).digitChar]

/-- A character in a string. -/
def escapeChar (c : Char) : List Char :=
  let n := c.toNat
  match shortEscapes.lookup c with
  | some letter => ['\\', letter]
  | none =>
    if 32 ≤ n ∧ n ≤ 126 then [c]
    else if n < 0x10000 then escapeUnit n
    else
      escapeUnit (0xd800 + (n - 0x10000) / 1024) ++ escapeUnit (0xdc00 + (n - 0x10000) % 1024)

/-- A string in quotes. -/
def quote (s : String) : List Char := '"' :: (s.toList.flatMap escapeChar ++ ['"'])

/-- The number in `\uXXXX`, and what follows it. -/
def readUnit : List Char → Option (ℕ × List Char)
  | '\\' :: 'u' :: a :: b :: c :: d :: rest => do
    let digits ← [a, b, c, d].mapM (PyInt.digitValue 16)
    some (digits.foldl (fun n d ↦ 16 * n + d) 0, rest)
  | _ => none

/-- The first character of a string, and what follows it. -/
def readChar (cs : List Char) : Option (Char × List Char) :=
  match cs with
  | [] => none
  | '\\' :: 'u' :: _ => do
    let (n, rest) ← readUnit cs
    if n / 1024 = 54 then
      let (m, rest) ← readUnit rest
      some (Char.ofNat (0x10000 + (n - 0xd800) * 1024 + (m - 0xdc00)), rest)
    else some (Char.ofNat n, rest)
  | '\\' :: letter :: rest => do
    let (c, _) ← shortEscapes.find? fun e ↦ e.2 == letter
    some (c, rest)
  | c :: rest => some (c, rest)

theorem readUnit_escapeUnit {n : ℕ} (h : n < 0x10000) (rest : List Char) :
    readUnit (escapeUnit n ++ rest) = some (n, rest) := by
  have hdigits : [(n / 4096 % 16).digitChar, (n / 256 % 16).digitChar, (n / 16 % 16).digitChar,
      (n % 16).digitChar].mapM (PyInt.digitValue 16) =
        some [n / 4096 % 16, n / 256 % 16, n / 16 % 16, n % 16] := by
    refine @PyInt.mapM_digitChar 16 [n / 4096 % 16, n / 256 % 16, n / 16 % 16, n % 16]
      (.inr rfl) ?_
    simp only [List.forall_mem_cons, List.not_mem_nil, false_implies, implies_true, and_true]
    omega
  have hvalue : [n / 4096 % 16, n / 256 % 16, n / 16 % 16, n % 16].foldl
      (fun n d ↦ 16 * n + d) 0 = n := by
    simp only [List.foldl_cons, List.foldl_nil]
    omega
  rw [escapeUnit]
  dsimp only [List.cons_append, List.nil_append]
  rw [readUnit, hdigits, Option.bind_eq_bind, Option.bind_some, hvalue]

theorem readChar_escapeUnit {n : ℕ} (h : n < 0x10000) (rest : List Char) :
    readChar (escapeUnit n ++ rest) =
      if n / 1024 = 54 then (readUnit rest).bind fun r ↦
        some (Char.ofNat (0x10000 + (n - 0xd800) * 1024 + (r.1 - 0xdc00)), r.2)
      else some (Char.ofNat n, rest) := by
  have hread : readChar (escapeUnit n ++ rest) = (readUnit (escapeUnit n ++ rest)).bind fun r ↦
      if r.1 / 1024 = 54 then (readUnit r.2).bind fun r' ↦
        some (Char.ofNat (0x10000 + (r.1 - 0xd800) * 1024 + (r'.1 - 0xdc00)), r'.2)
      else some (Char.ofNat r.1, r.2) := rfl
  rw [hread, readUnit_escapeUnit h, Option.bind_some]

theorem readChar_of_ne {c : Char} (h : c ≠ '\\') (rest : List Char) :
    readChar (c :: rest) = some (c, rest) := by
  unfold readChar
  split
  · next heq => cases heq
  · next heq => exact absurd (List.cons.inj heq).1 h
  · next heq => exact absurd (List.cons.inj heq).1 h
  · next heq =>
    cases heq
    rfl

/-- A character is read back. -/
theorem readChar_escapeChar (c : Char) (rest : List Char) :
    readChar (escapeChar c ++ rest) = some (c, rest) := by
  have hvalid : c.toNat < 0xd800 ∨ 0xdfff < c.toNat ∧ c.toNat < 0x110000 := c.valid
  rw [escapeChar]
  cases hshort : shortEscapes.lookup c with
  | some letter =>
    have hmem : (c, letter) ∈ shortEscapes := by
      obtain ⟨front, back, heq, -⟩ := List.lookup_eq_some_iff.mp hshort
      exact heq ▸ List.mem_append_right _ List.mem_cons_self
    simp only [shortEscapes, List.mem_cons, Prod.mk.injEq, List.not_mem_nil, or_false] at hmem
    rcases hmem with ⟨rfl, rfl⟩ | ⟨rfl, rfl⟩ | ⟨rfl, rfl⟩ | ⟨rfl, rfl⟩ | ⟨rfl, rfl⟩ | ⟨rfl, rfl⟩ |
      ⟨rfl, rfl⟩ <;> rfl
  | none =>
    dsimp only
    by_cases hprintable : 32 ≤ c.toNat ∧ c.toNat ≤ 126
    · have hne : c ≠ '\\' := by
        rintro rfl
        cases hshort
      rw [if_pos hprintable, List.singleton_append, readChar_of_ne hne]
    · rw [if_neg hprintable]
      by_cases hbasic : c.toNat < 0x10000
      · have hunit : ¬c.toNat / 1024 = 54 := by omega
        rw [if_pos hbasic, readChar_escapeUnit hbasic, if_neg hunit, Char.ofNat_toNat]
      · -- two surrogates
        have hhigh : (0xd800 + (c.toNat - 0x10000) / 1024) / 1024 = 54 := by omega
        have hvalue : 0x10000 + (0xd800 + (c.toNat - 0x10000) / 1024 - 0xd800) * 1024 +
            (0xdc00 + (c.toNat - 0x10000) % 1024 - 0xdc00) = c.toNat := by omega
        rw [if_neg hbasic, List.append_assoc, readChar_escapeUnit (by omega), if_pos hhigh,
          readUnit_escapeUnit (by omega), Option.bind_some, hvalue, Char.ofNat_toNat]

/-- An escaped character does not end the string. -/
theorem head_escapeChar (c : Char) : ∃ d rest, escapeChar c = d :: rest ∧ d ≠ '"' := by
  rw [escapeChar]
  cases hshort : shortEscapes.lookup c with
  | some letter => exact ⟨'\\', [letter], rfl, by decide⟩
  | none =>
    have hne : c ≠ '"' := by
      rintro rfl
      cases hshort
    dsimp only
    split
    · exact ⟨c, [], rfl, hne⟩
    · split
      · exact ⟨'\\', _, rfl, by decide⟩
      · exact ⟨'\\', _, rfl, by decide⟩

theorem escapes_unique {cs ds x y : List Char}
    (h : cs.flatMap escapeChar ++ '"' :: x = ds.flatMap escapeChar ++ '"' :: y) :
    cs = ds ∧ x = y := by
  induction cs generalizing ds with
  | nil =>
    cases ds with
    | nil => exact ⟨rfl, (List.cons.inj h).2⟩
    | cons d ds =>
      obtain ⟨e, rest, he, hne⟩ := head_escapeChar d
      rw [List.flatMap_cons, he] at h
      exact absurd (List.cons.inj h).1.symm hne
  | cons c cs ih =>
    cases ds with
    | nil =>
      obtain ⟨e, rest, he, hne⟩ := head_escapeChar c
      rw [List.flatMap_cons, he] at h
      exact absurd (List.cons.inj h).1 hne
    | cons d ds =>
      rw [List.flatMap_cons, List.flatMap_cons, List.append_assoc, List.append_assoc] at h
      have hread := congrArg readChar h
      rw [readChar_escapeChar, readChar_escapeChar, Option.some_inj, Prod.mk.injEq] at hread
      obtain ⟨rfl, hrest⟩ := hread
      obtain ⟨rfl, hxy⟩ := ih hrest
      exact ⟨rfl, hxy⟩

theorem quote_unique {s t : String} {x y : List Char} (h : quote s ++ x = quote t ++ y) :
    s = t ∧ x = y := by
  rw [quote, quote, List.cons_append, List.cons_append, List.append_assoc, List.append_assoc] at h
  obtain ⟨hst, hxy⟩ := escapes_unique (List.cons.inj h).2
  exact ⟨String.toList_inj.mp hst, hxy⟩

/-! ## Integers -/

/-- `int.__repr__`. -/
def intRepr : ℤ → List Char
  | .ofNat n => Nat.toDigits 10 n
  | .negSucc n => '-' :: Nat.toDigits 10 (n + 1)

/-- Does not begin with a digit. -/
def Delimited (x : List Char) : Prop := ∀ c ∈ x.head?, c.isDigit = false

theorem isDigit_of_mem_toDigits {n : ℕ} {c : Char} (h : c ∈ Nat.toDigits 10 n) :
    c.isDigit = true := by
  have hall : ∀ d < 10, d.digitChar.isDigit = true := by decide
  obtain ⟨ds, hds, hlt, -⟩ := PyInt.exists_digits (by decide : 1 < 10) n
  rw [hds] at h
  obtain ⟨d, hd, rfl⟩ := List.mem_map.mp h
  exact hall d (hlt d hd)

theorem toDigits_injective {n m : ℕ} (h : Nat.toDigits 10 n = Nat.toDigits 10 m) : n = m := by
  obtain ⟨ds, hds, hlt, hvalue⟩ := PyInt.exists_digits (by decide : 1 < 10) n
  obtain ⟨es, hes, hlt', hvalue'⟩ := PyInt.exists_digits (by decide : 1 < 10) m
  have hread := PyInt.mapM_digitChar (.inl rfl) hlt
  rw [← hds, h, hes, PyInt.mapM_digitChar (.inl rfl) hlt', Option.some_inj] at hread
  rw [← hvalue, ← hvalue', hread]

theorem toDigits_unique {n m : ℕ} {x y : List Char} (hx : Delimited x) (hy : Delimited y)
    (h : Nat.toDigits 10 n ++ x = Nat.toDigits 10 m ++ y) : n = m ∧ x = y := by
  have htake : ∀ {k : ℕ} {z : List Char}, Delimited z →
      (Nat.toDigits 10 k ++ z).takeWhile Char.isDigit = Nat.toDigits 10 k := by
    intro k z hz
    rw [List.takeWhile_append_of_pos fun c hc ↦ isDigit_of_mem_toDigits hc]
    cases z with
    | nil => rw [List.takeWhile_nil, List.append_nil]
    | cons c z =>
      rw [List.takeWhile_cons_of_neg (by rw [hz c rfl]; exact Bool.false_ne_true),
        List.append_nil]
  have hdigits : Nat.toDigits 10 n = Nat.toDigits 10 m := by rw [← htake hx, h, htake hy]
  rw [hdigits, List.append_cancel_left_eq] at h
  exact ⟨toDigits_injective hdigits, h⟩

theorem head_toDigits (n : ℕ) (x : List Char) :
    ∃ c rest, Nat.toDigits 10 n ++ x = c :: rest ∧ c.isDigit = true := by
  obtain ⟨c, rest, heq⟩ := List.exists_cons_of_ne_nil (Nat.toDigits_ne_nil (b := 10) (n := n))
  exact ⟨c, rest ++ x, by rw [heq]; rfl, isDigit_of_mem_toDigits (heq ▸ List.mem_cons_self)⟩

theorem intRepr_unique {n m : ℤ} {x y : List Char} (hx : Delimited x) (hy : Delimited y)
    (h : intRepr n ++ x = intRepr m ++ y) : n = m ∧ x = y := by
  cases n with
  | ofNat n =>
    cases m with
    | ofNat m =>
      obtain ⟨rfl, hxy⟩ := toDigits_unique hx hy h
      exact ⟨rfl, hxy⟩
    | negSucc m =>
      obtain ⟨c, rest, heq, hc⟩ := head_toDigits n x
      rw [intRepr, heq, intRepr, List.cons_append] at h
      rw [(List.cons.inj h).1] at hc
      cases hc
  | negSucc n =>
    cases m with
    | ofNat m =>
      obtain ⟨c, rest, heq, hc⟩ := head_toDigits m y
      rw [intRepr, intRepr, heq, List.cons_append] at h
      rw [← (List.cons.inj h).1] at hc
      cases hc
    | negSucc m =>
      obtain ⟨hnm, hxy⟩ := toDigits_unique hx hy (List.cons.inj h).2
      rw [Nat.succ.inj hnm]
      exact ⟨rfl, hxy⟩

/-! ## Documents -/

section

variable (floatRepr : Option ℚ → List Char)

/-- The comma in front of every item but the first. -/
def separator (first : Bool) : List Char := if first then [] else [',']

mutual

/-- A document in compact form, when `floatRepr` writes the floats. -/
def render : Json → List Char
  | .null => ['n', 'u', 'l', 'l']
  | .bool true => ['t', 'r', 'u', 'e']
  | .bool false => ['f', 'a', 'l', 's', 'e']
  | .int n => intRepr n
  | .float value => floatRepr value
  | .str s => quote s
  | .arr items => '[' :: renderItems true items
  | .obj fields => '{' :: renderFields true fields

/-- The items of an array, and what closes it. -/
def renderItems (first : Bool) : List Json → List Char
  | [] => [']']
  | item :: items => separator first ++ (render item ++ renderItems false items)

/-- The fields of an object, and what closes it. -/
def renderFields (first : Bool) : List (String × Json) → List Char
  | [] => ['}']
  | (key, value) :: fields =>
    separator first ++ (quote key ++ ':' :: (render value ++ renderFields false fields))

end

end

mutual

/-- No integer has more than the 4300 digits that Python writes. -/
def writable : Json → Bool
  | .int n => (Nat.toDigits 10 n.natAbs).length ≤ 4300
  | .arr items => writableItems items
  | .obj fields => writableFields fields
  | .null | .bool _ | .float _ | .str _ => true

def writableItems : List Json → Bool
  | [] => true
  | item :: items => writable item && writableItems items

def writableFields : List (String × Json) → Bool
  | [] => true
  | (_, value) :: fields => writable value && writableFields fields

end

/-- `json.dumps(j, separators=(",", ":"))`; `none` is a `ValueError`. -/
def dumps (floatRepr : Option ℚ → List Char) (j : Json) : Option String :=
  if writable j then some (String.ofList (render floatRepr j)) else none

mutual

/-- Every number is an integer. -/
def NoFloat : Json → Prop
  | .float _ => False
  | .arr items => NoFloatItems items
  | .obj fields => NoFloatFields fields
  | .null | .bool _ | .int _ | .str _ => True

def NoFloatItems : List Json → Prop
  | [] => True
  | item :: items => NoFloat item ∧ NoFloatItems items

def NoFloatFields : List (String × Json) → Prop
  | [] => True
  | (_, value) :: fields => NoFloat value ∧ NoFloatFields fields

end

/-- What the first character of a text says about the document. -/
def shapeOf (c : Char) : ℕ :=
  if c = 'n' then 0
  else if c = 't' then 1
  else if c = 'f' then 2
  else if c = '-' ∨ c.isDigit then 3
  else if c = '"' then 4
  else if c = '[' then 5
  else if c = '{' then 6
  else 7

/-- The shape of a document without floats. -/
def shape : Json → ℕ
  | .null => 0
  | .bool true => 1
  | .bool false => 2
  | .int _ => 3
  | .str _ => 4
  | .arr _ => 5
  | .obj _ => 6
  | .float _ => 7

section

variable {floatRepr : Option ℚ → List Char} {x y : List Char}

/-- The first character of a text is that of the shape of the document. -/
theorem head_render {j : Json} (h : NoFloat j) (x : List Char) :
    ∃ c rest, render floatRepr j ++ x = c :: rest ∧ shapeOf c = shape j ∧ shapeOf c < 7 := by
  cases j with
  | null => exact ⟨'n', _, rfl, rfl, by decide⟩
  | bool b => cases b <;> exact ⟨_, _, rfl, rfl, by decide⟩
  | int n =>
    have hdigit : ∀ c : Char, c.isDigit = true → shapeOf c = 3 := by
      intro c hc
      have hn : c ≠ 'n' := by rintro rfl; cases hc
      have ht : c ≠ 't' := by rintro rfl; cases hc
      have hf : c ≠ 'f' := by rintro rfl; cases hc
      rw [shapeOf, if_neg hn, if_neg ht, if_neg hf, if_pos (.inr hc)]
    cases n with
    | ofNat n =>
      obtain ⟨c, rest, heq, hc⟩ := head_toDigits n x
      refine ⟨c, rest, ?_, hdigit c hc, by rw [hdigit c hc]; decide⟩
      rw [render]
      exact heq
    | negSucc n =>
      refine ⟨'-', Nat.toDigits 10 (n + 1) ++ x, ?_, rfl, by decide⟩
      rw [render]
      rfl
  | float value =>
    rw [NoFloat] at h
    exact h.elim
  | str s =>
    refine ⟨'"', s.toList.flatMap escapeChar ++ ['"'] ++ x, ?_, rfl, by decide⟩
    rw [render]
    rfl
  | arr items =>
    refine ⟨'[', renderItems floatRepr true items ++ x, ?_, rfl, by decide⟩
    rw [render]
    rfl
  | obj fields =>
    refine ⟨'{', renderFields floatRepr true fields ++ x, ?_, rfl, by decide⟩
    rw [render]
    rfl

theorem shape_eq {a b : Json} (ha : NoFloat a) (hb : NoFloat b)
    (h : render floatRepr a ++ x = render floatRepr b ++ y) : shape a = shape b := by
  obtain ⟨c, rest, heq, hc, -⟩ := head_render ha x
  obtain ⟨d, rest', heq', hd, -⟩ := head_render hb y
  rw [heq, heq'] at h
  rw [← hc, ← hd, (List.cons.inj h).1]

theorem delimited_renderItems (items : List Json) (x : List Char) :
    Delimited (renderItems floatRepr false items ++ x) := by
  cases items <;> rw [renderItems] <;> rintro c ⟨⟩ <;> rfl

theorem delimited_renderFields (fields : List (String × Json)) (x : List Char) :
    Delimited (renderFields floatRepr false fields ++ x) := by
  rcases fields with _ | ⟨⟨key, value⟩, fields⟩ <;> rw [renderFields] <;> rintro c ⟨⟩ <;> rfl

/-- Documents of one shape. -/
inductive SameShape : Json → Json → Prop
  | same (j : Json) : SameShape j j
  | int (n m : ℤ) : SameShape (.int n) (.int m)
  | str (s t : String) : SameShape (.str s) (.str t)
  | arr (items others : List Json) : SameShape (.arr items) (.arr others)
  | obj (fields others : List (String × Json)) : SameShape (.obj fields) (.obj others)

theorem sameShape_of_shape {a b : Json} (ha : NoFloat a) (h : shape a = shape b) :
    SameShape a b := by
  cases a with
  | null =>
    rcases b with _ | (_ | _) | _ | _ | _ | _ | _ <;> first | exact .same _ | cases h
  | bool p =>
    rcases p with _ | _ <;> rcases b with _ | (_ | _) | _ | _ | _ | _ | _ <;>
      first | exact .same _ | cases h
  | int n =>
    rcases b with _ | (_ | _) | _ | _ | _ | _ | _ <;> first | exact .int _ _ | cases h
  | float value =>
    rw [NoFloat] at ha
    exact ha.elim
  | str s =>
    rcases b with _ | (_ | _) | _ | _ | _ | _ | _ <;> first | exact .str _ _ | cases h
  | arr items =>
    rcases b with _ | (_ | _) | _ | _ | _ | _ | _ <;> first | exact .arr _ _ | cases h
  | obj fields =>
    rcases b with _ | (_ | _) | _ | _ | _ | _ | _ <;> first | exact .obj _ _ | cases h

/-- What closes an array or an object does not begin another item. -/
theorem closing_ne {c : Char} {first : Bool} {code x rest : List Char} (hc : shapeOf c = 7)
    (hcomma : c ≠ ',') (hcode : ∃ d tail, code ++ x = d :: tail ∧ shapeOf d < 7) :
    c :: rest ≠ separator first ++ (code ++ x) := by
  intro heq
  cases first with
  | false => exact hcomma (List.cons.inj heq).1
  | true =>
    obtain ⟨d, tail, hd, hlt⟩ := hcode
    rw [separator, if_pos rfl, List.nil_append, hd] at heq
    rw [← (List.cons.inj heq).1, hc] at hlt
    exact absurd hlt (Nat.lt_irrefl 7)

theorem closing_ne_item {first : Bool} {j : Json} {rest : List Char} (h : NoFloat j) :
    ']' :: rest ≠ separator first ++ (render floatRepr j ++ x) := by
  obtain ⟨d, tail, hd, -, hlt⟩ := head_render h x
  exact closing_ne (by decide) (by decide) ⟨d, tail, hd, hlt⟩

theorem closing_ne_field {first : Bool} {key : String} {rest : List Char} :
    '}' :: rest ≠ separator first ++ (quote key ++ x) :=
  closing_ne (by decide) (by decide) ⟨'"', _, rfl, by decide⟩

mutual

/-- **A text can be read in one way only.** -/
theorem render_unique {a b : Json} {x y : List Char} (ha : NoFloat a) (hb : NoFloat b)
    (hx : Delimited x) (hy : Delimited y)
    (h : render floatRepr a ++ x = render floatRepr b ++ y) : a = b ∧ x = y := by
  match a, b, sameShape_of_shape ha (shape_eq ha hb h) with
  | _, _, .same j => exact ⟨rfl, List.append_cancel_left h⟩
  | _, _, .int n m =>
    rw [render, render] at h
    obtain ⟨rfl, hxy⟩ := intRepr_unique hx hy h
    exact ⟨rfl, hxy⟩
  | _, _, .str s t =>
    rw [render, render] at h
    obtain ⟨rfl, hxy⟩ := quote_unique h
    exact ⟨rfl, hxy⟩
  | .arr items, .arr others, _ =>
    rw [render, render] at h
    rw [NoFloat] at ha hb
    obtain ⟨heq, hxy⟩ := renderItems_unique ha hb (List.cons.inj h).2
    rw [heq]
    exact ⟨rfl, hxy⟩
  | .obj fields, .obj others, _ =>
    rw [render, render] at h
    rw [NoFloat] at ha hb
    obtain ⟨heq, hxy⟩ := renderFields_unique ha hb (List.cons.inj h).2
    rw [heq]
    exact ⟨rfl, hxy⟩

theorem renderItems_unique {first : Bool} {items others : List Json} {x y : List Char}
    (ha : NoFloatItems items) (hb : NoFloatItems others)
    (h : renderItems floatRepr first items ++ x = renderItems floatRepr first others ++ y) :
    items = others ∧ x = y := by
  match items, others with
  | [], [] => exact ⟨rfl, (List.cons.inj h).2⟩
  | [], other :: others =>
    rw [NoFloatItems] at hb
    rw [renderItems, renderItems, List.append_assoc, List.append_assoc] at h
    exact absurd h (closing_ne_item hb.1)
  | item :: items, [] =>
    rw [NoFloatItems] at ha
    rw [renderItems, renderItems, List.append_assoc, List.append_assoc] at h
    exact absurd h.symm (closing_ne_item ha.1)
  | item :: items, other :: others =>
    rw [NoFloatItems] at ha hb
    rw [renderItems, renderItems, List.append_assoc, List.append_assoc, List.append_assoc,
      List.append_assoc, List.append_cancel_left_eq] at h
    obtain ⟨rfl, hrest⟩ := render_unique ha.1 hb.1 (delimited_renderItems items x)
      (delimited_renderItems others y) h
    obtain ⟨rfl, hxy⟩ := renderItems_unique ha.2 hb.2 hrest
    exact ⟨rfl, hxy⟩

theorem renderFields_unique {first : Bool} {fields others : List (String × Json)} {x y : List Char}
    (ha : NoFloatFields fields) (hb : NoFloatFields others)
    (h : renderFields floatRepr first fields ++ x = renderFields floatRepr first others ++ y) :
    fields = others ∧ x = y := by
  match fields, others with
  | [], [] => exact ⟨rfl, (List.cons.inj h).2⟩
  | [], (key, value) :: others =>
    rw [renderFields, renderFields, List.append_assoc, List.append_assoc] at h
    exact absurd h closing_ne_field
  | (key, value) :: fields, [] =>
    rw [renderFields, renderFields, List.append_assoc, List.append_assoc] at h
    exact absurd h.symm closing_ne_field
  | (key, value) :: fields, (key', value') :: others =>
    rw [NoFloatFields] at ha hb
    rw [renderFields, renderFields, List.append_assoc, List.append_assoc, List.append_assoc,
      List.append_assoc, List.append_cancel_left_eq] at h
    obtain ⟨rfl, hvalue⟩ := quote_unique h
    rw [List.cons_append, List.cons_append, List.append_assoc, List.append_assoc] at hvalue
    obtain ⟨rfl, hrest⟩ := render_unique ha.1 hb.1 (delimited_renderFields fields x)
      (delimited_renderFields others y) (List.cons.inj hvalue).2
    obtain ⟨rfl, hxy⟩ := renderFields_unique ha.2 hb.2 hrest
    exact ⟨rfl, hxy⟩

end

end

/-- Documents with one text are equal. -/
theorem dumps_unique {floatRepr : Option ℚ → List Char} {a b : Json} {text : String}
    (ha : NoFloat a) (hb : NoFloat b) (hatext : dumps floatRepr a = some text)
    (hbtext : dumps floatRepr b = some text) : a = b := by
  rw [dumps, Option.ite_none_right_eq_some] at hatext hbtext
  have hrender : String.ofList (render floatRepr a) = String.ofList (render floatRepr b) :=
    Option.some.inj (hatext.2.trans hbtext.2.symm)
  rw [String.ofList_inj, ← List.append_nil (render floatRepr a),
    ← List.append_nil (render floatRepr b)] at hrender
  have hnil : Delimited [] := fun c hc ↦ by cases hc
  exact (render_unique ha hb hnil hnil hrender).1

/-! ## Sorted keys -/

theorem noFloatFields_iff {fields : List (String × Json)} :
    NoFloatFields fields ↔ ∀ field ∈ fields, NoFloat field.2 := by
  induction fields with
  | nil => simp [NoFloatFields]
  | cons field fields ih => rw [NoFloatFields, ih, List.forall_mem_cons]

mutual

theorem noFloat_sortKeys {j : Json} (h : NoFloat j) : NoFloat j.sortKeys := by
  match j with
  | .null | .bool _ | .int _ | .float _ | .str _ =>
    rw [Json.sortKeys]
    exact h
  | .arr items =>
    rw [NoFloat] at h
    rw [Json.sortKeys, NoFloat]
    exact noFloat_sortItems h
  | .obj fields =>
    rw [NoFloat] at h
    rw [Json.sortKeys, NoFloat]
    exact noFloat_sortFields h

theorem noFloat_sortItems {items : List Json} (h : NoFloatItems items) :
    NoFloatItems (Json.sortItems items) := by
  match items with
  | [] =>
    rw [Json.sortItems]
    exact h
  | item :: items =>
    rw [NoFloatItems] at h
    rw [Json.sortItems, NoFloatItems]
    exact ⟨noFloat_sortKeys h.1, noFloat_sortItems h.2⟩

theorem noFloat_sortFields {fields : List (String × Json)} (h : NoFloatFields fields) :
    NoFloatFields (Json.sortFields fields) := by
  match fields with
  | [] =>
    rw [Json.sortFields]
    exact h
  | (key, value) :: fields =>
    rw [NoFloatFields] at h
    have hrest := noFloatFields_iff.mp (noFloat_sortFields h.2)
    rw [Json.sortFields, noFloatFields_iff]
    intro field hfield
    rcases Json.mem_insertKey.mp hfield with rfl | hfield
    · exact noFloat_sortKeys h.1
    · exact hrest field hfield

end

end JsonText
