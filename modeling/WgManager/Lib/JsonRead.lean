import WgManager.Lib.JsonOrder
import WgManager.Lib.JsonText

/-!
# Reading a JSON text

`loads` reads a text as `json.loads` does, as far as its numbers are integers and its strings are
made of characters: white space may stand around every token, a control character may not stand in a
string, and of two fields with one key the later one counts.  `none` is an error, or a text with a
float or with a surrogate that stands alone.

`layout` writes a document as `json.dumps` does, with any white space after the brackets and the
separators: none of it is the compact form, a line break and two spaces for each level is
`indent=2`.  What is written is read back as the document (`loads_layout`), in whatever layout.
-/

set_option autoImplicit false

namespace JsonText

/-! ## The reader -/

def isWs (c : Char) : Bool := c = ' ' || c = '\t' || c = '\n' || c = '\r'

def skipWs (cs : List Char) : List Char := cs.dropWhile isWs

/-- A text that begins with the escape of a surrogate which is not the first of a pair. -/
def loneSurrogate (cs : List Char) : Bool :=
  match readUnit cs with
  | none => false
  | some (n, rest) =>
    if n / 1024 = 54 then
      match readUnit rest with
      | some (m, _) => m / 1024 ≠ 55
      | none => true
    else n / 1024 = 55

/-- A character of a string: as `readChar` has it, or an escaped slash. -/
def readStrChar : List Char → Option (Char × List Char)
  | '\\' :: '/' :: rest => some ('/', rest)
  | cs => if loneSurrogate cs then none else readChar cs

/-- The rest of a string, up to the closing quote, and what follows. -/
def readChars : ℕ → List Char → Option (List Char × List Char)
  | 0, _ => none
  | _ + 1, [] => none
  | n + 1, c :: cs =>
    if c = '"' then some ([], cs)
    else if c.toNat < 32 then none
    else do
      let (d, rest) ← readStrChar (c :: cs)
      let (ds, rest) ← readChars n rest
      some (d :: ds, rest)

/-- The digits at the front of a text, without a leading zero, a fraction or an exponent. -/
def readNatural (cs : List Char) : Option (ℕ × List Char) :=
  let digits := cs.takeWhile Char.isDigit
  let rest := cs.dropWhile Char.isDigit
  if digits = [] || digits.length > 4300 || (digits.head? = some '0' && digits.length ≠ 1) ||
      rest.head?.any (fun c ↦ c = '.' || c = 'e' || c = 'E') then none
  else (digits.mapM (PyInt.digitValue 10)).map fun ds ↦
    (ds.foldl (fun n d ↦ 10 * n + d) 0, rest)

/-- The number at the front of a text. -/
def readNumber : List Char → Option (ℤ × List Char)
  | '-' :: cs => (readNatural cs).map fun r ↦ (-(r.1 : ℤ), r.2)
  | cs => (readNatural cs).map fun r ↦ ((r.1 : ℤ), r.2)

/-- Add a field to a `dict`: a key that is there already keeps its place and gets the new value. -/
def putField (fields : List (String × Json)) (field : String × Json) : List (String × Json) :=
  if field.1 ∈ fields.map Prod.fst then
    fields.map fun f ↦ if f.1 = field.1 then field else f
  else fields ++ [field]

mutual

/-- The document at the front of a text, and what follows. -/
def readValue : ℕ → List Char → Option (Json × List Char)
  | 0, _ => none
  | n + 1, cs =>
    match cs with
    | 'n' :: 'u' :: 'l' :: 'l' :: rest => some (.null, rest)
    | 't' :: 'r' :: 'u' :: 'e' :: rest => some (.bool true, rest)
    | 'f' :: 'a' :: 'l' :: 's' :: 'e' :: rest => some (.bool false, rest)
    | '"' :: rest => (readChars (rest.length + 1) rest).map fun r ↦ (.str (String.ofList r.1), r.2)
    | '[' :: rest =>
      match skipWs rest with
      | ']' :: rest => some (.arr [], rest)
      | rest => (readItems n rest).map fun r ↦ (.arr r.1, r.2)
    | '{' :: rest =>
      match skipWs rest with
      | '}' :: rest => some (.obj [], rest)
      | rest => (readFields n rest).map fun r ↦ (.obj (r.1.foldl putField []), r.2)
    | cs => (readNumber cs).map fun r ↦ (.int r.1, r.2)

/-- The items of an array, from the first, up to the closing bracket. -/
def readItems : ℕ → List Char → Option (List Json × List Char)
  | 0, _ => none
  | n + 1, cs => do
    let (item, rest) ← readValue n cs
    match skipWs rest with
    | ']' :: rest => some ([item], rest)
    | ',' :: rest =>
      let (items, rest) ← readItems n (skipWs rest)
      some (item :: items, rest)
    | _ => none

/-- The fields of an object, from the first, up to the closing bracket. -/
def readFields : ℕ → List Char → Option (List (String × Json) × List Char)
  | 0, _ => none
  | n + 1, cs =>
    match cs with
    | '"' :: rest => do
      let (key, rest) ← readChars (rest.length + 1) rest
      match skipWs rest with
      | ':' :: rest =>
        let (value, rest) ← readValue n (skipWs rest)
        match skipWs rest with
        | '}' :: rest => some ([(String.ofList key, value)], rest)
        | ',' :: rest =>
          let (fields, rest) ← readFields n (skipWs rest)
          some ((String.ofList key, value) :: fields, rest)
        | _ => none
      | _ => none
    | _ => none

end

/-- `json.loads` of a text without floats. -/
def loads (text : String) : Option Json :=
  let cs := text.toList
  match readValue (cs.length + 1) (skipWs cs) with
  | none => none
  | some (j, rest) => if skipWs rest = [] then some j else none

/-! ## Layouts -/

/-- Where white space goes: `pad level` before an item or a closing bracket at that depth, `colon`
after a colon. -/
structure Layout where
  pad : ℕ → List Char
  colon : List Char
  pad_ws : ∀ level, ∀ c ∈ pad level, isWs c = true
  colon_ws : ∀ c ∈ colon, isWs c = true

/-- `separators=(",", ":")` -/
def Layout.compact : Layout where
  pad _ := []
  colon := []
  pad_ws := by simp
  colon_ws := by simp

/-- `indent=2` -/
def Layout.indented : Layout where
  pad level := '\n' :: List.replicate (2 * level) ' '
  colon := [' ']
  pad_ws level := by simp +contextual [isWs]
  colon_ws := by simp [isWs]

section

variable (floatRepr : Option ℚ → List Char) (l : Layout)

mutual

/-- A document at some depth. -/
def layout (level : ℕ) : Json → List Char
  | .null => ['n', 'u', 'l', 'l']
  | .bool true => ['t', 'r', 'u', 'e']
  | .bool false => ['f', 'a', 'l', 's', 'e']
  | .int n => intRepr n
  | .float value => floatRepr value
  | .str s => quote s
  | .arr [] => ['[', ']']
  | .arr (item :: items) => '[' :: layoutItems level (item :: items)
  | .obj [] => ['{', '}']
  | .obj (field :: fields) => '{' :: layoutFields level (field :: fields)

/-- The items of an array, and what closes it. -/
def layoutItems (level : ℕ) : List Json → List Char
  | [] => []
  | [item] => l.pad (level + 1) ++ layout (level + 1) item ++ l.pad level ++ [']']
  | item :: items =>
    l.pad (level + 1) ++ layout (level + 1) item ++ ',' :: layoutItems level items

/-- The fields of an object, and what closes it. -/
def layoutFields (level : ℕ) : List (String × Json) → List Char
  | [] => []
  | [(key, value)] =>
    l.pad (level + 1) ++ quote key ++ ':' :: (l.colon ++ layout (level + 1) value) ++
      l.pad level ++ ['}']
  | (key, value) :: fields =>
    l.pad (level + 1) ++ quote key ++ ':' :: (l.colon ++ layout (level + 1) value) ++
      ',' :: layoutFields level fields

end

end

/-! ## Filling a `dict` -/

theorem distinctFields_iff {fields : List (String × Json)} :
    Json.DistinctFields fields ↔ ∀ field ∈ fields, Json.DistinctKeys field.2 := by
  induction fields with
  | nil => simp [Json.DistinctFields]
  | cons field fields ih => rw [Json.DistinctFields, ih, List.forall_mem_cons]

theorem putField_ind {P : String × Json → Prop} {fields : List (String × Json)}
    {field : String × Json} (h : ∀ f ∈ fields, P f) (hnew : P field) :
    ∀ f ∈ putField fields field, P f := by
  rw [putField]
  split
  · intro f hf
    obtain ⟨g, hg, rfl⟩ := List.mem_map.mp hf
    split
    · exact hnew
    · exact h g hg
  · intro f hf
    rcases List.mem_append.mp hf with hf | hf
    · exact h f hf
    · rw [List.mem_singleton.mp hf]
      exact hnew

theorem nodup_putField {fields : List (String × Json)} (field : String × Json)
    (h : (fields.map Prod.fst).Nodup) : ((putField fields field).map Prod.fst).Nodup := by
  rw [putField]
  split
  · have hkeys : (fields.map fun f ↦ if f.1 = field.1 then field else f).map Prod.fst =
        fields.map Prod.fst := by
      rw [List.map_map]
      refine List.map_congr_left fun f _ ↦ ?_
      by_cases hf : f.1 = field.1 <;> simp [hf]
    rw [hkeys]
    exact h
  · next hnew =>
    rw [List.map_append, List.map_singleton, List.nodup_append]
    refine ⟨h, List.nodup_singleton _, ?_⟩
    rintro a ha b hb rfl
    rw [List.mem_singleton.mp hb] at ha
    exact hnew ha

/-- A `dict` that is filled up with fields keeps its keys different, and what all its fields
satisfy. -/
theorem foldl_putField {P : String × Json → Prop} {fields : List (String × Json)}
    (start : List (String × Json)) (hstart : (start.map Prod.fst).Nodup ∧ ∀ f ∈ start, P f)
    (hfields : ∀ f ∈ fields, P f) : ((fields.foldl putField start).map Prod.fst).Nodup ∧
      ∀ f ∈ fields.foldl putField start, P f := by
  induction fields generalizing start with
  | nil => exact hstart
  | cons field fields ih =>
    rw [List.forall_mem_cons] at hfields
    exact ih _ ⟨nodup_putField field hstart.1, putField_ind hstart.2 hfields.1⟩ hfields.2

/-- Fields with new keys are added at the end. -/
theorem foldl_putField_append {front rest : List (String × Json)}
    (h : ((front ++ rest).map Prod.fst).Nodup) : rest.foldl putField front = front ++ rest := by
  induction rest generalizing front with
  | nil => simp
  | cons field rest ih =>
    have hnew : field.1 ∉ front.map Prod.fst := by
      rw [List.map_append, List.map_cons, List.nodup_append] at h
      exact fun hmem ↦ h.2.2 _ hmem _ List.mem_cons_self rfl
    rw [List.foldl_cons, putField, if_neg hnew, ih (by simpa using h)]
    simp

theorem putField_fields {fields : List (String × Json)} (h : (fields.map Prod.fst).Nodup) :
    fields.foldl putField [] = fields := foldl_putField_append h

/-! ## Strings and numbers are read back -/

theorem readUnit_of_ne {c : Char} (h : c ≠ '\\') (cs : List Char) : readUnit (c :: cs) = none := by
  rw [readUnit]
  intro _ _ _ _ _ heq
  simp [h] at heq

theorem loneSurrogate_escapeChar (c : Char) (rest : List Char) :
    loneSurrogate (escapeChar c ++ rest) = false := by
  have hvalid : c.toNat < 0xd800 ∨ 0xdfff < c.toNat ∧ c.toNat < 0x110000 := c.valid
  rw [escapeChar]
  cases hshort : shortEscapes.lookup c with
  | some letter =>
    have hmem : (c, letter) ∈ shortEscapes := by
      obtain ⟨front, back, heq, -⟩ := List.lookup_eq_some_iff.mp hshort
      exact heq ▸ List.mem_append_right _ List.mem_cons_self
    simp only [shortEscapes, List.mem_cons, Prod.mk.injEq, List.not_mem_nil, or_false] at hmem
    rcases hmem with ⟨rfl, rfl⟩ | ⟨rfl, rfl⟩ | ⟨rfl, rfl⟩ | ⟨rfl, rfl⟩ | ⟨rfl, rfl⟩ | ⟨rfl, rfl⟩ |
      ⟨rfl, rfl⟩ <;> rfl
  | none =>
    dsimp only
    have hne : c ≠ '\\' := by
      rintro rfl
      cases hshort
    split
    · rw [loneSurrogate, List.singleton_append, readUnit_of_ne hne]
    · split
      · next hbasic =>
        rw [loneSurrogate, readUnit_escapeUnit hbasic]
        have h54 : c.toNat / 1024 ≠ 54 := by omega
        have h55 : c.toNat / 1024 ≠ 55 := by omega
        simp [h54, h55]
      · have h54 : (0xd800 + (c.toNat - 0x10000) / 1024) / 1024 = 54 := by omega
        have h55 : (0xdc00 + (c.toNat - 0x10000) % 1024) / 1024 = 55 := by omega
        rw [loneSurrogate, List.append_assoc, readUnit_escapeUnit (by omega)]
        dsimp only
        rw [if_pos h54, readUnit_escapeUnit (by omega)]
        simp [h55]

/-- What an escaped character begins with is no quote, no control character, and no escaped
slash. -/
theorem head_escapeChar_plain (c : Char) (rest : List Char) :
    ∃ d cs, escapeChar c ++ rest = d :: cs ∧ d ≠ '"' ∧ ¬d.toNat < 32 ∧
      ∀ cs', d :: cs ≠ '\\' :: '/' :: cs' := by
  rw [escapeChar]
  cases hshort : shortEscapes.lookup c with
  | some letter =>
    have hmem : (c, letter) ∈ shortEscapes := by
      obtain ⟨front, back, heq, -⟩ := List.lookup_eq_some_iff.mp hshort
      exact heq ▸ List.mem_append_right _ List.mem_cons_self
    have hletter : letter ≠ '/' := by
      rintro rfl
      simp [shortEscapes] at hmem
    exact ⟨'\\', _, rfl, by decide, by decide, fun cs' h ↦ by simp [hletter] at h⟩
  | none =>
    have hquote : c ≠ '"' := by
      rintro rfl
      cases hshort
    have hne : c ≠ '\\' := by
      rintro rfl
      cases hshort
    dsimp only
    split
    · next hprintable =>
      exact ⟨c, _, rfl, hquote, by omega, fun cs' h ↦ by simp [hne] at h⟩
    · split
      · exact ⟨'\\', _, rfl, by decide, by decide, fun cs' h ↦ by simp at h⟩
      · exact ⟨'\\', _, rfl, by decide, by decide, fun cs' h ↦ by simp at h⟩

theorem readStrChar_escapeChar (c : Char) (rest : List Char) :
    readStrChar (escapeChar c ++ rest) = some (c, rest) := by
  obtain ⟨d, cs, heq, -, -, hslash⟩ := head_escapeChar_plain c rest
  have hlone := loneSurrogate_escapeChar c rest
  have hread := readChar_escapeChar c rest
  rw [heq] at hlone hread ⊢
  rw [readStrChar]
  · rw [if_neg (by simp [hlone]), hread]
  · intro cs' h
    exact hslash cs' h

/-- A string is read up to the quote that closes it. -/
theorem readChars_escapes {cs : List Char} {n : ℕ} (hn : cs.length < n) (rest : List Char) :
    readChars n (cs.flatMap escapeChar ++ '"' :: rest) = some (cs, rest) := by
  induction cs generalizing n with
  | nil =>
    obtain ⟨n, rfl⟩ := Nat.exists_eq_succ_of_ne_zero (by omega : n ≠ 0)
    simp [readChars]
  | cons c cs ih =>
    obtain ⟨n, rfl⟩ := Nat.exists_eq_succ_of_ne_zero (by omega : n ≠ 0)
    have hlt : cs.length < n := by simpa using hn
    rw [List.flatMap_cons, List.append_assoc]
    obtain ⟨d, ds, heq, hquote, hcontrol, -⟩ :=
      head_escapeChar_plain c (cs.flatMap escapeChar ++ '"' :: rest)
    have hread := readStrChar_escapeChar c (cs.flatMap escapeChar ++ '"' :: rest)
    rw [heq] at hread ⊢
    rw [readChars, if_neg hquote, if_neg hcontrol, hread, Option.bind_eq_bind, Option.bind_some]
    simp [ih hlt]

theorem length_le_escapes (cs : List Char) : cs.length ≤ (cs.flatMap escapeChar).length := by
  induction cs with
  | nil => exact Nat.zero_le _
  | cons c cs ih =>
    obtain ⟨d, rest, heq, -⟩ := head_escapeChar c
    rw [List.flatMap_cons, List.length_append, List.length_cons, heq, List.length_cons]
    omega

/-- What may follow a document: white space, a separator, or the end. -/
def Ends (x : List Char) : Prop :=
  ∀ c ∈ x.head?, isWs c = true ∨ c = ',' ∨ c = ']' ∨ c = '}'

theorem ends_of_ws {w : List Char} {c : Char} (hw : ∀ c ∈ w, isWs c = true)
    (hc : c = ',' ∨ c = ']' ∨ c = '}') (x : List Char) : Ends (w ++ c :: x) := by
  cases w with
  | nil => simp [Ends, hc]
  | cons d w => simp [Ends, hw d List.mem_cons_self]

theorem Ends.not_number {x : List Char} (h : Ends x) :
    ∀ c ∈ x.head?, c.isDigit = false ∧ c ≠ '.' ∧ c ≠ 'e' ∧ c ≠ 'E' := by
  intro c hc
  rcases h c hc with hws | rfl | rfl | rfl
  · simp only [isWs, Bool.or_eq_true, decide_eq_true_eq] at hws
    rcases hws with ((rfl | rfl) | rfl) | rfl <;> decide
  · decide
  · decide
  · decide

/-- A positive number has no leading zero. -/
theorem head_toDigits_ne_zero {n : ℕ} (hn : 0 < n) : (Nat.toDigits 10 n).head? ≠ some '0' := by
  induction n using Nat.strongRecOn with
  | ind n ih =>
    rcases Nat.lt_or_ge n 10 with hlt | hge
    · have hall : ∀ d < 10, 0 < d → d.digitChar ≠ '0' := by decide
      rw [Nat.toDigits_of_lt_base hlt, List.head?_cons, ne_eq, Option.some_inj]
      exact hall n hlt hn
    · have hdiv := ih (n / 10) (Nat.div_lt_self hn (by decide)) (by omega)
      have hne : Nat.toDigits 10 (n / 10) ≠ [] := Nat.toDigits_ne_nil
      obtain ⟨c, cs, hcs⟩ := List.exists_cons_of_ne_nil hne
      rw [Nat.toDigits_of_base_le (by decide) hge, hcs]
      rw [hcs] at hdiv
      simpa using hdiv

theorem readNatural_toDigits {n : ℕ} (hn : (Nat.toDigits 10 n).length ≤ 4300) {x : List Char}
    (hx : Ends x) : readNatural (Nat.toDigits 10 n ++ x) = some (n, x) := by
  have hdigits : ∀ c ∈ Nat.toDigits 10 n, c.isDigit = true :=
    fun c hc ↦ isDigit_of_mem_toDigits hc
  have htake : (Nat.toDigits 10 n ++ x).takeWhile Char.isDigit = Nat.toDigits 10 n := by
    rw [List.takeWhile_append_of_pos hdigits]
    cases x with
    | nil => simp
    | cons c x =>
      rw [List.takeWhile_cons_of_neg (by simp [(hx.not_number c rfl).1]), List.append_nil]
  have hdrop : (Nat.toDigits 10 n ++ x).dropWhile Char.isDigit = x := by
    rw [List.dropWhile_append_of_pos hdigits]
    cases x with
    | nil => simp
    | cons c x => rw [List.dropWhile_cons_of_neg (by simp [(hx.not_number c rfl).1])]
  have hzero : (Nat.toDigits 10 n).head? = some '0' → (Nat.toDigits 10 n).length = 1 := by
    intro hhead
    rcases Nat.eq_zero_or_pos n with rfl | hpos
    · rfl
    · exact absurd hhead (head_toDigits_ne_zero hpos)
  have hrest : x.head?.any (fun c ↦ c = '.' || c = 'e' || c = 'E') = false := by
    cases x with
    | nil => rfl
    | cons c x => simp [(hx.not_number c rfl).2]
  obtain ⟨ds, hds, hlt, hvalue⟩ := PyInt.exists_digits (by decide : 1 < 10) n
  have hmap : (Nat.toDigits 10 n).mapM (PyInt.digitValue 10) = some ds := by
    rw [hds]
    exact PyInt.mapM_digitChar (.inl rfl) hlt
  rw [readNatural, htake, hdrop, if_neg, hmap, Option.map_some, hvalue]
  simpa [Nat.toDigits_ne_nil, hrest, hn] using hzero

theorem readNumber_intRepr {n : ℤ} (hn : (Nat.toDigits 10 n.natAbs).length ≤ 4300)
    {x : List Char} (hx : Ends x) : readNumber (intRepr n ++ x) = some (n, x) := by
  cases n with
  | ofNat n =>
    obtain ⟨c, rest, heq, hc⟩ := head_toDigits n x
    have hread : readNatural (Nat.toDigits 10 n ++ x) = some (n, x) := readNatural_toDigits hn hx
    rw [intRepr, heq]
    rw [heq] at hread
    have hne : c ≠ '-' := by
      rintro rfl
      cases hc
    rw [readNumber, hread]
    · simp
    · intro cs h
      exact hne (List.cons.inj h).1
  | negSucc n =>
    have hread : readNatural (Nat.toDigits 10 (n + 1) ++ x) = some (n + 1, x) :=
      readNatural_toDigits hn hx
    rw [intRepr, List.cons_append, readNumber, hread]
    simp [Int.negSucc_eq]

/-! ## Documents are read back -/

theorem skipWs_append {w : List Char} (hw : ∀ c ∈ w, isWs c = true) (x : List Char) :
    skipWs (w ++ x) = skipWs x := by
  rw [skipWs, List.dropWhile_append_of_pos hw, skipWs]

theorem skipWs_cons {c : Char} (hc : isWs c = false) (x : List Char) :
    skipWs (c :: x) = c :: x := List.dropWhile_cons_of_neg (by simp [hc])

/-- What stands where a document may begin. -/
def Starts (x : List Char) : Prop := ∃ c cs, x = c :: cs ∧ isWs c = false ∧ c ≠ ']' ∧ c ≠ '}'

section

variable (floatRepr : Option ℚ → List Char) (l : Layout)

theorem layoutItems_cons_cons (level : ℕ) (item other : Json) (items : List Json) :
    layoutItems floatRepr l level (item :: other :: items) = l.pad (level + 1) ++
      layout floatRepr l (level + 1) item ++ ',' ::
        layoutItems floatRepr l level (other :: items) := by
  rw [layoutItems]
  simp

theorem layoutFields_cons_cons (level : ℕ) (key : String) (value : Json) (other : String × Json)
    (fields : List (String × Json)) :
    layoutFields floatRepr l level ((key, value) :: other :: fields) =
      l.pad (level + 1) ++ quote key ++ ':' :: (l.colon ++ layout floatRepr l (level + 1) value) ++
        ',' :: layoutFields floatRepr l level (other :: fields) := by
  rw [layoutFields]
  simp

theorem starts_layout (level : ℕ) {j : Json} (h : NoFloat j) (x : List Char) :
    Starts (layout floatRepr l level j ++ x) := by
  cases j with
  | null => exact ⟨_, _, rfl, by decide⟩
  | bool b => cases b <;> exact ⟨_, _, rfl, by decide⟩
  | int n =>
    rw [layout]
    cases n with
    | ofNat n =>
      obtain ⟨c, rest, heq, hc⟩ := head_toDigits n x
      refine ⟨c, rest, heq, ?_, ?_, ?_⟩
      · by_contra hws
        simp only [isWs, Bool.not_eq_false, Bool.or_eq_true, decide_eq_true_eq] at hws
        rcases hws with ((rfl | rfl) | rfl) | rfl <;> cases hc
      · rintro rfl
        cases hc
      · rintro rfl
        cases hc
    | negSucc n => exact ⟨_, _, rfl, by decide⟩
  | float value => rw [NoFloat] at h; exact h.elim
  | str s => exact ⟨_, _, rfl, by decide⟩
  | arr items => cases items <;> exact ⟨_, _, rfl, by decide⟩
  | obj fields => cases fields <;> exact ⟨_, _, rfl, by decide⟩

theorem skipWs_layout (level : ℕ) {j : Json} (h : NoFloat j) (x : List Char) :
    skipWs (layout floatRepr l level j ++ x) = layout floatRepr l level j ++ x := by
  obtain ⟨c, cs, heq, hc, -⟩ := starts_layout floatRepr l level h x
  rw [heq, skipWs_cons hc]

/-- The front of the items, without the white space before it. -/
theorem starts_layoutItems (level : ℕ) {item : Json} (h : NoFloat item) (items : List Json)
    (x : List Char) : Starts (skipWs (layoutItems floatRepr l level (item :: items) ++ x)) := by
  cases items with
  | nil =>
    rw [layoutItems, List.append_assoc, List.append_assoc, List.append_assoc,
      skipWs_append (l.pad_ws _), skipWs_layout floatRepr l _ h]
    exact starts_layout floatRepr l _ h _
  | cons other items =>
    rw [layoutItems_cons_cons, List.append_assoc, List.append_assoc, skipWs_append (l.pad_ws _),
      skipWs_layout floatRepr l _ h]
    exact starts_layout floatRepr l _ h _

theorem skipWs_quote (s : String) (x : List Char) : skipWs (quote s ++ x) = quote s ++ x :=
  skipWs_cons (by decide) _

theorem starts_layoutFields (level : ℕ) (key : String) (value : Json)
    (fields : List (String × Json)) (x : List Char) :
    Starts (skipWs (layoutFields floatRepr l level ((key, value) :: fields) ++ x)) := by
  have hquote : ∀ y, Starts (skipWs (quote key ++ y)) :=
    fun y ↦ ⟨'"', _, skipWs_quote key y, by decide⟩
  cases fields with
  | nil =>
    rw [layoutFields]
    simp only [List.append_assoc]
    rw [skipWs_append (l.pad_ws _)]
    exact hquote _
  | cons field fields =>
    rw [layoutFields_cons_cons]
    simp only [List.append_assoc]
    rw [skipWs_append (l.pad_ws _)]
    exact hquote _

/-- The string at the front of a text. -/
theorem readChars_quote {cs : List Char} (rest : List Char) :
    readChars ((cs.flatMap escapeChar ++ '"' :: rest).length + 1)
      (cs.flatMap escapeChar ++ '"' :: rest) = some (cs, rest) := by
  refine readChars_escapes ?_ rest
  have := length_le_escapes cs
  rw [List.length_append]
  omega

/-- A digit or a sign begins a number. -/
theorem readValue_number {n : ℕ} {c : Char} (hc : c = '-' ∨ c.isDigit = true) (rest : List Char) :
    readValue (n + 1) (c :: rest) =
      (readNumber (c :: rest)).map fun r ↦ (.int r.1, r.2) := by
  have hne : ∀ d ∈ ['n', 't', 'f', '"', '[', '{'], c ≠ d := by
    rintro d hd rfl
    rcases hc with rfl | hc
    · simp at hd
    · simp only [List.mem_cons, List.not_mem_nil, or_false] at hd
      rcases hd with rfl | rfl | rfl | rfl | rfl | rfl <;> cases hc
  simp only [List.forall_mem_cons, List.not_mem_nil, false_implies, implies_true, and_true] at hne
  rw [readValue] <;> simp [hne]

theorem readValue_quote (n : ℕ) (s : String) (x : List Char) :
    readValue (n + 1) (quote s ++ x) = some (.str s, x) := by
  rw [quote, List.cons_append, List.append_assoc, List.singleton_append, readValue, readChars_quote,
    Option.map_some, String.ofList_toList]

/-- An array that is not empty. -/
theorem readValue_items {n : ℕ} {cs rest : List Char} {items : List Json}
    (hstart : Starts (skipWs cs)) (h : readItems n (skipWs cs) = some (items, rest)) :
    readValue (n + 1) ('[' :: cs) = some (.arr items, rest) := by
  obtain ⟨c, ds, heq, -, hne, -⟩ := hstart
  rw [readValue]
  rw [heq] at h ⊢
  split
  · next h' => exact absurd (List.cons.inj h').1 hne
  · rw [h, Option.map_some]

/-- An object that is not empty. -/
theorem readValue_fields {n : ℕ} {cs rest : List Char} {fields : List (String × Json)}
    (hstart : Starts (skipWs cs)) (h : readFields n (skipWs cs) = some (fields, rest)) :
    readValue (n + 1) ('{' :: cs) = some (.obj (fields.foldl putField []), rest) := by
  obtain ⟨c, ds, heq, -, -, hne⟩ := hstart
  rw [readValue]
  rw [heq] at h ⊢
  split
  · next h' => exact absurd (List.cons.inj h').1 hne
  · rw [h, Option.map_some]

/-- One item, and the bracket behind it. -/
theorem readItems_last {n : ℕ} {cs w rest : List Char} {item : Json} (hw : ∀ c ∈ w, isWs c = true)
    (h : readValue n cs = some (item, w ++ ']' :: rest)) :
    readItems (n + 1) cs = some ([item], rest) := by
  simp only [readItems, h, Option.bind_eq_bind, Option.bind_some, skipWs_append hw,
    skipWs_cons (by decide : isWs ']' = false)]

/-- One item, and more of them behind a comma. -/
theorem readItems_cons {n : ℕ} {cs ds rest : List Char} {item : Json} {items : List Json}
    (h : readValue n cs = some (item, ',' :: ds)) (hrest : readItems n (skipWs ds) =
      some (items, rest)) : readItems (n + 1) cs = some (item :: items, rest) := by
  simp only [readItems, h, Option.bind_eq_bind, Option.bind_some, hrest,
    skipWs_cons (by decide : isWs ',' = false)]

/-- A key, and a field's value behind a colon. -/
theorem readFields_key {n : ℕ} {key : String} {value : Json} {w cs rest : List Char}
    (hw : ∀ c ∈ w, isWs c = true) (hcs : skipWs cs = cs)
    (h : readValue n cs = some (value, rest)) :
    readFields (n + 1) (quote key ++ ':' :: (w ++ cs)) =
      match skipWs rest with
      | '}' :: rest => some ([(key, value)], rest)
      | ',' :: rest => do
        let (fields, rest) ← readFields n (skipWs rest)
        some ((key, value) :: fields, rest)
      | _ => none := by
  rw [quote, List.cons_append, List.append_assoc, List.singleton_append, readFields,
    readChars_quote]
  simp only [Option.bind_eq_bind, Option.bind_some, skipWs_cons (by decide : isWs ':' = false),
    skipWs_append hw, hcs, h, String.ofList_toList]

mutual

/-- **What is written is read back**, with what follows it. -/
theorem readValue_layout (level : ℕ) {j : Json} (hf : NoFloat j) (hd : Json.DistinctKeys j)
    (hw : writable j = true) {n : ℕ} {x : List Char} (hx : Ends x)
    (hn : (layout floatRepr l level j).length < n) :
    readValue n (layout floatRepr l level j ++ x) = some (j, x) := by
  obtain ⟨n, rfl⟩ := Nat.exists_eq_succ_of_ne_zero (by omega : n ≠ 0)
  match j with
  | .null => rfl
  | .bool true => rfl
  | .bool false => rfl
  | .int k =>
    have hread := readNumber_intRepr (by simpa [writable] using hw) hx
    have hhead : ∃ c rest, intRepr k ++ x = c :: rest ∧ (c = '-' ∨ c.isDigit = true) := by
      cases k with
      | ofNat k =>
        obtain ⟨c, rest, heq, hc⟩ := head_toDigits k x
        exact ⟨c, rest, heq, .inr hc⟩
      | negSucc k => exact ⟨'-', _, rfl, .inl rfl⟩
    obtain ⟨c, rest, heq, hc⟩ := hhead
    rw [layout, heq, readValue_number hc, ← heq, hread, Option.map_some]
  | .str s =>
    rw [layout]
    exact readValue_quote n s x
  | .arr [] => rfl
  | .arr (item :: items) =>
    rw [NoFloat] at hf
    rw [Json.DistinctKeys] at hd
    rw [writable] at hw
    rw [layout, List.length_cons] at hn
    rw [layout, List.cons_append]
    have hitem : NoFloat item := by
      rw [NoFloatItems] at hf
      exact hf.1
    exact readValue_items (starts_layoutItems floatRepr l level hitem items x)
      (readItems_layout level (by simp) hf hd hw (by omega))
  | .obj [] => rfl
  | .obj ((key, value) :: fields) =>
    rw [NoFloat] at hf
    rw [Json.DistinctKeys] at hd
    rw [writable] at hw
    rw [layout, List.length_cons] at hn
    rw [layout, List.cons_append]
    rw [readValue_fields (starts_layoutFields floatRepr l level key value fields x)
      (readFields_layout level (by simp) hf hd.2 hw (by omega)), putField_fields hd.1]

theorem readItems_layout (level : ℕ) {items : List Json} (hne : items ≠ [])
    (hf : NoFloatItems items) (hd : Json.DistinctItems items) (hw : writableItems items = true)
    {n : ℕ} {x : List Char} (hn : (layoutItems floatRepr l level items).length < n) :
    readItems n (skipWs (layoutItems floatRepr l level items ++ x)) = some (items, x) := by
  obtain ⟨n, rfl⟩ := Nat.exists_eq_succ_of_ne_zero (by omega : n ≠ 0)
  match items with
  | [] => exact absurd rfl hne
  | [item] =>
    rw [NoFloatItems] at hf
    rw [Json.DistinctItems] at hd
    rw [writableItems, Bool.and_eq_true] at hw
    rw [layoutItems, List.length_append, List.length_append, List.length_append] at hn
    rw [layoutItems, List.append_assoc, List.append_assoc, List.append_assoc,
      skipWs_append (l.pad_ws _), skipWs_layout floatRepr l _ hf.1]
    refine readItems_last (l.pad_ws level) (readValue_layout (level + 1) hf.1 hd.1 hw.1 ?_ ?_)
    · exact ends_of_ws (l.pad_ws level) (by simp) x
    · simp only [List.length_singleton] at hn
      omega
  | item :: other :: items =>
    rw [NoFloatItems] at hf
    rw [Json.DistinctItems] at hd
    rw [writableItems, Bool.and_eq_true] at hw
    rw [layoutItems_cons_cons, List.length_append, List.length_append, List.length_cons] at hn
    rw [layoutItems_cons_cons, List.append_assoc, List.append_assoc, skipWs_append (l.pad_ws _),
      skipWs_layout floatRepr l _ hf.1]
    refine readItems_cons (readValue_layout (level + 1) hf.1 hd.1 hw.1 ?_ ?_)
      (readItems_layout level (by simp) hf.2 hd.2 hw.2 ?_)
    · simp [Ends]
    · omega
    · omega

theorem readFields_layout (level : ℕ) {fields : List (String × Json)} (hne : fields ≠ [])
    (hf : NoFloatFields fields) (hd : Json.DistinctFields fields)
    (hw : writableFields fields = true) {n : ℕ} {x : List Char}
    (hn : (layoutFields floatRepr l level fields).length < n) :
    readFields n (skipWs (layoutFields floatRepr l level fields ++ x)) = some (fields, x) := by
  obtain ⟨n, rfl⟩ := Nat.exists_eq_succ_of_ne_zero (by omega : n ≠ 0)
  match fields with
  | [] => exact absurd rfl hne
  | [(key, value)] =>
    rw [NoFloatFields] at hf
    rw [Json.DistinctFields] at hd
    rw [writableFields, Bool.and_eq_true] at hw
    rw [layoutFields] at hn ⊢
    simp only [List.length_append, List.length_cons, List.append_assoc, List.cons_append,
      List.nil_append] at hn ⊢
    have hvalue := readValue_layout (level + 1) hf.1 hd.1 hw.1
      (ends_of_ws (l.pad_ws level) (.inr (.inr rfl)) x) (by omega : _ < n)
    rw [skipWs_append (l.pad_ws _), skipWs_quote, Nat.succ_eq_add_one,
      readFields_key l.colon_ws (skipWs_layout floatRepr l _ hf.1 _) hvalue]
    simp only [skipWs_append (l.pad_ws level), skipWs_cons (by decide : isWs '}' = false)]
  | (key, value) :: other :: fields =>
    rw [NoFloatFields] at hf
    rw [Json.DistinctFields] at hd
    rw [writableFields, Bool.and_eq_true] at hw
    rw [layoutFields_cons_cons] at hn ⊢
    simp only [List.length_append, List.length_cons, List.append_assoc, List.cons_append] at hn ⊢
    have hends : Ends (',' :: (layoutFields floatRepr l level (other :: fields) ++ x)) := by
      simp [Ends]
    have hvalue := readValue_layout (level + 1) hf.1 hd.1 hw.1 hends (by omega : _ < n)
    have hrest := readFields_layout level (by simp) hf.2 hd.2 hw.2 (by omega : _ < n) (x := x)
    rw [skipWs_append (l.pad_ws _), skipWs_quote, Nat.succ_eq_add_one,
      readFields_key l.colon_ws (skipWs_layout floatRepr l _ hf.1 _) hvalue]
    simp only [skipWs_cons (by decide : isWs ',' = false), hrest, Option.bind_eq_bind,
      Option.bind_some]

end

/-- A document is read back from its text, whatever the layout. -/
theorem loads_layout {j : Json} (hf : NoFloat j) (hd : Json.DistinctKeys j)
    (hw : writable j = true) : loads (String.ofList (layout floatRepr l 0 j)) = some j := by
  have hread := readValue_layout floatRepr l 0 hf hd hw (x := []) (by simp [Ends])
    (Nat.lt_succ_self (layout floatRepr l 0 j).length)
  have hskip := skipWs_layout floatRepr l 0 hf []
  rw [List.append_nil] at hread hskip
  rw [loads, String.toList_ofList, hskip, hread]
  simp [skipWs]

/-! ## The compact form -/

mutual

theorem layout_compact (level : ℕ) (j : Json) :
    layout floatRepr .compact level j = render floatRepr j := by
  match j with
  | .null | .int _ | .float _ | .str _ => rw [layout, render]
  | .bool true => rw [layout, render]
  | .bool false => rw [layout, render]
  | .arr [] => rw [layout, render, renderItems]
  | .arr (item :: items) =>
    rw [layout, render, layoutItems_compact level (by simp)]
  | .obj [] => rw [layout, render, renderFields]
  | .obj (field :: fields) =>
    rw [layout, render, layoutFields_compact level (by simp)]

theorem layoutItems_compact (level : ℕ) {items : List Json} (hne : items ≠ []) :
    layoutItems floatRepr .compact level items = renderItems floatRepr true items := by
  match items with
  | [] => exact absurd rfl hne
  | [item] =>
    rw [layoutItems, renderItems, renderItems, layout_compact (level + 1) item]
    simp [Layout.compact, separator]
  | item :: other :: items =>
    rw [layoutItems_cons_cons, layout_compact (level + 1) item,
      layoutItems_compact level (by simp), renderItems, renderItems, renderItems]
    simp [Layout.compact, separator]

theorem layoutFields_compact (level : ℕ) {fields : List (String × Json)} (hne : fields ≠ []) :
    layoutFields floatRepr .compact level fields = renderFields floatRepr true fields := by
  match fields with
  | [] => exact absurd rfl hne
  | [(key, value)] =>
    rw [layoutFields, renderFields, renderFields, layout_compact (level + 1) value]
    simp [Layout.compact, separator]
  | (key, value) :: (key', value') :: fields =>
    rw [layoutFields_cons_cons, layout_compact (level + 1) value,
      layoutFields_compact level (by simp), renderFields, renderFields, renderFields]
    simp [Layout.compact, separator]

end

/-- What `dumps` writes is read back. -/
theorem loads_dumps {j : Json} {text : String} (hf : NoFloat j) (hd : Json.DistinctKeys j)
    (h : dumps floatRepr j = some text) : loads text = some j := by
  rw [dumps, Option.ite_none_right_eq_some, Option.some.injEq] at h
  obtain ⟨hw, rfl⟩ := h
  rw [← layout_compact floatRepr 0 j]
  exact loads_layout floatRepr .compact hf hd hw

/-! ## What characters a text is made of -/

def Printable (c : Char) : Prop := 32 ≤ c.toNat ∧ c.toNat ≤ 126

instance (c : Char) : Decidable (Printable c) := inferInstanceAs (Decidable (_ ∧ _))

theorem printable_of_all {cs : List Char} (h : cs.all (Printable ·) = true) :
    ∀ c ∈ cs, Printable c := by
  simpa using h

theorem printable_escapeUnit {n : ℕ} {c : Char} (h : c ∈ escapeUnit n) : Printable c := by
  have hall : ∀ d < 16, Printable d.digitChar := by decide
  simp only [escapeUnit, List.mem_cons, List.not_mem_nil, or_false] at h
  rcases h with rfl | rfl | rfl | rfl | rfl | rfl
  · decide
  · decide
  all_goals exact hall _ (Nat.mod_lt _ (by decide))

theorem printable_escapeChar {d c : Char} (h : c ∈ escapeChar d) : Printable c := by
  rw [escapeChar] at h
  cases hshort : shortEscapes.lookup d with
  | some letter =>
    have hmem : (d, letter) ∈ shortEscapes := by
      obtain ⟨front, back, heq, -⟩ := List.lookup_eq_some_iff.mp hshort
      exact heq ▸ List.mem_append_right _ List.mem_cons_self
    have hall : ∀ e ∈ shortEscapes, Printable e.2 := by decide
    simp only [hshort, List.mem_cons, List.not_mem_nil, or_false] at h
    rcases h with rfl | rfl
    · decide
    · exact hall _ hmem
  | none =>
    simp only [hshort] at h
    split at h
    · next hprintable =>
      rw [List.mem_singleton.mp h]
      exact hprintable
    · split at h
      · exact printable_escapeUnit h
      · rcases List.mem_append.mp h with h | h <;> exact printable_escapeUnit h

theorem printable_quote {s : String} {c : Char} (h : c ∈ quote s) : Printable c := by
  simp only [quote, List.mem_cons, List.mem_append, List.mem_flatMap, List.not_mem_nil,
    or_false] at h
  rcases h with rfl | ⟨d, -, hd⟩ | rfl
  · decide
  · exact printable_escapeChar hd
  · decide

theorem printable_of_isDigit {c : Char} (h : c.isDigit = true) : Printable c := by
  simp only [Char.isDigit, Bool.and_eq_true, decide_eq_true_eq] at h
  have h48 : 48 ≤ c.toNat := h.1
  have h57 : c.toNat ≤ 57 := h.2
  exact ⟨by omega, by omega⟩

theorem printable_intRepr {n : ℤ} {c : Char} (h : c ∈ intRepr n) : Printable c := by
  cases n with
  | ofNat n => exact printable_of_isDigit (isDigit_of_mem_toDigits h)
  | negSucc n =>
    rcases List.mem_cons.mp h with rfl | h
    · decide
    · exact printable_of_isDigit (isDigit_of_mem_toDigits h)

mutual

/-- **A compact text is one line of printable ASCII.** -/
theorem printable_render {j : Json} (hf : NoFloat j) : ∀ c ∈ render floatRepr j, Printable c := by
  match j with
  | .null => rw [render]; exact printable_of_all (by decide)
  | .bool true => rw [render]; exact printable_of_all (by decide)
  | .bool false => rw [render]; exact printable_of_all (by decide)
  | .int n => rw [render]; exact fun c hc ↦ printable_intRepr hc
  | .float value => rw [NoFloat] at hf; exact hf.elim
  | .str s => rw [render]; exact fun c hc ↦ printable_quote hc
  | .arr items =>
    rw [NoFloat] at hf
    rw [render, List.forall_mem_cons]
    exact ⟨by decide, printable_renderItems hf⟩
  | .obj fields =>
    rw [NoFloat] at hf
    rw [render, List.forall_mem_cons]
    exact ⟨by decide, printable_renderFields hf⟩

theorem printable_renderItems {first : Bool} {items : List Json} (hf : NoFloatItems items) :
    ∀ c ∈ renderItems floatRepr first items, Printable c := by
  match items with
  | [] => rw [renderItems]; exact printable_of_all (by decide)
  | item :: items =>
    rw [NoFloatItems] at hf
    rw [renderItems, List.forall_mem_append, List.forall_mem_append]
    exact ⟨printable_of_all (by cases first <;> decide), printable_render hf.1,
      printable_renderItems hf.2⟩

theorem printable_renderFields {first : Bool} {fields : List (String × Json)}
    (hf : NoFloatFields fields) : ∀ c ∈ renderFields floatRepr first fields, Printable c := by
  match fields with
  | [] => rw [renderFields]; exact printable_of_all (by decide)
  | (key, value) :: fields =>
    rw [NoFloatFields] at hf
    rw [renderFields, List.forall_mem_append, List.forall_mem_append, List.forall_mem_cons,
      List.forall_mem_append]
    exact ⟨printable_of_all (by cases first <;> decide), fun c hc ↦ printable_quote hc, by decide,
      printable_render hf.1, printable_renderFields hf.2⟩

end

end

/-! ## Sorted documents -/

/-- A document that is written and read back. -/
structure Readable (j : Json) : Prop where
  noFloat : NoFloat j
  distinctKeys : Json.DistinctKeys j
  writable : writable j = true

theorem readable_arr_iff {items : List Json} :
    Readable (.arr items) ↔ ∀ item ∈ items, Readable item := by
  have hiff : Readable (.arr items) ↔
      NoFloatItems items ∧ Json.DistinctItems items ∧ writableItems items = true :=
    ⟨fun h ↦ ⟨by simpa [NoFloat] using h.1, by simpa [Json.DistinctKeys] using h.2,
      by simpa [writable] using h.3⟩, fun h ↦ ⟨by simpa [NoFloat] using h.1,
      by simpa [Json.DistinctKeys] using h.2.1, by simpa [writable] using h.2.2⟩⟩
  rw [hiff]
  clear hiff
  induction items with
  | nil => simp [NoFloatItems, Json.DistinctItems, writableItems]
  | cons item items ih =>
    rw [List.forall_mem_cons, NoFloatItems, Json.DistinctItems, writableItems, Bool.and_eq_true]
    constructor
    · rintro ⟨⟨h₁, h₁'⟩, ⟨h₂, h₂'⟩, h₃, h₃'⟩
      exact ⟨⟨h₁, h₂, h₃⟩, ih.mp ⟨h₁', h₂', h₃'⟩⟩
    · rintro ⟨⟨h₁, h₂, h₃⟩, hrest⟩
      obtain ⟨h₁', h₂', h₃'⟩ := ih.mpr hrest
      exact ⟨⟨h₁, h₁'⟩, ⟨h₂, h₂'⟩, h₃, h₃'⟩

theorem writableFields_iff {fields : List (String × Json)} :
    writableFields fields = true ↔ ∀ field ∈ fields, writable field.2 = true := by
  induction fields with
  | nil => simp [writableFields]
  | cons field fields ih => rw [writableFields, Bool.and_eq_true, ih, List.forall_mem_cons]

theorem readable_obj_iff {fields : List (String × Json)} :
    Readable (.obj fields) ↔ (fields.map Prod.fst).Nodup ∧ ∀ field ∈ fields, Readable field.2 := by
  constructor
  · rintro ⟨hfloat, hkeys, hwritable⟩
    rw [NoFloat, noFloatFields_iff] at hfloat
    rw [Json.DistinctKeys, distinctFields_iff] at hkeys
    rw [writable, writableFields_iff] at hwritable
    exact ⟨hkeys.1, fun field hfield ↦
      ⟨hfloat field hfield, hkeys.2 field hfield, hwritable field hfield⟩⟩
  · rintro ⟨hnodup, hall⟩
    refine ⟨?_, ?_, ?_⟩
    · rw [NoFloat, noFloatFields_iff]
      exact fun field hfield ↦ (hall field hfield).1
    · rw [Json.DistinctKeys, distinctFields_iff]
      exact ⟨hnodup, fun field hfield ↦ (hall field hfield).2⟩
    · rw [writable, writableFields_iff]
      exact fun field hfield ↦ (hall field hfield).3

theorem perm_insertKey (field : String × Json) (fields : List (String × Json)) :
    (Json.insertKey field fields).Perm (field :: fields) := by
  induction fields with
  | nil => exact .refl _
  | cons other fields ih =>
    rw [Json.insertKey]
    split
    · exact .refl _
    · exact (ih.cons other).trans (.swap ..)

theorem perm_sortFields (fields : List (String × Json)) :
    (Json.sortFields fields).Perm (fields.map fun field ↦ (field.1, field.2.sortKeys)) := by
  induction fields with
  | nil =>
    rw [Json.sortFields]
    exact .refl _
  | cons field fields ih =>
    rw [Json.sortFields, List.map_cons]
    exact (perm_insertKey _ _).trans (ih.cons _)

/-- Sorting the keys keeps a document readable. -/
theorem readable_sortKeys {j : Json} (h : Readable j) : Readable j.sortKeys := by
  match j with
  | .null | .bool _ | .int _ | .float _ | .str _ =>
    rw [Json.sortKeys]
    exact h
  | .arr items =>
    rw [readable_arr_iff] at h
    rw [Json.sortKeys, Json.sortItems_eq_map, readable_arr_iff, List.forall_mem_map]
    exact fun item hitem ↦ readable_sortKeys (h item hitem)
  | .obj fields =>
    rw [readable_obj_iff] at h
    rw [Json.sortKeys, readable_obj_iff, ((perm_sortFields fields).map Prod.fst).nodup_iff,
      List.map_map]
    refine ⟨h.1, fun field hfield ↦ ?_⟩
    obtain ⟨other, hother, rfl⟩ := List.mem_map.mp ((perm_sortFields fields).mem_iff.mp hfield)
    exact readable_sortKeys (h.2 other hother)
termination_by sizeOf j
decreasing_by
  · have := List.sizeOf_lt_of_mem hitem
    simp only [Json.arr.sizeOf_spec]
    omega
  · have := List.sizeOf_lt_of_mem hother
    obtain ⟨key, value⟩ := other
    simp only [Json.obj.sizeOf_spec, Prod.mk.sizeOf_spec] at this ⊢
    omega

end JsonText
