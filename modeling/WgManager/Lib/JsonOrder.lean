import Mathlib.Data.List.Nodup
import WgManager.Lib.Json

/-!
# JSON documents up to the order of keys

Two documents are the `Same` when they differ in the order in which the fields of their objects
stand, at any level.  Where no object has a key twice, this is when they become equal once their
keys are sorted (`same_iff_sortKeys`): fields with different keys can be inserted in any order
(`insertKey_comm`), and what has been inserted can be found and taken out again.
-/

set_option autoImplicit false

namespace Json

/-! ## Documents -/

mutual

/-- The documents differ in the order of keys only. -/
inductive Same : Json → Json → Prop
  | null : Same null null
  | bool (b : Bool) : Same (bool b) (bool b)
  | int (n : ℤ) : Same (int n) (int n)
  | float (value : Option ℚ) : Same (float value) (float value)
  | str (s : String) : Same (str s) (str s)
  | arr {items others : List Json} (h : SameItems items others) : Same (arr items) (arr others)
  | obj {fields others : List (String × Json)} (h : SameFields fields others) :
    Same (obj fields) (obj others)

/-- Items are compared in their order. -/
inductive SameItems : List Json → List Json → Prop
  | nil : SameItems [] []
  | cons {item other : Json} {items others : List Json} (h : Same item other)
    (hrest : SameItems items others) : SameItems (item :: items) (other :: others)

/-- Each field is looked for among the others, wherever it stands. -/
inductive SameFields : List (String × Json) → List (String × Json) → Prop
  | nil : SameFields [] []
  | cons {key : String} {value other : Json} {fields : List (String × Json)}
    (before after : List (String × Json)) (h : Same value other)
    (hrest : SameFields fields (before ++ after)) :
    SameFields ((key, value) :: fields) (before ++ (key, other) :: after)

end

mutual

/-- No object has a key twice. -/
def DistinctKeys : Json → Prop
  | arr items => DistinctItems items
  | obj fields => (fields.map Prod.fst).Nodup ∧ DistinctFields fields
  | null | bool _ | int _ | float _ | str _ => True

def DistinctItems : List Json → Prop
  | [] => True
  | item :: items => DistinctKeys item ∧ DistinctItems items

def DistinctFields : List (String × Json) → Prop
  | [] => True
  | (_, value) :: fields => DistinctKeys value ∧ DistinctFields fields

end

/-! ## Insertion -/

section

variable {f g : String × Json} {fields others : List (String × Json)} {key : String}

theorem insertKey_of_le (h : f.1 ≤ g.1) : insertKey f (g :: fields) = f :: g :: fields := if_pos h

theorem insertKey_of_not_le (h : ¬f.1 ≤ g.1) :
    insertKey f (g :: fields) = g :: insertKey f fields :=
  if_neg h

theorem insertKey_swap (hle : f.1 ≤ g.1) (hne : f.1 ≠ g.1) (fields : List (String × Json)) :
    insertKey f (insertKey g fields) = insertKey g (insertKey f fields) := by
  have hnot : ¬g.1 ≤ f.1 := fun hgf ↦ hne (String.le_antisymm hle hgf)
  induction fields with
  | nil =>
    rw [insertKey, insertKey, insertKey_of_le hle, insertKey_of_not_le hnot, insertKey]
  | cons o rest ih =>
    by_cases hg : g.1 ≤ o.1
    · have hf : f.1 ≤ o.1 := String.le_trans hle hg
      rw [insertKey_of_le hg, insertKey_of_le hle, insertKey_of_le hf, insertKey_of_not_le hnot,
        insertKey_of_le hg]
    · rw [insertKey_of_not_le hg]
      by_cases hf : f.1 ≤ o.1
      · rw [insertKey_of_le hf, insertKey_of_le hf, insertKey_of_not_le hnot,
          insertKey_of_not_le hg]
      · rw [insertKey_of_not_le hf, insertKey_of_not_le hf, insertKey_of_not_le hg, ih]

/-- Fields with different keys can be inserted in any order. -/
theorem insertKey_comm (hne : f.1 ≠ g.1) (fields : List (String × Json)) :
    insertKey f (insertKey g fields) = insertKey g (insertKey f fields) := by
  rcases String.le_total f.1 g.1 with hle | hle
  · exact insertKey_swap hle hne fields
  · exact (insertKey_swap hle hne.symm fields).symm

/-- A new field can be taken out again. -/
theorem filter_insertKey (h : f.1 ∉ fields.map Prod.fst) :
    (insertKey f fields).filter (fun other ↦ other.1 ≠ f.1) = fields := by
  have hself : fields.filter (fun other ↦ other.1 ≠ f.1) = fields :=
    List.filter_eq_self.mpr fun other hother ↦
      decide_eq_true fun heq ↦ h (heq ▸ List.mem_map_of_mem hother)
  induction fields with
  | nil => simp [insertKey]
  | cons o rest ih =>
    have hrest : f.1 ∉ rest.map Prod.fst := fun hmem ↦ h (List.mem_cons_of_mem _ hmem)
    have ho : o.1 ≠ f.1 := fun heq ↦ h (heq ▸ List.mem_cons_self)
    by_cases hle : f.1 ≤ o.1
    · rw [insertKey_of_le hle, List.filter_cons_of_neg (by simp), hself]
    · rw [insertKey_of_not_le hle, List.filter_cons_of_pos (by simpa using ho), ih hrest]
      exact List.filter_eq_self.mpr fun other hother ↦
        decide_eq_true fun heq ↦ hrest (heq ▸ List.mem_map_of_mem hother)

theorem insertKey_inj (hf : f.1 ∉ fields.map Prod.fst) (ho : f.1 ∉ others.map Prod.fst)
    (h : insertKey f fields = insertKey f others) : fields = others := by
  rw [← filter_insertKey hf, h, filter_insertKey ho]

/-- A field is inserted where it belongs, wherever it stood. -/
theorem sortFields_middle {value : Json} {before after : List (String × Json)}
    (h : key ∉ before.map Prod.fst) :
    sortFields (before ++ (key, value) :: after) =
      insertKey (key, sortKeys value) (sortFields (before ++ after)) := by
  induction before with
  | nil => rw [List.nil_append, sortFields, List.nil_append]
  | cons first before ih =>
    rw [List.map_cons, List.mem_cons, not_or] at h
    rw [List.cons_append, sortFields, ih h.2, List.cons_append, sortFields,
      insertKey_comm (Ne.symm h.1)]

theorem exists_field_of_mem_sortFields {field : String × Json} (h : field ∈ sortFields fields) :
    ∃ value, (field.1, value) ∈ fields ∧ sortKeys value = field.2 := by
  induction fields with
  | nil =>
    rw [sortFields] at h
    exact absurd h List.not_mem_nil
  | cons first fields ih =>
    rw [sortFields, mem_insertKey] at h
    rcases h with rfl | h
    · exact ⟨first.2, List.mem_cons_self, rfl⟩
    · obtain ⟨value, hvalue, hsort⟩ := ih h
      exact ⟨value, List.mem_cons_of_mem first hvalue, hsort⟩

end

/-! ## Both ways -/

section

variable {fields before after : List (String × Json)} {key : String} {value : Json}

/-- What is known of fields that have one field among them. -/
theorem nodup_middle
    (h : ((before ++ (key, value) :: after).map Prod.fst).Nodup) :
    key ∉ before.map Prod.fst ∧ key ∉ (before ++ after).map Prod.fst ∧
      ((before ++ after).map Prod.fst).Nodup := by
  rw [List.map_append, List.map_cons, List.nodup_middle, List.nodup_cons, ← List.map_append] at h
  refine ⟨fun hmem ↦ h.1 ?_, h.1, h.2⟩
  rw [List.map_append]
  exact List.mem_append_left _ hmem

theorem distinctFields_middle :
    DistinctFields (before ++ (key, value) :: after) ↔
      DistinctKeys value ∧ DistinctFields (before ++ after) := by
  induction before with
  | nil => rw [List.nil_append, DistinctFields, List.nil_append]
  | cons first before ih =>
    rw [List.cons_append, DistinctFields, ih, List.cons_append, DistinctFields]
    tauto

end

mutual

theorem sortKeys_of_same {a b : Json} (hb : DistinctKeys b) (h : Same a b) :
    sortKeys a = sortKeys b := by
  match a, b, h with
  | _, _, .null | _, _, .bool _ | _, _, .int _ | _, _, .float _ | _, _, .str _ => rfl
  | .arr items, .arr others, .arr h =>
    rw [DistinctKeys] at hb
    rw [sortKeys, sortKeys, sortItems_of_same hb h]
  | .obj fields, .obj others, .obj h =>
    rw [DistinctKeys] at hb
    rw [sortKeys, sortKeys, sortFields_of_same hb.1 hb.2 h]

theorem sortItems_of_same {items others : List Json} (hb : DistinctItems others)
    (h : SameItems items others) : sortItems items = sortItems others := by
  match items, others, h with
  | [], [], .nil => rfl
  | item :: items, other :: others, .cons h hrest =>
    rw [DistinctItems] at hb
    rw [sortItems, sortItems, sortKeys_of_same hb.1 h, sortItems_of_same hb.2 hrest]

theorem sortFields_of_same {fields others : List (String × Json)}
    (hkeys : (others.map Prod.fst).Nodup) (hb : DistinctFields others)
    (h : SameFields fields others) : sortFields fields = sortFields others := by
  match fields, others, h with
  | [], _, .nil => rfl
  | (key, value) :: fields, _, .cons before after h hrest =>
    obtain ⟨hbefore, -, hnodup⟩ := nodup_middle hkeys
    rw [distinctFields_middle] at hb
    rw [sortFields, sortFields_middle hbefore, sortKeys_of_same hb.1 h,
      sortFields_of_same hnodup hb.2 hrest]

end

mutual

theorem same_of_sortKeys {a b : Json} (ha : DistinctKeys a) (hb : DistinctKeys b)
    (h : sortKeys a = sortKeys b) : Same a b := by
  match a with
  | .null => cases b <;> first | exact .null | (rw [sortKeys, sortKeys] at h; cases h)
  | .bool p =>
    cases b <;> rw [sortKeys, sortKeys] at h <;> cases h
    exact .bool p
  | .int n =>
    cases b <;> rw [sortKeys, sortKeys] at h <;> cases h
    exact .int n
  | .float value =>
    cases b <;> rw [sortKeys, sortKeys] at h <;> cases h
    exact .float value
  | .str s =>
    cases b <;> rw [sortKeys, sortKeys] at h <;> cases h
    exact .str s
  | .arr items =>
    cases b with
    | arr others =>
      rw [DistinctKeys] at ha hb
      rw [sortKeys, sortKeys, Json.arr.injEq] at h
      exact .arr (same_of_sortItems ha hb h)
    | _ => rw [sortKeys, sortKeys] at h; cases h
  | .obj fields =>
    cases b with
    | obj others =>
      rw [DistinctKeys] at ha hb
      rw [sortKeys, sortKeys, Json.obj.injEq] at h
      exact .obj (same_of_sortFields ha.1 hb.1 ha.2 hb.2 h)
    | _ => rw [sortKeys, sortKeys] at h; cases h

theorem same_of_sortItems {items others : List Json} (ha : DistinctItems items)
    (hb : DistinctItems others) (h : sortItems items = sortItems others) :
    SameItems items others := by
  match items, others with
  | [], [] => exact .nil
  | [], other :: others =>
    rw [sortItems, sortItems] at h
    cases h
  | item :: items, [] =>
    rw [sortItems, sortItems] at h
    cases h
  | item :: items, other :: others =>
    rw [DistinctItems] at ha hb
    rw [sortItems, sortItems, List.cons.injEq] at h
    exact .cons (same_of_sortKeys ha.1 hb.1 h.1) (same_of_sortItems ha.2 hb.2 h.2)

theorem same_of_sortFields {fields others : List (String × Json)}
    (hfields : (fields.map Prod.fst).Nodup) (hothers : (others.map Prod.fst).Nodup)
    (ha : DistinctFields fields) (hb : DistinctFields others)
    (h : sortFields fields = sortFields others) : SameFields fields others := by
  match fields with
  | [] =>
    cases others with
    | nil => exact .nil
    | cons other others =>
      have hmem : other.1 ∈ (sortFields (other :: others)).map Prod.fst :=
        mem_keys_sortFields.mpr List.mem_cons_self
      rw [← h, sortFields] at hmem
      exact absurd hmem List.not_mem_nil
  | (key, value) :: fields =>
    rw [sortFields] at h
    rw [DistinctFields] at ha
    rw [List.map_cons, List.nodup_cons] at hfields
    -- the field stands somewhere among the others
    have hmem : (key, sortKeys value) ∈ sortFields others := h ▸ mem_insertKey.mpr (.inl rfl)
    obtain ⟨other, hother, hvalue⟩ := exists_field_of_mem_sortFields hmem
    obtain ⟨before, after, rfl⟩ := List.append_of_mem hother
    obtain ⟨hbefore, hkey, hnodup⟩ := nodup_middle hothers
    rw [distinctFields_middle] at hb
    rw [sortFields_middle hbefore, hvalue] at h
    have hrest : sortFields fields = sortFields (before ++ after) :=
      insertKey_inj (f := (key, sortKeys value)) (fun hin ↦ hfields.1 (mem_keys_sortFields.mp hin))
        (fun hin ↦ hkey (mem_keys_sortFields.mp hin)) h
    exact .cons before after (same_of_sortKeys ha.1 hb.1 hvalue.symm)
      (same_of_sortFields hfields.2 hnodup ha.2 hb.2 hrest)

end

/-- **When sorting the keys makes two documents equal.** -/
theorem same_iff_sortKeys {a b : Json} (ha : DistinctKeys a) (hb : DistinctKeys b) :
    Same a b ↔ sortKeys a = sortKeys b :=
  ⟨sortKeys_of_same hb, same_of_sortKeys ha hb⟩

end Json
