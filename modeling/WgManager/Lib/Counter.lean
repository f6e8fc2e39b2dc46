import Mathlib.Data.List.Nodup

/-!
# Counters

`collections.Counter`: a dict from keys to how often they came, in the order in which they came
first.  `Counter.ofList` counts a list, and what is said about all of its values can be said about
`List.count` (`forall_values_ofList`).
-/

set_option autoImplicit false

/-- Keys, each with a number. -/
structure Counter (α : Type*) where
  entries : List (α × ℕ)
  /-- The keys of a dict are different. -/
  nodup : (entries.map Prod.fst).Nodup

namespace Counter

variable {α : Type*} [DecidableEq α]

/-- One more of a key. -/
def bumpEntries (a : α) : List (α × ℕ) → List (α × ℕ)
  | [] => [(a, 1)]
  | (b, n) :: rest => if b = a then (b, n + 1) :: rest else (b, n) :: bumpEntries a rest

theorem keys_bumpEntries (a : α) (entries : List (α × ℕ)) :
    (bumpEntries a entries).map Prod.fst =
      if a ∈ entries.map Prod.fst then entries.map Prod.fst
      else entries.map Prod.fst ++ [a] := by
  induction entries with
  | nil => simp [bumpEntries]
  | cons entry rest ih =>
    obtain ⟨b, n⟩ := entry
    by_cases hb : b = a
    · simp [bumpEntries, hb]
    · rw [bumpEntries, if_neg hb, List.map_cons, ih]
      split <;> simp_all [Ne.symm hb]

/-- `counter[key] += 1`. -/
def bump (c : Counter α) (a : α) : Counter α where
  entries := bumpEntries a c.entries
  nodup := by
    rw [keys_bumpEntries]
    split
    · exact c.nodup
    · next ha => exact c.nodup.append (List.nodup_singleton a) (by simpa using ha)

def empty : Counter α := ⟨[], List.nodup_nil⟩

/-- `Counter(items)`. -/
def ofList (as : List α) : Counter α := as.foldl bump empty

/-- `counter[key]`, which is 0 for a key that never came. -/
def get (c : Counter α) (a : α) : ℕ := ((c.entries.find? fun e ↦ e.1 = a).map Prod.snd).getD 0

@[simp] theorem get_empty (a : α) : (empty : Counter α).get a = 0 := rfl

theorem get_bump (c : Counter α) (a b : α) :
    (c.bump a).get b = c.get b + if a = b then 1 else 0 := by
  change (((bumpEntries a c.entries).find? _).map _).getD 0 = _
  rw [get]
  induction c.entries with
  | nil => by_cases hab : a = b <;> simp [bumpEntries, hab]
  | cons entry rest ih =>
    obtain ⟨d, n⟩ := entry
    by_cases hda : d = a
    · subst hda
      by_cases hdb : d = b <;> simp [bumpEntries, hdb]
    · rw [bumpEntries, if_neg hda]
      by_cases hdb : d = b
      · subst hdb
        simp [Ne.symm hda]
      · simpa [hdb] using ih

theorem get_foldl_bump (as : List α) (c : Counter α) (a : α) :
    (as.foldl bump c).get a = c.get a + as.count a := by
  induction as generalizing c with
  | nil => simp
  | cons b as ih =>
    rw [List.foldl_cons, ih, get_bump, List.count_cons]
    simp only [beq_iff_eq]
    omega

theorem get_ofList (as : List α) (a : α) : (ofList as).get a = as.count a := by
  rw [ofList, get_foldl_bump, get_empty, Nat.zero_add]

/-- What holds of 0 holds of all values when it holds of the number of every key. -/
theorem forall_values_iff {P : ℕ → Prop} (h₀ : P 0) (c : Counter α) :
    (∀ e ∈ c.entries, P e.2) ↔ ∀ a, P (c.get a) := by
  constructor
  · intro h a
    rw [get]
    cases hfind : c.entries.find? fun e ↦ e.1 = a with
    | none => exact h₀
    | some e => exact h e (List.mem_of_find?_eq_some hfind)
  · intro h e he
    have hget : c.get e.1 = e.2 := by
      obtain ⟨e', hfind⟩ := Option.isSome_iff_exists.mp
        (List.find?_isSome.mpr ⟨e, he, decide_eq_true rfl⟩ :
          (c.entries.find? fun e' ↦ e'.1 = e.1).isSome = true)
      have hkey : e'.1 = e.1 := by simpa using List.find?_some hfind
      rw [get, hfind, List.inj_on_of_nodup_map c.nodup (List.mem_of_find?_eq_some hfind) he hkey]
      rfl
    exact hget ▸ h e.1

theorem forall_values_ofList {P : ℕ → Prop} (h₀ : P 0) (as : List α) :
    (∀ e ∈ (ofList as).entries, P e.2) ↔ ∀ a, P (as.count a) := by
  rw [forall_values_iff h₀]
  simp only [get_ofList]

end Counter
