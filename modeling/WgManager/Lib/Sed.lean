import WgManager.Lib.Lines
import WgManager.Lib.PyStr

/-!
# The `s` command of a stream editor

`sed "s|pattern|replacement|"` replaces the first place in each line of a text where the pattern
stands.  Pattern and replacement are taken literally here, so neither may have characters in it that
mean something to `sed`.
-/

set_option autoImplicit false

namespace Sed

open Lines

/-- The first place in a line where the pattern stands is replaced. -/
def replaceFirst (pattern replacement line : List Char) : List Char :=
  match PyStr.find pattern line with
  | none => line
  | some k => line.take k ++ replacement ++ line.drop (k + pattern.length)

/-- The same in every line of a text. -/
def substitute (pattern replacement text : List Char) : List Char :=
  List.intercalate ['\n'] ((lines text).map (replaceFirst pattern replacement))

variable {pattern replacement line : List Char} {c : Char}

/-- Where a pattern is found, it stands. -/
theorem eq_of_find {k : ℕ} (h : PyStr.find pattern line = some k) :
    line = line.take k ++ (pattern ++ line.drop (k + pattern.length)) := by
  induction line generalizing k with
  | nil =>
    rw [PyStr.find] at h
    split at h
    · next hpattern => simp [hpattern]
    · cases h
  | cons c cs ih =>
    rw [PyStr.find] at h
    split at h
    · next hprefix =>
      obtain rfl : 0 = k := by simpa using h
      obtain ⟨rest, hrest⟩ := List.isPrefixOf_iff_prefix.mp hprefix
      simp [← hrest]
    · obtain ⟨j, hj, rfl⟩ := Option.map_eq_some_iff.mp h
      have hrest := ih hj
      rw [Nat.add_right_comm, List.take_succ_cons, List.drop_succ_cons, List.cons_append, ← hrest]

/-- A line without one of the characters of the pattern stays as it is. -/
theorem replaceFirst_of_not_mem (hc : c ∈ pattern) (h : c ∉ line) :
    replaceFirst pattern replacement line = line := by
  unfold replaceFirst
  cases hfind : PyStr.find pattern line with
  | none => rfl
  | some k =>
    rw [eq_of_find hfind] at h
    simp [hc] at h

/-- Replacing makes no new lines. -/
theorem newline_not_mem_replaceFirst (hline : '\n' ∉ line) (hreplacement : '\n' ∉ replacement) :
    '\n' ∉ replaceFirst pattern replacement line := by
  unfold replaceFirst
  cases hfind : PyStr.find pattern line with
  | none => exact hline
  | some k =>
    simp only [List.mem_append, not_or]
    exact ⟨⟨fun h ↦ hline (List.mem_of_mem_take h), hreplacement⟩,
      fun h ↦ hline (List.mem_of_mem_drop h)⟩

/-- A text after a line. -/
theorem intercalate_concat_nil (ls : List (List Char)) :
    List.intercalate ['\n'] (ls ++ [[]]) = unlines ls := by
  induction ls with
  | nil => rfl
  | cons l ls ih =>
    have hcons : List.intercalate ['\n'] (l :: (ls ++ [[]])) =
        l ++ ['\n'] ++ List.intercalate ['\n'] (ls ++ [[]]) := by
      rw [List.intercalate_cons_of_ne_nil (by simp)]
    rw [List.cons_append, hcons, ih]
    rfl

/-- A text made of lines is edited line by line. -/
theorem substitute_unlines (hpattern : pattern ≠ []) (ls : List (List Char)) :
    substitute pattern replacement (unlines ls) =
      unlines ((ls.flatMap lines).map (replaceFirst pattern replacement)) := by
  have hempty : replaceFirst pattern replacement [] = [] := by
    obtain ⟨c, cs, rfl⟩ := List.exists_cons_of_ne_nil hpattern
    exact replaceFirst_of_not_mem (c := c) (by simp) (by simp)
  rw [substitute, lines_unlines, List.map_append, List.map_singleton, hempty,
    intercalate_concat_nil]

end Sed
