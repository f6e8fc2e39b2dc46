import Mathlib.Data.List.Basic
import Mathlib.Data.List.Flatten

/-!
# Texts as lists of lines

`Lines.lines` cuts a text at its line breaks and `Lines.unlines` ends each line of a list with one.
When the pieces that a text is put together from contain line breaks of their own, the lines of the
text are no longer the pieces: `lines_unlines` and `lines_append` say what they are, and
`mem_lines_append` and `mem_tail_lines_append` where a given line can come from.
-/

set_option autoImplicit false

namespace Lines

/-- The lines of a text, the last one included even when it is empty. -/
def lines (cs : List Char) : List (List Char) := cs.splitOn '\n'

/-- Each line with a line break after it. -/
def unlines (ls : List (List Char)) : List Char := ls.flatMap fun l ↦ l ++ ['\n']

theorem lines_ne_nil (cs : List Char) : lines cs ≠ [] := List.splitOn_ne_nil _ _

@[simp] theorem lines_nil : lines [] = [[]] := List.splitOn_nil _

theorem lines_of_not_mem {cs : List Char} (h : '\n' ∉ cs) : lines cs = [cs] := by
  rw [lines, List.splitOn_eq_splitOnP]
  apply List.splitOnP_eq_singleton
  intro c hc
  simp only [beq_eq_false_iff_ne]
  rintro rfl
  exact h hc

theorem lines_append_newline (x y : List Char) : lines (x ++ '\n' :: y) = lines x ++ lines y := by
  simp only [lines, List.splitOn_eq_splitOnP]
  exact List.splitOnP_append_cons x y (by simp)

theorem lines_cons {c : Char} (h : c ≠ '\n') (cs : List Char) :
    lines (c :: cs) = (lines cs).modifyHead (c :: ·) := by
  simp only [lines, List.splitOn_eq_splitOnP]
  rw [List.splitOnP_cons_eq_if_modifyHead, if_neg (by simpa using h)]

/-- The lines of a text made of lines are those of its lines, and an empty one at the end. -/
theorem lines_unlines (ls : List (List Char)) : lines (unlines ls) = ls.flatMap lines ++ [[]] := by
  induction ls with
  | nil => simp [unlines]
  | cons l ls ih =>
    have hcons : unlines (l :: ls) = l ++ '\n' :: unlines ls := by simp [unlines]
    rw [hcons, lines_append_newline, ih, List.flatMap_cons, List.append_assoc]

theorem unlines_append (ls ms : List (List Char)) :
    unlines (ls ++ ms) = unlines ls ++ unlines ms := List.flatMap_append

theorem mem_unlines {c : Char} (hc : c ≠ '\n') {ls : List (List Char)} :
    c ∈ unlines ls ↔ ∃ l ∈ ls, c ∈ l := by
  simp [unlines, hc]

/-- The lines of a text, put together again. -/
theorem unlines_lines (cs : List Char) : unlines (lines cs) = cs ++ ['\n'] := by
  induction cs with
  | nil => rfl
  | cons c cs ih =>
    obtain ⟨l, ls, hlines⟩ := List.exists_cons_of_ne_nil (lines_ne_nil cs)
    by_cases hc : c = '\n'
    · subst hc
      have hfirst : lines ('\n' :: cs) = [] :: lines cs := lines_append_newline [] cs
      rw [hfirst]
      simpa [unlines] using ih
    · rw [hlines] at ih
      rw [lines_cons hc, hlines]
      simpa [unlines] using ih

theorem unlines_flatMap_lines (ls : List (List Char)) :
    unlines (ls.flatMap lines) = unlines ls := by
  induction ls with
  | nil => rfl
  | cons l ls ih =>
    rw [List.flatMap_cons, unlines_append, ih, unlines_lines]
    rfl

theorem count_unlines {q : Char} (hq : q ≠ '\n') (ls : List (List Char)) :
    (unlines ls).count q = ls.flatten.count q := by
  induction ls with
  | nil => rfl
  | cons l ls ih =>
    have hcons : unlines (l :: ls) = l ++ '\n' :: unlines ls := by simp [unlines]
    rw [hcons, List.count_append, List.count_cons_of_ne (Ne.symm hq), ih, List.flatten_cons,
      List.count_append]

/-- A character other than a line break is found in a text as often as in its lines. -/
theorem count_flatten_lines {q : Char} (hq : q ≠ '\n') (cs : List Char) :
    (lines cs).flatten.count q = cs.count q := by
  rw [← count_unlines hq, unlines_lines, List.count_append, List.count_singleton]
  simp [Ne.symm hq]

/-- Where two texts meet, the last line of the one runs into the first line of the other. -/
theorem lines_append (x y : List Char) : lines (x ++ y) =
    (lines x).dropLast ++ ((lines x).getLastD [] ++ (lines y).headD []) :: (lines y).tail := by
  induction x with
  | nil =>
    obtain ⟨l, ls, hy⟩ := List.exists_cons_of_ne_nil (lines_ne_nil y)
    simp [hy]
  | cons c x ih =>
    obtain ⟨l, ls, hx⟩ := List.exists_cons_of_ne_nil (lines_ne_nil x)
    by_cases hc : c = '\n'
    · subst hc
      have hleft : lines ('\n' :: (x ++ y)) = [] :: lines (x ++ y) := lines_append_newline [] _
      have hright : lines ('\n' :: x) = [] :: lines x := lines_append_newline [] _
      rw [List.cons_append, hleft, hright, ih, hx]
      simp
    · rw [List.cons_append, lines_cons hc, lines_cons hc, ih, hx]
      cases ls with
      | nil => simp
      | cons l' ls => simp

theorem lines_of_lead {B : List Char} (hB : '\n' ∉ B) (y : List Char) :
    lines (B ++ y) = (B ++ (lines y).headD []) :: (lines y).tail := by
  rw [lines_append, lines_of_not_mem hB]
  simp

/-- The first line of a text is a part of it. -/
theorem head_lines_sublist (cs : List Char) : ((lines cs).headD []).Sublist cs := by
  induction cs with
  | nil => simp
  | cons c cs ih =>
    obtain ⟨l, ls, hlines⟩ := List.exists_cons_of_ne_nil (lines_ne_nil cs)
    rw [hlines, List.headD_cons] at ih
    by_cases hc : c = '\n'
    · subst hc
      have hfirst : lines ('\n' :: cs) = [] :: lines cs := lines_append_newline [] cs
      simp [hfirst]
    · rw [lines_cons hc, hlines]
      simpa using ih

theorem newline_not_mem_head_lines (cs : List Char) : '\n' ∉ (lines cs).headD [] := by
  induction cs with
  | nil => simp
  | cons c cs ih =>
    obtain ⟨l, ls, hlines⟩ := List.exists_cons_of_ne_nil (lines_ne_nil cs)
    rw [hlines, List.headD_cons] at ih
    by_cases hc : c = '\n'
    · subst hc
      have hfirst : lines ('\n' :: cs) = [] :: lines cs := lines_append_newline [] cs
      simp [hfirst]
    · rw [lines_cons hc, hlines]
      simpa [Ne.symm hc] using ih

theorem newline_not_mem_of_mem_lines {l cs : List Char} (h : l ∈ lines cs) : '\n' ∉ l := by
  induction cs generalizing l with
  | nil => simp_all
  | cons c cs ih =>
    by_cases hc : c = '\n'
    · subst hc
      have hfirst : lines ('\n' :: cs) = [] :: lines cs := lines_append_newline [] cs
      rw [hfirst, List.mem_cons] at h
      rcases h with rfl | h
      · simp
      · exact ih h
    · obtain ⟨l', ls, hlines⟩ := List.exists_cons_of_ne_nil (lines_ne_nil cs)
      rw [hlines] at ih
      rw [lines_cons hc, hlines, List.modifyHead_cons, List.mem_cons] at h
      rcases h with rfl | h
      · simpa [Ne.symm hc] using ih List.mem_cons_self
      · exact ih (List.mem_cons_of_mem _ h)

/-- A line of a text that is interrupted by `b`, which is not a line break and not in the line,
stands before or after it. -/
theorem mem_lines_append {m x y : List Char} {b : Char} {B : List Char} (hB : '\n' ∉ B)
    (hb : b ∈ B) (hm : b ∉ m) :
    m ∈ lines (x ++ (B ++ y)) ↔ m ∈ (lines x).dropLast ∨ m ∈ (lines y).tail := by
  have hline (u v : List Char) : m ≠ u ++ (B ++ v) := by
    rintro rfl
    exact hm (by simp [hb])
  rw [lines_append, lines_append, lines_of_not_mem hB]
  simp [hline]

theorem mem_tail_lines_append {m x y : List Char} {b : Char} {B : List Char} (hB : '\n' ∉ B)
    (hb : b ∈ B) (hm : b ∉ m) :
    m ∈ (lines (x ++ (B ++ y))).tail ↔ m ∈ (lines x).tail.dropLast ∨ m ∈ (lines y).tail := by
  have hline (u v : List Char) : m ≠ u ++ (B ++ v) := by
    rintro rfl
    exact hm (by simp [hb])
  rw [lines_append, lines_append, lines_of_not_mem hB]
  obtain ⟨l, ls, hx⟩ := List.exists_cons_of_ne_nil (lines_ne_nil x)
  rw [hx]
  cases ls with
  | nil => simp
  | cons l' ls => simp [hline]

/-- The first line of a text that begins with `B` is not the line, the others may be. -/
theorem mem_lines_of_lead {m y : List Char} {b : Char} {B : List Char} (hB : '\n' ∉ B)
    (hb : b ∈ B) (hm : b ∉ m) : m ∈ lines (B ++ y) ↔ m ∈ (lines y).tail := by
  have h := mem_lines_append (x := []) (y := y) hB hb hm
  simpa using h

/-! ## Texts written out

`String.toList_ofList` is all there is to know about the characters of a text that is written out.
-/

theorem mem_literal {c : Char} {l : List Char} (h : c ∈ l) : c ∈ (String.ofList l).toList := by
  rwa [String.toList_ofList]

theorem not_mem_literal {c : Char} {l : List Char} (h : c ∉ l) : c ∉ (String.ofList l).toList := by
  rwa [String.toList_ofList]

theorem lines_literal {l : List Char} (h : '\n' ∉ l) :
    lines (String.ofList l).toList = [(String.ofList l).toList] :=
  lines_of_not_mem (not_mem_literal h)

end Lines
