import Mathlib.Algebra.Order.BigOperators.Group.List
import Mathlib.Algebra.Order.Ring.Nat
import WgManager.Lib.PyStr

/-!
# The records of a text file

A file with one record on each line can be cut at `"\n"`, which is how it was written, or with
`splitlines()`, which also cuts at line breaks that are part of a record.  Blank lines do not count.
Both ways agree on the number of records as long as no record has such a line break
(`length_splitlines_eq_iff`).
-/

set_option autoImplicit false

namespace PyStr

/-- What reading in text mode does to line breaks. -/
def universalNewlines : List Char → List Char
  | [] => []
  | '\r' :: '\n' :: cs => '\n' :: universalNewlines cs
  | c :: cs => (if c = '\r' then '\n' else c) :: universalNewlines cs

theorem not_mem_universalNewlines (cs : List Char) : '\r' ∉ universalNewlines cs := by
  induction cs using universalNewlines.induct with
  | case1 => exact List.not_mem_nil
  | case2 cs ih => simpa [universalNewlines] using ih
  | case3 c cs hcrlf ih =>
    rw [universalNewlines, List.mem_cons, not_or]
    · refine ⟨?_, ih⟩
      split
      · decide
      · next hc => exact Ne.symm hc
    · exact hcrlf

/-- `if line.strip()`. -/
def nonBlank (s : String) : Bool := strip s != ""

def hasText (cs : List Char) : Bool := cs.any fun c ↦ !isSpace c

theorem nonBlank_ofList (cs : List Char) : nonBlank (String.ofList cs) = hasText cs := by
  rw [Bool.eq_iff_iff, nonBlank, bne_iff_ne, hasText, List.any_eq_true]
  constructor
  · intro h
    by_contra hno
    refine h (strip_of_isSpace fun c hc ↦ ?_)
    by_contra hspace
    exact hno ⟨c, by simpa using hc, by simpa using hspace⟩
  · rintro ⟨c, hc, htext⟩
    exact strip_ne_empty (String.toList_ofList.symm ▸ hc : c ∈ (String.ofList cs).toList)
      (by simpa using htext)

/-! ## Cutting twice -/

theorem exists_pieces (p : Char → Bool) (cs : List Char) : ∃ w ws, pieces p cs = w :: ws :=
  List.exists_cons_of_length_pos (by rw [length_pieces]; omega)

/-- Cutting at more characters cuts the pieces further. -/
theorem pieces_flatMap {p q : Char → Bool} (h : ∀ c, p c = true → q c = true) (cs : List Char) :
    pieces q cs = (pieces p cs).flatMap (pieces q) := by
  induction cs with
  | nil => rfl
  | cons c cs ih =>
    obtain ⟨w, ws, hp⟩ := exists_pieces p cs
    obtain ⟨u, us, hq⟩ := exists_pieces q w
    have hcs : pieces q cs = u :: us ++ ws.flatMap (pieces q) := by
      rw [ih, hp, List.flatMap_cons, hq]
    by_cases hpc : p c = true
    · simp [pieces, hp, hcs, hpc, h c hpc, hq]
    · by_cases hqc : q c = true <;> simp [pieces, hp, hcs, hpc, hqc, hq]

/-- `splitlines()` cuts at the line breaks, and drops an empty line at the end. -/
theorem pieces_eq_lines {cs : List Char} (hcr : '\r' ∉ cs) :
    pieces isLineBreak cs = lines cs ∨ pieces isLineBreak cs = lines cs ++ [[]] := by
  induction cs with
  | nil => exact .inr rfl
  | cons c cs ih =>
    rw [List.mem_cons, not_or] at hcr
    obtain ⟨w, ws, hp⟩ := exists_pieces isLineBreak cs
    have hcs := ih hcr.2
    rw [hp] at hcs
    rw [pieces, hp]
    by_cases hc : isLineBreak c = true
    · rw [lines_of_break hc (Ne.symm hcr.1)]
      simpa [hc] using hcs
    · rw [lines_cons (by simpa using hc)]
      rcases hcs with hcs | hcs
      · exact .inl (by simp [hc, ← hcs])
      · cases hlines : lines cs with
        | nil => simp_all
        | cons line rest => simp_all

theorem filter_lines {p : List Char → Bool} (hp : p [] = false) {cs : List Char} (hcr : '\r' ∉ cs) :
    (lines cs).filter p = (pieces isLineBreak cs).filter p := by
  rcases pieces_eq_lines hcr with h | h
  · rw [h]
  · rw [h, List.filter_append]
    simp [hp]

/-! ## Counting records -/

/-- The records in a piece of a text. -/
def recordsIn (cs : List Char) : List (List Char) := (pieces isLineBreak cs).filter hasText

/-- A line break that is inside a record: it has text on both sides. -/
def Inside (cs : List Char) : Prop :=
  ∀ before c after, cs = before ++ c :: after → isLineBreak c = true →
    hasText before = true ∧ hasText after = true

/-- A text that begins and ends with something that is no line break and not blank. -/
theorem inside_of_append {before inner after : List Char} (hbefore : hasText before = true)
    (hafter : hasText after = true) (hb : ∀ c ∈ before, isLineBreak c = false)
    (ha : ∀ c ∈ after, isLineBreak c = false) : Inside (before ++ (inner ++ after)) := by
  have hmono {cs ds : List Char} (hsub : ∀ c ∈ cs, c ∈ ds) (h : hasText cs = true) :
      hasText ds = true := by
    obtain ⟨c, hc, htext⟩ := List.any_eq_true.mp h
    exact List.any_eq_true.mpr ⟨c, hsub c hc, htext⟩
  intro left c right heq hc
  constructor
  · rcases List.append_eq_append_iff.mp heq with ⟨mid, rfl, -⟩ | ⟨mid, rfl, hmid⟩
    · exact hmono (fun d hd ↦ List.mem_append_left _ hd) hbefore
    · cases mid with
      | nil => simpa using hbefore
      | cons d mid =>
        obtain ⟨rfl, -⟩ := List.cons.inj hmid
        rw [hb c (by simp)] at hc
        cases hc
  · have heq' : (before ++ inner) ++ after = (left ++ [c]) ++ right := by simpa using heq
    rcases List.append_eq_append_iff.mp heq' with ⟨mid, hmid, rfl⟩ | ⟨mid, -, rfl⟩
    · rcases List.eq_nil_or_concat' mid with rfl | ⟨mid, d, rfl⟩
      · exact hafter
      · rw [← List.append_assoc] at hmid
        obtain ⟨-, hcd⟩ := List.append_inj' hmid rfl
        rw [ha c (by simp_all)] at hc
        cases hc
    · exact hmono (fun d hd ↦ List.mem_append_right _ hd) hafter

theorem recordsIn_append (cs ds : List Char) {c : Char} (hc : isLineBreak c = true) :
    recordsIn (cs ++ c :: ds) = recordsIn cs ++ recordsIn ds := by
  rw [recordsIn, pieces_append cs ds hc, List.filter_append]
  rfl

theorem recordsIn_of_blank {cs : List Char} (h : hasText cs = false) : recordsIn cs = [] := by
  rw [recordsIn, List.filter_eq_nil_iff]
  intro w hw htext
  obtain ⟨c, hc, hspace⟩ := List.any_eq_true.mp htext
  exact List.any_eq_false.mp h c (mem_of_mem_pieces hw hc) hspace

theorem length_recordsIn_pos {cs : List Char} (h : hasText cs = true) :
    1 ≤ (recordsIn cs).length := by
  obtain ⟨c, hc, hspace⟩ := List.any_eq_true.mp h
  have hbreak : isLineBreak c = false := by
    by_contra hbreak
    rw [Bool.not_eq_false] at hbreak
    rw [isSpace_of_isLineBreak hbreak] at hspace
    cases hspace
  obtain ⟨w, hw, hcw⟩ := mem_pieces_of_mem hc hbreak
  exact List.length_pos_of_mem
    (List.mem_filter.mpr ⟨hw, List.any_eq_true.mpr ⟨c, hcw, hspace⟩⟩)

/-- A record with a line break in it is cut into two at least. -/
theorem length_recordsIn_eq_one_iff {cs : List Char} (h : hasText cs = true) (hinside : Inside cs) :
    (recordsIn cs).length = 1 ↔ ∀ c ∈ cs, isLineBreak c = false := by
  constructor
  · intro hone c hc
    by_contra hbreak
    rw [Bool.not_eq_false] at hbreak
    obtain ⟨before, after, rfl⟩ := List.append_of_mem hc
    obtain ⟨hbefore, hafter⟩ := hinside before c after rfl hbreak
    rw [recordsIn_append before after hbreak, List.length_append] at hone
    have := length_recordsIn_pos hbefore
    have := length_recordsIn_pos hafter
    omega
  · intro hno
    simp [recordsIn, pieces_of_forall hno, h]

/-- Sums of which every term is at least that of the other are equal term by term. -/
theorem sum_eq_sum_iff {α : Type*} {f g : α → ℕ} {l : List α} (h : ∀ a ∈ l, g a ≤ f a) :
    (l.map f).sum = (l.map g).sum ↔ ∀ a ∈ l, f a = g a := by
  induction l with
  | nil => simp
  | cons a l ih =>
    have ha := h a List.mem_cons_self
    have hl : ∀ b ∈ l, g b ≤ f b := fun b hb ↦ h b (List.mem_cons_of_mem a hb)
    have hle : (l.map g).sum ≤ (l.map f).sum := List.sum_le_sum hl
    rw [List.map_cons, List.map_cons, List.sum_cons, List.sum_cons, List.forall_mem_cons, ← ih hl]
    omega

/-- The number of records is the sum over the pieces between newlines. -/
theorem length_recordsIn (cs : List Char) :
    (recordsIn cs).length = ((pieces (· == '\n') cs).map fun w ↦ (recordsIn w).length).sum := by
  rw [recordsIn, pieces_flatMap (p := (· == '\n')) (q := isLineBreak), List.filter_flatMap,
    List.length_flatMap]
  · rfl
  · intro c hc
    rw [beq_iff_eq.mp hc]
    rfl

theorem length_recordsIn_eq_iff {cs : List Char}
    (hinside : ∀ w ∈ pieces (· == '\n') cs, hasText w = true → Inside w) :
    (recordsIn cs).length = ((pieces (· == '\n') cs).filter hasText).length ↔
      ∀ w ∈ pieces (· == '\n') cs, hasText w = true → ∀ c ∈ w, isLineBreak c = false := by
  have hcount : ((pieces (· == '\n') cs).filter hasText).length =
      ((pieces (· == '\n') cs).map fun w ↦ if hasText w then 1 else 0).sum := by
    rw [← List.countP_eq_length_filter]
    induction pieces (· == '\n') cs with
    | nil => rfl
    | cons w ws ih => rw [List.countP_cons, ih, List.map_cons, List.sum_cons, Nat.add_comm]
  rw [length_recordsIn, hcount, sum_eq_sum_iff]
  · refine forall₂_congr fun w hw ↦ ?_
    by_cases htext : hasText w = true
    · rw [if_pos htext, length_recordsIn_eq_one_iff htext (hinside w hw htext)]
      exact (imp_iff_right htext).symm
    · simp [htext, recordsIn_of_blank]
  · intro w _
    split
    · next htext => exact length_recordsIn_pos htext
    · exact Nat.zero_le _

/-- **Both ways to cut a file give the same number of records** if and only if no record has a line
break of its own. -/
theorem length_splitlines_eq_iff {text : String} (hcr : '\r' ∉ text.toList)
    (hinside : ∀ s ∈ splitOn '\n' text, nonBlank s = true → Inside s.toList) :
    ((splitlines text).filter nonBlank).length = ((splitOn '\n' text).filter nonBlank).length ↔
      ∀ s ∈ splitOn '\n' text, nonBlank s = true → ∀ c ∈ s.toList, isLineBreak c = false := by
  have hfilter (ws : List (List Char)) :
      ((ws.map String.ofList).filter nonBlank).length = (ws.filter hasText).length := by
    have hcomp : nonBlank ∘ String.ofList = hasText := by
      funext w
      rw [Function.comp_apply, nonBlank_ofList]
    rw [List.filter_map, List.length_map, hcomp]
  have hforall (P : List Char → Prop) :
      (∀ s ∈ splitOn '\n' text, nonBlank s = true → P s.toList) ↔
        ∀ w ∈ pieces (· == '\n') text.toList, hasText w = true → P w := by
    simp [splitOn, nonBlank_ofList]
  rw [splitlines, hfilter, filter_lines rfl hcr, splitOn, hfilter]
  rw [hforall Inside] at hinside
  rw [← splitOn, hforall fun w ↦ ∀ c ∈ w, isLineBreak c = false]
  exact length_recordsIn_eq_iff hinside

end PyStr
