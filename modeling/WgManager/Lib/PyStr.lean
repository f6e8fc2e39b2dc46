import Mathlib.Data.List.TakeWhile

/-!
# Python strings

The methods of Python's `str` that the control plane calls, on Lean's `String`.  Both are sequences
of code points, so each method is a function on the list of characters; all of them recurse on that
list, which lets a closed instance be evaluated.
-/

set_option autoImplicit false

namespace PyStr

/-- `c.isspace()`: what `strip()` and `split()` treat as white space. -/
def isSpace (c : Char) : Bool :=
  let n := c.toNat
  (9 ≤ n && n ≤ 13) || (28 ≤ n && n ≤ 32) || n = 0x85 || n = 0xa0 || n = 0x1680 ||
    (0x2000 ≤ n && n ≤ 0x200a) || n = 0x2028 || n = 0x2029 || n = 0x202f || n = 0x205f ||
    n = 0x3000

/-- Drop the characters at the end that satisfy `p`. -/
def dropEndWhile (p : Char → Bool) (cs : List Char) : List Char :=
  (cs.reverse.dropWhile p).reverse

/-- `s.strip()`. -/
def strip (s : String) : String :=
  String.ofList (dropEndWhile isSpace (s.toList.dropWhile isSpace))

/-- `s.rstrip(c)`, for a single character. -/
def rstrip (c : Char) (s : String) : String := String.ofList (dropEndWhile (· == c) s.toList)

/-- The pieces between the characters that satisfy `p`, empty ones included. -/
def pieces (p : Char → Bool) : List Char → List (List Char)
  | [] => [[]]
  | c :: cs =>
    match pieces p cs with
    | [] => [[c]]
    | w :: ws => if p c then [] :: w :: ws else (c :: w) :: ws

/-- `s.split()`: the words between runs of white space. -/
def split (s : String) : List String :=
  ((pieces isSpace s.toList).filter (· ≠ [])).map String.ofList

/-- `s.split(c)`, for a single character. -/
def splitOn (c : Char) (s : String) : List String := (pieces (· == c) s.toList).map String.ofList

/-- What ends a line for `splitlines()`. -/
def isLineBreak (c : Char) : Bool :=
  let n := c.toNat
  (10 ≤ n && n ≤ 13) || (28 ≤ n && n ≤ 30) || n = 0x85 || n = 0x2028 || n = 0x2029

/-- The lines of a text.  A line break at the end does not begin another one. -/
def lines : List Char → List (List Char)
  | [] => []
  | '\r' :: '\n' :: cs => [] :: lines cs
  | c :: cs =>
    if isLineBreak c then [] :: lines cs
    else
      match lines cs with
      | [] => [[c]]
      | line :: rest => (c :: line) :: rest

/-- `s.splitlines()`. -/
def splitlines (s : String) : List String := (lines s.toList).map String.ofList

/-- `s.find(sub)`, with `none` for `-1`. -/
def find (sub : List Char) : List Char → Option ℕ
  | [] => if sub = [] then some 0 else none
  | c :: cs => if sub.isPrefixOf (c :: cs) then some 0 else (find sub cs).map (· + 1)

/-! ## Splitting and joining -/

theorem pieces_eq_splitOnP (p : Char → Bool) (cs : List Char) : pieces p cs = cs.splitOnP p := by
  induction cs with
  | nil => rfl
  | cons c cs ih =>
    rw [pieces, ih, List.splitOnP_cons_eq_if_modifyHead]
    cases hs : cs.splitOnP p with
    | nil => exact absurd hs (List.splitOnP_ne_nil p cs)
    | cons w ws => rfl

/-- The pieces on both sides of a separator. -/
theorem pieces_append {p : Char → Bool} (cs ds : List Char) {c : Char} (hc : p c = true) :
    pieces p (cs ++ c :: ds) = pieces p cs ++ pieces p ds := by
  rw [pieces_eq_splitOnP, pieces_eq_splitOnP, pieces_eq_splitOnP,
    List.splitOnP_append_cons cs ds hc]

theorem pieces_of_forall {p : Char → Bool} {cs : List Char} (h : ∀ d ∈ cs, p d = false) :
    pieces p cs = [cs] := by
  rw [pieces_eq_splitOnP, List.splitOnP_eq_singleton h]

/-- What stands before the first separator is the first piece. -/
theorem pieces_append_cons {p : Char → Bool} {cs ds : List Char} {c : Char}
    (hcs : ∀ d ∈ cs, p d = false) (hc : p c = true) :
    pieces p (cs ++ c :: ds) = cs :: pieces p ds := by
  rw [pieces_append cs ds hc, pieces_of_forall hcs]
  rfl

/-- One more piece than there are separators. -/
theorem length_pieces (p : Char → Bool) (cs : List Char) :
    (pieces p cs).length = cs.countP p + 1 := by
  induction cs with
  | nil => rfl
  | cons c cs ih =>
    rw [pieces, List.countP_cons]
    cases hs : pieces p cs with
    | nil =>
      rw [hs] at ih
      simp at ih
    | cons w ws =>
      rw [hs] at ih
      dsimp only
      split
      · simp only [List.length_cons] at ih ⊢
        omega
      · simpa using ih

/-- A character is in one of the pieces, or separates them. -/
theorem mem_pieces_of_mem {p : Char → Bool} {cs : List Char} {c : Char} (h : c ∈ cs)
    (hc : p c = false) : ∃ w ∈ pieces p cs, c ∈ w := by
  induction cs with
  | nil => exact absurd h List.not_mem_nil
  | cons d cs ih =>
    rw [pieces]
    cases hs : pieces p cs with
    | nil =>
      have hlen := length_pieces p cs
      rw [hs] at hlen
      simp at hlen
    | cons w ws =>
      rw [hs] at ih
      dsimp only
      rcases List.mem_cons.mp h with rfl | hmem
      · rw [hc]
        exact ⟨c :: w, List.mem_cons_self, List.mem_cons_self⟩
      · obtain ⟨u, hu, hcu⟩ := ih hmem
        split
        · exact ⟨u, List.mem_cons_of_mem _ hu, hcu⟩
        · rcases List.mem_cons.mp hu with rfl | hu
          · exact ⟨d :: u, List.mem_cons_self, List.mem_cons_of_mem d hcu⟩
          · exact ⟨u, List.mem_cons_of_mem _ hu, hcu⟩

/-- No piece has a separator. -/
theorem not_sep_of_mem_pieces {p : Char → Bool} {cs w : List Char} (h : w ∈ pieces p cs) :
    ∀ d ∈ w, p d = false := by
  induction cs generalizing w with
  | nil =>
    rw [pieces, List.mem_singleton] at h
    subst h
    exact fun d hd ↦ absurd hd List.not_mem_nil
  | cons c cs ih =>
    rw [pieces] at h
    cases hs : pieces p cs with
    | nil =>
      have hlen := length_pieces p cs
      rw [hs] at hlen
      simp at hlen
    | cons u us =>
      rw [hs] at h ih
      dsimp only at h
      split at h
      · rcases List.mem_cons.mp h with rfl | hmem
        · exact fun d hd ↦ absurd hd List.not_mem_nil
        · exact ih hmem
      · next hc =>
        rcases List.mem_cons.mp h with rfl | hmem
        · intro d hd
          rcases List.mem_cons.mp hd with rfl | hd
          · simpa using hc
          · exact ih List.mem_cons_self d hd
        · exact ih (List.mem_cons_of_mem u hmem)

/-- The characters of a piece are characters of the text. -/
theorem mem_of_mem_pieces {p : Char → Bool} {cs w : List Char} {c : Char} (hw : w ∈ pieces p cs)
    (hc : c ∈ w) : c ∈ cs := by
  induction cs generalizing w with
  | nil =>
    rw [pieces, List.mem_singleton] at hw
    exact hw ▸ hc
  | cons d cs ih =>
    rw [pieces] at hw
    cases hs : pieces p cs with
    | nil =>
      rw [hs, List.mem_singleton] at hw
      rw [hw, List.mem_singleton] at hc
      exact hc ▸ List.mem_cons_self
    | cons u us =>
      rw [hs] at hw ih
      dsimp only at hw
      split at hw
      · rcases List.mem_cons.mp hw with rfl | hw
        · exact absurd hc List.not_mem_nil
        · exact List.mem_cons_of_mem d (ih hw hc)
      · rcases List.mem_cons.mp hw with rfl | hw
        · rcases List.mem_cons.mp hc with rfl | hc
          · exact List.mem_cons_self
          · exact List.mem_cons_of_mem d (ih List.mem_cons_self hc)
        · exact List.mem_cons_of_mem d (ih (List.mem_cons_of_mem u hw) hc)

theorem not_mem_of_mem_splitOn {c : Char} {s part : String} (h : part ∈ splitOn c s) :
    c ∉ part.toList := by
  obtain ⟨w, hw, rfl⟩ := List.mem_map.mp h
  rw [String.toList_ofList]
  intro hc
  have hsep := not_sep_of_mem_pieces hw c hc
  simp at hsep

theorem length_splitOn (c : Char) (s : String) : (splitOn c s).length = s.toList.count c + 1 := by
  rw [splitOn, List.length_map, length_pieces, List.count]

/-- `s.split(c)` undoes `c.join(parts)` when no part has the separator. -/
theorem splitOn_intercalate {c : Char} {sep : String} (hsep : sep.toList = [c])
    {parts : List String} (hparts : parts ≠ []) (h : ∀ part ∈ parts, c ∉ part.toList) :
    splitOn c (sep.intercalate parts) = parts := by
  rw [splitOn, String.toList_intercalate, hsep, pieces_eq_splitOnP, ← List.splitOn_eq_splitOnP,
    List.splitOn_intercalate]
  · rw [List.map_map]
    exact List.map_id'' (fun part ↦ String.ofList_toList) parts
  · simpa using h
  · simpa using hparts

/-- `c.join(s.split(c))` is `s`. -/
theorem intercalate_splitOn {c : Char} {sep : String} (hsep : sep.toList = [c]) (s : String) :
    sep.intercalate (splitOn c s) = s := by
  rw [← String.toList_inj, String.toList_intercalate, hsep, splitOn, List.map_map]
  have hmap : (pieces (· == c) s.toList).map (String.toList ∘ String.ofList) =
      pieces (· == c) s.toList :=
    List.map_id'' (fun cs ↦ String.toList_ofList) _
  rw [hmap, pieces_eq_splitOnP, ← List.splitOn_eq_splitOnP, List.intercalate_splitOn]

/-- A joined text has the separators of its parts, and one between every two of them. -/
theorem count_intercalate {c : Char} {sep : String} (hsep : sep.toList = [c])
    {parts : List String} (hparts : parts ≠ []) :
    (sep.intercalate parts).toList.count c + 1 =
      parts.length + (parts.flatMap String.toList).count c := by
  rw [String.toList_intercalate, hsep]
  induction parts with
  | nil => exact absurd rfl hparts
  | cons part parts ih =>
    cases parts with
    | nil => simp [Nat.add_comm]
    | cons next parts =>
      have hrest := ih (List.cons_ne_nil next parts)
      simp only [List.map_cons, List.intercalate_cons_cons, List.count_append, List.length_cons,
        List.flatMap_cons, List.count_singleton_self] at hrest ⊢
      omega

/-- The characters of a joined text are those of its parts and of the separator. -/
theorem mem_of_mem_intercalate {c : Char} {sep : String} {parts : List String}
    (h : c ∈ (sep.intercalate parts).toList) :
    c ∈ sep.toList ∨ ∃ part ∈ parts, c ∈ part.toList := by
  induction parts with
  | nil => simp at h
  | cons part parts ih =>
    cases parts with
    | nil => exact .inr ⟨part, List.mem_cons_self, by simpa using h⟩
    | cons next parts =>
      rw [String.intercalate_cons_cons, String.toList_append, String.toList_append,
        List.mem_append, List.mem_append] at h
      rcases h with (hpart | hsep) | hrest
      · exact .inr ⟨part, List.mem_cons_self, hpart⟩
      · exact .inl hsep
      · refine (ih hrest).imp_right ?_
        rintro ⟨p, hp, hc⟩
        exact ⟨p, List.mem_cons_of_mem part hp, hc⟩

theorem mem_intercalate {c : Char} {sep part : String} {parts : List String} (hpart : part ∈ parts)
    (hc : c ∈ part.toList) : c ∈ (sep.intercalate parts).toList := by
  induction parts with
  | nil => cases hpart
  | cons first parts ih =>
    cases parts with
    | nil =>
      rw [List.mem_singleton.mp hpart] at hc
      rw [String.intercalate_singleton]
      exact hc
    | cons next parts =>
      rw [String.intercalate_cons_cons, String.toList_append, String.toList_append,
        List.mem_append, List.mem_append]
      rcases List.mem_cons.mp hpart with rfl | hrest
      · exact .inl (.inl hc)
      · exact .inr (ih hrest)

/-- Without its separators, a joined text is its parts one after another. -/
theorem filter_intercalate {c : Char} {sep : String} (hsep : sep.toList = [c])
    {parts : List String} (h : ∀ part ∈ parts, c ∉ part.toList) :
    (sep.intercalate parts).toList.filter (· ≠ c) = parts.flatMap String.toList := by
  induction parts with
  | nil => rfl
  | cons part parts ih =>
    have hpart : part.toList.filter (· ≠ c) = part.toList :=
      List.filter_eq_self.mpr fun d hd ↦
        decide_eq_true fun heq ↦ h part List.mem_cons_self (heq ▸ hd)
    have hrest := ih fun p hp ↦ h p (List.mem_cons_of_mem part hp)
    cases parts with
    | nil => rw [String.intercalate_singleton, hpart, List.flatMap_singleton]
    | cons next parts =>
      rw [String.intercalate_cons_cons, String.toList_append, String.toList_append,
        List.filter_append, List.filter_append, hpart, hrest, hsep, List.flatMap_cons (x := part)]
      simp

/-! ## Lines -/

theorem lines_of_break {c : Char} (hc : isLineBreak c = true) (hcr : c ≠ '\r') (cs : List Char) :
    lines (c :: cs) = [] :: lines cs := by
  rw [lines, if_pos hc]
  rintro ds rfl
  exact absurd rfl hcr

theorem lines_cons {c : Char} (hc : isLineBreak c = false) (cs : List Char) :
    lines (c :: cs) = match lines cs with
      | [] => [[c]]
      | line :: rest => (c :: line) :: rest := by
  rw [lines, if_neg (by rw [hc]; exact Bool.false_ne_true)]
  rintro ds rfl
  cases hc

/-- What stands before the first line break is the first line. -/
theorem lines_append_newline {line : List Char} (h : ∀ c ∈ line, isLineBreak c = false)
    (cs : List Char) : lines (line ++ '\n' :: cs) = line :: lines cs := by
  induction line with
  | nil => exact lines_of_break rfl (by decide) cs
  | cons c line ih =>
    rw [List.cons_append, lines_cons (h c List.mem_cons_self),
      ih fun d hd ↦ h d (List.mem_cons_of_mem c hd)]

/-- `splitlines()` undoes the writing of lines. -/
theorem splitlines_of_lines {parts : List String}
    (h : ∀ part ∈ parts, ∀ c ∈ part.toList, isLineBreak c = false) :
    splitlines (String.join (parts.map (· ++ "\n"))) = parts := by
  induction parts with
  | nil => rfl
  | cons part parts ih =>
    have hcons : (String.join ((part :: parts).map (· ++ "\n"))).toList =
        part.toList ++ '\n' :: (String.join (parts.map (· ++ "\n"))).toList := by
      rw [List.map_cons, String.join_cons, String.toList_append, String.toList_append,
        List.append_assoc]
      rfl
    have hrest := ih fun p hp ↦ h p (List.mem_cons_of_mem part hp)
    rw [splitlines] at hrest
    rw [splitlines, hcons, lines_append_newline (h part List.mem_cons_self), List.map_cons,
      String.ofList_toList, hrest]

/-! ## White space -/

theorem dropWhile_of_head {p : Char → Bool} {cs : List Char} (h : ∀ c ∈ cs.head?, p c = false) :
    cs.dropWhile p = cs := by
  cases cs with
  | nil => rfl
  | cons c cs => rw [List.dropWhile_cons_of_neg (by simpa using h)]

theorem dropEndWhile_append {p : Char → Bool} {cs ds : List Char} (h : ∀ d ∈ ds, p d = true) :
    dropEndWhile p (cs ++ ds) = dropEndWhile p cs := by
  rw [dropEndWhile, List.reverse_append, List.dropWhile_append_of_pos, dropEndWhile]
  exact fun d hd ↦ h d (List.mem_reverse.mp hd)

theorem dropEndWhile_of_last {p : Char → Bool} (cs : List Char) {c : Char} (h : p c = false) :
    dropEndWhile p (cs ++ [c]) = cs ++ [c] := by
  rw [dropEndWhile, List.reverse_concat, List.dropWhile_cons_of_neg (by simp [h]),
    List.reverse_cons, List.reverse_reverse]

/-- What is dropped does not stay at the end. -/
theorem last_of_dropEndWhile {p : Char → Bool} {cs body : List Char} {c : Char}
    (h : dropEndWhile p cs = body ++ [c]) : p c = false := by
  have hhead : cs.reverse.dropWhile p = c :: body.reverse := by
    rw [← List.reverse_inj, ← dropEndWhile, h, List.reverse_cons, List.reverse_reverse]
  have hnot := List.head?_dropWhile_not p cs.reverse
  rw [hhead] at hnot
  simpa using hnot

/-- What `rstrip` drops. -/
theorem exists_rstrip (c : Char) (s : String) :
    ∃ n, s.toList = (rstrip c s).toList ++ List.replicate n c := by
  obtain ⟨n, hn⟩ : ∃ n, s.toList.reverse.takeWhile (· == c) = List.replicate n c :=
    ⟨_, List.eq_replicate_of_mem fun d hd ↦
      beq_iff_eq.mp (List.mem_takeWhile_imp (p := (· == c)) hd)⟩
  refine ⟨n, ?_⟩
  rw [rstrip, String.toList_ofList, dropEndWhile, ← List.reverse_replicate, ← hn,
    ← List.reverse_append, List.takeWhile_append_dropWhile, List.reverse_reverse]

/-- A text that neither begins nor ends with white space. -/
theorem strip_eq_self {s : String} (hhead : ∀ c ∈ s.toList.head?, isSpace c = false)
    (hlast : ∀ c ∈ s.toList.getLast?, isSpace c = false) : strip s = s := by
  rw [strip, dropWhile_of_head hhead, dropEndWhile, dropWhile_of_head, List.reverse_reverse,
    String.ofList_toList]
  simpa using hlast

/-- A text with anything but white space is not blank. -/
theorem strip_ne_empty {s : String} {c : Char} (hmem : c ∈ s.toList) (hc : isSpace c = false) :
    strip s ≠ "" := by
  intro hempty
  have hnil : dropEndWhile isSpace (s.toList.dropWhile isSpace) = [] := by
    rw [strip, String.ofList_eq_empty_iff] at hempty
    exact hempty
  rw [dropEndWhile, List.reverse_eq_nil_iff, List.dropWhile_eq_nil_iff] at hnil
  rw [← List.takeWhile_append_dropWhile (p := isSpace) (l := s.toList), List.mem_append] at hmem
  rcases hmem with hmem | hmem
  · rw [List.mem_takeWhile_imp hmem] at hc
    cases hc
  · rw [hnil c (List.mem_reverse.mpr hmem)] at hc
    cases hc

/-- A blank text is white space. -/
theorem isSpace_of_strip {s : String} (h : strip s = "") : ∀ c ∈ s.toList, isSpace c = true := by
  intro c hc
  by_contra hspace
  exact strip_ne_empty hc (Bool.not_eq_true _ ▸ hspace) h

/-- White space is blank. -/
theorem strip_of_isSpace {s : String} (h : ∀ c ∈ s.toList, isSpace c = true) : strip s = "" := by
  rw [strip, List.dropWhile_eq_nil_iff.mpr h]
  rfl

theorem isSpace_of_isLineBreak {c : Char} (h : isLineBreak c = true) : isSpace c = true := by
  simp only [isLineBreak, isSpace, Bool.or_eq_true, Bool.and_eq_true, decide_eq_true_eq] at h ⊢
  omega

end PyStr
