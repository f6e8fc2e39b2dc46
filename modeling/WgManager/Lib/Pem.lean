import Mathlib.Data.List.Infix
import WgManager.Lib.PyStr

/-!
# PEM files

A PEM file is read line by line.  A block stands between a line `-----BEGIN label-----` and the line
`-----END label-----` of the same label; lines between blocks are ignored.  The reader is a strict
one: it refuses a text with a marker that does not have its line to itself, with a block that is not
closed, or with a block in another.

Reading goes on after a text as it does from the start of a file (`readBlocks_append`).
-/

set_option autoImplicit false

namespace Pem

abbrev Line := List Char

def beginMark : List Char := ['-', '-', '-', '-', '-', 'B', 'E', 'G', 'I', 'N', ' ']

def endMark : List Char := ['-', '-', '-', '-', '-', 'E', 'N', 'D', ' ']

def dashes : List Char := ['-', '-', '-', '-', '-']

structure Block where
  label : List Char
  body : List Line
  deriving DecidableEq, Repr

/-- What a line is to a reader. -/
inductive Kind
  | opening (label : List Char)
  | closing (label : List Char)
  | plain
  /-- There is a marker that does not have the line to itself. -/
  | broken
  deriving DecidableEq

/-- The label of a line that is `mark`, a label and five dashes, but for white space at its end. -/
def labelOf (mark : List Char) (line : Line) : Option (List Char) :=
  let line := PyStr.dropEndWhile PyStr.isSpace line
  let rest := line.drop mark.length
  if mark <+: line ∧ dashes <:+ rest then some (rest.take (rest.length - dashes.length)) else none

def kind (line : Line) : Kind :=
  if ¬beginMark <:+: line ∧ ¬endMark <:+: line then .plain
  else if ¬beginMark <:+: line.tail ∧ ¬endMark <:+: line then
    ((labelOf beginMark line).map Kind.opening).getD .broken
  else if ¬beginMark <:+: line ∧ ¬endMark <:+: line.tail then
    ((labelOf endMark line).map Kind.closing).getD .broken
  else .broken

/-- A line, when `current` has been opened and not closed yet: what is open after it, and the blocks
that it completes. -/
def readLine (current : Option Block) (line : Line) : Option (Option Block × List Block) :=
  match kind line, current with
  | .opening label, none => some (some ⟨label, []⟩, [])
  | .closing label, some block => if label = block.label then some (none, [block]) else none
  | .plain, none => some (none, [])
  | .plain, some block => some (some { block with body := block.body ++ [line] }, [])
  | _, _ => none

/-- The blocks in some lines. -/
def readBlocks : Option Block → List Line → Option (List Block)
  | current, [] => if current.isNone then some [] else none
  | current, line :: rest => do
    let (next, completed) ← readLine current line
    let others ← readBlocks next rest
    some (completed ++ others)

/-- The lines of a text. -/
def linesOf (text : List Char) : List Line := PyStr.pieces (· == '\n') text

/-- The blocks of a text. -/
def blocks (text : String) : Option (List Block) := readBlocks none (linesOf text.toList)

/-! ## Lines -/

theorem linesOf_append (text rest : List Char) :
    linesOf (text ++ '\n' :: rest) = linesOf text ++ linesOf rest :=
  PyStr.pieces_append text rest rfl

theorem linesOf_of_notMem {line : Line} (h : '\n' ∉ line) : linesOf line = [line] :=
  PyStr.pieces_of_forall fun _ hc ↦ beq_eq_false_iff_ne.mpr fun heq ↦ h (heq ▸ hc)

theorem linesOf_append_newlines (text : List Char) (n : ℕ) :
    linesOf (text ++ List.replicate n '\n') = linesOf text ++ List.replicate n [] := by
  induction n generalizing text with
  | zero => rw [List.replicate_zero, List.replicate_zero, List.append_nil, List.append_nil]
  | succ n ih =>
    have hrest := ih []
    rw [List.nil_append] at hrest
    rw [List.replicate_succ, linesOf_append, hrest]
    rfl

/-! ## Reading -/

theorem readBlocks_cons (current : Option Block) (line : Line) (rest : List Line) :
    readBlocks current (line :: rest) = (readLine current line).bind fun r ↦
      (readBlocks r.1 rest).bind fun others ↦ some (r.2 ++ others) := rfl

theorem readBlocks_cons_eq_some {current : Option Block} {line : Line} {rest : List Line}
    {bs : List Block} (h : readBlocks current (line :: rest) = some bs) :
    ∃ next completed others, readLine current line = some (next, completed) ∧
      readBlocks next rest = some others ∧ bs = completed ++ others := by
  rw [readBlocks_cons] at h
  obtain ⟨⟨next, completed⟩, hline, h⟩ := Option.bind_eq_some_iff.mp h
  obtain ⟨others, hothers, h⟩ := Option.bind_eq_some_iff.mp h
  exact ⟨next, completed, others, hline, hothers, (Option.some.inj h).symm⟩

theorem readBlocks_append {current : Option Block} {xs ys : List Line} {bs : List Block}
    (h : readBlocks current xs = some bs) :
    readBlocks current (xs ++ ys) = (readBlocks none ys).map (bs ++ ·) := by
  induction xs generalizing current bs with
  | nil =>
    cases current with
    | none =>
      cases h
      rw [List.nil_append]
      cases readBlocks none ys <;> rfl
    | some block => cases h
  | cons line rest ih =>
    obtain ⟨next, completed, others, hline, hothers, rfl⟩ := readBlocks_cons_eq_some h
    rw [List.cons_append, readBlocks_cons, hline, Option.bind_some, ih hothers]
    cases readBlocks none ys with
    | none => rfl
    | some more => exact congrArg some (List.append_assoc completed others more).symm

theorem readLine_nil_none : readLine none [] = some (none, []) := rfl

theorem readLine_nil_some (block : Block) :
    readLine (some block) [] = some (some { block with body := block.body ++ [[]] }, []) := rfl

/-- Empty lines at the end do not matter. -/
theorem readBlocks_append_nils (current : Option Block) (xs : List Line) (n : ℕ) :
    readBlocks current (xs ++ List.replicate n []) = readBlocks current xs := by
  induction xs generalizing current with
  | nil =>
    rw [List.nil_append]
    induction n generalizing current with
    | zero => rfl
    | succ n ih =>
      rw [List.replicate_succ, readBlocks_cons]
      cases current with
      | none =>
        rw [readLine_nil_none, Option.bind_some, ih]
        rfl
      | some block =>
        rw [readLine_nil_some, Option.bind_some, ih]
        rfl
  | cons line rest ih =>
    rw [List.cons_append, readBlocks_cons, readBlocks_cons]
    cases readLine current line with
    | none => rfl
    | some r => rw [Option.bind_some, Option.bind_some, ih]

/-! ## Markers -/

theorem kind_of_readLine {current : Option Block} {line : Line} {r : Option Block × List Block}
    (h : readLine current line = some r) : kind line ≠ .broken := by
  intro hbroken
  unfold readLine at h
  rw [hbroken] at h
  cases current <;> cases h

theorem kind_of_mem {current : Option Block} {xs : List Line} {bs : List Block}
    (h : readBlocks current xs = some bs) : ∀ line ∈ xs, kind line ≠ .broken := by
  induction xs generalizing current bs with
  | nil => exact fun line hline ↦ absurd hline List.not_mem_nil
  | cons line rest ih =>
    obtain ⟨next, completed, others, hline, hothers, -⟩ := readBlocks_cons_eq_some h
    rw [List.forall_mem_cons]
    exact ⟨kind_of_readLine hline, ih hothers⟩

/-- A line with a marker in it begins with it. -/
theorem eq_nil_of_kind {before after : List Char}
    (h : kind (before ++ beginMark ++ after) ≠ .broken) : before = [] := by
  have hmark : beginMark <:+: before ++ beginMark ++ after := ⟨before, after, rfl⟩
  cases before with
  | nil => rfl
  | cons c before =>
    have htail : beginMark <:+: ((c :: before) ++ beginMark ++ after).tail :=
      ⟨before, after, rfl⟩
    refine absurd ?_ h
    rw [kind, if_neg fun hplain ↦ hplain.1 hmark, if_neg fun hopening ↦ hopening.1 htail,
      if_neg fun hclosing ↦ hclosing.1 hmark]

/-- What stands after the last newline. -/
theorem exists_last_line (text : List Char) :
    ∃ line, '\n' ∉ line ∧ (text = line ∨ ∃ before, text = before ++ '\n' :: line) := by
  by_cases hmem : '\n' ∈ text
  · obtain ⟨after, before, heq, hnot⟩ := List.eq_append_cons_of_mem (List.mem_reverse.mpr hmem)
    refine ⟨after.reverse, fun h ↦ hnot (List.mem_reverse.mp h), .inr ⟨before.reverse, ?_⟩⟩
    rw [← List.reverse_reverse text, heq]
    simp
  · exact ⟨text, hmem, .inl rfl⟩

/-- In a text that can be read every `-----BEGIN ` starts a line. -/
theorem beginMark_starts_line {current : Option Block} {before after : List Char} {bs : List Block}
    (h : readBlocks current (linesOf (before ++ beginMark ++ after)) = some bs) :
    before = [] ∨ before.getLast? = some '\n' := by
  obtain ⟨first, hfirst, hbefore⟩ := exists_last_line before
  -- the line in which the marker stands
  obtain ⟨last, hlast, hafter⟩ : ∃ last, '\n' ∉ last ∧
      (after = last ∨ ∃ rest, after = last ++ '\n' :: rest) := by
    by_cases hmem : '\n' ∈ after
    · obtain ⟨last, rest, heq, hnot⟩ := List.eq_append_cons_of_mem hmem
      exact ⟨last, hnot, .inr ⟨rest, heq⟩⟩
    · exact ⟨after, hmem, .inl rfl⟩
  have hline : '\n' ∉ first ++ beginMark ++ last := by
    rw [List.mem_append, List.mem_append]
    rintro ((h | h) | h)
    · exact hfirst h
    · exact absurd h (by decide)
    · exact hlast h
  have hend : first ++ beginMark ++ last ∈ linesOf (first ++ beginMark ++ after) := by
    rcases hafter with rfl | ⟨rest, rfl⟩
    · rw [linesOf_of_notMem hline]
      exact List.mem_singleton_self _
    · rw [← List.append_assoc, linesOf_append, linesOf_of_notMem hline]
      exact List.mem_cons_self
  rcases hbefore with rfl | ⟨front, rfl⟩
  · exact .inl (eq_nil_of_kind (kind_of_mem h _ hend))
  · have hmem : first ++ beginMark ++ last ∈
        linesOf (front ++ '\n' :: first ++ beginMark ++ after) := by
      rw [List.append_assoc, List.append_assoc, List.cons_append, linesOf_append,
        ← List.append_assoc]
      exact List.mem_append_right _ hend
    rw [eq_nil_of_kind (kind_of_mem h _ hmem)]
    exact .inr List.getLast?_concat

end Pem
