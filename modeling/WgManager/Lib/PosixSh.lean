import Mathlib.Algebra.GroupWithZero.Nat
import WgManager.Lib.Lines

/-!
# The POSIX shell: words, quotes and here-documents

How the shell reads a command line, as far as that can go without expanding anything.  The lexer
`PosixSh.step` is a machine that takes one character at a time; it knows single quotes, double
quotes, the backslash, `>` and `<<`.  On everything that would make the shell do more than read
words — an expansion, a pattern, another operator, a comment, a second command — it gives up, and so
it does on the character NUL, which cannot be passed to a program.  `readScript` reads a script that
consists of one simple command on its first line and of the here-documents that this line asks for.

The two facts about quoting that a caller needs are `tokenize_quoted`, a text without quotes between
two of them is one word, and `kept_of_quote`, a text with quotes is not: from within single quotes
the first quote in the text ends them, and from then on at least one more quote is lost.
-/

set_option autoImplicit false

namespace PosixSh

open Lines

/-! ## Tokens -/

/-- The single quote. -/
abbrev apostrophe : Char := '\x27'

/-- The double quote. -/
abbrev quotationMark : Char := '\x22'

abbrev backquote : Char := '\x60'

abbrev backslash : Char := '\x5c'

inductive Token
  /-- A word, after quote removal, and whether any part of it was quoted. -/
  | word (text : List Char) (quoted : Bool)
  /-- `>` -/
  | great
  /-- `<<` -/
  | dless
  deriving DecidableEq

inductive Mode
  | unquoted
  | single
  | double
  /-- After a backslash. -/
  | escaped
  /-- After a backslash inside double quotes. -/
  | doubleEscaped
  /-- After `>`, which is not the beginning of a longer operator. -/
  | great
  /-- After `<`. -/
  | less
  /-- After `<<`, which is not the beginning of a longer operator. -/
  | dless
  deriving DecidableEq

/-- A state of the lexer. -/
structure Lexer where
  tokens : List Token := []
  /-- The word that is being read. -/
  current : Option (List Char × Bool) := none
  mode : Mode := .unquoted
  deriving DecidableEq

namespace Lexer

def text (s : Lexer) : List Char := (s.current.map Prod.fst).getD []

def quoted (s : Lexer) : Bool := (s.current.map Prod.snd).getD false

/-- Add a character to the current word. -/
def push (s : Lexer) (c : Char) : Lexer := { s with current := some (s.text ++ [c], s.quoted) }

/-- Go over to `mode` in a word that has a quoted part. -/
def quote (s : Lexer) (mode : Mode) : Lexer :=
  { s with current := some (s.text, true), mode := mode }

/-- End the current word, if there is one. -/
def endWord (s : Lexer) : Lexer :=
  match s.current with
  | none => s
  | some (text, quoted) => { s with tokens := s.tokens ++ [.word text quoted], current := none }

end Lexer

/-- A character that outside quotes is, or begins, more than a part of a word. -/
def special (s : Lexer) (c : Char) : Bool :=
  ['\n', ';', '&', '|', '(', ')', '$', backquote, '*', '?', '['].contains c ||
    s.current.isNone && ['#', '~'].contains c

/-- A word that before a redirection operator is the number of a file descriptor. -/
def ioNumber (s : Lexer) : Bool :=
  s.current.any fun w ↦ w.1.all Char.isDigit && !w.2

/-- One character outside quotes. -/
def unquotedStep (s : Lexer) (c : Char) : Option Lexer :=
  if c = apostrophe then some (s.quote .single)
  else if c = quotationMark then some (s.quote .double)
  else if c = backslash then some { s with mode := .escaped }
  else if c = ' ' || c = '\t' then some s.endWord
  else if c = '>' then
    if ioNumber s then none
    else some { s.endWord with tokens := s.endWord.tokens ++ [.great], mode := .great }
  else if c = '<' then
    if ioNumber s then none else some { s.endWord with mode := .less }
  else if special s c then none
  else some (s.push c)

/-- One character. -/
def step (s : Lexer) (c : Char) : Option Lexer :=
  if c = '\x00' then none
  else match s.mode with
  | .unquoted => unquotedStep s c
  | .single => if c = apostrophe then some { s with mode := .unquoted } else some (s.push c)
  | .double =>
    if c = quotationMark then some { s with mode := .unquoted }
    else if c = backslash then some { s with mode := .doubleEscaped }
    else if c = '$' || c = backquote then none
    else some (s.push c)
  | .escaped =>
    -- an escaped line break is removed
    if c = '\n' then some { s with mode := .unquoted } else some ((s.push c).quote .unquoted)
  | .doubleEscaped =>
    if c = '\n' then some { s with mode := .double }
    else if ['$', backquote, quotationMark, backslash].contains c then
      some { s.push c with mode := .double }
    else some { (s.push backslash).push c with mode := .double }
  | .great =>
    if ['>', '&', '|'].contains c then none else unquotedStep { s with mode := .unquoted } c
  | .less =>
    if c = '<' then some { s with tokens := s.tokens ++ [.dless], mode := .dless } else none
  | .dless => if c = '-' then none else unquotedStep { s with mode := .unquoted } c

/-- The tokens read, unless the text ends inside quotes or an operator. -/
def finish (s : Lexer) : Option (List Token) :=
  match s.mode with
  | .unquoted | .great | .dless => some s.endWord.tokens
  | _ => none

/-- The tokens of a command line. -/
def tokenize (cs : List Char) : Option (List Token) := (cs.foldlM step {}).bind finish

/-! ## Commands -/

def reservedWords : List (List Char) :=
  ["!", "\x7b", "\x7d", "case", "do", "done", "elif", "else", "esac", "fi", "for", "if", "in",
    "then", "until", "while"].map String.toList

/-- A first word that is the name of a command: not a reserved word, and not an assignment. -/
def commandName (words : List (List Char)) : Bool :=
  words.head?.any fun name ↦ !name.contains '=' && !reservedWords.contains name

def Token.word? : Token → Option (List Char)
  | word text _ => some text
  | _ => none

/-- The words of a command line that is one simple command without redirections. -/
def simpleCommand (cs : List Char) : Option (List (List Char)) := do
  let words ← (← tokenize cs).mapM Token.word?
  if commandName words then some words else none

/-- A redirection as the command line has it. -/
inductive Pending
  | out (path : List Char)
  | here (delimiter : List Char) (quoted : Bool)
  deriving DecidableEq

/-- The words and the redirections of a line. -/
def splitTokens : List Token → Option (List (List Char) × List Pending)
  | [] => some ([], [])
  | .word w _ :: ts => (splitTokens ts).map fun r ↦ (w :: r.1, r.2)
  | .great :: .word w _ :: ts => (splitTokens ts).map fun r ↦ (r.1, .out w :: r.2)
  | .dless :: .word w q :: ts => (splitTokens ts).map fun r ↦ (r.1, .here w q :: r.2)
  | _ => none

/-- A redirection as it is carried out. -/
inductive Redirect
  | out (path : List Char)
  | here (body : List Char)
  deriving DecidableEq

/-- The bodies of the here-documents of a line, and the lines after them.  With a quoted delimiter
the body is taken as it stands; a body in which the shell would expand things, or which has no end,
is not read. -/
def readBodies : List Pending → List (List Char) → Option (List Redirect × List (List Char))
  | [], ls => some ([], ls)
  | .out path :: ps, ls => (readBodies ps ls).map fun r ↦ (.out path :: r.1, r.2)
  | .here delimiter quoted :: ps, ls =>
    if quoted && ls.contains delimiter then
      (readBodies ps (ls.dropWhile (· ≠ delimiter)).tail).map fun r ↦
        (.here (unlines (ls.takeWhile (· ≠ delimiter))) :: r.1, r.2)
    else none

/-- One simple command with its redirections. -/
structure Script where
  words : List (List Char)
  redirects : List Redirect
  deriving DecidableEq

/-- A script that is one simple command on its first line, with its here-documents. -/
def readScript (cs : List Char) : Option Script := do
  let (words, pending) ← splitTokens (← tokenize ((lines cs).headD []))
  let (redirects, rest) ← readBodies pending (lines cs).tail
  if commandName words && rest.all (·.all fun c ↦ c = ' ' || c = '\t') then
    some ⟨words, redirects⟩
  else none

/-! ## A text between single quotes -/

theorem foldlM_single {tokens : List Token} {text : List Char} {quoted : Bool} {cs : List Char}
    (hquote : apostrophe ∉ cs) (hnul : '\x00' ∉ cs) :
    cs.foldlM step ⟨tokens, some (text, quoted), .single⟩ =
      some ⟨tokens, some (text ++ cs, quoted), .single⟩ := by
  induction cs generalizing text with
  | nil => simp
  | cons c cs ih =>
    rw [List.mem_cons, not_or] at hquote hnul
    have hstep : step ⟨tokens, some (text, quoted), .single⟩ c =
        some ⟨tokens, some (text ++ [c], quoted), .single⟩ := by
      rw [step, if_neg (Ne.symm hnul.1)]
      simp [Ne.symm hquote.1, Lexer.push, Lexer.text, Lexer.quoted]
    have hrest := @ih (text ++ [c]) hquote.2 hnul.2
    rw [List.foldlM_cons, hstep]
    simpa using hrest

/-- A text without quotes between two of them is one word. -/
theorem tokenize_quoted {front cs : List Char} {tokens : List Token}
    (hfront : front.foldlM step {} = some ⟨tokens, none, .unquoted⟩)
    (hquote : apostrophe ∉ cs) (hnul : '\x00' ∉ cs) :
    tokenize (front ++ apostrophe :: (cs ++ [apostrophe])) = some (tokens ++ [.word cs true]) := by
  have hopen : step ⟨tokens, none, .unquoted⟩ apostrophe =
      some ⟨tokens, some ([], true), .single⟩ := rfl
  have hclose : step ⟨tokens, some (cs, true), .single⟩ apostrophe =
      some ⟨tokens, some (cs, true), .unquoted⟩ := rfl
  rw [tokenize, List.foldlM_append, hfront]
  simp only [Option.bind_eq_bind, Option.bind_some, List.foldlM_cons, hopen, List.foldlM_append,
    foldlM_single hquote hnul, List.nil_append, hclose]
  rfl

/-- A command line with the character NUL in it cannot be run. -/
theorem tokenize_of_nul {cs : List Char} (h : '\x00' ∈ cs) : tokenize cs = none := by
  have hfold (s : Lexer) : cs.foldlM step s = none := by
    induction cs generalizing s with
    | nil => cases h
    | cons c cs ih =>
      rw [List.foldlM_cons]
      rcases List.mem_cons.mp h with rfl | hrest
      · rfl
      · cases hs : step s c with
        | none => rfl
        | some s' => exact ih hrest s'
  rw [tokenize, hfold]
  rfl

/-! ## A text with quotes in it

`Lexer.kept` counts the single quotes that have become part of words.  A quote that opens or closes
is not kept, so the count stays behind the quotes read (`kept_foldlM`), by one more while single
quotes are open. -/

/-- The single quotes in a token. -/
def Token.quotes : Token → ℕ
  | word text _ => text.count apostrophe
  | _ => 0

namespace Lexer

/-- The single quotes in the words read so far. -/
def kept (s : Lexer) : ℕ := (s.tokens.map Token.quotes).sum + s.text.count apostrophe

/-- One while single quotes are open. -/
def opened (s : Lexer) : ℕ := if s.mode = .single then 1 else 0

theorem kept_push (s : Lexer) (c : Char) : (s.push c).kept = s.kept + [c].count apostrophe := by
  simp [kept, push, text, List.count_append, Nat.add_assoc]

theorem kept_quote (s : Lexer) (mode : Mode) : (s.quote mode).kept = s.kept := by
  simp [kept, quote, text]

theorem kept_endWord (s : Lexer) : s.endWord.kept = s.kept := by
  unfold endWord
  split
  · rfl
  · next text quoted hcurrent => simp [kept, Lexer.text, hcurrent, Token.quotes]

theorem mode_endWord (s : Lexer) : s.endWord.mode = s.mode := by
  unfold endWord
  split <;> rfl

end Lexer

/-- A character read outside single quotes opens them, or it is kept at most once. -/
theorem unquotedStep_cases {s s' : Lexer} {c : Char} (hmode : s.mode = .unquoted)
    (h : unquotedStep s c = some s') :
    c = apostrophe ∧ s'.kept = s.kept ∨
      s'.mode ≠ .single ∧ s'.kept ≤ s.kept + [c].count apostrophe := by
  unfold unquotedStep at h
  split at h
  · next hc =>
    cases h
    exact .inl ⟨hc, s.kept_quote _⟩
  right
  split at h
  · cases h
    exact ⟨by simp [Lexer.quote], by rw [Lexer.kept_quote]; omega⟩
  split at h
  · cases h
    exact ⟨by simp, Nat.le_add_right _ _⟩
  split at h
  · cases h
    exact ⟨by simp [Lexer.mode_endWord, hmode], by rw [Lexer.kept_endWord]; omega⟩
  split at h
  · split at h
    · cases h
    · cases h
      have hkept : s.endWord.kept = s.kept := s.kept_endWord
      refine ⟨by simp, ?_⟩
      simp only [Lexer.kept, List.map_append, List.map_cons, List.map_nil, List.sum_append,
        Token.quotes, List.sum_cons, List.sum_nil, Nat.add_zero] at hkept ⊢
      exact Nat.le_trans (Nat.le_of_eq hkept) (Nat.le_add_right _ _)
  split at h
  · split at h
    · cases h
    · cases h
      have hkept : s.endWord.kept = s.kept := s.kept_endWord
      exact ⟨by simp, Nat.le_trans (Nat.le_of_eq hkept) (Nat.le_add_right _ _)⟩
  split at h
  · cases h
  · cases h
    exact ⟨by simp [Lexer.push, hmode], Nat.le_of_eq (s.kept_push c)⟩

/-- Likewise for every mode but that of single quotes. -/
theorem step_cases {s s' : Lexer} {c : Char} (hmode : s.mode ≠ .single)
    (h : step s c = some s') :
    c = apostrophe ∧ s'.kept = s.kept ∨
      s'.mode ≠ .single ∧ s'.kept ≤ s.kept + [c].count apostrophe := by
  rw [step] at h
  split at h
  · cases h
  split at h
  · next hm => exact unquotedStep_cases hm h
  · next hm => exact absurd hm hmode
  · right
    split at h
    · cases h
      exact ⟨by simp, Nat.le_add_right _ _⟩
    split at h
    · cases h
      exact ⟨by simp, Nat.le_add_right _ _⟩
    split at h
    · cases h
    · next hm _ _ _ =>
      cases h
      exact ⟨by simp [Lexer.push, hm], Nat.le_of_eq (s.kept_push c)⟩
  · right
    split at h
    · cases h
      exact ⟨by simp, Nat.le_add_right _ _⟩
    · cases h
      have hkept : ((s.push c).quote .unquoted).kept = s.kept + [c].count apostrophe := by
        rw [Lexer.kept_quote, Lexer.kept_push]
      exact ⟨by simp [Lexer.quote], Nat.le_of_eq hkept⟩
  · right
    split at h
    · cases h
      exact ⟨by simp, Nat.le_add_right _ _⟩
    split at h
    · cases h
      exact ⟨by simp, Nat.le_of_eq (s.kept_push c)⟩
    · cases h
      have hkept : ((s.push backslash).push c).kept = s.kept + [c].count apostrophe := by
        rw [Lexer.kept_push, Lexer.kept_push]
        rfl
      exact ⟨by simp, Nat.le_of_eq hkept⟩
  · split at h
    · cases h
    · exact unquotedStep_cases (s := { s with mode := .unquoted }) rfl h
  · right
    split at h
    · cases h
      refine ⟨by simp, ?_⟩
      simp [Lexer.kept, Lexer.text, Token.quotes]
    · cases h
  · split at h
    · cases h
    · exact unquotedStep_cases (s := { s with mode := .unquoted }) rfl h

theorem kept_step {s s' : Lexer} {c : Char} (h : step s c = some s') :
    s'.kept + s'.opened ≤ s.kept + s.opened + [c].count apostrophe := by
  by_cases hmode : s.mode = .single
  · have hopened : s.opened = 1 := if_pos hmode
    have hopened' : s'.opened ≤ 1 := by
      unfold Lexer.opened
      split <;> omega
    rw [step, hmode] at h
    split at h
    · cases h
    · by_cases hc : c = apostrophe
      · rw [if_pos hc] at h
        cases h
        have hkept : Lexer.kept { s with mode := .unquoted } = s.kept := rfl
        omega
      · rw [if_neg hc] at h
        cases h
        rw [Lexer.kept_push]
        omega
  · have hopened : s.opened = 0 := if_neg hmode
    rcases step_cases hmode h with ⟨rfl, hkept⟩ | ⟨hmode', hkept⟩
    · have hone : [apostrophe].count apostrophe = 1 := rfl
      have hopened' : s'.opened ≤ 1 := by
        unfold Lexer.opened
        split <;> omega
      omega
    · have hopened' : s'.opened = 0 := if_neg hmode'
      omega

/-- Over a whole text, the quotes kept stay behind the quotes read. -/
theorem kept_foldlM {s s' : Lexer} {cs : List Char} (h : cs.foldlM step s = some s') :
    s'.kept + s'.opened ≤ s.kept + s.opened + cs.count apostrophe := by
  induction cs generalizing s with
  | nil =>
    cases h
    simp
  | cons c cs ih =>
    rw [List.foldlM_cons, Option.bind_eq_bind, Option.bind_eq_some_iff] at h
    obtain ⟨s₁, hstep, hrest⟩ := h
    have hfirst := kept_step hstep
    have hothers := ih hrest
    have hcount : (c :: cs).count apostrophe = [c].count apostrophe + cs.count apostrophe := by
      rw [← List.count_append, List.singleton_append]
    omega

theorem quotes_of_finish {s : Lexer} {ts : List Token} (h : finish s = some ts) :
    (ts.map Token.quotes).sum = s.kept := by
  have hts : ts = s.endWord.tokens := by
    unfold finish at h
    split at h <;> cases h <;> rfl
  have htext : s.endWord.text = [] := by
    unfold Lexer.endWord
    split
    · next hnone => simp [Lexer.text, hnone]
    · rfl
  rw [hts, ← s.kept_endWord, Lexer.kept, htext]
  rfl

/-- The characters after which the lexer is not in one of the three modes of quoting. -/
def Midway (e : Char) : Prop := e = backslash ∨ e = '>' ∨ e = '<'

instance (e : Char) : Decidable (Midway e) := inferInstanceAs (Decidable (_ ∨ _ ∨ _))

theorem mode_unquotedStep {s s' : Lexer} {e : Char} (he : ¬Midway e) (hmode : s.mode = .unquoted)
    (h : unquotedStep s e = some s') :
    s'.mode = .unquoted ∨ s'.mode = .single ∨ s'.mode = .double := by
  simp only [Midway, not_or] at he
  obtain ⟨hback, hgreat, hless⟩ := he
  rw [unquotedStep, if_neg hback, if_neg hgreat, if_neg hless] at h
  split at h
  · cases h
    exact .inr (.inl rfl)
  split at h
  · cases h
    exact .inr (.inr rfl)
  split at h
  · cases h
    exact .inl (by rw [Lexer.mode_endWord, hmode])
  split at h
  · cases h
  · cases h
    exact .inl hmode

theorem mode_step {s s' : Lexer} {e : Char} (he : ¬Midway e) (h : step s e = some s') :
    s'.mode = .unquoted ∨ s'.mode = .single ∨ s'.mode = .double := by
  rw [step] at h
  split at h
  · cases h
  split at h
  · next hm => exact mode_unquotedStep he hm h
  · next hm =>
    split at h
    · cases h
      exact .inl rfl
    · cases h
      exact .inr (.inl hm)
  · next hm =>
    rw [if_neg (fun hback ↦ he (.inl hback))] at h
    split at h
    · cases h
      exact .inl rfl
    split at h
    · cases h
    · cases h
      exact .inr (.inr hm)
  · split at h
    · cases h
      exact .inl rfl
    · cases h
      exact .inl rfl
  · split at h
    · cases h
      exact .inr (.inr rfl)
    split at h
    · cases h
      exact .inr (.inr rfl)
    · cases h
      exact .inr (.inr rfl)
  · split at h
    · cases h
    · exact mode_unquotedStep (s := { s with mode := .unquoted }) he rfl h
  · rw [if_neg (fun hless ↦ he (.inr (.inr hless)))] at h
    cases h
  · split at h
    · cases h
    · exact mode_unquotedStep (s := { s with mode := .unquoted }) he rfl h

/-- A quote that ends a text closes single quotes, or it leaves some open. -/
theorem mode_of_finish {s₁ s₂ : Lexer} {ts : List Token}
    (hmode : s₁.mode = .unquoted ∨ s₁.mode = .single ∨ s₁.mode = .double)
    (hquote : step s₁ apostrophe = some s₂) (hfinish : finish s₂ = some ts) :
    s₁.mode = .single ∧ s₂.kept = s₁.kept := by
  have hnul : apostrophe ≠ '\x00' := by decide
  rw [step, if_neg hnul] at hquote
  rcases hmode with hmode | hmode | hmode
  · rw [hmode] at hquote
    cases hquote
    cases hfinish
  · rw [hmode] at hquote
    cases hquote
    exact ⟨hmode, rfl⟩
  · rw [hmode] at hquote
    cases hquote
    rw [finish, show (s₁.push apostrophe).mode = .double from hmode] at hfinish
    cases hfinish

/-- **Quotes inside quotes are lost.**  A text that has a quote in it and is put between two of
them: however the shell ends up reading it, its words have fewer quotes than the text. -/
theorem kept_of_quote {front a b : List Char} {e : Char} {tokens ts : List Token}
    (hfront : front.foldlM step {} = some ⟨tokens, none, .unquoted⟩) (ha : apostrophe ∉ a)
    (hnul : '\x00' ∉ a) (he : ¬Midway e)
    (h : tokenize (front ++ apostrophe :: (a ++ apostrophe :: (b ++ [e]) ++ [apostrophe])) =
      some ts) :
    (ts.map Token.quotes).sum < (tokens.map Token.quotes).sum +
      (a ++ apostrophe :: (b ++ [e])).count apostrophe := by
  have hopen : step ⟨tokens, none, .unquoted⟩ apostrophe =
      some ⟨tokens, some ([], true), .single⟩ := rfl
  have hclose : step ⟨tokens, some (a, true), .single⟩ apostrophe =
      some ⟨tokens, some (a, true), .unquoted⟩ := rfl
  rw [tokenize, List.foldlM_append, hfront] at h
  simp only [Option.bind_eq_bind, Option.bind_some, List.foldlM_cons, hopen, List.append_assoc,
    List.cons_append, List.foldlM_append, foldlM_single ha hnul, List.nil_append, hclose,
    Option.bind_eq_some_iff, List.foldlM_nil] at h
  obtain ⟨s₂', ⟨s, hb, s₁, hlast, s₂, hquote, hs₂⟩, hfinish⟩ := h
  obtain rfl : s₂ = s₂' := Option.some.inj hs₂
  obtain ⟨hsingle, hsame⟩ := mode_of_finish (mode_step he hlast) hquote hfinish
  -- what is read after the first quote of the text starts with none kept
  have hstart : Lexer.kept ⟨tokens, some (a, true), .unquoted⟩ = (tokens.map Token.quotes).sum := by
    simp [Lexer.kept, Lexer.text, List.count_eq_zero.mpr ha]
  have hbound : s₁.kept + s₁.opened ≤ (tokens.map Token.quotes).sum + 0 +
      (b ++ [e]).count apostrophe := by
    rw [← hstart]
    apply kept_foldlM
    rw [List.foldlM_append, hb]
    simp [hlast]
  have hopened : s₁.opened = 1 := if_pos hsingle
  have htext : (a ++ apostrophe :: (b ++ [e])).count apostrophe =
      (b ++ [e]).count apostrophe + 1 := by
    simp [List.count_eq_zero.mpr ha]
  rw [quotes_of_finish hfinish]
  omega

/-- The quotes in the words of a simple command are those of its tokens. -/
theorem quotes_of_simpleCommand {cs : List Char} {words : List (List Char)}
    (h : simpleCommand cs = some words) :
    ∃ ts, tokenize cs = some ts ∧
      (ts.map Token.quotes).sum = (words.map (List.count apostrophe)).sum := by
  simp only [simpleCommand, Option.bind_eq_bind, Option.bind_eq_some_iff] at h
  obtain ⟨ts, hts, ws, hws, h⟩ := h
  refine ⟨ts, hts, ?_⟩
  obtain rfl : ws = words := by
    split at h
    · exact Option.some.inj h
    · cases h
  clear hts h
  induction ts generalizing ws with
  | nil =>
    cases hws
    rfl
  | cons t ts ih =>
    simp only [List.mapM_cons, Option.bind_eq_bind, Option.bind_eq_some_iff] at hws
    obtain ⟨w, hw, rest, hrest, heq⟩ := hws
    cases heq
    have hquotes : t.quotes = w.count apostrophe := by
      cases t with
      | word text quoted =>
        cases hw
        rfl
      | great => cases hw
      | dless => cases hw
    rw [List.map_cons, List.sum_cons, List.map_cons, List.sum_cons, ih rest hrest, hquotes]

/-! ## Here-documents -/

/-- A here-document has no more quotes than the lines it is read from. -/
theorem count_of_readBodies {ps : List Pending} {ls rest : List (List Char)} {rs : List Redirect}
    (h : readBodies ps ls = some (rs, rest)) {body : List Char} (hbody : .here body ∈ rs) :
    body.count apostrophe ≤ ls.flatten.count apostrophe := by
  induction ps generalizing ls rs rest with
  | nil =>
    cases h
    cases hbody
  | cons p ps ih =>
    cases p with
    | out path =>
      rw [readBodies, Option.map_eq_some_iff] at h
      obtain ⟨⟨rs', rest'⟩, hrest, heq⟩ := h
      cases heq
      rcases List.mem_cons.mp hbody with hhead | htail
      · cases hhead
      · exact ih hrest htail
    | here delimiter quoted =>
      rw [readBodies] at h
      split at h
      · rw [Option.map_eq_some_iff] at h
        obtain ⟨⟨rs', rest'⟩, hrest, heq⟩ := h
        cases heq
        rcases List.mem_cons.mp hbody with hhead | htail
        · cases hhead
          rw [count_unlines (by decide)]
          exact (List.takeWhile_sublist _).flatten.count_le _
        · refine Nat.le_trans (ih hrest htail) ?_
          have hsub : (ls.dropWhile (· ≠ delimiter)).tail.Sublist ls :=
            (List.tail_sublist _).trans (List.dropWhile_sublist _)
          exact hsub.flatten.count_le _
      · cases h

theorem count_of_readScript {cs : List Char} {script : Script} (h : readScript cs = some script)
    {body : List Char} (hbody : .here body ∈ script.redirects) :
    body.count apostrophe ≤ cs.count apostrophe := by
  simp only [readScript, Option.bind_eq_bind, Option.bind_eq_some_iff] at h
  obtain ⟨ts, -, ⟨words, pending⟩, -, ⟨redirects, rest⟩, hbodies, h⟩ := h
  split at h
  · cases h
    have hcount := count_of_readBodies hbodies hbody
    have htail : (lines cs).tail.flatten.count apostrophe ≤ (lines cs).flatten.count apostrophe :=
      (List.tail_sublist _).flatten.count_le _
    rw [count_flatten_lines (by decide)] at htail
    omega
  · cases h

/-- **A script with one here-document.**  The body is what stands before the last line, just when no
line of it is the delimiter. -/
theorem readScript_here_iff {first name path delimiter : List Char} {quoted : Bool}
    (hfirst : tokenize first = some [.word name false, .great, .word path quoted, .dless,
      .word delimiter true])
    (hname : commandName [name] = true) (hline : '\n' ∉ first) (hdelimiter : '\n' ∉ delimiter)
    (ls : List (List Char)) :
    readScript (first ++ '\n' :: (unlines ls ++ delimiter)) =
        some ⟨[name], [.out path, .here (unlines ls)]⟩ ↔
      delimiter ∉ ls.flatMap lines := by
  have hlines : lines (first ++ '\n' :: (unlines ls ++ delimiter)) =
      first :: (ls.flatMap lines ++ [delimiter]) := by
    rw [lines_append_newline, lines_of_not_mem hline, lines_append, lines_unlines,
      lines_of_not_mem hdelimiter]
    simp
  have hsplit : splitTokens [.word name false, .great, .word path quoted, .dless,
      .word delimiter true] = some ([name], [.out path, .here delimiter true]) := rfl
  set L := ls.flatMap lines with hL
  have hbodies : readBodies [.out path, .here delimiter true] (L ++ [delimiter]) =
      some ([.out path, .here (unlines ((L ++ [delimiter]).takeWhile (· ≠ delimiter)))],
        ((L ++ [delimiter]).dropWhile (· ≠ delimiter)).tail) := by
    simp [readBodies]
  simp only [readScript, hlines, List.headD_cons, List.tail_cons, hfirst, hsplit, hbodies, hname,
    Option.bind_eq_bind, Option.bind_some, Bool.true_and]
  rw [← unlines_flatMap_lines ls, ← hL]
  by_cases hmem : delimiter ∈ L
  · -- the body ends early
    refine iff_of_false (fun h ↦ ?_) (not_not.mpr hmem)
    obtain ⟨front, back, hcut, hfront⟩ := List.eq_append_cons_of_mem hmem
    have hall : ∀ l ∈ front, decide (l ≠ delimiter) = true := by
      intro l hl
      simpa using ne_of_mem_of_not_mem hl hfront
    have htake : (L ++ [delimiter]).takeWhile (· ≠ delimiter) = front := by
      rw [hcut, List.append_assoc, List.takeWhile_append_of_pos hall]
      simp
    rw [htake] at h
    split at h
    · have hbody : unlines front = unlines L := by simpa using h
      rw [hcut, unlines_append] at hbody
      have hlength := congrArg List.length hbody
      simp [unlines] at hlength
    · cases h
  · refine iff_of_true ?_ hmem
    have hall : ∀ l ∈ L, decide (l ≠ delimiter) = true := by
      intro l hl
      simpa using ne_of_mem_of_not_mem hl hmem
    rw [List.takeWhile_append_of_pos hall, List.dropWhile_append_of_pos hall]
    simp

end PosixSh
