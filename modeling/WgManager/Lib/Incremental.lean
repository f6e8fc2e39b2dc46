import Mathlib.Data.List.Basic

/-!
# Parsers that ask for more

A parser of the start of a stream: on what has been received so far it fails, or has a result, or
asks for more.  It is run again on everything each time a piece of the stream arrives, until it
stops asking (`feed`).

`Stable` says that what it has said about a beginning of the stream it says of the whole.  Then how
the stream is cut into pieces makes no difference (`feed_eq`).
-/

set_option autoImplicit false

namespace Incremental

variable {α ε ρ : Type*} (parse : List α → Except ε (Option ρ))

/-- A failure or a result stays when more arrives. -/
def Stable : Prop := ∀ buf more, parse buf ≠ .ok none → parse (buf ++ more) = parse buf

/-- How far the reading has come: what has been received, what the parser says of it, and the pieces
that are not received yet. -/
structure Fed (α ε ρ : Type*) where
  buf : List α
  result : Except ε (Option ρ)
  rest : List (List α)

/-- The pieces are received one by one until the parser stops asking. -/
def feed (buf : List α) : List (List α) → Fed α ε ρ
  | [] => ⟨buf, .ok none, []⟩
  | data :: rest =>
    match parse (buf ++ data) with
    | .ok none => feed (buf ++ data) rest
    | result => ⟨buf ++ data, result, rest⟩

variable {parse}

theorem feed_cons_of_ne {buf data : List α} {rest : List (List α)}
    (h : parse (buf ++ data) ≠ .ok none) :
    feed parse buf (data :: rest) = ⟨buf ++ data, parse (buf ++ data), rest⟩ := by
  rw [feed]
  split
  · next hnone => exact absurd hnone h
  · rfl

theorem feed_cons_of_none {buf data : List α} {rest : List (List α)}
    (h : parse (buf ++ data) = .ok none) :
    feed parse buf (data :: rest) = feed parse (buf ++ data) rest := by
  rw [feed, h]

/-- While the parser asks for more, the next piece is received. -/
theorem rest_of_none {buf : List α} (pieces : List (List α))
    (h : (feed parse buf pieces).result = .ok none) : (feed parse buf pieces).rest = [] := by
  induction pieces generalizing buf with
  | nil => rfl
  | cons data rest ih =>
    by_cases hnone : parse (buf ++ data) = .ok none
    · rw [feed_cons_of_none hnone] at h ⊢
      exact ih h
    · rw [feed_cons_of_ne hnone] at h
      exact absurd h hnone

/-- **However the stream is cut**, the parser says of the pieces what it says of the whole, and no
byte is lost. -/
theorem feed_eq (hstable : Stable parse) {buf : List α} (hbuf : parse buf = .ok none)
    (pieces : List (List α)) :
    (feed parse buf pieces).result = parse (buf ++ pieces.flatten) ∧
      (feed parse buf pieces).result = parse (feed parse buf pieces).buf ∧
      (feed parse buf pieces).buf ++ (feed parse buf pieces).rest.flatten =
        buf ++ pieces.flatten := by
  induction pieces generalizing buf with
  | nil =>
    rw [List.flatten_nil, List.append_nil]
    exact ⟨hbuf.symm, hbuf.symm, List.append_nil buf⟩
  | cons data rest ih =>
    rw [List.flatten_cons, ← List.append_assoc]
    by_cases hnone : parse (buf ++ data) = .ok none
    · rw [feed_cons_of_none hnone]
      exact ih hnone
    · rw [feed_cons_of_ne hnone]
      exact ⟨(hstable _ _ hnone).symm, rfl, rfl⟩

end Incremental
