import Mathlib.Logic.Function.Basic
import Mathlib.Data.Nat.Bitwise

/-!
# Files with permissions, as the commands of a shell change them

A file has a text and permission bits, and a directory tree is a function from paths to files.  What
the shell does for `> path` takes two steps: the file is emptied, and created if it is not there,
and then the text arrives.  Whoever looks in between, or whatever stops the command there, finds an
empty file; `write_truncate` is what both together come to.

Paths are a type of the user's.
-/

set_option autoImplicit false

namespace Unix

/-- A file: what is in it, and its permission bits. -/
structure File where
  text : List Char
  mode : ℕ
  deriving DecidableEq

/-- The permission bits that a mask leaves. -/
def masked (mask mode : ℕ) : ℕ := mode - (mode &&& mask)

/-- Whether accounts other than the owner and the group may read a file with these bits. -/
def othersRead (mode : ℕ) : Bool := mode.testBit 2

/-- Whether they may go through a directory with these bits. -/
def othersEnter (mode : ℕ) : Bool := mode.testBit 0

variable {ρ : Type*} [DecidableEq ρ]

/-- The first half of `> path`: an existing file loses its text and keeps its bits, a new one gets
the bits that the mask leaves. -/
def truncate (mask : ℕ) (p : ρ) (fs : ρ → Option File) : ρ → Option File :=
  Function.update fs p (some ⟨[], ((fs p).map File.mode).getD (masked mask 0o666)⟩)

/-- The second half: the text goes into the file, unless it has been removed in between. -/
def write (text : List Char) (p : ρ) (fs : ρ → Option File) : ρ → Option File :=
  Function.update fs p ((fs p).map fun f ↦ ⟨text, f.mode⟩)

def chmod (mode : ℕ) (p : ρ) (fs : ρ → Option File) : ρ → Option File :=
  Function.update fs p ((fs p).map fun f ↦ ⟨f.text, mode⟩)

/-- `rm -f`. -/
def remove (p : ρ) (fs : ρ → Option File) : ρ → Option File := Function.update fs p none

variable {mask mode : ℕ} {text : List Char} {p q : ρ} {fs : ρ → Option File}

@[simp] theorem truncate_same : truncate mask p fs p =
    some ⟨[], ((fs p).map File.mode).getD (masked mask 0o666)⟩ := by simp [truncate]

@[simp] theorem truncate_of_ne (h : q ≠ p) : truncate mask p fs q = fs q := by simp [truncate, h]

@[simp] theorem write_same : write text p fs p = (fs p).map fun f ↦ ⟨text, f.mode⟩ := by
  simp [write]

@[simp] theorem write_of_ne (h : q ≠ p) : write text p fs q = fs q := by simp [write, h]

@[simp] theorem chmod_same : chmod mode p fs p = (fs p).map fun f ↦ ⟨f.text, mode⟩ := by
  simp [chmod]

@[simp] theorem chmod_of_ne (h : q ≠ p) : chmod mode p fs q = fs q := by simp [chmod, h]

@[simp] theorem remove_same : remove p fs p = none := by simp [remove]

@[simp] theorem remove_of_ne (h : q ≠ p) : remove p fs q = fs q := by simp [remove, h]

/-- The two halves of `> path` together. -/
theorem write_truncate : write text p (truncate mask p fs) =
    Function.update fs p (some ⟨text, ((fs p).map File.mode).getD (masked mask 0o666)⟩) := by
  funext q
  by_cases h : q = p
  · subst h
    simp
  · simp [h]

end Unix
