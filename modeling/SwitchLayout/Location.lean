/-
  SwitchLayout.Location
  ─────────────────────
  Where a piece of text stands in a script, as an editor shows it: a line and a column, both
  counted from one.  A line ends at a line feed, at a carriage return, or at the pair of the
  two; a tab goes to the next tab stop.

  Lines, columns and tab stops are unsigned machine integers, for which `Nat` stands without their
  bound.  A column that overflows is left out: it takes a tab stop near the largest machine integer,
  or a text of that many characters.
-/
import SwitchLayout.Text.Character

namespace SwitchLayout

/-- A line and a column, both counted from one. -/
structure Location where
  line : Nat
  column : Nat
deriving DecidableEq

namespace Location

/-- Where a script starts. -/
def origin : Location := ⟨1, 1⟩

/-- The start of the line below. -/
def nextLine (l : Location) : Location := ⟨l.line + 1, 1⟩

/-- The column a tab leads to: the next one of the form `m * width + 1`.  Without tab stops
(`width = 0`) a tab is one column wide. -/
def tabStop (width column : Nat) : Nat :=
  if width = 0 then column + 1 else ((column - 1) / width + 1) * width + 1

/-- The location behind the character `c`, which `next` follows.  A carriage return in front
of a line feed leaves the break to it. -/
def step (width : Nat) (l : Location) (c : Char) (next : Option Char) : Location :=
  if c = '\n' ∨ (c = '\r' ∧ next ≠ some '\n') then l.nextLine
  else if c = '\t' then ⟨l.line, tabStop width l.column⟩
  else ⟨l.line, l.column + 1⟩

/-- The location behind a text that starts at `l`. -/
def after (width : Nat) (l : Location) : List Char → Location
  | [] => l
  | c :: cs => (l.step width c cs.head?).after width cs

@[simp] theorem after_nil (width : Nat) (l : Location) : l.after width [] = l := rfl

theorem after_cons (width : Nat) (l : Location) (c : Char) (cs : List Char) :
    l.after width (c :: cs) = (l.step width c cs.head?).after width cs := rfl

end Location

end SwitchLayout
