/-
  SwitchLayout.Brackets
  ─────────────────────
  Which bracket of a script belongs to which.  One pass from left to right keeps the open
  brackets innermost first; a closing bracket takes the nearest open one of its own shape, and
  whatever was opened inside that and not closed stays without a partner.  A closing bracket
  that finds no open one of its shape stays without a partner too.

  With the pairs known, `topLevel` lists the positions of a stretch that stand in no matched
  group of that stretch.

  Main statement: `lt_stepOver` — stepping over a group always goes forward.
-/
import SwitchLayout.Script
import Std.Data.ExtTreeMap

namespace SwitchLayout

/-! ## §1. Shapes. -/

/-- The shape of a bracket. -/
inductive BracketShape where
  | round
  | square
  | curly
deriving DecidableEq

/-- The shape that a token of this kind opens. -/
def TokenKind.opens? : TokenKind → Option BracketShape
  | .openParen => some .round
  | .openBracket => some .square
  | .openBrace => some .curly
  | _ => none

/-- The shape that a token of this kind closes. -/
def TokenKind.closes? : TokenKind → Option BracketShape
  | .closeParen => some .round
  | .closeBracket => some .square
  | .closeBrace => some .curly
  | _ => none

/-! ## §2. Pairing. -/

/-- The pairs of brackets found so far, and the open brackets, innermost first. -/
structure BracketScan where
  opened : List (Nat × BracketShape)
  partners : Std.ExtTreeMap Nat Nat

namespace BracketScan

/-- Nothing is open and nothing is paired. -/
def start : BracketScan := ⟨[], ∅⟩

/-- Take one more token into account. -/
def step (scan : BracketScan) (t : Token) : BracketScan :=
  match t.kind.opens?, t.kind.closes? with
  | some shape, _ => { scan with opened := (t.position, shape) :: scan.opened }
  | none, none => scan
  | none, some shape =>
    match scan.opened.dropWhile (fun bracket => bracket.2 ≠ shape) with
    | [] => scan
    | (opener, _) :: outer =>
      { opened := outer
        partners := (scan.partners.insert opener t.position).insert t.position opener }

end BracketScan

/-- The paired brackets of a script. -/
structure Brackets where
  partners : Std.ExtTreeMap Nat Nat

/-- Pair the brackets of a script. -/
def Script.brackets (s : Script) : Brackets :=
  ⟨(s.tokens.toList.foldl BracketScan.step .start).partners⟩

namespace Brackets

/-- The partner of the bracket at a position. -/
def partner? (b : Brackets) (i : Nat) : Option Nat := b.partners[i]?

/-- The closing bracket of the group that opens at a position. -/
def groupEnd? (b : Brackets) (i : Nat) : Option Nat := (b.partner? i).filter (i < ·)

/-! ## §3. Walking over groups. -/

/-- The position behind the group that opens at `i`, or behind `i` alone when no matched group
opens there. -/
def stepOver (b : Brackets) (i : Nat) : Nat := (b.groupEnd? i).getD i + 1

/-- A group ends behind its opening bracket. -/
theorem lt_of_groupEnd? {b : Brackets} {i j : Nat} (h : b.groupEnd? i = some j) : i < j := by
  have hfilter := (Option.filter_eq_some_iff.mp h).2
  simpa using hfilter

/-- **Progress.**  Stepping over a group always goes forward. -/
theorem lt_stepOver (b : Brackets) (i : Nat) : i < b.stepOver i := by
  rw [stepOver]
  cases h : b.groupEnd? i with
  | none => simp
  | some j =>
      have hlt := lt_of_groupEnd? h
      simp only [Option.getD_some]
      omega

/-- The positions from `start` up to `stop` that are met when every matched group is stepped
over once its opening bracket was met. -/
def topLevel (b : Brackets) (start stop : Nat) : List Nat :=
  if start < stop then start :: b.topLevel (b.stepOver start) stop else []
termination_by stop - start
decreasing_by
  have := b.lt_stepOver start
  omega

end Brackets

end SwitchLayout
