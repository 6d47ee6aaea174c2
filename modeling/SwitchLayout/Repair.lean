/-
  SwitchLayout.Repair
  ───────────────────
  Making the edits that findings propose.  `applyFixes` makes one round of them, at most one
  edit to a token; `repair` checks and makes rounds until nothing is left to edit.
-/
import SwitchLayout.Ruleset

namespace SwitchLayout

/-! ## §1. One round. -/

/-- The edits that are to be made, by position, and the number of those left out. -/
structure Selection where
  chosen : Std.ExtTreeMap Nat Edit
  skipped : Nat

namespace Selection

/-- Nothing is chosen. -/
def start : Selection := ⟨∅, 0⟩

/-- Whether the script has the characters that the edit takes away. -/
def fits (s : Script) (e : Edit) : Bool := (s.get? e.position).any e.fits

/-- Choose the edit, unless it does not fit or its token has one already. -/
def add (s : Script) (sel : Selection) (e : Edit) : Selection :=
  if fits s e && !sel.chosen.contains e.position then
    { sel with chosen := sel.chosen.insert e.position e }
  else { sel with skipped := sel.skipped + 1 }

/-- The text of a token, with the edit chosen for it. -/
def textOf (sel : Selection) (t : Token) : List Char :=
  match sel.chosen[t.position]? with
  | some e => e.apply t
  | none => t.chars

end Selection

/-- The outcome of one round of edits. -/
structure Outcome where
  /-- The text with the edits made. -/
  source : String
  /-- The number of edits made. -/
  applied : Nat
  /-- The number of edits left out. -/
  skipped : Nat
deriving DecidableEq

/-- Make edits.  Of several edits of one token the first that fits is made. -/
def Script.applyEdits (s : Script) (edits : List Edit) : Outcome :=
  let sel := edits.foldl (Selection.add s) .start
  { source := String.ofList (s.tokens.toList.flatMap sel.textOf)
    applied := sel.chosen.size
    skipped := sel.skipped }

/-- Make the edits that findings propose. -/
def Script.applyFixes (s : Script) (findings : List Finding) : Outcome :=
  s.applyEdits (findings.filterMap Finding.fix)

/-! ## §2. All rounds. -/

/-- The result of a repair. -/
structure Report where
  /-- The repaired text. -/
  source : String
  /-- The number of rounds in which an edit was made. -/
  passes : Nat
  /-- The number of edits made in all rounds. -/
  applied : Nat
  /-- The findings on the repaired text. -/
  remaining : List Finding
deriving DecidableEq

/-- The most rounds that a repair makes. -/
def maxPasses : Nat := 8

/-- Repair a text in at most `passes` rounds. -/
def repairWithin (settings : Settings) : Nat → String → Except Fault Report
  | passes, source => do
    let s ← (Script.read settings.tabWidth source).mapError .lex
    let findings ← s.check s.scopeTable settings
    let done : Report := ⟨source, 0, 0, findings⟩
    match passes with
    | 0 => return done
    | passes + 1 =>
      let outcome := s.applyFixes findings
      if !findings.any Finding.isFixable || outcome.applied == 0 then return done
      else
        let rest ← repairWithin settings passes outcome.source
        return { rest with passes := rest.passes + 1, applied := rest.applied + outcome.applied }

/-- Repair a text: make rounds of edits until none is left to make, or the rounds are used
up. -/
def repair (text : String) (settings : Settings) : Except Fault Report :=
  repairWithin settings maxPasses text

end SwitchLayout
