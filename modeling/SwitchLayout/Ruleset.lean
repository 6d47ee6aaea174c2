/-
  SwitchLayout.Ruleset
  ────────────────────
  Running rules over a script.  Findings come back in the order of their positions; at one
  position, in the order of the rules and then as each rule reports them.  Suppressed codes
  are left out.

  Main statements: `sortByPosition_sorted` and `filter_sortByPosition` — findings are put in
  order, and those at one position keep theirs.
-/
import SwitchLayout.Scope.Detect
import SwitchLayout.Rule.ScopeEnd
import SwitchLayout.Rule.SwitchBody

namespace SwitchLayout

/-! ## §1. Faults. -/

/-- Why a run gives no findings. -/
inductive Fault where
  /-- The text cannot be read. -/
  | lex (e : LexError)
  /-- The settings cannot be used. -/
  | settings (e : SettingsError)
  /-- The scope table does not fit. -/
  | scope (e : ScopeError)
deriving DecidableEq

/-- The fault in words. -/
def Fault.message : Fault → String
  | .lex e => e.message
  | .settings e => e.message
  | .scope e => e.message

/-! ## §2. The order of findings. -/

/-- Place a finding in front of the first one whose position is not smaller. -/
def placeByPosition (f : Finding) : List Finding → List Finding
  | [] => [f]
  | g :: gs => if g.position < f.position then g :: placeByPosition f gs else f :: g :: gs

/-- The findings in the order of their positions; those at one position keep their order. -/
def sortByPosition (fs : List Finding) : List Finding := fs.foldr placeByPosition []

theorem mem_placeByPosition (f g : Finding) (gs : List Finding) :
    g ∈ placeByPosition f gs ↔ g = f ∨ g ∈ gs := by
  induction gs with
  | nil => simp [placeByPosition]
  | cons h gs ih =>
      rw [placeByPosition]
      split
      · rw [List.mem_cons, ih, List.mem_cons]
        exact or_left_comm
      · exact List.mem_cons

theorem placeByPosition_sorted (f : Finding) (gs : List Finding)
    (h : gs.Pairwise (fun a b => a.position ≤ b.position)) :
    (placeByPosition f gs).Pairwise (fun a b => a.position ≤ b.position) := by
  induction gs with
  | nil => simp [placeByPosition]
  | cons g gs ih =>
      have hg := (List.pairwise_cons.mp h).1
      have hgs := (List.pairwise_cons.mp h).2
      rw [placeByPosition]
      split
      · rename_i hlt
        -- the finding goes further back, and `g` stays in front of everything
        refine List.pairwise_cons.mpr ⟨fun a ha => ?_, ih hgs⟩
        rcases (mem_placeByPosition f a gs).mp ha with rfl | ha
        · omega
        · exact hg a ha
      · rename_i hge
        -- the finding stands in front of `g` and so of everything behind it
        refine List.pairwise_cons.mpr ⟨fun a ha => ?_, h⟩
        rcases List.mem_cons.mp ha with rfl | ha
        · omega
        · have hle := hg a ha
          omega

/-- **Order.**  The findings come out in the order of their positions. -/
theorem sortByPosition_sorted (fs : List Finding) :
    (sortByPosition fs).Pairwise (fun a b => a.position ≤ b.position) := by
  induction fs with
  | nil => exact List.Pairwise.nil
  | cons f fs ih => exact placeByPosition_sorted f (sortByPosition fs) ih

theorem filter_placeByPosition (p : Nat) (f : Finding) (gs : List Finding) :
    (placeByPosition f gs).filter (·.position == p) = (f :: gs).filter (·.position == p) := by
  induction gs with
  | nil => rfl
  | cons g gs ih =>
      rw [placeByPosition]
      split
      · rename_i hlt
        by_cases hg : g.position = p
        · -- `f` stands elsewhere, so that it drops out on both sides
          have hf : f.position ≠ p := by omega
          simpa [hg, hf] using ih
        · simpa [hg, List.filter_cons] using ih
      · rfl

/-- **Stability.**  The findings at one position keep their order. -/
theorem filter_sortByPosition (p : Nat) (fs : List Finding) :
    (sortByPosition fs).filter (·.position == p) = fs.filter (·.position == p) := by
  induction fs with
  | nil => rfl
  | cons f fs ih =>
      show (placeByPosition f (sortByPosition fs)).filter (·.position == p) = _
      rw [filter_placeByPosition, List.filter_cons, List.filter_cons, ih]

/-! ## §3. Rulesets. -/

/-- Rules in the order in which they report. -/
structure Ruleset where
  rules : List Rule

namespace Ruleset

/-- The rules of this library. -/
def standard : Ruleset := ⟨[SwitchBody.rule, ScopeEnd.rule]⟩

/-- The ruleset with one more rule. -/
def add (rs : Ruleset) (r : Rule) : Ruleset := ⟨rs.rules ++ [r]⟩

/-- The names of the rules. -/
def names (rs : Ruleset) : List String := rs.rules.map Rule.name

/-- Everything the rules report, rule by rule. -/
def findings (rs : Ruleset) (s : Script) (table : ScopeTable) (settings : Settings) :
    List Finding :=
  rs.rules.flatMap fun r => r.findings s table settings

/-- Run the rules.  The settings and the fit of the table are looked at before anything
else. -/
def run (rs : Ruleset) (s : Script) (table : ScopeTable) (settings : Settings) :
    Except Fault (List Finding) := do
  settings.validate.mapError .settings
  (table.checkBounds s.size).mapError .scope
  return sortByPosition ((rs.findings s table settings).filter (!settings.suppresses ·))

end Ruleset

/-! ## §4. Checking. -/

/-- Check a script with the rules of this library. -/
def Script.check (s : Script) (table : ScopeTable) (settings : Settings) :
    Except Fault (List Finding) :=
  Ruleset.standard.run s table settings

/-- Read a text, find its scopes and check it.  Settings that cannot be used are refused before
the text is read. -/
def checkText (text : String) (settings : Settings) : Except Fault (List Finding) := do
  settings.validate.mapError .settings
  let s ← (Script.read settings.tabWidth text).mapError .lex
  s.check s.scopeTable settings

end SwitchLayout
