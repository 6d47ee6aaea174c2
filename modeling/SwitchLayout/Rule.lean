/-
  SwitchLayout.Rule
  ─────────────────
  A rule looks at a script from the positions that interest it.  It sees the script, its scope
  table and the settings, and all it does is to return findings.
-/
import SwitchLayout.Scope.Table
import SwitchLayout.Settings

namespace SwitchLayout

/-- A check of the layout. -/
structure Rule where
  /-- The name that its findings carry. -/
  name : String
  /-- The kinds of the tokens that it is asked about. -/
  kinds : List TokenKind
  /-- The findings on the construct whose keyword stands at a position. -/
  check : Script → ScopeTable → Settings → Nat → List Finding

/-- The findings of the rule on every token that interests it, in the order of the tokens. -/
def Rule.findings (r : Rule) (s : Script) (table : ScopeTable) (settings : Settings) :
    List Finding :=
  ((List.range s.size).filter (fun i => r.kinds.contains (s.kindAt i))).flatMap
    (r.check s table settings)

end SwitchLayout
