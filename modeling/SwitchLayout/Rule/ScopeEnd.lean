/-
  SwitchLayout.Rule.ScopeEnd
  ──────────────────────────
  The closer of a scope stands on a line of its own, below the start of the line that opened
  the scope.  The closer of a branch is the statement that leaves it, and stands one level
  deeper.
-/
import SwitchLayout.Rule
import SwitchLayout.Rule.Violation

namespace SwitchLayout

namespace ScopeEnd

/-- The name of the rule. -/
def ruleName : String := "ScopeClosingBrace"

/-- The last token of a scope in front of its closer that is not whitespace, or its opener. -/
def lastContent (s : Script) (scope : Scope) : Nat :=
  (s.previous? (· ≠ .whitespace) (scope.closer - 1) scope.opener).getD scope.opener

/-- The column of the token that starts the line of the token at `i`.  A modifier or a closing
brace in front of the keyword counts. -/
def startColumn (s : Script) (i : Nat) : Nat := s.columnAt ((s.lineStart? i).getD i)

/-- What is wrong with the closer of a scope. -/
def violation? (s : Script) (indent : Nat) (scope : Scope) : Option Violation :=
  let start := startColumn s scope.condition
  let found := s.columnAt scope.closer
  if s.endLineAt (lastContent s scope) = s.lineAt scope.closer then some .closeBraceLine
  else if (s.kindAt scope.condition).isBranch then
    if found = start + indent then none
    else some (.caseCloserIndent (start + indent - 1) (found - 1))
  else if found = start then none
  else some (.closeBraceIndent (start - 1) (found - 1))

/-- The findings on the scope of the condition at `i`.  A shared closer is looked at once, for
its owner. -/
def check (s : Script) (table : ScopeTable) (settings : Settings) (i : Nat) : List Finding :=
  match table.scopeOf? i with
  | none => []
  | some scope =>
    if table.isOwner i scope.closer then
      (violation? s settings.indent scope).toList.map fun v =>
        v.finding ruleName (s.tokenAt scope.closer) none
    else []

/-- The rule on the closers of scopes. -/
def rule : Rule := ⟨ruleName, [.switchKw, .caseKw, .defaultKw, .scopeKw], check⟩

end ScopeEnd

end SwitchLayout
