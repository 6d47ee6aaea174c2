/-
  SwitchLayout.Rule.SwitchBody
  ────────────────────────────
  The layout of a switch: the case, the indentation and the spacing of its labels, the
  statement that ends each branch, the comment that a fallthrough needs, and a `default` that
  is there and comes last.  A switch inside a switch is left to its own turn.

  Main statement: `lt_resume` — the walk over the branches goes forward also where a table
  from elsewhere names a closer that lies behind.
-/
import SwitchLayout.Rule
import SwitchLayout.Rule.Violation
import SwitchLayout.Text.Lowercase

namespace SwitchLayout

/-- A switch that is looked at: its script, the scopes known there, its own scope and the width
of an indentation level. -/
structure SwitchBody where
  script : Script
  table : ScopeTable
  scope : Scope
  indent : Nat

namespace SwitchBody

/-- The name of the rule. -/
def ruleName : String := "SwitchDeclaration"

/-! ## §1. Columns and findings. -/

/-- The column of the branch keywords. -/
def caseColumn (b : SwitchBody) : Nat := b.script.columnAt b.scope.condition + b.indent

/-- The column of the statements that end the cases. -/
def breakColumn (b : SwitchBody) : Nat := b.caseColumn + b.indent

/-- The violation as a finding on the token at `i`. -/
def report (b : SwitchBody) (v : Violation) (i : Nat) (fix : Option Edit) : Finding :=
  v.finding ruleName (b.script.tokenAt i) fix

/-- The violation as a finding on the token at `i`, if it is one. -/
def reportIf (b : SwitchBody) (found : Bool) (v : Violation) (i : Nat) : List Finding :=
  if found then [b.report v i none] else []

/-! ## §2. Branches. -/

/-- The token starts a branch or a switch. -/
def isWaypoint (kind : TokenKind) : Bool := kind.isBranch || kind == .switchKw

/-- Where to go on behind an inner switch: behind its closer, if it has a scope. -/
def resume (b : SwitchBody) (i : Nat) : Nat := max i ((b.table.closerOf? i).getD i) + 1

/-- **Progress.**  The walk goes forward behind an inner switch, whatever the table says. -/
theorem lt_resume (b : SwitchBody) (i : Nat) : i < b.resume i := by
  rw [resume]
  omega

/-- The branches from `start` to the end of the switch, those of inner switches left out. -/
def branchesFrom (b : SwitchBody) (start : Nat) : List Nat :=
  match h : b.script.next? isWaypoint start b.scope.closer with
  | none => []
  | some i =>
    if b.script.kindAt i = .switchKw then b.branchesFrom (b.resume i)
    else i :: b.branchesFrom (i + 1)
termination_by b.scope.closer - start
decreasing_by
  · obtain ⟨hlo, hhi, _⟩ := (firstIn?_eq_some_iff _ _ _ _).mp h
    have := b.lt_resume i
    omega
  · obtain ⟨hlo, hhi, _⟩ := (firstIn?_eq_some_iff _ _ _ _).mp h
    omega

/-- The branches of the switch. -/
def branches (b : SwitchBody) : List Nat := b.branchesFrom (b.scope.opener + 1)

/-! ## §3. Labels. -/

/-- A branch keyword is written in lower case. -/
def casingFindings (b : SwitchBody) (branch : Branch) (i : Nat) : List Finding :=
  let token := b.script.tokenAt i
  let expected := String.ofList (Text.lowercase token.chars)
  if token.text = expected then []
  else [b.report (.notLower branch expected token.text) i (some (.replace token expected))]

/-- The edit that leaves one space between a `case` and what follows it. -/
def caseSpacingFix? (b : SwitchBody) (i : Nat) : Option Edit :=
  match b.script.get? (i + 1) with
  | none => none
  | some next =>
    if next.kind = .whitespace then
      if next.text = " " then none else some (.replace next " ")
    else some (.insertBefore next.position " ")

/-- A `case` is followed by one space. -/
def caseSpacingFindings (b : SwitchBody) (i : Nat) : List Finding :=
  match b.caseSpacingFix? i with
  | none => []
  | some fix => [b.report .spacingAfterCase i (some fix)]

/-- The casing and the indentation of a branch keyword, and the space behind a `case`. -/
def labelFindings (b : SwitchBody) (branch : Branch) (i : Nat) : List Finding :=
  b.casingFindings branch i
    ++ b.reportIf (b.script.columnAt i != b.caseColumn) (.branchIndent branch b.indent) i
    ++ (if branch = .caseLabel then b.caseSpacingFindings i else [])

/-- The first position at which whitespace in front of a colon is at fault.  The token behind a
`case` belongs to the spacing of the keyword. -/
def firstSpaceless (branch : Branch) (i : Nat) : Nat :=
  match branch with
  | .caseLabel => i + 2
  | .defaultLabel => i + 1

/-- A label ends in a colon, with no whitespace in front of it. -/
def openerFindings (b : SwitchBody) (branch : Branch) (i : Nat) (scope : Scope) : List Finding :=
  let opener := b.script.tokenAt scope.opener
  if opener.kind = .colon then
    let before := scope.opener - 1
    if firstSpaceless branch i ≤ before ∧ b.script.kindAt before = .whitespace then
      [b.report (.spaceBeforeColon branch) i (some (.replace (b.script.tokenAt before) ""))]
    else []
  else if opener.kind = .openBrace then [b.report (.braceOpener branch) i none]
  else [b.report (.wrongOpener branch opener.text) i none]

/-! ## §4. Ends of branches. -/

/-- A `default` does not end in `break`, and unless it leaves the switch by another statement
it runs to the end of the switch. -/
def defaultEndFindings (b : SwitchBody) (i : Nat) (scope : Scope) : List Finding :=
  let closer := b.script.kindAt scope.closer
  if closer = .breakKw then [b.report .defaultNoBreak i none]
  else b.reportIf
    (scope.closer != b.scope.closer && !closer.isTerminator && closer != .exitKw)
    .defaultNotLast i

/-- The edit that moves the token at `i` to the column `expected`.  Only a token that starts
its line is moved, and it is moved back only over plain spaces. -/
def indentFix? (b : SwitchBody) (i expected : Nat) : Option Edit :=
  if b.script.lineStart? i ≠ some i then none
  else
    let actual := b.script.columnAt i
    if actual < expected then
      some (.insertBefore i (String.ofList (List.replicate (expected - actual) ' ')))
    else if i = 0 then none
    else
      let before := b.script.tokenAt (i - 1)
      if before.kind = .whitespace ∧ actual - expected ≤ before.chars.length
          ∧ before.chars.all (· == ' ') then
        some (.trimStart before.position (actual - expected))
      else none

/-- The statement that ends a case is one level inside it. -/
def breakIndentFindings (b : SwitchBody) (closer : Nat) : List Finding :=
  if b.script.columnAt closer = b.breakColumn then []
  else [b.report (.breakIndent b.indent) closer (b.indentFix? closer b.breakColumn)]

/-- The line on which the code in front of `closer` ends, or 0 without such code. -/
def contentLineBefore (b : SwitchBody) (closer : Nat) : Nat :=
  match b.script.previous? (· ≠ .whitespace) (closer - 1) (b.scope.condition + 1) with
  | some i => b.script.endLineAt i
  | none => 0

/-- The `break` that follows the end of the statement at `closer`. -/
def secondBreak? (b : SwitchBody) (closer : Nat) : Option Nat := do
  let semicolon ← b.script.next? (· = .semicolon) closer b.scope.closer
  let next ← b.script.next? (· ≠ .whitespace) (semicolon + 1) b.scope.closer
  if b.script.kindAt next = .breakKw then some next else none

/-- The first token of the code between a label and the end of its branch. -/
def firstContent (b : SwitchBody) (scope : Scope) : Nat :=
  (b.script.next? (· ≠ .whitespace) (scope.opener + 1) scope.closer).getD scope.closer

/-- The statement that ends the case at `i`: its place, the lines around it, and that it is the
only one.  A shared closer is looked at once, for its owner. -/
def caseEndFindings (b : SwitchBody) (i : Nat) (scope : Scope) : List Finding :=
  let closer := scope.closer
  if (b.script.kindAt closer).isTerminator && b.table.isOwner i closer then
    -- its column
    b.breakIndentFindings closer
      -- the line above
      ++ b.reportIf (b.contentLineBefore closer + 1 != b.script.lineAt closer)
          .spacingBeforeBreak closer
      -- what follows it
      ++ (b.secondBreak? closer).toList.map (b.report .multipleBreaks · none)
      -- the line below the label
      ++ b.reportIf (b.script.lineAt (b.firstContent scope) != b.script.lineAt i + 1)
          .blankLineAfterCase i
  else []

/-! ## §5. Fallthrough. -/

/-- Whether a comment between the case at `i` and the one at `next` ends on the line above
`next`. -/
def isAnnounced (b : SwitchBody) (i next : Nat) : Bool :=
  match b.script.previous? (· = .comment) (next - 1) (i + 1) with
  | some comment => b.script.endLineAt comment + 1 == b.script.lineAt next
  | none => false

/-- Whether the scope of the case at `next` ends where `scope` does. -/
def sharesCloser (b : SwitchBody) (scope : Scope) (next : Nat) : Bool :=
  (b.table.scopeOf? next).map Scope.closer == some scope.closer

/-- A case that falls into the next one says so in a comment. -/
def fallthroughFindings (b : SwitchBody) (i : Nat) (scope : Scope) : Option Nat → List Finding
  | none => []
  | some next =>
    b.reportIf (b.sharesCloser scope next && !b.isAnnounced i next) .silentFallthrough i

/-! ## §6. The switch. -/

/-- The findings on the `default` at `i`. -/
def defaultFindings (b : SwitchBody) (i : Nat) : List Finding :=
  b.labelFindings .defaultLabel i ++
    match b.table.scopeOf? i with
    | none => []
    | some scope => b.openerFindings .defaultLabel i scope ++ b.defaultEndFindings i scope

/-- The findings on the `case` at `i`, behind which `nextCase?` is the next one. -/
def caseFindings (b : SwitchBody) (i : Nat) (nextCase? : Option Nat) : List Finding :=
  b.labelFindings .caseLabel i ++
    match b.table.scopeOf? i with
    | none => []
    | some scope =>
      b.openerFindings .caseLabel i scope ++ b.caseEndFindings i scope
        ++ b.fallthroughFindings i scope nextCase?

/-- The token at `i` is a `default`. -/
def isDefault (b : SwitchBody) (i : Nat) : Bool := b.script.kindAt i == .defaultKw

/-- The findings on the branches, where `seenDefault` says whether a `default` came before. -/
def branchFindings (b : SwitchBody) (seenDefault : Bool) : List Nat → List Finding
  | [] => []
  | i :: below =>
    if b.isDefault i then
      b.reportIf seenDefault .duplicateDefault i ++ b.defaultFindings i
        ++ b.branchFindings true below
    else
      b.caseFindings i (below.find? (b.script.kindAt · == .caseKw))
        ++ b.branchFindings seenDefault below

/-- The findings on the switch. -/
def findings (b : SwitchBody) : List Finding :=
  let branches := b.branches
  let keyword := b.scope.condition
  b.branchFindings false branches
    ++ b.reportIf (!branches.any b.isDefault) .missingDefault keyword
    ++ b.reportIf (b.script.columnAt b.scope.closer != b.script.columnAt keyword)
        .closeBraceAlign b.scope.closer
    ++ b.reportIf (branches.all b.isDefault) .missingCase keyword

/-- The findings on the switch whose keyword stands at `i`.  Without a scope there is nothing
to look at. -/
def check (s : Script) (table : ScopeTable) (settings : Settings) (i : Nat) : List Finding :=
  match table.scopeOf? i with
  | none => []
  | some scope => (SwitchBody.mk s table scope settings.indent).findings

/-- The rule on switches. -/
def rule : Rule := ⟨ruleName, [.switchKw], check⟩

end SwitchBody

end SwitchLayout
