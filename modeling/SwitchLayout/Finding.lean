/-
  SwitchLayout.Finding
  ────────────────────
  What a rule reports: a finding points at a token, carries a code and a message, and may
  propose an edit of one token that cures it.
-/
import SwitchLayout.Token

namespace SwitchLayout

/-! ## §1. Codes. -/

/-- How grave a finding is. -/
inductive Severity where
  /-- The structure is at fault. -/
  | error
  /-- Only the looks are at fault. -/
  | warning
deriving DecidableEq

/-- The severity in words. -/
def Severity.name : Severity → String
  | .error => "error"
  | .warning => "warning"

/-- Which keyword a branch of a switch starts with. -/
inductive Branch where
  | caseLabel
  | defaultLabel
deriving DecidableEq

/-- The keyword in lower case. -/
def Branch.keyword : Branch → String
  | .caseLabel => "case"
  | .defaultLabel => "default"

/-- The keyword in capitals. -/
def Branch.capitals : Branch → String
  | .caseLabel => "CASE"
  | .defaultLabel => "DEFAULT"

/-- What a finding is about.  Codes are stable: settings name them to silence a check. -/
inductive Code where
  /-- A branch keyword is not in lower case. -/
  | notLower (branch : Branch)
  /-- A branch keyword is not one level inside its switch. -/
  | branchIndent (branch : Branch)
  /-- A `case` is not followed by one space. -/
  | spacingAfterCase
  /-- Whitespace stands in front of the colon of a label. -/
  | spaceBeforeColon (branch : Branch)
  /-- A label does not end in a colon. -/
  | wrongOpener (branch : Branch)
  /-- The statement that ends a case is not one level inside it. -/
  | breakIndent
  /-- A `default` ends in a `break`. -/
  | defaultNoBreak
  /-- A `default` runs into a later branch. -/
  | defaultNotLast
  /-- A switch has a second `default`. -/
  | duplicateDefault
  /-- The statement that ends a case is not on the line below the code before it. -/
  | spacingBeforeBreak
  /-- The code of a case does not start on the line below its label. -/
  | blankLineAfterCase
  /-- A second `break` follows the end of a case. -/
  | multipleBreaks
  /-- A case falls into the next one without a comment. -/
  | silentFallthrough
  /-- A switch has no `default`. -/
  | missingDefault
  /-- A switch has no `case`. -/
  | missingCase
  /-- The closing brace of a switch is not below its keyword. -/
  | closeBraceAlign
  /-- A closing brace shares its line with other code. -/
  | closeBraceLine
  /-- A closing brace is not below the line that opened its scope. -/
  | closeBraceIndent
  /-- The statement that closes a branch is not one level inside it. -/
  | caseCloserIndent
deriving DecidableEq

/-- The short name of a code. -/
def Code.name : Code → String
  | .notLower branch => branch.keyword ++ "NotLower"
  | .branchIndent branch => branch.keyword ++ "Indent"
  | .spacingAfterCase => "SpacingAfterCase"
  | .spaceBeforeColon branch => "SpaceBeforeColon" ++ branch.capitals
  | .wrongOpener branch => "WrongOpener" ++ branch.keyword
  | .breakIndent => "BreakIndent"
  | .defaultNoBreak => "DefaultNoBreak"
  | .defaultNotLast => "DefaultNotLastInSwitch"
  | .duplicateDefault => "DuplicateDefault"
  | .spacingBeforeBreak => "SpacingBeforeBreak"
  | .blankLineAfterCase => "SpacingAftercase"
  | .multipleBreaks => "FoundMultipleBreaksPerCase"
  | .silentFallthrough => "CaseWithoutBreakNoCommentFound"
  | .missingDefault => "MissingDefault"
  | .missingCase => "MissingCase"
  | .closeBraceAlign => "CloseBraceAlign"
  | .closeBraceLine => "Line"
  | .closeBraceIndent => "Indent"
  | .caseCloserIndent => "BreakIdent"

/-! ## §2. Edits. -/

/-- A change of one token: its first `deleted` characters go, and `inserted` comes in front of
the rest. -/
structure Edit where
  position : Nat
  deleted : Nat
  inserted : String
deriving DecidableEq

namespace Edit

/-- Put `text` in the place of the whole token. -/
def replace (t : Token) (text : String) : Edit := ⟨t.position, t.chars.length, text⟩

/-- Put `text` in front of the token at a position. -/
def insertBefore (position : Nat) (text : String) : Edit := ⟨position, 0, text⟩

/-- Take the first `count` characters off the token at a position. -/
def trimStart (position count : Nat) : Edit := ⟨position, count, ""⟩

/-- Whether the token has the characters that are to go. -/
def fits (e : Edit) (t : Token) : Bool := e.deleted ≤ t.chars.length

/-- The text of a token with the edit made. -/
def apply (e : Edit) (t : Token) : List Char := e.inserted.toList ++ t.chars.drop e.deleted

end Edit

/-! ## §3. Findings. -/

/-- A flaw that a rule found at a token. -/
structure Finding where
  severity : Severity
  /-- The name of the rule that reports it. -/
  rule : String
  code : Code
  message : String
  /-- The token that the finding points at. -/
  position : Nat
  /-- Where that token stands. -/
  location : Location
  /-- The edit that cures it. -/
  fix : Option Edit
deriving DecidableEq

namespace Finding

/-- Whether the finding proposes an edit. -/
def isFixable (f : Finding) : Bool := f.fix.isSome

/-- The name of the rule and the code. -/
def fullCode (f : Finding) : String := f.rule ++ "." ++ f.code.name

/-- The finding in one line. -/
def render (f : Finding) : String :=
  f.severity.name ++ ": " ++ f.message ++ " (" ++ f.fullCode ++ ") at line "
    ++ toString f.location.line ++ ", column " ++ toString f.location.column

/-- The finding with this content that points at the token `t`. -/
def pointingAt (t : Token) (severity : Severity) (rule : String) (code : Code)
    (message : String) (fix : Option Edit) : Finding :=
  ⟨severity, rule, code, message, t.position, t.location, fix⟩

end Finding

end SwitchLayout
