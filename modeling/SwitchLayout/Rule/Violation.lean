/-
  SwitchLayout.Rule.Violation
  ───────────────────────────
  What the rules of this library can find wrong, with the facts that the message names.  The
  code, the severity and the wording of each violation stand here and nowhere else.
-/
import SwitchLayout.Finding

namespace SwitchLayout

/-- A breach of the layout of switches and closing braces. -/
inductive Violation where
  /-- A branch keyword is written `found` where `expected` is due. -/
  | notLower (branch : Branch) (expected found : String)
  /-- A branch keyword is not `indent` columns inside its switch. -/
  | branchIndent (branch : Branch) (indent : Nat)
  /-- A `case` is not followed by one space. -/
  | spacingAfterCase
  /-- Whitespace stands in front of the colon of a label. -/
  | spaceBeforeColon (branch : Branch)
  /-- A label is followed by a brace in the place of its colon. -/
  | braceOpener (branch : Branch)
  /-- A label ends in `found`, which is no colon. -/
  | wrongOpener (branch : Branch) (found : String)
  /-- The statement that ends a case is not `indent` columns inside it. -/
  | breakIndent (indent : Nat)
  /-- A `default` ends in a `break`. -/
  | defaultNoBreak
  /-- A `default` runs into a later branch. -/
  | defaultNotLast
  /-- A switch has a second `default`. -/
  | duplicateDefault
  /-- The statement that ends a case is not on the line below the code before it. -/
  | spacingBeforeBreak
  /-- The code of a case does not start on the line below its label. -/
  | blankLineAfterCase
  /-- A second `break` follows the end of a case. -/
  | multipleBreaks
  /-- A case falls into the next one without a comment. -/
  | silentFallthrough
  /-- A switch has no `default`. -/
  | missingDefault
  /-- A switch has no `case`. -/
  | missingCase
  /-- The closing brace of a switch is not below its keyword. -/
  | closeBraceAlign
  /-- A closing brace shares its line with other code. -/
  | closeBraceLine
  /-- A closing brace is indented by `found` columns where `expected` are due. -/
  | closeBraceIndent (expected found : Nat)
  /-- The statement that closes a branch is indented by `found` columns where `expected` are
  due. -/
  | caseCloserIndent (expected found : Nat)


namespace Violation

/-- The code of a violation. -/
def code : Violation → Code
  | notLower branch _ _ => .notLower branch
  | branchIndent branch _ => .branchIndent branch
  | spacingAfterCase => .spacingAfterCase
  | spaceBeforeColon branch => .spaceBeforeColon branch
  | braceOpener branch => .wrongOpener branch
  | wrongOpener branch _ => .wrongOpener branch
  | breakIndent _ => .breakIndent
  | defaultNoBreak => .defaultNoBreak
  | defaultNotLast => .defaultNotLast
  | duplicateDefault => .duplicateDefault
  | spacingBeforeBreak => .spacingBeforeBreak
  | blankLineAfterCase => .blankLineAfterCase
  | multipleBreaks => .multipleBreaks
  | silentFallthrough => .silentFallthrough
  | missingDefault => .missingDefault
  | missingCase => .missingCase
  | closeBraceAlign => .closeBraceAlign
  | closeBraceLine => .closeBraceLine
  | closeBraceIndent _ _ => .closeBraceIndent
  | caseCloserIndent _ _ => .caseCloserIndent

/-- Blank lines inside a case are a matter of looks; all else is structure. -/
def severity : Violation → Severity
  | spacingBeforeBreak | blankLineAfterCase => .warning
  | _ => .error

/-- The violation in words. -/
def message : Violation → String
  | notLower branch expected found =>
    branch.capitals ++ " keyword must be lowercase; expected \"" ++ expected ++ "\" but found \""
      ++ found ++ "\""
  | branchIndent branch indent =>
    branch.capitals ++ " keyword must be indented " ++ toString indent
      ++ " spaces from SWITCH keyword"
  | spacingAfterCase => "CASE keyword should be followed by a single space"
  | spaceBeforeColon branch =>
    "There must be no space before the colon in a " ++ branch.capitals ++ " statement"
  | braceOpener branch =>
    branch.capitals ++ " statements must not be defined using curly braces"
  | wrongOpener branch found =>
    branch.capitals ++ " statements must end with a colon, found \"" ++ found ++ "\""
  | breakIndent indent =>
    "Case breaking statement must be indented " ++ toString indent ++ " spaces from CASE keyword"
  | defaultNoBreak => "The \"default\" statement must not have a \"break\" statement"
  | defaultNotLast => "The \"default\" statement must be the last in the switch"
  | duplicateDefault => "SWITCH statements must contain only one DEFAULT case"
  | spacingBeforeBreak => "There should be no blank lines before case breaking statements"
  | blankLineAfterCase => "There should be no blank lines after CASE statements"
  | multipleBreaks => "Only one break statement is allowed per case"
  | silentFallthrough =>
    "If one case block has to pass control into another case block without having a break, "
      ++ "there must be a comment about it in the code"
  | missingDefault => "All SWITCH statements must contain a DEFAULT case"
  | missingCase => "SWITCH statements must contain at least one CASE statement"
  | closeBraceAlign => "Closing brace of SWITCH statement must be aligned with SWITCH keyword"
  | closeBraceLine => "Closing brace must be on a line by itself"
  | closeBraceIndent expected found =>
    "Closing brace indented incorrectly; expected " ++ toString expected ++ " spaces, found "
      ++ toString found
  | caseCloserIndent expected found =>
    "Case breaking statement indented incorrectly; expected " ++ toString expected
      ++ " spaces, found " ++ toString found

/-- The finding of the rule `rule` that the token `t` is at fault, with an edit if there is
one. -/
def finding (v : Violation) (rule : String) (t : Token) (fix : Option Edit) : Finding :=
  .pointingAt t v.severity rule v.code v.message fix

end Violation

end SwitchLayout
