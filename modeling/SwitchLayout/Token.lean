/-
  SwitchLayout.Token
  ──────────────────
  The tokens of a script.  A token carries its kind, its text as written, the location of its
  first character, and its position among the tokens of the script.
-/
import SwitchLayout.Location

namespace SwitchLayout

/-! ## §1. Kinds. -/

/-- What a token is.  Keywords have their kind in any letter case, so `CASE` is a `caseKw`
token; how it is written shows in its text. -/
inductive TokenKind where
  /-- The keyword `switch`. -/
  | switchKw
  /-- The keyword `case`. -/
  | caseKw
  /-- The keyword `default`. -/
  | defaultKw
  /-- The keyword `break`. -/
  | breakKw
  /-- The keyword `return`. -/
  | returnKw
  /-- The keyword `continue`. -/
  | continueKw
  /-- The keyword `throw`. -/
  | throwKw
  /-- The keyword `exit` or `die`. -/
  | exitKw
  /-- Any other keyword that can own a braced body, such as `if` or `class`. -/
  | scopeKw
  /-- A name, a variable or a number. -/
  | word
  /-- A quoted string with its quotes. -/
  | string
  /-- A run of blanks, or one line break. -/
  | whitespace
  /-- A line comment or a block comment. -/
  | comment
  | colon
  | semicolon
  | openBrace
  | closeBrace
  | openParen
  | closeParen
  | openBracket
  | closeBracket
  /-- The question mark of a ternary. -/
  | question
  /-- Any other operator or punctuation. -/
  | other
deriving DecidableEq

namespace TokenKind

/-- The keyword opens a branch of a switch. -/
def isBranch : TokenKind → Bool
  | caseKw | defaultKw => true
  | _ => false

/-- The keyword ends the run of statements it stands in. -/
def isTerminator : TokenKind → Bool
  | breakKw | returnKw | continueKw | throwKw => true
  | _ => false

/-- The token is layout or commentary and takes no part in the structure of a script. -/
def isTrivia : TokenKind → Bool
  | whitespace | comment => true
  | _ => false

end TokenKind

/-! ## §2. Tokens. -/

/-- A token of a script. -/
structure Token where
  kind : TokenKind
  text : String
  location : Location
  position : Nat
deriving DecidableEq

namespace Token

/-- The line of the first character. -/
def line (t : Token) : Nat := t.location.line

/-- The column of the first character. -/
def column (t : Token) : Nat := t.location.column

/-- The characters of the text. -/
def chars (t : Token) : List Char := t.text.toList

/-- The line of the last character, line breaks at the end of the text left out.  Only line
feeds are counted, so the text is read from its end. -/
def endLine (t : Token) : Nat :=
  t.line + (t.chars.reverse.dropWhile Text.isLineBreak).count '\n'

/-- The token is a line break. -/
def isNewline (t : Token) : Bool :=
  t.kind == .whitespace && t.chars.any Text.isLineBreak

end Token

end SwitchLayout
