/-
  SwitchLayout.Text.Character
  ───────────────────────────
  The character classes that script text is read with.  Only ASCII characters delimit
  anything: every character above that range belongs to a word.
-/

namespace SwitchLayout.Text

/-- A space or a tab. -/
def isBlank (c : Char) : Bool := c == ' ' || c == '\t'

/-- A line feed or a carriage return. -/
def isLineBreak (c : Char) : Bool := c == '\n' || c == '\r'

/-- A character of a name, a variable, a number or a qualified name: an ASCII letter or
digit, an underscore, a dollar sign, a backslash, or any character above ASCII. -/
def isWordChar (c : Char) : Bool :=
  c.isAlphanum || c == '_' || c == '$' || c == '\\' || 128 ≤ c.toNat

/-- A character that opens and closes a string literal. -/
def isQuote (c : Char) : Bool := c == '\x22' || c == '\x27' || c == '\x60'

/-- The byte order mark, which may stand in front of a script. -/
def byteOrderMark : Char := '\uFEFF'

/-- The text with its ASCII letters in lower case and every other character as it was. -/
def lowerAscii (cs : List Char) : List Char := cs.map Char.toLower

/-- Lowering ASCII letters keeps the length. -/
@[simp] theorem length_lowerAscii (cs : List Char) : (lowerAscii cs).length = cs.length :=
  List.length_map _

end SwitchLayout.Text
