/-
  SwitchLayout.Lexeme
  ───────────────────
  Cutting text into lexemes.  `extent` looks at one character and at the text behind it and
  says what kind of lexeme starts there and how many characters it takes besides the first;
  `lexemes` repeats this to the end of the text.  A lexeme thus has at least one character,
  and nothing of the text is lost.

  The one thing that can go wrong is a string or a block comment that is still open when the
  text ends.

  Main statement: `chars_lexemes` — the characters of the lexemes are the text itself, unless
  a literal stays open.
-/
import SwitchLayout.Token

namespace SwitchLayout

open Text

/-! ## §1. Keywords. -/

/-- The keywords with a kind of their own, in lower case. -/
def branchingKeywords : List (String × TokenKind) :=
  [("switch", .switchKw), ("case", .caseKw), ("default", .defaultKw), ("break", .breakKw),
    ("return", .returnKw), ("continue", .continueKw), ("throw", .throwKw), ("exit", .exitKw),
    ("die", .exitKw)]

/-- The other keywords that can own a braced body, in lower case. -/
def bodyKeywords : List String :=
  ["if", "elseif", "else", "for", "foreach", "while", "do", "try", "catch", "finally",
    "declare", "function", "class", "interface", "trait", "enum", "namespace"]

/-- The kind of a word: a keyword is known in any letter case. -/
def wordKind (word : List Char) : TokenKind :=
  let lower := String.ofList (lowerAscii word)
  match branchingKeywords.lookup lower with
  | some kind => kind
  | none => if bodyKeywords.contains lower then .scopeKw else .word

/-! ## §2. Literals. -/

/-- A literal that the end of the text leaves open. -/
inductive OpenLiteral where
  /-- A string that its quote does not close. -/
  | string (quote : Char)
  /-- A block comment. -/
  | comment
deriving DecidableEq

/-- The number of characters up to and with the quote that closes a string.  A backslash
keeps the character behind it from closing the string. -/
def quoteEnd? (quote : Char) : List Char → Option Nat
  | [] => none
  | c :: cs =>
    if c = '\\' then
      match cs with
      | [] => none
      | _ :: rest => (quoteEnd? quote rest).map (· + 2)
    else if c = quote then some 1
    else (quoteEnd? quote cs).map (· + 1)

/-- The number of characters up to and with the star and slash that close a block comment. -/
def commentEnd? : List Char → Option Nat
  | [] => none
  | c :: cs =>
    if c = '*' ∧ cs.head? = some '/' then some 2 else (commentEnd? cs).map (· + 1)

/-! ## §3. One lexeme. -/

/-- The number of characters in front of the first one that `p` refuses. -/
def runLength (p : Char → Bool) (cs : List Char) : Nat := (cs.takeWhile p).length

/-- The kind of the lexeme that starts with `c` in front of `cs`, and the number of its
characters in `cs`.  With `member` set, a word names a member and is no keyword. -/
def extent (member : Bool) (c : Char) (cs : List Char) : Except OpenLiteral (TokenKind × Nat) :=
  -- layout
  if c = '\n' then .ok (.whitespace, 0)
  else if c = '\r' then .ok (.whitespace, if cs.head? = some '\n' then 1 else 0)
  else if isBlank c then .ok (.whitespace, runLength isBlank cs)
  -- comments, which run to the end of the line or to their closing pair
  else if c = '#' ∨ (c = '/' ∧ cs.head? = some '/') then
    .ok (.comment, runLength (!isLineBreak ·) cs)
  else if c = '/' ∧ cs.head? = some '*' then
    match commentEnd? cs.tail with
    | some n => .ok (.comment, n + 1)
    | none => .error .comment
  -- strings
  else if isQuote c then
    match quoteEnd? c cs with
    | some n => .ok (.string, n)
    | none => .error (.string c)
  -- brackets and separators; two colons are an operator
  else if c = '\x7b' then .ok (.openBrace, 0)
  else if c = '\x7d' then .ok (.closeBrace, 0)
  else if c = '(' then .ok (.openParen, 0)
  else if c = ')' then .ok (.closeParen, 0)
  else if c = '[' then .ok (.openBracket, 0)
  else if c = ']' then .ok (.closeBracket, 0)
  else if c = ';' then .ok (.semicolon, 0)
  else if c = ':' then
    if cs.head? = some ':' then .ok (.other, 1) else .ok (.colon, 0)
  -- operators, of which only the bare question mark has a kind of its own
  else if c = '?' then
    if cs.take 2 = ['-', '>'] then .ok (.other, 2)
    else if cs.head? = some '?' ∨ cs.head? = some '>' then .ok (.other, 1)
    else .ok (.question, 0)
  else if c = '<' ∧ cs.head? = some '?' then
    if lowerAscii (cs.tail.take 3) = ['p', 'h', 'p'] then .ok (.other, 4)
    else if cs.tail.head? = some '=' then .ok (.other, 2)
    else .ok (.other, 1)
  else if (c = '-' ∨ c = '=') ∧ cs.head? = some '>' then .ok (.other, 1)
  -- words
  else if isWordChar c then
    let extra := runLength isWordChar cs
    .ok (if member then .word else wordKind (c :: cs.take extra), extra)
  else .ok (.other, 0)

/-- A kind and the characters it was read from. -/
structure Lexeme where
  kind : TokenKind
  chars : List Char
deriving DecidableEq

/-- The lexeme is an operator that a member name follows. -/
def Lexeme.isMemberAccess (l : Lexeme) : Bool :=
  l.chars == ['-', '>'] || l.chars == ['?', '-', '>'] || l.chars == [':', ':']

/-- Whether a word behind the lexeme names a member.  Whitespace keeps what was known. -/
def Lexeme.memberNext (member : Bool) (l : Lexeme) : Bool :=
  if l.kind = .whitespace then member else l.isMemberAccess

/-! ## §4. All lexemes. -/

/-- The lexemes of a text in order, and the literal that stays open at its end, if one does.
The lexemes then stop in front of that literal. -/
def lexemes (member : Bool) : List Char → List Lexeme × Option OpenLiteral
  | [] => ([], none)
  | c :: cs =>
    match extent member c cs with
    | .error literal => ([], some literal)
    | .ok (kind, extra) =>
      let lexeme : Lexeme := ⟨kind, c :: cs.take extra⟩
      let more := lexemes (lexeme.memberNext member) (cs.drop extra)
      (lexeme :: more.1, more.2)
termination_by cs => cs.length
decreasing_by simp only [List.length_drop, List.length_cons]; omega

/-- **Nothing is lost.**  When no literal stays open, the lexemes spell the text. -/
theorem chars_lexemes (member : Bool) (cs : List Char) (h : (lexemes member cs).2 = none) :
    (lexemes member cs).1.flatMap Lexeme.chars = cs := by
  fun_induction lexemes member cs with
  | case1 => rfl
  | case2 member c cs literal hread => simp at h
  | case3 member c cs kind extra hread lexeme more ih =>
      simp [lexeme, more, ih h]

end SwitchLayout
