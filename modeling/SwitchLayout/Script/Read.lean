/-
  SwitchLayout.Script.Read
  ────────────────────────
  Reading a script from text.  The text is cut into lexemes, and each lexeme is given the
  location behind the text in front of it.  A byte order mark in front of the script takes no
  column.

  Main statement: `source_read` — a script that was read from a text gives the text back.
-/
import SwitchLayout.Script

namespace SwitchLayout

/-! ## §1. Errors. -/

/-- A literal that stays open, and the location of its first character. -/
structure LexError where
  literal : OpenLiteral
  location : Location
deriving DecidableEq

/-- What is wrong with a literal that stays open. -/
def OpenLiteral.message : OpenLiteral → String
  | .string quote => "unterminated string, expected closing " ++ String.singleton quote
  | .comment => "unterminated block comment"

/-- The error in words. -/
def LexError.message (e : LexError) : String :=
  e.literal.message ++ " at line " ++ toString e.location.line ++ ", column "
    ++ toString e.location.column

/-! ## §2. Locations. -/

/-- The tokens of the lexemes of a text that starts at `loc`.  Their positions are for the
script to give. -/
def locate (tabWidth : Nat) (loc : Location) : List Lexeme → List Token
  | [] => []
  | l :: ls =>
    ⟨l.kind, String.ofList l.chars, loc, 0⟩ :: locate tabWidth (loc.after tabWidth l.chars) ls

/-- The location behind the lexemes of a text that starts at `loc`. -/
def locationBehind (tabWidth : Nat) (loc : Location) (ls : List Lexeme) : Location :=
  ls.foldl (fun l lexeme => l.after tabWidth lexeme.chars) loc

/-! ## §3. Reading. -/

namespace Script

/-- The tab width that is taken where none is given. -/
def defaultTabWidth : Nat := 4

/-- A text parted into the byte order mark in front of it, if there is one, and the rest. -/
def splitMark : List Char → List Char × List Char
  | [] => ([], [])
  | c :: cs => if c = Text.byteOrderMark then ([c], cs) else ([], c :: cs)

/-- The token of a byte order mark: whitespace that takes no column. -/
def markToken (mark : Char) : Token := ⟨.whitespace, String.singleton mark, .origin, 0⟩

/-- Read a script from text, with tab stops every `tabWidth` columns. -/
def read (tabWidth : Nat) (text : String) : Except LexError Script :=
  let parts := splitMark text.toList
  match lexemes false parts.2 with
  | (ls, none) => .ok (ofTokens (parts.1.map markToken ++ locate tabWidth .origin ls))
  | (ls, some literal) => .error ⟨literal, locationBehind tabWidth .origin ls⟩

theorem chars_locate (tabWidth : Nat) (loc : Location) (ls : List Lexeme) :
    (locate tabWidth loc ls).flatMap Token.chars = ls.flatMap Lexeme.chars := by
  induction ls generalizing loc with
  | nil => rfl
  | cons l ls ih => simp [locate, Token.chars, ih]

theorem chars_markToken (mark : List Char) :
    (mark.map markToken).flatMap Token.chars = mark := by
  induction mark with
  | nil => rfl
  | cons c mark ih => simpa [Token.chars, markToken] using ih

theorem append_splitMark (cs : List Char) : (splitMark cs).1 ++ (splitMark cs).2 = cs := by
  cases cs with
  | nil => rfl
  | cons c cs =>
      rw [splitMark]
      split <;> rfl

/-- **Nothing is lost.**  A script that was read from a text gives the text back. -/
theorem source_read {tabWidth : Nat} {text : String} {s : Script}
    (h : read tabWidth text = .ok s) : s.source = text := by
  rw [read] at h
  split at h
  · rename_i ls hls
    cases h
    have hbody := chars_lexemes false (splitMark text.toList).2 (by rw [hls])
    rw [hls] at hbody
    rw [source_ofTokens, List.flatMap_append, chars_markToken, chars_locate, hbody,
      append_splitMark, String.ofList_toList]
  · cases h

end Script

end SwitchLayout
