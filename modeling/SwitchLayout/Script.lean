/-
  SwitchLayout.Script
  ───────────────────
  A script is the row of its tokens.  This module answers the questions about positions that
  every rule asks: which token stands here, which is the next one of some kind, which one
  starts the line.

  Main statements: `position_of_get?` — a token knows its position; `source_ofTokens` — a
  script holds the text of the tokens it is built from.
-/
import SwitchLayout.Lexeme
import SwitchLayout.Search

namespace SwitchLayout

/-! ## §1. Scripts. -/

/-- A row of tokens, each of which knows its place in the row. -/
structure Script where
  tokens : Array Token
  numbered : ∀ (i : Nat) (h : i < tokens.size), tokens[i].position = i

namespace Script

/-- The script with these tokens in this order, whatever positions they come with. -/
def ofTokens (ts : List Token) : Script where
  tokens := (ts.mapIdx fun i t => { t with position := i }).toArray
  numbered := by
    intro i h
    simp

/-- The number of tokens. -/
def size (s : Script) : Nat := s.tokens.size

/-- The token at a position. -/
def get? (s : Script) (i : Nat) : Option Token := s.tokens[i]?

/-- The text of the script: the texts of its tokens one behind the other. -/
def source (s : Script) : String :=
  String.ofList (s.tokens.toList.flatMap Token.chars)

/-- What stands behind the end of a script: an empty token of no interest. -/
def absent : Token := ⟨.other, "", ⟨0, 0⟩, 0⟩

/-- The token at a position, or `absent` behind the end. -/
def tokenAt (s : Script) (i : Nat) : Token := (s.get? i).getD absent

/-- The kind of the token at a position. -/
def kindAt (s : Script) (i : Nat) : TokenKind := (s.tokenAt i).kind

/-- The line on which the token at a position starts. -/
def lineAt (s : Script) (i : Nat) : Nat := (s.tokenAt i).line

/-- The line on which the token at a position ends. -/
def endLineAt (s : Script) (i : Nat) : Nat := (s.tokenAt i).endLine

/-- The column in which the token at a position starts. -/
def columnAt (s : Script) (i : Nat) : Nat := (s.tokenAt i).column

/-! ## §2. Searching. -/

/-- The first position `i` with `start ≤ i < stop` whose token has a kind that `p` accepts. -/
def next? (s : Script) (p : TokenKind → Bool) (start stop : Nat) : Option Nat :=
  firstIn? (fun i => p (s.kindAt i)) start (min stop s.size)

/-- The last position `i` with `stop ≤ i ≤ start` whose token has a kind that `p` accepts. -/
def previous? (s : Script) (p : TokenKind → Bool) (start stop : Nat) : Option Nat :=
  lastIn? (fun i => p (s.kindAt i)) stop (min (start + 1) s.size)

/-- The first position of the unbroken row of tokens that ends at `i` and starts on the line
`line`. -/
def rowStart (s : Script) (line : Nat) : Nat → Nat
  | 0 => 0
  | i + 1 => if s.lineAt i = line then s.rowStart line i else i + 1

/-- The first token other than whitespace on the line on which the token at `i` starts, as far
as `i`. -/
def lineStart? (s : Script) (i : Nat) : Option Nat :=
  if i < s.size then s.next? (· ≠ .whitespace) (s.rowStart (s.lineAt i) i) (i + 1) else none

/-! ## §3. What a script holds. -/

@[simp] theorem size_ofTokens (ts : List Token) : (ofTokens ts).size = ts.length := by
  simp [ofTokens, size]

theorem get?_ofTokens (ts : List Token) (i : Nat) :
    (ofTokens ts).get? i = ts[i]?.map fun t => { t with position := i } := by
  simp [ofTokens, get?]

/-- The token found at a position knows that position. -/
theorem position_of_get? {s : Script} {i : Nat} {t : Token} (h : s.get? i = some t) :
    t.position = i := by
  obtain ⟨hi, rfl⟩ := Array.getElem?_eq_some_iff.mp h
  exact s.numbered i hi

/-- A script holds the text of the tokens it is built from. -/
theorem source_ofTokens (ts : List Token) :
    (ofTokens ts).source = String.ofList (ts.flatMap Token.chars) := by
  have hchars : ∀ (us : List Token) (k : Nat),
      (us.mapIdx fun i t => { t with position := i + k }).flatMap Token.chars
        = us.flatMap Token.chars := by
    intro us
    induction us with
    | nil => intro k; rfl
    | cons u us ih =>
        intro k
        have hrest := ih (k + 1)
        simp only [List.mapIdx_cons, List.flatMap_cons, Nat.add_assoc, Nat.add_comm 1 k]
        rw [hrest]
        rfl
  simpa [ofTokens, source] using congrArg String.ofList (hchars ts 0)

end Script

end SwitchLayout
