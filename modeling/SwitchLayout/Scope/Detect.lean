/-
  SwitchLayout.Scope.Detect
  ─────────────────────────
  Finding the scopes of a script.  A keyword that is followed by a braced body owns that body.
  Each branch of a switch owns the statements from the end of its label to the statement that
  leaves the branch; a branch that runs into the next one shares its closer, and one that runs
  to the end of the switch ends at the brace of the switch.

  What cannot be matched is left out of the table, and no rule looks at it.
-/
import SwitchLayout.Brackets
import SwitchLayout.Scope.Table

namespace SwitchLayout

/-! ## §1. Bodies. -/

/-- What stands between a keyword and the brace of its body. -/
inductive BodyForm where
  /-- A group in parentheses. -/
  | afterParens
  /-- Nothing. -/
  | direct
  /-- A declaration: names, types, parameter lists. -/
  | declaration
deriving DecidableEq

/-- The form of the body of a keyword. -/
def Token.bodyForm (t : Token) : BodyForm :=
  if t.kind = .switchKw then .afterParens
  else
    let keyword := String.ofList (Text.lowerAscii t.chars)
    if ["if", "elseif", "for", "foreach", "while", "catch", "declare"].contains keyword then
      .afterParens
    else if ["else", "do", "try", "finally"].contains keyword then .direct
    else .declaration

/-- Whether a token of this kind may own a body in braces. -/
def TokenKind.ownsBody (kind : TokenKind) : Bool := kind == .switchKw || kind == .scopeKw

namespace Script

/-- The first token from `i` on that is neither layout nor comment. -/
def significant? (s : Script) (i : Nat) : Option Nat := s.next? (!·.isTrivia) i s.size

/-- The brace that comes next behind `i`. -/
def braceAfter? (s : Script) (i : Nat) : Option Nat :=
  (s.significant? (i + 1)).filter (s.kindAt · = .openBrace)

/-- The brace behind the group in parentheses that comes next behind `i`. -/
def braceAfterParens? (s : Script) (b : Brackets) (i : Nat) : Option Nat := do
  let paren ← (s.significant? (i + 1)).filter (s.kindAt · = .openParen)
  s.braceAfter? (← b.groupEnd? paren)

/-- The brace that ends the head of a declaration, among the given positions.  A group left
open, the end of a statement, a stray closing bracket or an assignment ends the search. -/
def declarationBrace? (s : Script) (b : Brackets) : List Nat → Option Nat
  | [] => none
  | i :: is =>
    match s.kindAt i with
    | .openBrace => some i
    | .openParen | .openBracket =>
      if (b.groupEnd? i).isSome then s.declarationBrace? b is else none
    | .semicolon | .closeParen | .closeBracket | .closeBrace => none
    | .other => if (s.tokenAt i).text = "=" then none else s.declarationBrace? b is
    | _ => s.declarationBrace? b is

/-- The brace that opens the body of the keyword at `i`. -/
def bodyBrace? (s : Script) (b : Brackets) (i : Nat) : Option Nat :=
  match (s.tokenAt i).bodyForm with
  | .afterParens => s.braceAfterParens? b i
  | .direct => s.braceAfter? i
  | .declaration => s.declarationBrace? b (b.topLevel (i + 1) s.size)

/-- The scope of the keyword at `i`: its body in braces. -/
def bodyScope? (s : Script) (b : Brackets) (i : Nat) : Option Scope := do
  let opener ← s.bodyBrace? b i
  return ⟨i, opener, ← b.groupEnd? opener⟩

/-! ## §2. Branches. -/

/-- The branches of the switch body between two braces: the `case` and `default` keywords that
stand in no group of the body. -/
def branchesIn (s : Script) (b : Brackets) (opener closer : Nat) : List Nat :=
  (b.topLevel (opener + 1) closer).filter (s.kindAt · |>.isBranch)

/-- The token that ends a label, among the given positions: a colon that belongs to none of
the `pending` ternaries, or a semicolon or brace that stands in its place. -/
def labelEnd? (s : Script) (b : Brackets) (pending : Nat) : List Nat → Option Nat
  | [] => none
  | i :: is =>
    match s.kindAt i with
    | .openParen | .openBracket =>
      if (b.groupEnd? i).isSome then s.labelEnd? b pending is else none
    | .question => s.labelEnd? b (pending + 1) is
    | .colon => if pending = 0 then some i else s.labelEnd? b (pending - 1) is
    | .semicolon | .openBrace => some i
    | _ => s.labelEnd? b pending is

/-- Whether a token of this kind ends the branch it stands in: it starts a statement that
leaves the branch, or the next branch. -/
def endsBranch (kind : TokenKind) : Bool :=
  kind.isTerminator || kind == .exitKw || kind.isBranch

/-- Where the statements of a branch end that start behind `opener` in a body that ends at
`bodyCloser`.  `later` holds the scopes of the branches below. -/
def branchEnd? (s : Script) (b : Brackets) (opener bodyCloser : Nat) (later : List Scope) :
    Option Nat :=
  match (b.topLevel (opener + 1) bodyCloser).find? (fun i => endsBranch (s.kindAt i)) with
  | none => some bodyCloser
  | some i =>
    if (s.kindAt i).isBranch then (later.find? (·.condition == i)).map Scope.closer else some i

/-- The scope of the branch at `branch`, whose label ends in front of `limit`. -/
def branchScope? (s : Script) (b : Brackets) (branch limit bodyCloser : Nat)
    (later : List Scope) : Option Scope := do
  let opener ← s.labelEnd? b 0 (b.topLevel (branch + 1) limit)
  let closer ←
    if s.kindAt opener = .openBrace then b.groupEnd? opener
    else s.branchEnd? b opener bodyCloser later
  return ⟨branch, opener, closer⟩

/-- The scopes of the branches of a body that ends at `bodyCloser`, the last branch first: a
branch that falls through needs the scope of the one below, and of the branches that reach one
closer the last is to be its owner. -/
def branchScopes (s : Script) (b : Brackets) (bodyCloser : Nat) : List Nat → List Scope
  | [] => []
  | branch :: below =>
    let later := s.branchScopes b bodyCloser below
    later ++ (s.branchScope? b branch (below.head?.getD bodyCloser) bodyCloser later).toList

/-! ## §3. The table. -/

/-- The scopes that the keyword at `i` brings in: its body, and the branches of a switch. -/
def scopesAt (s : Script) (b : Brackets) (i : Nat) : List Scope :=
  match s.bodyScope? b i with
  | none => []
  | some body =>
    if s.kindAt i = .switchKw then
      body :: s.branchScopes b body.closer (s.branchesIn b body.opener body.closer)
    else [body]

/-- The scopes of a script in the order in which they are recorded. -/
def detectedScopes (s : Script) : List Scope :=
  let b := s.brackets
  ((List.range s.size).filter (fun i => (s.kindAt i).ownsBody)).flatMap (s.scopesAt b)

/-- The scope table of a script. -/
def scopeTable (s : Script) : ScopeTable := ScopeTable.empty.insertAccepted s.detectedScopes

end Script

end SwitchLayout
