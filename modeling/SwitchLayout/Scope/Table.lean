/-
  SwitchLayout.Scope.Table
  ────────────────────────
  Scopes and the table that holds them.  A scope belongs to a condition, the keyword that owns
  it, and reaches from an opener to a closer.  Several conditions may share a closer, as cases
  that fall through to one `break` do; one of them is its owner.

  A table is filled scope by scope.  It refuses a scope that is out of order or whose
  condition it already knows, and a refused change leaves no trace.
-/
import Std.Data.ExtTreeMap

namespace SwitchLayout

/-! ## §1. Scopes. -/

/-- The stretch of tokens that a condition owns. -/
structure Scope where
  /-- The keyword that the scope belongs to. -/
  condition : Nat
  /-- The token that opens the body. -/
  opener : Nat
  /-- The token that closes the body. -/
  closer : Nat
deriving DecidableEq

/-- Why a table refuses a change or does not fit a script. -/
inductive ScopeError where
  /-- The closer does not come after the opener. -/
  | closerBeforeOpener (opener closer : Nat)
  /-- The condition comes after the opener. -/
  | conditionAfterOpener (condition opener : Nat)
  /-- The condition already owns a scope. -/
  | duplicateCondition (condition : Nat)
  /-- The condition owns no scope that ends at the closer. -/
  | foreignOwner (condition closer : Nat)
  /-- The position lies behind the end of the script. -/
  | outOfBounds (position size : Nat)
deriving DecidableEq

/-- The error in words. -/
def ScopeError.message : ScopeError → String
  | .closerBeforeOpener opener closer =>
    "scope closer " ++ toString closer ++ " does not come after its opener " ++ toString opener
  | .conditionAfterOpener condition opener =>
    "scope condition " ++ toString condition ++ " comes after its opener " ++ toString opener
  | .duplicateCondition condition =>
    "condition " ++ toString condition ++ " already owns a scope"
  | .foreignOwner condition closer =>
    "condition " ++ toString condition ++ " has no scope ending at " ++ toString closer
  | .outOfBounds position size =>
    "position " ++ toString position ++ " is outside a stream of " ++ toString size ++ " tokens"

/-! ## §2. Tables. -/

/-- The scopes of a script. -/
structure ScopeTable where
  /-- The scopes by their conditions. -/
  scopes : Std.ExtTreeMap Nat Scope
  /-- For each opener, the condition that was first recorded with it. -/
  openers : Std.ExtTreeMap Nat Nat
  /-- For each closer, the condition that owns it. -/
  owners : Std.ExtTreeMap Nat Nat
deriving DecidableEq

namespace ScopeTable

/-- The table without scopes. -/
def empty : ScopeTable := ⟨∅, ∅, ∅⟩

instance : EmptyCollection ScopeTable := ⟨empty⟩

/-- Record a scope.  The first condition recorded for a closer owns it until `setOwner` names
another. -/
def insert (t : ScopeTable) (s : Scope) : Except ScopeError ScopeTable :=
  if s.closer ≤ s.opener then .error (.closerBeforeOpener s.opener s.closer)
  else if s.opener < s.condition then .error (.conditionAfterOpener s.condition s.opener)
  else if t.scopes.contains s.condition then .error (.duplicateCondition s.condition)
  else .ok
    { scopes := t.scopes.insert s.condition s
      openers := t.openers.insertIfNew s.opener s.condition
      owners := t.owners.insertIfNew s.closer s.condition }

/-- The scope of a condition. -/
def scopeOf? (t : ScopeTable) (condition : Nat) : Option Scope := t.scopes[condition]?

/-- Make a condition the owner of the closer at which its scope ends. -/
def setOwner (t : ScopeTable) (closer condition : Nat) : Except ScopeError ScopeTable :=
  if (t.scopeOf? condition).map Scope.closer = some closer then
    .ok { t with owners := t.owners.insert closer condition }
  else .error (.foreignOwner condition closer)

/-- Record scopes in order, up to the first that is refused. -/
def insertAll (t : ScopeTable) (scopes : List Scope) : Except ScopeError ScopeTable :=
  scopes.foldlM insert t

/-- Record the scopes that the table takes, in order. -/
def insertAccepted (t : ScopeTable) (scopes : List Scope) : ScopeTable :=
  scopes.foldl (fun t s => ((t.insert s).toOption).getD t) t

/-! ## §3. Questions. -/

/-- The number of scopes. -/
def size (t : ScopeTable) : Nat := t.scopes.size

/-- The scopes in the order of their conditions. -/
def toList (t : ScopeTable) : List Scope := t.scopes.toList.map Prod.snd

/-- The closers with their owners, in the order of the closers. -/
def ownerList (t : ScopeTable) : List (Nat × Nat) := t.owners.toList

/-- The owner of a closer. -/
def ownerOf? (t : ScopeTable) (closer : Nat) : Option Nat := t.owners[closer]?

/-- Whether the condition owns the closer. -/
def isOwner (t : ScopeTable) (condition closer : Nat) : Bool := t.ownerOf? closer == some condition

/-- The closer of the scope whose condition or, failing that, whose opener stands at `i`. -/
def closerOf? (t : ScopeTable) (i : Nat) : Option Nat :=
  ((t.scopeOf? i).or (t.openers[i]?.bind t.scopeOf?)).map Scope.closer

/-- The opener of the scope whose condition stands at `i` or, failing that, of the scope of the
owner of the closer at `i`. -/
def openerOf? (t : ScopeTable) (i : Nat) : Option Nat :=
  ((t.scopeOf? i).or (t.owners[i]?.bind t.scopeOf?)).map Scope.opener

/-- Whether every scope ends inside a script of `size` tokens.  The closer is the last position
of a scope; the first scope that reaches too far is named. -/
def checkBounds (t : ScopeTable) (size : Nat) : Except ScopeError Unit :=
  match t.toList.find? (size ≤ ·.closer) with
  | some s => .error (.outOfBounds s.closer size)
  | none => .ok ()

end ScopeTable

end SwitchLayout
