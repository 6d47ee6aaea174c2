/-
  SwitchLayout.Proofs.Guarded
  ───────────────────────────
  **The rules with every step guarded.**

  The rules look tokens up by position and subtract positions and columns.  Where a look-up
  misses, `tokenAt` gives the absent token, and where a subtraction goes below zero, it stops
  there; a finding that rests on either would be worth nothing.  So each function of the two
  rules is written down once more with guarded steps: `Script.token` and `minus` end in a
  `Trap` where they have no answer.  One lemma for each function says that the guarded form
  gives what the plain one gives:

    • `Script.findNext_eq`, `Script.findPrevious_eq`, `Script.findLineStart_eq` — searches,
    • `SwitchBody.guardedFindings_eq` — the rule on switches,
    • `ScopeEnd.guardedViolation?_eq` — the rule on closers.

  What carries them is the order that a table keeps and its fit to the script.
-/
import SwitchLayout.Proofs.Branches
import SwitchLayout.Proofs.Tables
import SwitchLayout.Rule.ScopeEnd

namespace SwitchLayout

/-! ## §1. Guarded steps. -/

/-- Why a guarded run ends without an answer. -/
inductive Trap where
  /-- There is no token at the position. -/
  | outside (position size : Nat)
  /-- The difference is negative. -/
  | negative (minuend subtrahend : Nat)
  /-- A walk that stands at a position is sent back. -/
  | backward (position target : Nat)
deriving DecidableEq

/-- A value, if every step on the way to it has an answer. -/
abbrev Guarded (α : Type) : Type := Except Trap α

/-- The difference of two numbers that has to be one. -/
def minus (a b : Nat) : Guarded Nat :=
  if b ≤ a then .ok (a - b) else .error (.negative a b)

/-- The token at a position that has to hold one. -/
def Script.token (s : Script) (i : Nat) : Guarded Token :=
  match s.get? i with
  | some t => .ok t
  | none => .error (.outside i s.size)

@[simp] theorem Guarded.ok_bind {α β : Type} (a : α) (f : α → Guarded β) :
    ((Except.ok a : Guarded α) >>= f) = f a := rfl

@[simp] theorem Guarded.pure_eq {α : Type} (a : α) : (pure a : Guarded α) = .ok a := rfl

/-- A difference that is one is given. -/
theorem minus_eq {a b : Nat} (h : b ≤ a) : minus a b = .ok (a - b) := if_pos h

/-- Inside the script `tokenAt` falls back on nothing. -/
theorem Script.get?_tokenAt {s : Script} {i : Nat} (h : i < s.size) :
    s.get? i = some (s.tokenAt i) := by
  unfold tokenAt get?
  rw [Array.getElem?_eq_getElem h, Option.getD_some]

/-- A look-up inside the script hits. -/
theorem Script.token_eq {s : Script} {i : Nat} (h : i < s.size) :
    s.token i = .ok (s.tokenAt i) := by
  unfold token
  rw [get?_tokenAt h]

/-- Findings from one position after the other. -/
def collect (f : Nat → Guarded (List Finding)) : List Nat → Guarded (List Finding)
  | [] => return []
  | i :: is => do return (← f i) ++ (← collect f is)

/-- Findings are collected without a trap, if each step comes without one. -/
theorem collect_eq {f : Nat → Guarded (List Finding)} {g : Nat → List Finding} {is : List Nat}
    (h : ∀ i ∈ is, f i = .ok (g i)) : collect f is = .ok (is.flatMap g) := by
  induction is with
  | nil => rfl
  | cons i is ih =>
      rw [collect, h i List.mem_cons_self, ih fun j hj => h j (List.mem_cons_of_mem i hj)]
      rfl

/-! ## §2. Guarded searches. -/

namespace Script

variable {s : Script}

/-- The first of the `count` positions from `start` on whose token has a kind that `p`
accepts. -/
def scanUp (s : Script) (p : TokenKind → Bool) (start : Nat) : Nat → Guarded (Option Nat)
  | 0 => return none
  | count + 1 => do
    let t ← s.token start
    if p t.kind then return some start else s.scanUp p (start + 1) count

/-- The last of the `count` positions from `start` on whose token has a kind that `p`
accepts. -/
def scanDown (s : Script) (p : TokenKind → Bool) (start : Nat) : Nat → Guarded (Option Nat)
  | 0 => return none
  | count + 1 => do
    let t ← s.token (start + count)
    if p t.kind then return some (start + count) else s.scanDown p start count

/-- Guarded form of `next?`. -/
def findNext (s : Script) (p : TokenKind → Bool) (start stop : Nat) : Guarded (Option Nat) :=
  s.scanUp p start (min stop s.size - start)

/-- Guarded form of `previous?`. -/
def findPrevious (s : Script) (p : TokenKind → Bool) (start stop : Nat) :
    Guarded (Option Nat) := do
  if s.size = 0 then return none
  let last ← minus s.size 1
  s.scanDown p stop (min start last + 1 - stop)

/-- Guarded form of `rowStart`. -/
def findRowStart (s : Script) (line : Nat) : Nat → Guarded Nat
  | 0 => return 0
  | i + 1 => do
    let t ← s.token i
    if t.line = line then s.findRowStart line i else return i + 1

/-- Guarded form of `lineStart?`. -/
def findLineStart (s : Script) (i : Nat) : Guarded (Option Nat) :=
  match s.get? i with
  | none => return none
  | some t => do
    let start ← s.findRowStart t.line i
    s.findNext (· ≠ .whitespace) start (i + 1)

/-- A search upwards traps nowhere in a stretch of the script. -/
theorem scanUp_eq (p : TokenKind → Bool) (count start : Nat) (h : start + count ≤ s.size) :
    s.scanUp p start count = .ok (firstFrom? (fun i => p (s.kindAt i)) start count) := by
  induction count generalizing start with
  | zero => rfl
  | succ count ih =>
      rw [scanUp, firstFrom?, token_eq (by omega)]
      show (if p (s.kindAt start) = true then _ else _) = _
      split
      · rfl
      · exact ih (start + 1) (by omega)

/-- A search downwards traps nowhere in a stretch of the script. -/
theorem scanDown_eq (p : TokenKind → Bool) (start count : Nat) (h : start + count ≤ s.size) :
    s.scanDown p start count = .ok (lastFrom? (fun i => p (s.kindAt i)) start count) := by
  induction count with
  | zero => rfl
  | succ count ih =>
      rw [scanDown, lastFrom?, token_eq (by omega)]
      show (if p (s.kindAt (start + count)) = true then _ else _) = _
      split
      · rfl
      · exact ih (by omega)

/-- A search forward stays inside, wherever it starts and stops. -/
theorem findNext_eq (p : TokenKind → Bool) (start stop : Nat) :
    s.findNext p start stop = .ok (s.next? p start stop) := by
  unfold findNext next? firstIn?
  rcases Nat.le_total (min stop s.size) start with hempty | hle
  · rw [Nat.sub_eq_zero_of_le hempty]
    rfl
  · exact scanUp_eq p _ start (by omega)

/-- A search backward stays inside, wherever it starts and stops. -/
theorem findPrevious_eq (p : TokenKind → Bool) (start stop : Nat) :
    s.findPrevious p start stop = .ok (s.previous? p start stop) := by
  unfold findPrevious previous? lastIn?
  split
  · rename_i hzero
    rw [hzero, Nat.min_zero, Nat.zero_sub]
    rfl
  · rw [minus_eq (by omega)]
    show s.scanDown p stop (min start (s.size - 1) + 1 - stop) = _
    rw [show min start (s.size - 1) + 1 = min (start + 1) s.size from by omega]
    rcases Nat.le_total (min (start + 1) s.size) stop with hempty | hle
    · rw [Nat.sub_eq_zero_of_le hempty]
      rfl
    · exact scanDown_eq p stop _ (by omega)

/-- What a search downwards finds is a token of the script, whatever its bounds. -/
theorem previous?_lt_size {p : TokenKind → Bool} {start stop i : Nat}
    (h : s.previous? p start stop = some i) : i < s.size := by
  obtain ⟨_, hlt, _⟩ := (lastIn?_eq_some_iff _ _ _ _).mp h
  omega

/-- The way back to the start of a row goes through tokens of the script only. -/
theorem findRowStart_eq (line i : Nat) (h : i ≤ s.size) :
    s.findRowStart line i = .ok (s.rowStart line i) := by
  induction i with
  | zero => rfl
  | succ i ih =>
      rw [findRowStart, rowStart, token_eq h]
      show (if s.lineAt i = line then _ else _) = _
      split
      · exact ih (by omega)
      · rfl

/-- The search for the start of a line stays inside, wherever it starts. -/
theorem findLineStart_eq (i : Nat) : s.findLineStart i = .ok (s.lineStart? i) := by
  unfold findLineStart lineStart?
  by_cases hi : i < s.size
  · rw [get?_tokenAt hi, if_pos hi]
    show (s.findRowStart (s.lineAt i) i >>= _) = _
    rw [findRowStart_eq _ i (by omega)]
    exact findNext_eq _ _ _
  · rw [show s.get? i = none from Array.getElem?_eq_none (by unfold size at hi; omega), if_neg hi]
    rfl

end Script

/-! ## §3. Switches, guarded. -/

namespace SwitchBody

variable {b : SwitchBody} {i : Nat} {scope : Scope}

/-- Guarded form of `caseColumn`. -/
def guardedCaseColumn (b : SwitchBody) : Guarded Nat := do
  let keyword ← b.script.token b.scope.condition
  return keyword.column + b.indent

/-- Guarded form of `report`. -/
def guardedReport (b : SwitchBody) (v : Violation) (i : Nat) (fix : Option Edit) :
    Guarded (List Finding) := do
  let t ← b.script.token i
  return [v.finding ruleName t fix]

/-- Guarded form of `reportIf`. -/
def guardedReportIf (b : SwitchBody) (found : Bool) (v : Violation) (i : Nat) :
    Guarded (List Finding) :=
  if found then b.guardedReport v i none else return []

/-- Guarded form of `branchesFrom`. -/
def guardedBranchesFrom (b : SwitchBody) (start : Nat) : Guarded (List Nat) :=
  match h : b.script.findNext isWaypoint start b.scope.closer with
  | .error trap => .error trap
  | .ok none => return []
  | .ok (some i) => do
    let t ← b.script.token i
    if t.kind = .switchKw then
      match b.table.closerOf? i with
      | none => b.guardedBranchesFrom (i + 1)
      | some closer =>
        if hforward : i ≤ closer then b.guardedBranchesFrom (closer + 1)
        else throw (.backward i closer)
    else return i :: (← b.guardedBranchesFrom (i + 1))
termination_by b.scope.closer - start
decreasing_by
  all_goals
    rw [Script.findNext_eq] at h
    obtain ⟨hlo, hhi, _⟩ := Script.next?_eq_some_iff.mp (Except.ok.inj h)
    omega

/-- Guarded form of `casingFindings`. -/
def guardedCasing (b : SwitchBody) (branch : Branch) (i : Nat) : Guarded (List Finding) := do
  let token ← b.script.token i
  let expected := String.ofList (Text.lowercase token.chars)
  if token.text = expected then return []
  else b.guardedReport (.notLower branch expected token.text) i (some (.replace token expected))

/-- Guarded form of `labelFindings`. -/
def guardedLabel (b : SwitchBody) (branch : Branch) (i : Nat) : Guarded (List Finding) := do
  let casing ← b.guardedCasing branch i
  let token ← b.script.token i
  let column ← b.guardedCaseColumn
  let indentation ← b.guardedReportIf (token.column != column) (.branchIndent branch b.indent) i
  let spacing ← match branch, b.caseSpacingFix? i with
    | .caseLabel, some fix => b.guardedReport .spacingAfterCase i (some fix)
    | _, _ => pure []
  return casing ++ indentation ++ spacing

/-- Guarded form of `openerFindings`. -/
def guardedOpener (b : SwitchBody) (branch : Branch) (i : Nat) (scope : Scope) :
    Guarded (List Finding) := do
  let opener ← b.script.token scope.opener
  if opener.kind = .colon then
    let before ← minus scope.opener 1
    if firstSpaceless branch i ≤ before then
      let space ← b.script.token before
      if space.kind = .whitespace then
        b.guardedReport (.spaceBeforeColon branch) i (some (.replace space ""))
      else return []
    else return []
  else if opener.kind = .openBrace then b.guardedReport (.braceOpener branch) i none
  else b.guardedReport (.wrongOpener branch opener.text) i none

/-- Guarded form of `defaultEndFindings`. -/
def guardedDefaultEnd (b : SwitchBody) (i : Nat) (scope : Scope) : Guarded (List Finding) := do
  let closer ← b.script.token scope.closer
  let isEarly :=
    scope.closer != b.scope.closer && !closer.kind.isTerminator && closer.kind != .exitKw
  if closer.kind = .breakKw then b.guardedReport .defaultNoBreak i none
  else b.guardedReportIf isEarly .defaultNotLast i

/-- Guarded form of `indentFix?`. -/
def guardedIndentFix? (b : SwitchBody) (i expected : Nat) : Guarded (Option Edit) := do
  let start ← b.script.findLineStart i
  if start ≠ some i then return none
  else
    let token ← b.script.token i
    if token.column < expected then
      let missing ← minus expected token.column
      return some (.insertBefore i (String.ofList (List.replicate missing ' ')))
    else
      let excess ← minus token.column expected
      if i = 0 then return none
      else
        match b.script.get? (i - 1) with
        | none => return none
        | some before =>
          if before.kind = .whitespace ∧ excess ≤ before.chars.length
              ∧ before.chars.all (· == ' ') then
            return some (.trimStart before.position excess)
          else return none

/-- Guarded form of `breakIndentFindings`. -/
def guardedBreakIndent (b : SwitchBody) (closer : Nat) : Guarded (List Finding) := do
  let token ← b.script.token closer
  let column ← b.guardedCaseColumn
  if token.column = column + b.indent then return []
  else
    let fix ← b.guardedIndentFix? closer (column + b.indent)
    b.guardedReport (.breakIndent b.indent) closer fix

/-- Guarded form of `contentLineBefore`. -/
def guardedContentLine (b : SwitchBody) (closer : Nat) : Guarded Nat := do
  let before ← minus closer 1
  match ← b.script.findPrevious (· ≠ .whitespace) before (b.scope.condition + 1) with
  | none => return 0
  | some i =>
    let content ← b.script.token i
    return content.endLine

/-- Guarded form of the report on `secondBreak?`. -/
def guardedSecondBreak (b : SwitchBody) (closer : Nat) : Guarded (List Finding) := do
  match ← b.script.findNext (· = .semicolon) closer b.scope.closer with
  | none => return []
  | some semicolon =>
    match ← b.script.findNext (· ≠ .whitespace) (semicolon + 1) b.scope.closer with
    | none => return []
    | some next =>
      let token ← b.script.token next
      if token.kind = .breakKw then b.guardedReport .multipleBreaks next none else return []

/-- Guarded form of `caseEndFindings`. -/
def guardedCaseEnd (b : SwitchBody) (i : Nat) (scope : Scope) : Guarded (List Finding) := do
  let closer ← b.script.token scope.closer
  if closer.kind.isTerminator && b.table.isOwner i scope.closer then
    let indentation ← b.guardedBreakIndent scope.closer
    let line ← b.guardedContentLine scope.closer
    let above ← b.guardedReportIf (line + 1 != closer.line) .spacingBeforeBreak scope.closer
    let second ← b.guardedSecondBreak scope.closer
    let first ← b.script.findNext (· ≠ .whitespace) (scope.opener + 1) scope.closer
    let content ← b.script.token (first.getD scope.closer)
    let keyword ← b.script.token i
    let below ← b.guardedReportIf (content.line != keyword.line + 1) .blankLineAfterCase i
    return indentation ++ above ++ second ++ below
  else return []

/-- Guarded form of `fallthroughFindings`. -/
def guardedFallthrough (b : SwitchBody) (i : Nat) (scope : Scope) :
    Option Nat → Guarded (List Finding)
  | none => return []
  | some next => do
    if b.sharesCloser scope next then
      let token ← b.script.token next
      let before ← minus next 1
      match ← b.script.findPrevious (· = .comment) before (i + 1) with
      | none => b.guardedReport .silentFallthrough i none
      | some j =>
        let comment ← b.script.token j
        b.guardedReportIf (comment.endLine + 1 != token.line) .silentFallthrough i
    else return []

/-- The first of these positions at which a `case` stands. -/
def guardedNextCase? (b : SwitchBody) : List Nat → Guarded (Option Nat)
  | [] => return none
  | i :: below => do
    let token ← b.script.token i
    if token.kind = .caseKw then return some i else b.guardedNextCase? below

/-- Guarded form of `defaultFindings`. -/
def guardedDefault (b : SwitchBody) (i : Nat) : Guarded (List Finding) := do
  let label ← b.guardedLabel .defaultLabel i
  match b.table.scopeOf? i with
  | none => return label
  | some scope =>
    let opener ← b.guardedOpener .defaultLabel i scope
    let ending ← b.guardedDefaultEnd i scope
    return label ++ (opener ++ ending)

/-- Guarded form of `caseFindings`, with what follows the case. -/
def guardedCase (b : SwitchBody) (i : Nat) (below : List Nat) : Guarded (List Finding) := do
  let label ← b.guardedLabel .caseLabel i
  match b.table.scopeOf? i with
  | none => return label
  | some scope =>
    let opener ← b.guardedOpener .caseLabel i scope
    let ending ← b.guardedCaseEnd i scope
    let next ← b.guardedNextCase? below
    let fallthrough ← b.guardedFallthrough i scope next
    return label ++ (opener ++ ending ++ fallthrough)

/-- Guarded form of `branchFindings`. -/
def guardedBranches (b : SwitchBody) (seenDefault : Bool) : List Nat → Guarded (List Finding)
  | [] => return []
  | i :: below => do
    let token ← b.script.token i
    if token.kind = .defaultKw then
      let duplicate ← b.guardedReportIf seenDefault .duplicateDefault i
      let here ← b.guardedDefault i
      let rest ← b.guardedBranches true below
      return duplicate ++ here ++ rest
    else
      let here ← b.guardedCase i below
      let rest ← b.guardedBranches seenDefault below
      return here ++ rest

/-- Whether a `default` and whether a `case` is among these branches. -/
def guardedKinds (b : SwitchBody) : List Nat → Guarded (Bool × Bool)
  | [] => return (false, false)
  | i :: below => do
    let token ← b.script.token i
    let (hasDefault, hasCase) ← b.guardedKinds below
    return (token.kind == .defaultKw || hasDefault, token.kind != .defaultKw || hasCase)

/-- Guarded form of `findings`. -/
def guardedFindings (b : SwitchBody) : Guarded (List Finding) := do
  let branches ← b.guardedBranchesFrom (b.scope.opener + 1)
  let labels ← b.guardedBranches false branches
  let (hasDefault, hasCase) ← b.guardedKinds branches
  let keyword := b.scope.condition
  let missingDefault ← b.guardedReportIf (!hasDefault) .missingDefault keyword
  let closer ← b.script.token b.scope.closer
  let opener ← b.script.token keyword
  let align ← b.guardedReportIf (closer.column != opener.column) .closeBraceAlign b.scope.closer
  let missingCase ← b.guardedReportIf (!hasCase) .missingCase keyword
  return labels ++ missingDefault ++ align ++ missingCase

/-- The switch is one of its table, and the table is in order and fits the script. -/
structure Inside (b : SwitchBody) : Prop where
  ordered : b.table.Ordered
  closers : ∀ {c : Nat} {scope : Scope}, b.table.scopeOf? c = some scope →
    scope.closer < b.script.size
  known : b.table.scopeOf? b.scope.condition = some b.scope

theorem Inside.bounds (hb : b.Inside) :
    b.scope.condition ≤ b.scope.opener ∧ b.scope.opener < b.scope.closer
      ∧ b.scope.closer < b.script.size :=
  ⟨(hb.ordered.scopes hb.known).2.1, (hb.ordered.scopes hb.known).2.2, hb.closers hb.known⟩

/-- The `switch` itself, from which the column of its branches is counted, is a token. -/
theorem guardedCaseColumn_eq (hb : b.Inside) : b.guardedCaseColumn = .ok b.caseColumn := by
  have hbounds := hb.bounds
  unfold guardedCaseColumn
  rw [Script.token_eq (by omega)]
  rfl

/-- A finding can be located, for it points at a token. -/
theorem guardedReport_eq (hi : i < b.script.size) (v : Violation) (fix : Option Edit) :
    b.guardedReport v i fix = .ok [b.report v i fix] := by
  unfold guardedReport
  rw [Script.token_eq hi]
  rfl

theorem guardedReportIf_eq (hi : i < b.script.size) (found : Bool) (v : Violation) :
    b.guardedReportIf found v i = .ok (b.reportIf found v i) := by
  unfold guardedReportIf reportIf
  split
  · exact guardedReport_eq hi v none
  · rfl

/-- One step of the guarded walk, by what the search finds. -/
theorem guardedBranchesFrom_step (b : SwitchBody) (start : Nat) :
    b.guardedBranchesFrom start =
      match b.script.next? isWaypoint start b.scope.closer with
      | none => .ok []
      | some i => do
        let t ← b.script.token i
        if t.kind = .switchKw then
          match b.table.closerOf? i with
          | none => b.guardedBranchesFrom (i + 1)
          | some closer =>
            if i ≤ closer then b.guardedBranchesFrom (closer + 1)
            else throw (.backward i closer)
        else return i :: (← b.guardedBranchesFrom (i + 1)) := by
  rw [guardedBranchesFrom]
  split
  · rename_i trap h
    rw [Script.findNext_eq] at h
    cases h
  · rename_i h
    rw [Script.findNext_eq] at h
    rw [Except.ok.inj h]
    rfl
  · rename_i i h
    rw [Script.findNext_eq] at h
    rw [Except.ok.inj h]
    rfl

/-- The walk over the branches is never sent back. -/
theorem guardedBranchesFrom_eq (ht : b.table.Ordered) (start : Nat) :
    b.guardedBranchesFrom start = .ok (b.branchesFrom start) := by
  fun_induction b.branchesFrom start with
  | case1 start hnone => rw [guardedBranchesFrom_step, hnone]
  | case2 start w hw hswitch ih =>
      obtain ⟨_, _, hsize, _⟩ := Script.next?_eq_some_iff.mp hw
      rw [guardedBranchesFrom_step, hw]
      simp only [Script.token_eq hsize, Guarded.ok_bind]
      rw [if_pos (show (b.script.tokenAt w).kind = .switchKw from hswitch), ← ih]
      unfold resume
      cases hc : b.table.closerOf? w with
      | none => simp only [Option.getD_none, Nat.max_self]
      | some c =>
          have hlt := ht.lt_closerOf? hc
          simp only [Option.getD_some]
          rw [if_pos (by omega), Nat.max_eq_right (by omega)]
  | case3 start w hw hswitch ih =>
      obtain ⟨_, _, hsize, _⟩ := Script.next?_eq_some_iff.mp hw
      rw [guardedBranchesFrom_step, hw]
      simp only [Script.token_eq hsize, Guarded.ok_bind]
      rw [if_neg (show (b.script.tokenAt w).kind ≠ .switchKw from hswitch), ih]
      rfl

/-- The letter case of a branch keyword. -/
theorem guardedCasing_eq (hi : i < b.script.size) (branch : Branch) :
    b.guardedCasing branch i = .ok (b.casingFindings branch i) := by
  unfold guardedCasing casingFindings
  rw [Script.token_eq hi, Guarded.ok_bind]
  dsimp only
  split
  · rfl
  · exact guardedReport_eq hi _ _

/-- What is checked of a keyword alone: all it looks at is the keyword and the token behind it. -/
theorem guardedLabel_eq (hb : b.Inside) (hi : i < b.script.size) (branch : Branch) :
    b.guardedLabel branch i = .ok (b.labelFindings branch i) := by
  unfold guardedLabel labelFindings caseSpacingFindings
  rw [guardedCasing_eq hi, Script.token_eq hi, guardedCaseColumn_eq hb]
  simp only [Guarded.ok_bind, guardedReportIf_eq hi]
  cases branch with
  | defaultLabel => rfl
  | caseLabel =>
      cases b.caseSpacingFix? i with
      | none => rfl
      | some fix =>
          simp only [guardedReport_eq hi]
          rfl

/-- A colon opens no branch by itself: it stands behind the keyword, so that something stands
in front of it. -/
theorem opener_pos (ht : b.table.Ordered) (hscope : b.table.scopeOf? i = some scope)
    (hbranch : (b.script.kindAt i).isBranch = true)
    (hcolon : b.script.kindAt scope.opener = .colon) : 1 ≤ scope.opener := by
  obtain ⟨hcondition, hle, _⟩ := ht.scopes hscope
  have hne : i ≠ scope.opener := by
    intro heq
    rw [heq, hcolon] at hbranch
    cases hbranch
  omega

/-- The opener of a branch, and the token in front of it: behind the keyword there is one. -/
theorem guardedOpener_eq (hb : b.Inside) (hscope : b.table.scopeOf? i = some scope)
    (hbranch : (b.script.kindAt i).isBranch = true) (branch : Branch) :
    b.guardedOpener branch i scope = .ok (b.openerFindings branch i scope) := by
  obtain ⟨hcondition, hle, hlt⟩ := hb.ordered.scopes hscope
  have hcloser := hb.closers hscope
  have hi : i < b.script.size := by omega
  unfold guardedOpener openerFindings
  rw [Script.token_eq (show scope.opener < b.script.size by omega), Guarded.ok_bind]
  dsimp only
  split
  · rename_i hcolon
    have hpos := opener_pos hb.ordered hscope hbranch hcolon
    rw [minus_eq hpos, Guarded.ok_bind]
    by_cases hfirst : firstSpaceless branch i ≤ scope.opener - 1
    · rw [if_pos hfirst, Script.token_eq (by omega), Guarded.ok_bind]
      show (if b.script.kindAt (scope.opener - 1) = .whitespace then _ else _) = _
      split
      · rename_i hspace
        rw [if_pos ⟨hfirst, hspace⟩]
        exact guardedReport_eq hi _ _
      · rename_i hspace
        rw [if_neg (fun h => hspace h.2)]
        rfl
    · rw [if_neg hfirst, if_neg (fun h => hfirst h.1)]
      rfl
  · split
    · exact guardedReport_eq hi _ _
    · exact guardedReport_eq hi _ _

/-- The end of a `default` is the closer of its scope, which is inside. -/
theorem guardedDefaultEnd_eq (hb : b.Inside) (hscope : b.table.scopeOf? i = some scope) :
    b.guardedDefaultEnd i scope = .ok (b.defaultEndFindings i scope) := by
  obtain ⟨hcondition, hle, hlt⟩ := hb.ordered.scopes hscope
  have hcloser := hb.closers hscope
  have hi : i < b.script.size := by omega
  unfold guardedDefaultEnd defaultEndFindings
  rw [Script.token_eq hcloser, Guarded.ok_bind]
  show (if b.script.kindAt scope.closer = .breakKw then _ else _) = _
  dsimp only
  split
  · exact guardedReport_eq hi _ _
  · exact guardedReportIf_eq hi _ _

/-- A closer that starts its line is moved by a distance, whichever way it goes. -/
theorem guardedIndentFix?_eq (hi : i < b.script.size) (expected : Nat) :
    b.guardedIndentFix? i expected = .ok (b.indentFix? i expected) := by
  unfold guardedIndentFix? indentFix?
  rw [Script.findLineStart_eq, Guarded.ok_bind]
  split
  · rfl
  rw [Script.token_eq hi, Guarded.ok_bind]
  show (if b.script.columnAt i < expected then _ else _) = _
  dsimp only
  split
  · rename_i hlt
    rw [show minus expected (b.script.tokenAt i).column = .ok (expected - b.script.columnAt i)
      from minus_eq (Nat.le_of_lt hlt)]
    rfl
  · rename_i hge
    rw [show minus (b.script.tokenAt i).column expected = .ok (b.script.columnAt i - expected)
      from minus_eq (Nat.le_of_not_lt hge), Guarded.ok_bind]
    split
    · rfl
    · have hget : b.script.get? (i - 1) = some (b.script.tokenAt (i - 1)) :=
        Script.get?_tokenAt (by omega)
      simp only [hget]
      split <;> rfl

/-- The column of the statement that ends a case. -/
theorem guardedBreakIndent_eq (hb : b.Inside) (hi : i < b.script.size) :
    b.guardedBreakIndent i = .ok (b.breakIndentFindings i) := by
  unfold guardedBreakIndent breakIndentFindings
  rw [Script.token_eq hi, guardedCaseColumn_eq hb]
  simp only [Guarded.ok_bind, guardedIndentFix?_eq hi, guardedReport_eq hi]
  show (if b.script.columnAt i = b.breakColumn then _ else _) = _
  split <;> rfl

/-- The search for the line above starts at a token, for the statement does not come first. -/
theorem guardedContentLine_eq (hi : 1 ≤ i) :
    b.guardedContentLine i = .ok (b.contentLineBefore i) := by
  unfold guardedContentLine contentLineBefore
  rw [minus_eq hi]
  simp only [Guarded.ok_bind, Script.findPrevious_eq]
  cases h : b.script.previous? (· ≠ .whitespace) (i - 1) (b.scope.condition + 1) with
  | none => rfl
  | some j =>
      simp only [Script.token_eq (Script.previous?_lt_size h)]
      rfl

/-- The search for a second `break` starts behind a semicolon that was found, and so inside. -/
theorem guardedSecondBreak_eq (closer : Nat) :
    b.guardedSecondBreak closer
      = .ok ((b.secondBreak? closer).toList.map (b.report .multipleBreaks · none)) := by
  unfold guardedSecondBreak secondBreak?
  simp only [Script.findNext_eq, Guarded.ok_bind]
  cases b.script.next? (· = .semicolon) closer b.scope.closer with
  | none => rfl
  | some semicolon =>
      show (match b.script.next? (· ≠ .whitespace) (semicolon + 1) b.scope.closer with
        | none => _
        | some next => _) = Except.ok (List.map _ (Option.toList (Option.bind
          (b.script.next? (· ≠ .whitespace) (semicolon + 1) b.scope.closer) _)))
      cases hnext : b.script.next? (· ≠ .whitespace) (semicolon + 1) b.scope.closer with
      | none => rfl
      | some next =>
          have hsize := (Script.next?_eq_some_iff.mp hnext).2.2.1
          simp only [Script.token_eq hsize, Guarded.ok_bind, guardedReport_eq hsize]
          show (if b.script.kindAt next = .breakKw then _ else _) = Except.ok (List.map _
            (Option.toList (if b.script.kindAt next = .breakKw then some next else none)))
          split <;> rfl

/-- The content that a closer is measured against stands inside the script. -/
theorem firstContent_lt_size (hcloser : scope.closer < b.script.size) :
    b.firstContent scope < b.script.size := by
  unfold firstContent
  cases h : b.script.next? (· ≠ .whitespace) (scope.opener + 1) scope.closer with
  | none => exact hcloser
  | some j => exact (Script.next?_eq_some_iff.mp h).2.2.1

/-- **The end of a case.**  A table in order places the closer behind the opener. -/
theorem guardedCaseEnd_eq (hb : b.Inside) (hscope : b.table.scopeOf? i = some scope) :
    b.guardedCaseEnd i scope = .ok (b.caseEndFindings i scope) := by
  obtain ⟨hcondition, hle, hlt⟩ := hb.ordered.scopes hscope
  have hcloser := hb.closers hscope
  have hi : i < b.script.size := by omega
  have hfirst : b.script.token (b.firstContent scope)
      = .ok (b.script.tokenAt (b.firstContent scope)) :=
    Script.token_eq (firstContent_lt_size hcloser)
  unfold firstContent at hfirst
  unfold guardedCaseEnd caseEndFindings
  rw [Script.token_eq hcloser, Guarded.ok_bind]
  show (if ((b.script.kindAt scope.closer).isTerminator && b.table.isOwner i scope.closer) = true
    then _ else _) = _
  dsimp only
  split
  · have hpos : 1 ≤ scope.closer := by omega
    simp only [guardedBreakIndent_eq hb hcloser, guardedContentLine_eq hpos,
      guardedReportIf_eq hcloser, guardedReportIf_eq hi, guardedSecondBreak_eq, Script.findNext_eq,
      Script.token_eq hi, hfirst, Guarded.ok_bind]
    rfl
  · rfl

/-- Falling into the next case, which does not come first in the script. -/
theorem guardedFallthrough_eq (hi : i < b.script.size) {next : Option Nat}
    (hnext : ∀ j ∈ next, 1 ≤ j ∧ j < b.script.size) :
    b.guardedFallthrough i scope next = .ok (b.fallthroughFindings i scope next) := by
  cases next with
  | none => rfl
  | some j =>
      obtain ⟨hpos, hsize⟩ := hnext j rfl
      rw [guardedFallthrough, fallthroughFindings, isAnnounced]
      cases b.sharesCloser scope j with
      | false => rfl
      | true =>
          rw [if_pos rfl, Bool.true_and, Script.token_eq hsize, minus_eq hpos]
          simp only [Script.findPrevious_eq, Guarded.ok_bind]
          cases h : b.script.previous? (· = .comment) (j - 1) (i + 1) with
          | none => exact guardedReport_eq hi _ _
          | some comment =>
              simp only [Script.token_eq (Script.previous?_lt_size h), Guarded.ok_bind]
              exact guardedReportIf_eq hi _ _

/-- The kinds of the branches below can be looked up. -/
theorem guardedNextCase?_eq {below : List Nat} (h : ∀ i ∈ below, i < b.script.size) :
    b.guardedNextCase? below = .ok (below.find? (b.script.kindAt · == .caseKw)) := by
  induction below with
  | nil => rfl
  | cons i below ih =>
      rw [guardedNextCase?, Script.token_eq (h i List.mem_cons_self), Guarded.ok_bind,
        ih fun j hj => h j (List.mem_cons_of_mem i hj)]
      show (if b.script.kindAt i = .caseKw then _ else _) = _
      split
      · rename_i hcase
        rw [List.find?_cons_of_pos (by simpa using hcase)]
        rfl
      · rename_i hcase
        rw [List.find?_cons_of_neg (by simpa using hcase)]

/-- All that is checked of a `default`. -/
theorem guardedDefault_eq (hb : b.Inside) (hi : i < b.script.size)
    (hbranch : (b.script.kindAt i).isBranch = true) :
    b.guardedDefault i = .ok (b.defaultFindings i) := by
  unfold guardedDefault defaultFindings
  rw [guardedLabel_eq hb hi, Guarded.ok_bind]
  cases hscope : b.table.scopeOf? i with
  | none =>
      simp only [List.append_nil]
      rfl
  | some scope =>
      simp only [guardedOpener_eq hb hscope hbranch, guardedDefaultEnd_eq hb hscope,
        Guarded.ok_bind]
      rfl

/-- All that is checked of a case. -/
theorem guardedCase_eq (hb : b.Inside) (hi : i < b.script.size)
    (hbranch : (b.script.kindAt i).isBranch = true) {below : List Nat}
    (hbelow : ∀ j ∈ below, 1 ≤ j ∧ j < b.script.size) :
    b.guardedCase i below
      = .ok (b.caseFindings i (below.find? (b.script.kindAt · == .caseKw))) := by
  unfold guardedCase caseFindings
  rw [guardedLabel_eq hb hi, Guarded.ok_bind]
  cases hscope : b.table.scopeOf? i with
  | none =>
      simp only [List.append_nil]
      rfl
  | some scope =>
      have hnext : ∀ j ∈ below.find? (b.script.kindAt · == .caseKw), 1 ≤ j ∧ j < b.script.size :=
        fun j hj => hbelow j (List.mem_of_find?_eq_some hj)
      simp only [guardedOpener_eq hb hscope hbranch, guardedCaseEnd_eq hb hscope,
        guardedNextCase?_eq fun j hj => (hbelow j hj).2, guardedFallthrough_eq hi hnext,
        Guarded.ok_bind]
      rfl

/-- **The branches of a switch**, by induction over those that are left. -/
theorem guardedBranches_eq (hb : b.Inside) {branches : List Nat}
    (h : ∀ i ∈ branches, 1 ≤ i ∧ i < b.script.size ∧ (b.script.kindAt i).isBranch = true)
    (seenDefault : Bool) :
    b.guardedBranches seenDefault branches = .ok (b.branchFindings seenDefault branches) := by
  induction branches generalizing seenDefault with
  | nil => rfl
  | cons i below ih =>
      obtain ⟨_, hi, hbranch⟩ := h i List.mem_cons_self
      have hbelow := fun j hj => h j (List.mem_cons_of_mem i hj)
      have hplaces : ∀ j ∈ below, 1 ≤ j ∧ j < b.script.size :=
        fun j hj => ⟨(hbelow j hj).1, (hbelow j hj).2.1⟩
      rw [guardedBranches, branchFindings, Script.token_eq hi, Guarded.ok_bind]
      simp only [guardedReportIf_eq hi, guardedDefault_eq hb hi hbranch,
        guardedCase_eq hb hi hbranch hplaces, ih hbelow, Guarded.ok_bind, Guarded.pure_eq]
      unfold isDefault
      show (if b.script.kindAt i = .defaultKw then _ else _) = _
      simp only [beq_iff_eq]
      split <;> rfl

/-- Whether a switch has a `default` and a case. -/
theorem guardedKinds_eq {branches : List Nat} (h : ∀ i ∈ branches, i < b.script.size) :
    b.guardedKinds branches = .ok (branches.any b.isDefault, branches.any (!b.isDefault ·)) := by
  induction branches with
  | nil => rfl
  | cons i below ih =>
      rw [guardedKinds, Script.token_eq (h i List.mem_cons_self), Guarded.ok_bind,
        ih fun j hj => h j (List.mem_cons_of_mem i hj)]
      rfl

/-- **A switch is looked at without a trap.** -/
theorem guardedFindings_eq (hb : b.Inside) : b.guardedFindings = .ok b.findings := by
  obtain ⟨hcondition, hopener, hcloser⟩ := hb.bounds
  have hkeyword : b.scope.condition < b.script.size := by omega
  have hspec : ∀ i ∈ b.branches,
      1 ≤ i ∧ i < b.script.size ∧ (b.script.kindAt i).isBranch = true := by
    intro i hi
    obtain ⟨hlo, _, hsize, hbranch⟩ := (b.branchesFrom_spec (b.scope.opener + 1)).2 i hi
    exact ⟨by omega, hsize, hbranch⟩
  have hcases : (!b.branches.any (!b.isDefault ·)) = b.branches.all b.isDefault := by
    rw [List.not_any_eq_all_not]
    simp only [Bool.not_not]
  unfold guardedFindings
  rw [show b.guardedBranchesFrom (b.scope.opener + 1) = .ok b.branches from
    guardedBranchesFrom_eq hb.ordered _]
  simp only [Guarded.ok_bind, guardedBranches_eq hb hspec,
    guardedKinds_eq fun i hi => (hspec i hi).2.1, guardedReportIf_eq hkeyword,
    guardedReportIf_eq hcloser, Script.token_eq hkeyword, Script.token_eq hcloser, hcases]
  rfl

end SwitchBody

/-! ## §4. Closers, guarded. -/

namespace ScopeEnd

variable {s : Script} {scope : Scope}

/-- Guarded form of `violation?`. -/
def guardedViolation? (s : Script) (indent : Nat) (scope : Scope) :
    Guarded (Option Violation) := do
  let closer ← s.token scope.closer
  let lineStart ← s.findLineStart scope.condition
  let start ← s.token (lineStart.getD scope.condition)
  let before ← minus scope.closer 1
  let content ← s.findPrevious (· ≠ .whitespace) before scope.opener
  let last ← s.token (content.getD scope.opener)
  if last.endLine = closer.line then return some .closeBraceLine
  else
    let keyword ← s.token scope.condition
    if keyword.kind.isBranch then
      if closer.column = start.column + indent then return none
      else
        let expected ← minus (start.column + indent) 1
        let found ← minus closer.column 1
        return some (.caseCloserIndent expected found)
    else if closer.column = start.column then return none
    else
      let expected ← minus start.column 1
      let found ← minus closer.column 1
      return some (.closeBraceIndent expected found)

/-- Guarded form of `check`. -/
def guardedCheck (s : Script) (table : ScopeTable) (settings : Settings) (i : Nat) :
    Guarded (List Finding) :=
  match table.scopeOf? i with
  | none => return []
  | some scope => do
    if table.isOwner i scope.closer then
      match ← guardedViolation? s settings.indent scope with
      | none => return []
      | some v =>
        let closer ← s.token scope.closer
        return [v.finding ruleName closer none]
    else return []

/-- What starts a line is a token; on a line of whitespace the token itself stands for it. -/
theorem lineStart_lt_size {i : Nat} (hi : i < s.size) : (s.lineStart? i).getD i < s.size := by
  unfold Script.lineStart?
  rw [if_pos hi]
  cases h : s.next? (· ≠ .whitespace) (s.rowStart (s.lineAt i) i) (i + 1) with
  | none => exact hi
  | some j => exact (Script.next?_eq_some_iff.mp h).2.2.1

/-- The last content of a scope is a token; where there is none, the opener stands for it. -/
theorem lastContent_lt_size (hopener : scope.opener < s.size) : lastContent s scope < s.size := by
  unfold lastContent
  cases h : s.previous? (· ≠ .whitespace) (scope.closer - 1) scope.opener with
  | none => exact hopener
  | some j => exact Script.previous?_lt_size h

/-- **A closer is looked at without a trap.**  Columns count from one, so that the columns in
front of a token are a number. -/
theorem guardedViolation?_eq (hcolumns : ∀ i < s.size, 1 ≤ s.columnAt i)
    (hcondition : scope.condition ≤ scope.opener) (hopener : scope.opener < scope.closer)
    (hcloser : scope.closer < s.size) (indent : Nat) :
    guardedViolation? s indent scope = .ok (violation? s indent scope) := by
  have hkeyword : scope.condition < s.size := by omega
  have hstart := lineStart_lt_size hkeyword
  have hlast : s.token (lastContent s scope) = .ok (s.tokenAt (lastContent s scope)) :=
    Script.token_eq (lastContent_lt_size (by omega))
  have hstartColumn : 1 ≤ startColumn s scope.condition := hcolumns _ hstart
  have hcloserColumn := hcolumns scope.closer hcloser
  unfold lastContent at hlast
  unfold guardedViolation?
  rw [minus_eq (show 1 ≤ scope.closer by omega)]
  simp only [Script.findLineStart_eq, Script.findPrevious_eq, Script.token_eq hcloser,
    Script.token_eq hkeyword, Script.token_eq hstart, hlast, Guarded.ok_bind]
  unfold violation?
  show (if s.endLineAt (lastContent s scope) = s.lineAt scope.closer then _ else _) = _
  dsimp only
  split
  · rfl
  show (if (s.kindAt scope.condition).isBranch = true then
      (if s.columnAt scope.closer = startColumn s scope.condition + indent then _ else _)
    else if s.columnAt scope.closer = startColumn s scope.condition then _ else _) = _
  split
  · split
    · rfl
    · rw [show minus ((s.tokenAt ((s.lineStart? scope.condition).getD scope.condition)).column
          + indent) 1 = .ok (startColumn s scope.condition + indent - 1) from
          minus_eq (Nat.le_add_right_of_le hstartColumn),
        show minus (s.tokenAt scope.closer).column 1 = .ok (s.columnAt scope.closer - 1) from
          minus_eq hcloserColumn]
      rfl
  · split
    · rfl
    · rw [show minus (s.tokenAt ((s.lineStart? scope.condition).getD scope.condition)).column 1
          = .ok (startColumn s scope.condition - 1) from minus_eq hstartColumn,
        show minus (s.tokenAt scope.closer).column 1 = .ok (s.columnAt scope.closer - 1) from
          minus_eq hcloserColumn]
      rfl

/-- **The rule on closers** traps nowhere: columns are counted from one, and closers are inside. -/
theorem guardedCheck_eq {table : ScopeTable} (hcolumns : ∀ i < s.size, 1 ≤ s.columnAt i)
    (htable : table.Ordered)
    (hclosers : ∀ {c : Nat} {scope : Scope}, table.scopeOf? c = some scope → scope.closer < s.size)
    (settings : Settings) (i : Nat) :
    guardedCheck s table settings i = .ok (check s table settings i) := by
  unfold guardedCheck check
  cases hscope : table.scopeOf? i with
  | none => rfl
  | some scope =>
      obtain ⟨_, hcondition, hopener⟩ := htable.scopes hscope
      have hcloser := hclosers hscope
      simp only [guardedViolation?_eq hcolumns hcondition hopener hcloser, Guarded.ok_bind,
        Script.token_eq hcloser]
      split
      · cases violation? s settings.indent scope <;> rfl
      · rfl

end ScopeEnd

end SwitchLayout
