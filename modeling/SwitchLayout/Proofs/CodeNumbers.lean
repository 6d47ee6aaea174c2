/-
  SwitchLayout.Proofs.CodeNumbers
  ───────────────────────────────
  **What the rules look at, by the numbers of the code.**

  Scripts with one program differ in their whitespace alone.  What the rules look at is code, which
  has the same number in all of them.

    • `Thins.isSwitch_place`, `Thins.isOwned_place`, `Thins.endsCase_place` — switches and their
      cases,
    • `Thins.next?_code`, `Thins.previous?_code` — searches for code,
    • `firstContent_eq`, `secondBreak?_eq`, `isAnnounced_eq`, `sharesCloser_eq` — the parts of a
      case,
    • `violation?_place`, `violation?_eq_none_iff` — the closer of a scope,
    • `not_endsLabel_closer`, `not_case_before_closer` — what does not stand at a closer, and not in
      front of it.
-/
import SwitchLayout.Proofs.Calming
import SwitchLayout.Proofs.LineStarts

namespace SwitchLayout

open Text

/-! ## §1. Switches and their cases. -/

namespace Script

/-- The scope is one whose closer is looked at for it. -/
def IsOwned (s : Script) (scope : Scope) : Prop :=
  scope ∈ s.detectedScopes ∧ s.scopeTable.isOwner scope.condition scope.closer = true

/-- The scope `label` is that of a case of the switch `scope`. -/
structure IsCase (s : Script) (indent : Nat) (scope label : Scope) : Prop where
  switch : s.IsSwitch scope
  detected : label ∈ s.detectedScopes
  branch : label.condition ∈ (s.body indent scope).branches
  keyword : s.kindAt label.condition = .caseKw

/-- The keyword of a branch. -/
def branchKind : Branch → TokenKind
  | .caseLabel => .caseKw
  | .defaultLabel => .defaultKw

/-- A case of the switch `scope` stands at `i`, behind the token at `k`. -/
def CaseBehind (s : Script) (indent : Nat) (scope : Scope) (k i : Nat) : Prop :=
  i ∈ (s.body indent scope).branches ∧ s.kindAt i = .caseKw ∧ k < i

/-- The case of `label` falls into that of `next`, the next one of the switch: the two end with one
closer. -/
structure FallsInto (s : Script) (indent : Nat) (scope label next : Scope) : Prop where
  upper : s.IsCase indent scope label
  detected : next ∈ s.detectedScopes
  nearest : IsLeast {i | s.CaseBehind indent scope label.condition i} next.condition
  shared : next.closer = label.closer

/-- The body of a switch whose scope is given by the numbers of its code. -/
def bodyAt (s : Script) (scope : Scope) (indent : Nat) : SwitchBody :=
  s.body indent (scope.move s.place)

end Script

namespace Thins

variable {e s : Script} {place : Nat → Nat} {indent : Nat}

theorem isSwitch_place (ht : Thins e s place) {scope : Scope} :
    s.IsSwitch scope ↔ ∃ a, e.IsSwitch a ∧ a.move place = scope := by
  unfold Script.IsSwitch
  rw [ht.detectedScopes_place, List.mem_map]
  constructor
  · intro ⟨⟨a, ha, hmove⟩, hkind⟩
    subst hmove
    refine ⟨a, ⟨ha, ?_⟩, rfl⟩
    rw [← ht.kindAt_place]
    exact hkind
  · intro ⟨a, ⟨ha, hkind⟩, hmove⟩
    subst hmove
    refine ⟨⟨a, ha, rfl⟩, ?_⟩
    show s.kindAt (place a.condition) = .switchKw
    rw [ht.kindAt_place]
    exact hkind

theorem isOwned_place (ht : Thins e s place) {scope : Scope} :
    s.IsOwned scope ↔ ∃ a, e.IsOwned a ∧ a.move place = scope := by
  unfold Script.IsOwned
  rw [ht.detectedScopes_place, List.mem_map]
  constructor
  · intro ⟨⟨a, ha, hmove⟩, howner⟩
    subst hmove
    refine ⟨a, ⟨ha, ?_⟩, rfl⟩
    rw [← ht.isOwner_place]
    exact howner
  · intro ⟨a, ⟨ha, howner⟩, hmove⟩
    subst hmove
    refine ⟨⟨a, ha, rfl⟩, ?_⟩
    show s.scopeTable.isOwner (place a.condition) (place a.closer) = true
    rw [ht.isOwner_place]
    exact howner

theorem mem_branches_place (ht : Thins e s place) {a : Scope} (ha : e.IsSwitch a) {i : Nat} :
    i ∈ (s.body indent (a.move place)).branches
      ↔ ∃ k ∈ (e.body indent a).branches, place k = i := by
  have hcloser := (Script.ordered_of_mem_detectedScopes ha.1).2.2.1
  show i ∈ (SwitchBody.mk s s.scopeTable (a.move place) indent).branches ↔ _
  rw [ht.branches_place hcloser, List.mem_map]
  rfl

theorem endsCase_place (ht : Thins e s place) {scope label : Scope} :
    s.EndsCase indent scope label
      ↔ ∃ a b, e.EndsCase indent a b ∧ a.move place = scope ∧ b.move place = label := by
  constructor
  · intro h
    obtain ⟨a, ha, rfl⟩ := ht.isSwitch_place.mp h.switch
    obtain ⟨b, ⟨hb, howner⟩, rfl⟩ := ht.isOwned_place.mp ⟨h.detected, h.owner⟩
    obtain ⟨k, hk, heq⟩ := (ht.mem_branches_place ha).mp h.branch
    obtain rfl : k = b.condition := ht.inj heq
    have hkeyword : s.kindAt (place b.condition) = .caseKw := h.keyword
    have hleaves : (s.kindAt (place b.closer)).isTerminator = true := h.leaves
    rw [ht.kindAt_place] at hkeyword hleaves
    exact ⟨a, b, ⟨ha, hk, hkeyword, hb, hleaves, howner⟩, rfl, rfl⟩
  · intro ⟨a, b, h, hscope, hlabel⟩
    subst hscope hlabel
    obtain ⟨hmem, howner⟩ := ht.isOwned_place.mpr ⟨b, ⟨h.detected, h.owner⟩, rfl⟩
    refine ⟨ht.isSwitch_place.mpr ⟨a, h.switch, rfl⟩, ?_, ?_, hmem, ?_, howner⟩
    · exact (ht.mem_branches_place h.switch).mpr ⟨b.condition, h.branch, rfl⟩
    · show s.kindAt (place b.condition) = .caseKw
      rw [ht.kindAt_place]
      exact h.keyword
    · show (s.kindAt (place b.closer)).isTerminator = true
      rw [ht.kindAt_place]
      exact h.leaves

/-! ## §2. Searching for code. -/

/-- Nothing but whitespace was taken away. -/
theorem size_eq (ht : Thins e s s.place) : e.size = s.code.length := by
  apply ht.inj
  rw [ht.behind, s.place_length]

theorem whitespace_of_ne (ht : Thins e s s.place) {q : Nat} (hq : q < s.size)
    (hne : ∀ i < e.size, s.place i ≠ q) : s.kindAt q = .whitespace := by
  apply Script.whitespace_of_ne_place hq
  intro j hj
  exact hne j (by rwa [ht.size_eq])

/-- The next code of some kind. -/
theorem next?_code (ht : Thins e s s.place) {p : TokenKind → Bool} (hp : p .whitespace = false)
    {start first : Nat} (hstart : ∀ y, start ≤ s.place y ↔ first ≤ y) (stop : Nat) :
    s.next? p start (s.place stop) = (e.next? p first stop).map s.place := by
  apply ht.next?_place _ hstart
  intro q hq hne
  rw [ht.whitespace_of_ne hq hne]
  exact hp

/-- The last code of some kind in front of the code number `a`. -/
theorem previous?_code (ht : Thins e s s.place) {p : TokenKind → Bool} (hp : p .whitespace = false)
    {start first : Nat} (hstart : ∀ y, start ≤ s.place y ↔ first ≤ y) {a : Nat} (ha : 0 < a)
    (hsize : a ≤ e.size) :
    s.previous? p (s.place a - 1) start = (e.previous? p (a - 1) first).map s.place := by
  have hpos : 0 < s.place a := by
    have hlt := ht.increasing ha
    omega
  have hstop : min (s.place a - 1 + 1) s.size = s.place a := by
    have hle : s.place a ≤ s.size := by
      rw [← ht.behind]
      exact ht.le_iff.mpr hsize
    omega
  have hstop' : min (a - 1 + 1) e.size = a := by omega
  unfold Script.previous?
  rw [hstop, hstop']
  cases hlast : lastIn? (fun i => p (e.kindAt i)) first a with
  | none =>
      show _ = none
      rw [lastIn?_eq_none_iff] at hlast ⊢
      intro q hlo hhi
      by_contra hq
      rw [Bool.not_eq_false] at hq
      have hq' : q < s.size := by omega
      -- what passes the test is code
      obtain ⟨i, hi, rfl⟩ : ∃ i < e.size, s.place i = q := by
        by_contra hnone
        rw [ht.whitespace_of_ne hq' fun i hi heq => hnone ⟨i, hi, heq⟩, hp] at hq
        cases hq
      rw [ht.kindAt_place, hlast i ((hstart i).mp hlo) (ht.lt_iff.mp hhi)] at hq
      cases hq
  | some x =>
      obtain ⟨hlo, hhi, hx, hgreatest⟩ := (lastIn?_eq_some_iff _ _ _ _).mp hlast
      show _ = some (s.place x)
      rw [lastIn?_eq_some_iff]
      refine ⟨(hstart x).mpr hlo, ht.increasing hhi, ?_, ?_⟩
      · rw [ht.kindAt_place]
        exact hx
      · intro q hxq hqa
        by_contra hq
        rw [Bool.not_eq_false] at hq
        obtain ⟨i, hi, rfl⟩ : ∃ i < e.size, s.place i = q := by
          by_contra hnone
          rw [ht.whitespace_of_ne (by omega) fun i hi heq => hnone ⟨i, hi, heq⟩, hp] at hq
          cases hq
        rw [ht.kindAt_place, hgreatest i (ht.lt_iff.mp hxq) (ht.lt_iff.mp hqa)] at hq
        cases hq

end Thins

namespace Script

/-! ## §3. The parts of a case. -/

section Numbers

variable {e s : Script} {k indent : Nat} {scope label : Scope}

theorem lt_length_of_mem (ht : Thins e s s.place) (hscope : scope ∈ e.detectedScopes) :
    scope.condition < scope.closer ∧ scope.closer < s.code.length := by
  obtain ⟨hco, hoc, hsize, _⟩ := ordered_of_mem_detectedScopes hscope
  rw [ht.size_eq] at hsize
  exact ⟨by omega, hsize⟩

/-- The last code in front of the code number `k + 1`. -/
theorem previous?_code (hk : k + 1 < s.code.length) {start : Nat} (hstart : start ≤ s.place k) :
    s.previous? (· ≠ .whitespace) (s.place (k + 1) - 1) start = some (s.place k) := by
  have hlt : s.place k < s.place (k + 1) := s.place_lt (Nat.lt_succ_self k)
  have hsize := place_lt_size hk
  unfold previous?
  rw [lastIn?_eq_some_iff]
  refine ⟨hstart, ?_, decide_eq_true (kindAt_place_ne (by omega)), fun j hlo hhi => ?_⟩
  · rw [Nat.lt_min]
    omega
  · have hspace := whitespace_between (s := s) (k := k) (by omega) hlo (by omega)
    simp [hspace]

/-- The first content of a branch. -/
theorem firstContent_eq (ht : Thins e s s.place) (label : Scope) :
    (s.bodyAt scope indent).firstContent (label.move s.place)
      = s.place ((e.body indent scope).firstContent label) := by
  unfold SwitchBody.firstContent
  show (s.next? (· ≠ .whitespace) (s.place label.opener + 1) (s.place label.closer)).getD _ = _
  rw [ht.next?_code rfl fun _ => ht.succ_le_iff]
  show _ = s.place ((e.next? (· ≠ .whitespace) (label.opener + 1) label.closer).getD label.closer)
  cases e.next? (· ≠ .whitespace) (label.opener + 1) label.closer with
  | none => rfl
  | some i => rfl

/-- The code in front of the closer of a branch. -/
theorem contentLineBefore_eq (hscope : scope.condition < k) (hk : k + 1 < s.code.length) :
    (s.bodyAt scope indent).contentLineBefore (s.place (k + 1)) = s.endLineAt (s.place k) := by
  have hprevious : (s.bodyAt scope indent).script.previous? (· ≠ .whitespace)
      (s.place (k + 1) - 1) ((s.bodyAt scope indent).scope.condition + 1) = some (s.place k) := by
    apply previous?_code hk
    exact s.place_lt hscope
  unfold SwitchBody.contentLineBefore
  rw [hprevious]
  rfl

/-- The `break` behind the end of a branch. -/
theorem secondBreak?_eq (ht : Thins e s s.place) (closer : Nat) :
    (s.bodyAt scope indent).secondBreak? (s.place closer)
      = ((e.body indent scope).secondBreak? closer).map s.place := by
  unfold SwitchBody.secondBreak?
  show (s.next? (· = .semicolon) (s.place closer) (s.place scope.closer)).bind _ = _
  rw [ht.next?_code rfl fun _ => ht.le_iff]
  show _ = ((e.next? (· = .semicolon) closer scope.closer).bind _).map s.place
  cases e.next? (· = .semicolon) closer scope.closer with
  | none => rfl
  | some semicolon =>
      show (s.next? (· ≠ .whitespace) (s.place semicolon + 1) (s.place scope.closer)).bind _
        = ((e.next? (· ≠ .whitespace) (semicolon + 1) scope.closer).bind _).map s.place
      rw [ht.next?_code rfl fun _ => ht.succ_le_iff]
      cases e.next? (· ≠ .whitespace) (semicolon + 1) scope.closer with
      | none => rfl
      | some next =>
          show (if s.kindAt (s.place next) = .breakKw then _ else _)
            = (if e.kindAt next = .breakKw then _ else _ : Option Nat).map s.place
          rw [ht.kindAt_place]
          split <;> rfl

/-- The comment in front of the next case. -/
theorem isAnnounced_eq (ht : Thins e s s.place) {i next : Nat} (hnext : i < next)
    (hsize : next < e.size) :
    (s.bodyAt scope indent).isAnnounced (s.place i) (s.place next)
      = match e.previous? (· = .comment) (next - 1) (i + 1) with
        | some comment => s.endLineAt (s.place comment) + 1 == s.lineAt (s.place next)
        | none => false := by
  unfold SwitchBody.isAnnounced
  show (match s.previous? (· = .comment) (s.place next - 1) (s.place i + 1) with
    | some comment => s.endLineAt comment + 1 == s.lineAt (s.place next)
    | none => false) = _
  rw [ht.previous?_code rfl (fun _ => ht.succ_le_iff) (by omega) (by omega)]
  cases e.previous? (· = .comment) (next - 1) (i + 1) <;> rfl

theorem sharesCloser_eq (ht : Thins e s s.place) (label : Scope) (next : Nat) :
    (s.bodyAt scope indent).sharesCloser (label.move s.place) (s.place next)
      = ((e.scopeTable.scopeOf? next).map Scope.closer == some label.closer) := by
  unfold SwitchBody.sharesCloser
  show ((s.scopeTable.scopeOf? (s.place next)).map Scope.closer == some (s.place label.closer)) = _
  rw [ht.scopeOf?_place]
  cases e.scopeTable.scopeOf? next with
  | none => rfl
  | some other =>
      show (some (s.place other.closer) == some (s.place label.closer))
        = (some other.closer == some label.closer)
      rw [Bool.eq_iff_iff, beq_iff_eq, beq_iff_eq, Option.some_inj, Option.some_inj]
      exact ⟨fun heq => ht.inj heq, fun heq => congrArg s.place heq⟩

end Numbers

/-! ## §4. Closers. -/

section Closers

variable {e s : Script} {k indent : Nat} {scope label : Scope}

/-- The code number `i` starts on the line on which the code in front of it ends. -/
def SharesLine (s : Script) (i : Nat) : Prop :=
  s.endLineAt (s.place (i - 1)) = s.lineAt (s.place i)

instance (s : Script) (i : Nat) : Decidable (s.SharesLine i) := inferInstanceAs (Decidable (_ = _))

/-- The last code of a scope. -/
theorem lastContent_place (ht : Thins e s s.place) (hscope : scope ∈ e.detectedScopes) :
    ScopeEnd.lastContent s (scope.move s.place) = s.place (scope.closer - 1) := by
  obtain ⟨_, hoc, hsize, _⟩ := ordered_of_mem_detectedScopes hscope
  obtain ⟨j, hj⟩ : ∃ j, scope.closer = j + 1 := ⟨scope.closer - 1, by omega⟩
  rw [ht.size_eq, hj] at hsize
  have hopener : s.place scope.opener ≤ s.place j := ht.le_iff.mpr (by omega)
  unfold ScopeEnd.lastContent
  show (s.previous? (· ≠ .whitespace) (s.place scope.closer - 1) (s.place scope.opener)).getD _ = _
  rw [hj, previous?_code hsize hopener]
  rfl

/-- What is wrong with a closer, by the numbers of the code. -/
theorem violation?_place (ht : Thins e s s.place) (hscope : scope ∈ e.detectedScopes) :
    ScopeEnd.violation? s indent (scope.move s.place)
      = let start := ScopeEnd.startColumn s (s.place scope.condition)
        let found := s.columnAt (s.place scope.closer)
        if s.SharesLine scope.closer then some .closeBraceLine
        else if (e.kindAt scope.condition).isBranch then
          if found = start + indent then none
          else some (.caseCloserIndent (start + indent - 1) (found - 1))
        else if found = start then none
        else some (.closeBraceIndent (start - 1) (found - 1)) := by
  unfold ScopeEnd.violation?
  rw [lastContent_place ht hscope, ← ht.kindAt_place]
  rfl

/-- How far inside the line of its keyword a scope is closed. -/
def closerDepth (indent : Nat) (kind : TokenKind) : Nat := if kind.isBranch then indent else 0

/-- The code of a closer that stands elsewhere. -/
def closerCode (kind : TokenKind) : Code :=
  if kind.isBranch then .caseCloserIndent else .closeBraceIndent

/-- What is wrong with a closer on a line of its own is its column. -/
theorem code_of_violation? (ht : Thins e s s.place) (hscope : scope ∈ e.detectedScopes)
    (hown : ¬ s.SharesLine scope.closer) {v : Violation}
    (hv : ScopeEnd.violation? s indent (scope.move s.place) = some v) :
    v.code = closerCode (e.kindAt scope.condition) := by
  rw [violation?_place ht hscope] at hv
  dsimp only at hv
  rw [if_neg hown] at hv
  unfold closerCode
  split at hv
  · rename_i hbranch
    rw [if_pos hbranch]
    split at hv
    · cases hv
    · rw [← Option.some.inj hv]
      rfl
  · rename_i hbranch
    rw [if_neg hbranch]
    split at hv
    · cases hv
    · rw [← Option.some.inj hv]
      rfl

/-- A closer is in order on a line of its own and at the depth of its scope. -/
theorem violation?_eq_none_iff (ht : Thins e s s.place) (hscope : scope ∈ e.detectedScopes) :
    ScopeEnd.violation? s indent (scope.move s.place) = none
      ↔ ¬ s.SharesLine scope.closer ∧ s.columnAt (s.place scope.closer)
          = ScopeEnd.startColumn s (s.place scope.condition)
            + closerDepth indent (e.kindAt scope.condition) := by
  rw [violation?_place ht hscope]
  dsimp only [closerDepth]
  by_cases hshares : s.SharesLine scope.closer
  · simp [hshares]
  · by_cases hbranch : (e.kindAt scope.condition).isBranch = true
    · simp [hshares, hbranch]
    · simp [hshares, hbranch]

theorem not_endsLabel_of_ne {i : Nat} (h : s.kindAt i ≠ .colon) : ¬ s.EndsLabel i :=
  fun hlabel => h hlabel.1

theorem not_endsLabel_closer (ht : Thins e s s.place) (hscope : scope ∈ e.detectedScopes) :
    ¬ s.EndsLabel (s.place scope.closer) := by
  apply not_endsLabel_of_ne
  rw [ht.kindAt_place]
  intro heq
  have hcloser := (isCloser_of_mem_detectedScopes hscope).1
  rw [heq] at hcloser
  cases hcloser

/-- In front of a closer that is no brace there is no `case`. -/
theorem not_case_before_closer (ht : Thins e s s.place) (hlabel : label ∈ e.detectedScopes)
    (hk : label.closer = k + 1) (hbrace : e.kindAt label.closer ≠ .closeBrace) :
    s.kindAt (s.place k) ≠ .caseKw := by
  have hsize := (lt_length_of_mem ht hlabel).2
  have hmem : label.move s.place ∈ s.detectedScopes := by
    rw [ht.detectedScopes_place]
    exact List.mem_map_of_mem hlabel
  intro hcase
  have hbranch : (s.kindAt (s.place k)).isBranch = false := by
    apply not_isBranch_before_closer hmem
    · show s.kindAt (s.place label.closer) ≠ .closeBrace
      rw [ht.kindAt_place]
      exact hbrace
    · show s.place k < s.place label.closer
      rw [hk]
      exact s.place_lt (Nat.lt_succ_self k)
    · intro i hlo hhi
      change i < s.place label.closer at hhi
      rw [hk] at hhi
      exact whitespace_between (by omega) hlo hhi
  rw [hcase] at hbranch
  cases hbranch

end Closers

end Script

end SwitchLayout
