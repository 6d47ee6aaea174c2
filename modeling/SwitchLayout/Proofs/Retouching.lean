/-
  SwitchLayout.Proofs.Retouching
  ──────────────────────────────
  **What a round does to each token.**

  An edit changes a token in one of six ways, and each of them only beside certain neighbours
  (`Retouched`, `retouched_selection`).  Two facts about scopes keep the edits apart: in front of
  the colon of a label there is no `case` but its own (`eq_condition_of_isBranch`), and in front
  of the statement that leaves a branch there is none at all (`not_isBranch_before_closer`).
-/
import SwitchLayout.Proofs.Gaps
import SwitchLayout.Proofs.Laminar

namespace SwitchLayout

open Text

/-- A statement that leaves a branch starts with no other token. -/
theorem TokenKind.ne_of_isTerminator {kind kind' : TokenKind} (h : kind.isTerminator = true)
    (h' : kind'.isTerminator = false) : kind ≠ kind' := by
  intro heq
  rw [heq, h'] at h
  cases h

namespace Script

/-! ## §1. Keywords in front of openers and closers. -/

section Scopes

variable {s : Script} {bodyOpener bodyCloser : Nat}

/-- A token that closes nothing, and that only whitespace parts from a token outside of groups, is
outside of them. -/
theorem isOutside_of_adjacent {start x p : Nat} (hp : s.brackets.IsOutside start p) (hxp : x < p)
    (hcloses : (s.kindAt x).closes? = none)
    (hspace : ∀ i, x < i → i < p → s.kindAt i = .whitespace) : s.brackets.IsOutside start x := by
  intro j k hj hjx hjk
  by_contra hge
  have hkp : k < p := hp j k hj (by omega) hjk
  have hclose : (s.kindAt k).closes? ≠ none := by
    obtain ⟨shape, _, hshape⟩ := groupEnd?_shapes hjk
    rw [hshape]
    exact Option.some_ne_none shape
  apply hclose
  -- the end of such a group would be the token or the whitespace behind it
  rcases Nat.eq_or_lt_of_le (Nat.le_of_not_lt hge) with rfl | hlt
  · exact hcloses
  · rw [hspace k hlt hkp]
    rfl

/-- The label of a branch ends in front of the branches below. -/
theorem opener_lt_of_mem_branchScopes {branches : List Nat} (hsorted : branches.Pairwise (· < ·))
    {a : Scope} (ha : a ∈ s.branchScopes s.brackets bodyCloser branches) :
    a.condition ∈ branches ∧ ∀ x ∈ branches, a.condition < x → a.opener < x := by
  induction branches with
  | nil => cases ha
  | cons branch below ih =>
      obtain ⟨hhead, htail⟩ := List.pairwise_cons.mp hsorted
      rw [branchScopes, List.mem_append] at ha
      rcases ha with ha | ha
      · obtain ⟨hmem, hlt⟩ := ih htail ha
        refine ⟨List.mem_cons_of_mem branch hmem, fun x hx hax => ?_⟩
        rcases List.mem_cons.mp hx with rfl | hx
        · have hless := hhead _ hmem
          omega
        · exact hlt x hx hax
      · rw [Option.mem_toList, branchScope?_eq] at ha
        obtain ⟨opener, hopener, hrest⟩ := Option.bind_eq_some_iff.mp ha
        obtain ⟨closer, _, rfl⟩ := Option.map_eq_some_iff.mp hrest
        refine ⟨List.mem_cons_self, fun x hx hax => ?_⟩
        -- the walk over the label stops at the first branch below
        have hlimit := Brackets.mem_topLevel_lt (labelEnd?_eq_some hopener).1
        have hxbelow : x ∈ below := by
          rcases List.mem_cons.mp hx with rfl | hx
          · exact absurd hax (Nat.lt_irrefl _)
          · exact hx
        cases below with
        | nil => cases hxbelow
        | cons next rest =>
            change opener < next at hlimit
            show opener < x
            rcases List.mem_cons.mp hxbelow with rfl | hx
            · exact hlimit
            · have hless := (List.pairwise_cons.mp htail).1 x hx
              omega

/-- What ends a label is neither whitespace nor a branch keyword. -/
theorem kind_of_endsLabel {kind : TokenKind} (h : endsLabel kind = true) :
    kind ≠ .whitespace ∧ kind.isBranch = false := by
  revert h
  cases kind <;> decide

/-- **In front of the colon of a label there is no other keyword.** -/
theorem eq_condition_of_isBranch {scope : Scope} (hscope : scope ∈ s.detectedScopes)
    (hcolon : s.kindAt scope.opener = .colon) {x : Nat} (hx : x < scope.opener)
    (hbranch : (s.kindAt x).isBranch = true)
    (hspace : ∀ i, x < i → i < scope.opener → s.kindAt i = .whitespace) : x = scope.condition := by
  rcases group_or_branch hscope with hgroup | ⟨i, body, _, hbody, hmem⟩
  · -- a colon opens no group
    refine absurd hgroup (groupEnd?_of_opens ?_)
    rw [hcolon]
    rfl
  · have hstretch := (branchStretch_of_body hbody).1 scope hmem
    obtain ⟨hcond, hlt⟩ := opener_lt_of_mem_branchScopes (branchesIn_sorted s _ _) hmem
    obtain ⟨_, _, _, hkind⟩ := mem_branchesIn_iff.mp hcond
    rcases Nat.lt_trichotomy x scope.condition with hless | heq | hgreater
    · -- its own keyword would be whitespace
      rw [hspace _ hless hstretch.ordered.1] at hkind
      cases hkind
    · exact heq
    · -- another keyword would be a branch of the body, and the label would end in front of it
      have hout := isOutside_of_adjacent hstretch.outside hx
        (TokenKind.plain_of_isBranch hbranch).2.2 hspace
      have hinside := hstretch.inside
      have hle : scope.closer ≤ body.closer := hstretch.ordered.2.2
      have hoc : scope.opener < scope.closer := hstretch.ordered.2.1
      have hxmem : x ∈ s.branchesIn s.brackets body.opener body.closer :=
        mem_branchesIn_iff.mpr ⟨by omega, by omega, hout, hbranch⟩
      have hback := hlt x hxmem hgreater
      omega

/-- The token at `c` is the first one behind the end of a label at `o` that ends a branch. -/
structure Leaves (s : Script) (o c : Nat) : Prop where
  label : endsLabel (s.kindAt o) = true
  leaves : (s.kindAt c).isTerminator = true ∨ s.kindAt c = .exitKw
  behind : o < c
  outside : s.brackets.IsOutside (o + 1) c
  first : ∀ i, o < i → i < c → s.brackets.IsOutside (o + 1) i → endsBranch (s.kindAt i) = false

/-- Where a branch ends: with its body, with a branch below, or at the first token behind its
label that leaves it. -/
theorem branchEnd?_origin {opener closer : Nat} {later : List Scope}
    (hlabel : endsLabel (s.kindAt opener) = true)
    (h : s.branchEnd? s.brackets opener bodyCloser later = some closer) :
    closer = bodyCloser ∨ (∃ a ∈ later, a.closer = closer) ∨ s.Leaves opener closer := by
  unfold branchEnd? at h
  split at h
  · exact .inl (Option.some.inj h).symm
  · rename_i i hfind
    split at h
    · obtain ⟨a, ha, heq⟩ := Option.map_eq_some_iff.mp h
      exact .inr (.inl ⟨a, List.mem_of_find?_eq_some ha, heq⟩)
    · rename_i hbranch
      obtain rfl := Option.some.inj h
      have hmem := List.mem_of_find?_eq_some hfind
      rw [mem_topLevel_iff (wellNested_brackets s)] at hmem
      obtain ⟨hlo, hhi, hout⟩ := hmem
      have hleaves : (s.kindAt i).isTerminator = true ∨ s.kindAt i = .exitKw := by
        have hends := List.find?_some hfind
        unfold endsBranch at hends
        rw [Bool.or_eq_true, Bool.or_eq_true, beq_iff_eq] at hends
        exact hends.resolve_right hbranch
      refine .inr (.inr ⟨hlabel, hleaves, hlo, hout, fun j hj hji hjout => ?_⟩)
      by_contra hends
      have hjmem : j ∈ s.brackets.topLevel (opener + 1) bodyCloser := by
        rw [mem_topLevel_iff (wellNested_brackets s)]
        exact ⟨hj, by omega, hjout⟩
      have hle := le_of_find?_eq_some (topLevel_sorted _ _ _).1 hfind hjmem
        (Bool.eq_true_of_not_eq_false hends)
      omega

theorem kindAt_of_groupEnd? {o c : Nat} (hopener : s.kindAt o = .openBrace)
    (h : s.brackets.groupEnd? o = some c) : s.kindAt c = .closeBrace := by
  obtain ⟨shape, hopens, hcloses⟩ := groupEnd?_shapes h
  rw [hopener] at hopens
  obtain rfl := Option.some.inj hopens
  generalize s.kindAt c = kind at hcloses
  cases kind <;> first | rfl | cases hcloses

theorem kindAt_closer_of_body {i : Nat} {body : Scope}
    (hbody : s.bodyScope? s.brackets i = some body) : s.kindAt body.closer = .closeBrace := by
  obtain ⟨_, hbrace, hgroup⟩ := bodyScope?_eq_some hbody
  exact kindAt_of_groupEnd? (bodyBrace?_eq_some hbrace).2 hgroup

/-- A scope that is a group ends in a brace. -/
theorem kindAt_closer_of_group {scope : Scope} (hlabel : endsLabel (s.kindAt scope.opener) = true)
    (h : s.brackets.groupEnd? scope.opener = some scope.closer) :
    s.kindAt scope.closer = .closeBrace := by
  by_cases hbrace : s.kindAt scope.opener = .openBrace
  · exact kindAt_of_groupEnd? hbrace h
  · exact absurd h (groupEnd?_of_opens (opens?_of_endsLabel hlabel hbrace))

/-- The closers of the branches of a body. -/
theorem leaves_of_mem_branchScopes {branches : List Nat} {a : Scope}
    (ha : a ∈ s.branchScopes s.brackets bodyCloser branches) :
    a.closer = bodyCloser ∨ s.kindAt a.closer = .closeBrace ∨ ∃ o, s.Leaves o a.closer := by
  induction branches generalizing a with
  | nil => cases ha
  | cons branch below ih =>
      rw [branchScopes, List.mem_append] at ha
      rcases ha with ha | ha
      · exact ih ha
      · rw [Option.mem_toList, branchScope?_eq] at ha
        obtain ⟨opener, hopener, hrest⟩ := Option.bind_eq_some_iff.mp ha
        obtain ⟨closer, hcloser, rfl⟩ := Option.map_eq_some_iff.mp hrest
        split at hcloser
        · rename_i hbrace
          exact .inr (.inl (kindAt_of_groupEnd? hbrace hcloser))
        · rcases branchEnd?_origin (labelEnd?_eq_some hopener).2 hcloser with
            heq | ⟨other, hother, rfl⟩ | hleaves
          · exact .inl heq
          · have hend := ih hother
            exact hend
          · exact .inr (.inr ⟨opener, hleaves⟩)

/-- The token closes a scope: it is a brace or leaves a branch. -/
def isCloser (kind : TokenKind) : Bool :=
  kind == .closeBrace || kind.isTerminator || kind == .exitKw

/-- What closes a scope, and that of any keyword but that of a branch. -/
theorem isCloser_of_mem_detectedScopes {scope : Scope} (hscope : scope ∈ s.detectedScopes) :
    isCloser (s.kindAt scope.closer) = true
      ∧ ((s.kindAt scope.condition).isBranch = false → s.kindAt scope.closer = .closeBrace) := by
  have hlabel := (ordered_of_mem_detectedScopes hscope).2.2.2
  rcases group_or_branch hscope with hend | ⟨i, body, _, hbody, hmem⟩
  · rw [kindAt_closer_of_group hlabel hend]
    exact ⟨rfl, fun _ => rfl⟩
  · have hbranch : (s.kindAt scope.condition).isBranch = true :=
      (mem_branchesIn_iff.mp
        (opener_lt_of_mem_branchScopes (branchesIn_sorted s _ _) hmem).1).2.2.2
    refine ⟨?_, fun hnot => ?_⟩
    · unfold isCloser
      rw [Bool.or_eq_true, Bool.or_eq_true, beq_iff_eq, beq_iff_eq]
      rcases leaves_of_mem_branchScopes hmem with heq | hkind | ⟨o, hleaves⟩
      · rw [heq]
        exact .inl (.inl (kindAt_closer_of_body hbody))
      · exact .inl (.inl hkind)
      · rcases hleaves.leaves with hterm | hexit
        · exact .inl (.inr hterm)
        · exact .inr hexit
    · rw [hbranch] at hnot
      cases hnot

/-- **In front of the statement that leaves a branch there is no branch keyword.** -/
theorem not_isBranch_before_closer {scope : Scope} (hscope : scope ∈ s.detectedScopes)
    (hcloser : s.kindAt scope.closer ≠ .closeBrace) {x : Nat} (hx : x < scope.closer)
    (hspace : ∀ i, x < i → i < scope.closer → s.kindAt i = .whitespace) :
    (s.kindAt x).isBranch = false := by
  rcases group_or_branch hscope with hend | ⟨i, body, _, hbody, hmem⟩
  · have hlabel := (ordered_of_mem_detectedScopes hscope).2.2.2
    exact absurd (kindAt_closer_of_group hlabel hend) hcloser
  · rcases leaves_of_mem_branchScopes hmem with heq | hkind | ⟨o, hleaves⟩
    · rw [heq] at hcloser
      exact absurd (kindAt_closer_of_body hbody) hcloser
    · exact absurd hkind hcloser
    · obtain ⟨hcode, hplain⟩ := kind_of_endsLabel hleaves.label
      rcases Nat.lt_trichotomy x o with hless | rfl | hgreater
      · exact absurd (hspace o hless hleaves.behind) hcode
      · exact hplain
      · -- a keyword behind the label would have ended the branch earlier
        by_contra hbranch
        rw [Bool.not_eq_false] at hbranch
        have hout := isOutside_of_adjacent hleaves.outside hx
          (TokenKind.plain_of_isBranch hbranch).2.2 hspace
        have hends := hleaves.first x hgreater hx hout
        unfold endsBranch at hends
        rw [hbranch, Bool.or_true] at hends
        cases hends

end Scopes

/-! ## §2. The ends of cases. -/

/-- The scope is that of a switch. -/
def IsSwitch (s : Script) (scope : Scope) : Prop :=
  scope ∈ s.detectedScopes ∧ s.kindAt scope.condition = .switchKw

/-- A switch as the rule looks at it. -/
def body (s : Script) (indent : Nat) (scope : Scope) : SwitchBody :=
  ⟨s, s.scopeTable, scope, indent⟩

/-- The scope `label` is that of a case of the switch `scope`, and the case owns its closer, which
is a statement that leaves it. -/
structure EndsCase (s : Script) (indent : Nat) (scope label : Scope) : Prop where
  switch : s.IsSwitch scope
  branch : label.condition ∈ (s.body indent scope).branches
  keyword : s.kindAt label.condition = .caseKw
  detected : label ∈ s.detectedScopes
  leaves : (s.kindAt label.closer).isTerminator = true
  owner : s.scopeTable.isOwner label.condition label.closer = true

/-- The token at `c` ends a case, and is due in the column `column`. -/
def Due (s : Script) (indent c column : Nat) : Prop :=
  ∃ scope label, s.EndsCase indent scope label ∧ label.closer = c
    ∧ column = (s.body indent scope).breakColumn

section Ends

variable {s : Script} {indent : Nat} {scope scope' label label' : Scope}

theorem IsSwitch.scopeOf? (h : s.IsSwitch scope) :
    s.scopeTable.scopeOf? scope.condition = some scope :=
  scopeOf?_scopeTable_iff.mpr ⟨h.1, rfl⟩

theorem IsSwitch.bodyScope? (h : s.IsSwitch scope) :
    s.bodyScope? s.brackets scope.condition = some scope :=
  bodyScope?_of_scopeOf? h.2 h.scopeOf?

/-- A branch of a switch is none of a switch in front of it. -/
theorem not_mem_branches_of_lt (h : s.IsSwitch scope) (h' : s.IsSwitch scope')
    (hlt : scope.condition < scope'.condition) {i : Nat}
    (hi' : i ∈ (s.body indent scope').branches) : i ∉ (s.body indent scope).branches := by
  obtain ⟨_, _, hsize', _⟩ := ordered_of_mem_detectedScopes h'.1
  obtain ⟨_, hoc, hsize, _⟩ := ordered_of_mem_detectedScopes h.1
  have hbody := h.bodyScope?
  have hbody' := h'.bodyScope?
  obtain ⟨hlo', hhi', _⟩ := (SwitchBody.mem_branches_iff (Nat.le_of_lt hsize')).mp hi'
  have hco' := (ordered_of_mem_detectedScopes h'.1).1
  intro hi
  obtain ⟨hlo, hhi, _, hnot⟩ := (SwitchBody.mem_branches_iff (Nat.le_of_lt hsize)).mp hi
  -- the later switch stands in one of the two groups of the other
  obtain ⟨g, e, hge, _, hgq, hqe, hec⟩ := group_of_lt_closer h.2 hbody hlt (by omega)
    (by rw [h'.2]; rfl) (by rw [h'.2]; rfl) (by rw [h'.2]; rfl)
  have hin := closer_lt_of_group hge hgq hqe h'.2 hbody'
  by_cases hbehind : scope.opener < scope'.condition
  · -- in the body, where it hides the branch
    refine hnot ⟨scope'.condition, scope'.closer, hbehind, by omega, h'.2, ?_, by omega⟩
    show s.scopeTable.closerOf? scope'.condition = some scope'.closer
    unfold ScopeTable.closerOf?
    rw [h'.scopeOf?]
    rfl
  · -- in the parentheses, which end in front of the body
    have hgroup := (bodyScope?_eq_some hbody).2.2
    have hnest := wellNested_brackets s g e scope.opener scope.closer hge hgroup (by omega)
    omega

/-- **One switch for each branch.** -/
theorem scope_eq_of_mem_branches (h : s.IsSwitch scope) (h' : s.IsSwitch scope') {i : Nat}
    (hi : i ∈ (s.body indent scope).branches) (hi' : i ∈ (s.body indent scope').branches) :
    scope = scope' := by
  rcases Nat.lt_trichotomy scope.condition scope'.condition with hlt | heq | hgt
  · exact absurd hi (not_mem_branches_of_lt h h' hlt hi')
  · have hscope := h.scopeOf?
    rw [heq, h'.scopeOf?] at hscope
    exact (Option.some.inj hscope).symm
  · exact absurd hi' (not_mem_branches_of_lt h' h hgt hi)

/-- The owner of a closer is one keyword. -/
theorem eq_of_isOwner {i j c : Nat} (hi : s.scopeTable.isOwner i c = true)
    (hj : s.scopeTable.isOwner j c = true) : i = j := by
  unfold ScopeTable.isOwner at hi hj
  rw [beq_iff_eq] at hi hj
  exact Option.some.inj (hi.symm.trans hj)

/-- The statement that ends a case is due in one column. -/
theorem Due.column_eq {c a b : Nat} (ha : s.Due indent c a) (hb : s.Due indent c b) : a = b := by
  obtain ⟨scope, label, hends, rfl, rfl⟩ := ha
  obtain ⟨scope', label', hends', hcloser, rfl⟩ := hb
  have howner := hends'.owner
  rw [hcloser] at howner
  have hbranch := hends'.branch
  rw [← eq_of_isOwner hends.owner howner] at hbranch
  rw [scope_eq_of_mem_branches hends.switch hends'.switch hends.branch hbranch]

theorem Due.kindAt_ne {c column : Nat} (h : s.Due indent c column) {kind : TokenKind}
    (hkind : kind.isTerminator = false) : s.kindAt c ≠ kind := by
  obtain ⟨scope, label, hends, rfl, _⟩ := h
  exact TokenKind.ne_of_isTerminator hends.leaves hkind

end Ends

/-! ## §3. What a round does to a token. -/

/-- The token at a position directly follows a `case`. -/
def BehindCase (s : Script) : Nat → Prop
  | 0 => False
  | i + 1 => s.kindAt i = .caseKw

/-- The token is the colon of a label. -/
def EndsLabel (s : Script) (i : Nat) : Prop :=
  s.kindAt i = .colon ∧ ∃ label ∈ s.detectedScopes, label.opener = i

/-- What a round may make of the token at `p`. -/
inductive Retouched (s : Script) (indent p : Nat) : List Char → Prop
  /-- It stays. -/
  | kept : Retouched s indent p (s.tokenAt p).chars
  /-- A branch keyword goes to lower case. -/
  | lowered (hbranch : (s.kindAt p).isBranch = true) :
      Retouched s indent p (lowerAscii (s.tokenAt p).chars)
  /-- Whitespace behind a `case` becomes one space. -/
  | single (hspace : s.kindAt p = .whitespace) (hcase : s.BehindCase p) :
      Retouched s indent p [' ']
  /-- One space comes between a `case` and the code behind it. -/
  | parted (hcode : s.kindAt p ≠ .whitespace) (hcase : s.BehindCase p) :
      Retouched s indent p (' ' :: (s.tokenAt p).chars)
  /-- Whitespace in front of the colon of a label goes, unless it directly follows a `case`. -/
  | joined (hspace : s.kindAt p = .whitespace) (hlabel : s.EndsLabel (p + 1))
      (hcase : ¬ s.BehindCase p) : Retouched s indent p []
  /-- Spaces go from in front of a statement that starts its line. -/
  | trimmed (count : Nat) (hspace : s.kindAt p = .whitespace)
      (hblanks : ∀ c ∈ (s.tokenAt p).chars, c = ' ') (hcount : count ≤ (s.tokenAt p).chars.length)
      (hstart : s.lineStart? (p + 1) = some (p + 1)) {column : Nat}
      (hdue : s.Due indent (p + 1) column) (hcolumn : column + count = s.columnAt (p + 1)) :
      Retouched s indent p ((s.tokenAt p).chars.drop count)
  /-- Spaces come in front of a statement that starts its line. -/
  | indented (count : Nat) (hstart : s.lineStart? p = some p) {column : Nat}
      (hdue : s.Due indent p column) (hcolumn : column = s.columnAt p + count) (hpos : 0 < count) :
      Retouched s indent p (List.replicate count ' ' ++ (s.tokenAt p).chars)

end Script

/-- A label ends at the same piece of code, if whitespace is taken away. -/
theorem Thins.endsLabel_place {e s : Script} {place : Nat → Nat} (ht : Thins e s place) {k : Nat} :
    s.EndsLabel (place k) ↔ e.EndsLabel k := by
  unfold Script.EndsLabel
  rw [ht.kindAt_place, ht.detectedScopes_place]
  constructor
  · intro ⟨hcolon, label, hlabel, heq⟩
    obtain ⟨a, ha, rfl⟩ := List.mem_map.mp hlabel
    exact ⟨hcolon, a, ha, ht.inj heq⟩
  · intro ⟨hcolon, a, ha, heq⟩
    exact ⟨hcolon, a.move place, List.mem_map_of_mem ha, congrArg place heq⟩

namespace SwitchBody

variable {tabWidth : Nat} {text : String} {b : SwitchBody} {i : Nat} {e : Edit} {t : Token}

theorem retouched_of_spacing (hkind : b.script.kindAt i = .caseKw)
    (he : b.caseSpacingFix? i = some e) (ht : b.script.get? e.position = some t) :
    b.script.Retouched b.indent e.position (e.apply t) := by
  unfold caseSpacingFix? at he
  split at he
  · cases he
  · rename_i next hnext
    have hposition := Script.position_of_get? hnext
    have htoken : b.script.tokenAt (i + 1) = next := by
      unfold Script.tokenAt
      rw [hnext]
      rfl
    have hnextKind : b.script.kindAt (i + 1) = next.kind := congrArg Token.kind htoken
    split at he
    · rename_i hspace
      split at he
      · cases he
      · obtain rfl := Option.some.inj he
        have hp : (Edit.replace next " ").position = i + 1 := hposition
        rw [hp, hnext] at ht
        obtain rfl := Option.some.inj ht
        have happly : (Edit.replace next " ").apply next = [' '] := by
          simp [Edit.apply, Edit.replace]
        rw [hp, happly]
        exact .single (hnextKind.trans hspace) hkind
    · rename_i hcode
      obtain rfl := Option.some.inj he
      have hp : (Edit.insertBefore next.position " ").position = i + 1 := hposition
      rw [hp, hnext] at ht
      obtain rfl := Option.some.inj ht
      have happly : (Edit.insertBefore next.position " ").apply next
          = ' ' :: (b.script.tokenAt (i + 1)).chars := by
        rw [htoken]
        simp [Edit.apply, Edit.insertBefore]
      rw [hp, happly]
      exact .parted (by rwa [hnextKind]) hkind

theorem retouched_of_indent {closer expected : Nat}
    (hdue : b.script.Due b.indent closer expected)
    (he : b.indentFix? closer expected = some e) (ht : b.script.get? e.position = some t) :
    b.script.Retouched b.indent e.position (e.apply t) := by
  have htoken : b.script.tokenAt e.position = t := by
    unfold Script.tokenAt
    rw [ht]
    rfl
  cases moves_of_indent he with
  | ahead count hstart hpos hcolumn =>
      change b.script.tokenAt closer = t at htoken
      have happly : (Edit.insertBefore closer (String.ofList (List.replicate count ' '))).apply t
          = List.replicate count ' ' ++ (b.script.tokenAt closer).chars := by
        rw [htoken]
        simp [Edit.apply, Edit.insertBefore]
      rw [happly]
      exact .indented count hstart hdue hcolumn.symm hpos
  | @back j count hstart hspace hblanks hcount hcolumn =>
      change b.script.tokenAt j = t at htoken
      have happly : (Edit.trimStart j count).apply t = (b.script.tokenAt j).chars.drop count := by
        rw [htoken]
        simp [Edit.apply, Edit.trimStart]
      rw [happly]
      exact .trimmed count hspace hblanks hcount hstart hdue hcolumn

/-- Every edit that is proposed for a branch is one of those. -/
theorem retouched_of_proposes {s : Script} {scope : Scope} {indent : Nat}
    (h : Script.read tabWidth text = .ok s) (hswitch : s.IsSwitch scope)
    (hi : i ∈ (s.body indent scope).branches) {code : Code}
    (he : (s.body indent scope).Proposes i code e)
    (ht : s.get? e.position = some t) : s.Retouched indent e.position (e.apply t) := by
  have hbranch : (s.kindAt i).isBranch = true := (branchesFrom_spec _ _).2 i hi |>.2.2.2
  cases he with
  | lower =>
      have hother : s.kindAt i ≠ .other := by
        intro heq
        rw [heq] at hbranch
        cases hbranch
      obtain ⟨word, hword, htoken, hkind, hposition⟩ := Script.get?_of_kindAt rfl hother
      change s.get? (s.tokenAt i).position = some t at ht
      show s.Retouched indent (s.tokenAt i).position
        ((Edit.replace (s.tokenAt i) (String.ofList (Text.lowercase (s.tokenAt i).chars))).apply t)
      rw [htoken, hposition, hword] at ht
      obtain rfl := Option.some.inj ht
      rw [htoken, hposition]
      have happly : (Edit.replace word (String.ofList (Text.lowercase word.chars))).apply word
          = lowerAscii (s.tokenAt i).chars := by
        rw [Script.lowercase_of_branch h hword (hkind ▸ hbranch), htoken]
        simp [Edit.apply, Edit.replace]
      rw [happly]
      exact .lowered hbranch
  | spacing hkind hfix => exact retouched_of_spacing hkind hfix ht
  | @unspace _ label hscope hcolon hbehind hcase hspace =>
      obtain ⟨hmem, rfl⟩ := Script.scopeOf?_scopeTable_iff.mp hscope
      change s.kindAt label.opener = .colon at hcolon
      change s.kindAt (label.opener - 1) = .whitespace at hspace
      obtain ⟨space, hget, htoken, _, hposition⟩ := Script.get?_of_kindAt hspace (by decide)
      change s.get? (s.tokenAt (label.opener - 1)).position = some t at ht
      show s.Retouched indent (s.tokenAt (label.opener - 1)).position
        ((Edit.replace (s.tokenAt (label.opener - 1)) "").apply t)
      rw [htoken, hposition, hget] at ht
      obtain rfl := Option.some.inj ht
      have happly : (Edit.replace space "").apply space = [] := by
        simp [Edit.apply, Edit.replace]
      rw [htoken, hposition, happly]
      refine .joined hspace ?_ ?_
      · rw [Nat.sub_add_cancel (by omega)]
        exact ⟨hcolon, label, hmem, rfl⟩
      · -- a `case` in front of the whitespace would be that of the label
        obtain ⟨j, hj⟩ : ∃ j, label.opener = j + 2 := ⟨label.opener - 2, by omega⟩
        rw [hj]
        intro hcaseBefore
        change s.kindAt j = .caseKw at hcaseBefore
        have hown : j = label.condition := by
          apply Script.eq_condition_of_isBranch hmem hcolon (by omega)
          · rw [hcaseBefore]
            rfl
          · intro x hlo hhi
            obtain rfl : x = label.opener - 1 := by omega
            exact hspace
        have hlt := hcase (hown ▸ hcaseBefore)
        omega
  | @indent label e hcase hscope hkind howner hfix =>
      obtain ⟨hmem, rfl⟩ := Script.scopeOf?_scopeTable_iff.mp hscope
      have hends : s.EndsCase indent scope label := ⟨hswitch, hi, hcase, hmem, hkind, howner⟩
      have hdue : s.Due indent label.closer (s.body indent scope).breakColumn :=
        ⟨scope, label, hends, rfl, rfl⟩
      exact retouched_of_indent (b := s.body indent scope) hdue hfix ht

end SwitchBody

namespace Script

variable {settings : Settings} {text : String} {s : Script} {p : Nat}

/-- **What a round does to a token.** -/
theorem retouched_selection (h : read settings.tabWidth text = .ok s) {t : Token}
    (ht : s.get? p = some t) : s.Retouched settings.indent p ((s.selection settings).textOf t) := by
  have htoken : s.tokenAt p = t := by
    unfold tokenAt
    rw [ht]
    rfl
  rw [textOf_eq ht]
  cases he : (s.selection settings).chosen[p]? with
  | none =>
      show s.Retouched settings.indent p t.chars
      rw [← htoken]
      exact .kept
  | some e =>
      obtain ⟨rfl, _, f, hf, hfix⟩ := selection_eq_some he
      obtain ⟨q, scope, hswitch, hscope, i, hi, hprop⟩ := standard_fix (mem_flaws_iff.mp hf).1 hfix
      obtain ⟨hmem, rfl⟩ := scopeOf?_scopeTable_iff.mp hscope
      have hbranch : i ∈ (s.body settings.indent scope).branches := hi
      exact SwitchBody.retouched_of_proposes h ⟨hmem, hswitch⟩ hbranch hprop ht

/-- The text of a round, token by token. -/
theorem repairedFrom_eq (hp : p < s.size) :
    s.repairedFrom settings p
      = (s.selection settings).textOf (s.tokenAt p) ++ s.repairedFrom settings (p + 1) := by
  have hdrop : s.tokens.toList.drop p = s.tokenAt p :: s.tokens.toList.drop (p + 1) := by
    have hlength : p < s.tokens.toList.length := by
      rw [Array.length_toList]
      exact hp
    have hget := get?_of_lt hp
    unfold get? at hget
    rw [← Array.getElem?_toList] at hget
    rw [List.drop_eq_getElem_cons hlength, (List.getElem?_eq_some_iff.mp hget).2]
  unfold repairedFrom
  rw [← List.map_drop, ← List.map_drop, hdrop]
  rfl

theorem exists_retouched (h : read settings.tabWidth text = .ok s) (hp : p < s.size) :
    ∃ u, s.Retouched settings.indent p u
      ∧ s.repairedFrom settings p = u ++ s.repairedFrom settings (p + 1) :=
  ⟨_, retouched_selection h (get?_of_lt hp), repairedFrom_eq hp⟩

theorem repairedFrom_of_ge (hp : s.size ≤ p) : s.repairedFrom settings p = [] := by
  unfold repairedFrom
  rw [List.drop_eq_nil_of_le]
  · rfl
  · rw [List.length_map, Array.length_toList]
    exact hp

end Script

end SwitchLayout
