/-
  SwitchLayout.Proofs.Ownership
  ─────────────────────────────
  **Of the branches that end together, the last one owns the end.**

  Nothing computes the owner of a closer.  The table gives a closer to the condition that is
  recorded with it first, so ownership is a matter of the order of recording: a switch comes
  before its branches, and its last branch before the first.

    • `EndsBy`, `endsBy_of_mem_branchScopes` — how a branch comes to its closer,
    • `RecordedFirst` — of the branches of a switch that end together, the last one is recorded
      first, and it took its closer from no other,
    • `owner_cases` — who owns a closer is a body, or such a branch,
    • `owner_of_exit`, `not_isOwner_of_closeBrace` — the owners of statements and of braces.

  Both kinds of closers of a script: `scopeTable_owners`.
-/
import SwitchLayout.Proofs.Fallthrough
import SwitchLayout.Proofs.Retouching
import Mathlib.Order.Bounds.Basic

namespace SwitchLayout

namespace Script

/-! ## §1. How a branch ends. -/

/-- How the branch with the scope `a` comes to its closer, in a body that ends at `bodyCloser` and
whose branches have the given scopes. -/
inductive EndsBy (s : Script) (bodyCloser : Nat) (scopes : List Scope) (a : Scope) : Prop
  /-- The branch is a block in braces. -/
  | block (hclose : s.kindAt a.closer = .closeBrace) (hopen : s.kindAt a.opener = .openBrace)
  /-- The branch runs to the end of the body. -/
  | body (heq : a.closer = bodyCloser)
  /-- The branch runs into one below, and ends with it. -/
  | borrowed (below : Scope) (hbelow : below ∈ scopes) (hlt : a.condition < below.condition)
      (heq : below.closer = a.closer)
  /-- A statement behind the label leaves the branch. -/
  | leaves (hplain : s.kindAt a.opener ≠ .openBrace) (hleaves : s.Leaves a.opener a.closer)

section Bodies

variable {s : Script} {i t bodyCloser : Nat} {body a : Scope}

theorem EndsBy.mono {scopes scopes' : List Scope} (h : s.EndsBy bodyCloser scopes a)
    (hsub : scopes ⊆ scopes') : s.EndsBy bodyCloser scopes' a := by
  cases h with
  | block hclose hopen => exact .block hclose hopen
  | body heq => exact .body heq
  | borrowed below hbelow hlt heq => exact .borrowed below (hsub hbelow) hlt heq
  | leaves hplain hleaves => exact .leaves hplain hleaves

/-- **The ends of the branches of a body.** -/
theorem endsBy_of_mem_branchScopes {branches : List Nat} (hsorted : branches.Pairwise (· < ·))
    (ha : a ∈ s.branchScopes s.brackets bodyCloser branches) :
    s.EndsBy bodyCloser (s.branchScopes s.brackets bodyCloser branches) a := by
  induction branches with
  | nil => cases ha
  | cons branch below ih =>
      obtain ⟨hhead, htail⟩ := List.pairwise_cons.mp hsorted
      rw [branchScopes, List.mem_append] at ha
      rw [branchScopes]
      rcases ha with ha | ha
      · exact (ih htail ha).mono (List.subset_append_left _ _)
      · rw [Option.mem_toList, branchScope?_eq] at ha
        obtain ⟨opener, hopener, hrest⟩ := Option.bind_eq_some_iff.mp ha
        obtain ⟨closer, hcloser, rfl⟩ := Option.map_eq_some_iff.mp hrest
        by_cases hbrace : s.kindAt opener = .openBrace
        · rw [if_pos hbrace] at hcloser
          exact .block (kindAt_of_groupEnd? hbrace hcloser) hbrace
        · rw [if_neg hbrace] at hcloser
          rcases branchEnd?_origin (labelEnd?_eq_some hopener).2 hcloser with
            heq | ⟨other, hother, heq⟩ | hleaves
          · exact .body heq
          · have hmem := (opener_lt_of_mem_branchScopes htail hother).1
            exact .borrowed other (List.mem_append_left _ hother) (hhead _ hmem) heq
          · exact .leaves hbrace hleaves

/-- The branches of a switch are recorded from the last to the first. -/
theorem branchScopesOf_descending (hbody : s.bodyScope? s.brackets i = some body) :
    (s.branchScopesOf body).Pairwise fun a b => b.condition < a.condition := by
  have hsorted := branchesIn_sorted s body.opener body.closer
  have hsub := (branchScopes_spec (bodyScope?_eq_some hbody).2.2 _ hsorted fun j hj =>
    ⟨(mem_branchesIn_iff.mp hj).1, (mem_branchesIn_iff.mp hj).2.1⟩).2
  exact List.pairwise_map.mp ((List.pairwise_reverse.mpr hsorted).sublist hsub)

/-- Of the branches of the body that end at `t`, the one with the scope `a` is recorded first. -/
def RecordedFirst (s : Script) (body : Scope) (t : Nat) (a : Scope) : Prop :=
  (s.branchScopesOf body).find? (·.closer == t) = some a

theorem RecordedFirst.mem (h : s.RecordedFirst body t a) : a ∈ s.branchScopesOf body :=
  List.mem_of_find?_eq_some h

theorem RecordedFirst.closer_eq (h : s.RecordedFirst body t a) : a.closer = t := by
  simpa using List.find?_some h

theorem exists_recordedFirst (ha : a ∈ s.branchScopesOf body) (hcloser : a.closer = t) :
    ∃ first, s.RecordedFirst body t first := by
  unfold RecordedFirst
  rw [← Option.isSome_iff_exists, List.find?_isSome]
  exact ⟨a, ha, by simpa using hcloser⟩

/-- Of the branches that end at a closer, the first one recorded is the last one written. -/
theorem RecordedFirst.le_condition (hfirst : s.RecordedFirst body t a)
    (hbody : s.bodyScope? s.brackets i = some body) {other : Scope}
    (hother : other ∈ s.branchScopesOf body) (hcloser : other.closer = t) :
    other.condition ≤ a.condition := by
  rcases eq_or_rel_of_find?_eq_some (branchScopesOf_descending hbody) hfirst hother
    (by simpa using hcloser) with rfl | hlt
  · exact Nat.le_refl _
  · exact Nat.le_of_lt hlt

/-- **The first branch recorded with a statement is left by it.**  A branch that took the statement
from one below would have been recorded after that one. -/
theorem RecordedFirst.leaves (hfirst : s.RecordedFirst body t a)
    (hbody : s.bodyScope? s.brackets i = some body) (hbrace : s.kindAt t ≠ .closeBrace) :
    s.kindAt a.opener ≠ .openBrace ∧ s.Leaves a.opener t := by
  obtain rfl := hfirst.closer_eq
  cases endsBy_of_mem_branchScopes (branchesIn_sorted s _ _) hfirst.mem with
  | block hclose _ => exact absurd hclose hbrace
  | body heq =>
      rw [heq] at hbrace
      exact absurd (kindAt_closer_of_body hbody) hbrace
  | borrowed below hbelow hlt heq =>
      have hle := hfirst.le_condition hbody hbelow heq
      omega
  | leaves hplain hleaves => exact ⟨hplain, hleaves⟩

/-- The statement stands on the top level of the switch, with no branch in front of it but the one
it leaves. -/
theorem RecordedFirst.nearest (hfirst : s.RecordedFirst body t a)
    (hbody : s.bodyScope? s.brackets i = some body) (hbrace : s.kindAt t ≠ .closeBrace) :
    t ∈ s.brackets.topLevel (body.opener + 1) body.closer
      ∧ ∀ x ∈ s.branchesIn s.brackets body.opener body.closer, ¬ (a.condition < x ∧ x < t) := by
  obtain ⟨hplain, hleaves⟩ := hfirst.leaves hbody hbrace
  obtain rfl := hfirst.closer_eq
  have hstretch := (branchStretch_of_body hbody).1 a hfirst.mem
  have hinside := hstretch.inside
  obtain ⟨hco, hoc, hle⟩ := hstretch.ordered
  constructor
  · have hlt : a.closer < body.closer := by
      refine Nat.lt_of_le_of_ne hle fun heq => hbrace ?_
      rw [heq]
      exact kindAt_closer_of_body hbody
    have hopens := opens?_of_endsLabel hleaves.label hplain
    refine (mem_topLevel_behind hopens (by omega) hstretch.outside hoc).mp ?_
    exact (mem_topLevel_iff (wellNested_brackets s) _ _ _).mpr ⟨hoc, hlt, hleaves.outside⟩
  · intro x hx hbetween
    -- a branch between the label and the statement would have ended the walk
    have hox := (opener_lt_of_mem_branchScopes (branchesIn_sorted s _ _) hfirst.mem).2 x hx
      hbetween.1
    obtain ⟨_, _, hout, hkind⟩ := mem_branchesIn_iff.mp hx
    have hends := hleaves.first x hox hbetween.2 fun j k hj hjx hjk =>
      hout j k (by omega) hjx hjk
    rw [endsBranch_eq, hkind, Bool.or_true] at hends
    cases hends

/-- What detection takes for a branch of a switch, the rule does too. -/
theorem mem_branches_of_mem_branchesIn {scope : Scope} {indent x : Nat} (h : s.IsSwitch scope)
    (hx : x ∈ s.branchesIn s.brackets scope.opener scope.closer) :
    x ∈ (s.body indent scope).branches := by
  have hlists : s.branchesIn s.brackets scope.opener scope.closer
      = (s.body indent scope).branches.filter
          (· ∈ s.brackets.topLevel (scope.opener + 1) scope.closer) :=
    (SwitchBody.branches_vs_branchesIn h.2 h.scopeOf?).1
  rw [hlists] at hx
  exact (List.mem_filter.mp hx).1

/-- A branch that the rule lists and that has a scope is one that detection found in the same
switch. -/
theorem mem_branchScopesOf_of_mem_branches {scope label : Scope} {indent : Nat}
    (h : s.IsSwitch scope) (hlabel : label ∈ s.detectedScopes)
    (hbranch : label.condition ∈ (s.body indent scope).branches) :
    label ∈ s.branchScopesOf scope := by
  obtain ⟨i, _, howns, hat⟩ := mem_detectedScopes_iff.mp hlabel
  obtain ⟨body, hbody, rfl | ⟨hkind, hmem⟩⟩ := mem_scopesAt hat
  · -- the scope of a keyword that owns a body is none of a branch
    have hkind : (s.kindAt label.condition).isBranch = true :=
      ((SwitchBody.branchesFrom_spec _ _).2 _ hbranch).2.2.2
    rw [(bodyScope?_eq_some hbody).1, TokenKind.isBranch_of_ownsBody howns] at hkind
    cases hkind
  · have hswitch : s.IsSwitch body := by
      refine ⟨mem_detectedScopes_of_switch hkind hbody List.mem_cons_self, ?_⟩
      rw [(bodyScope?_eq_some hbody).1]
      exact hkind
    have hin := ((branchScopes_of_body hbody).1 label hmem).2.2
    rw [scope_eq_of_mem_branches h hswitch hbranch (mem_branches_of_mem_branchesIn hswitch hin)]
    exact hmem

end Bodies

/-! ## §2. Owners. -/

section Owners

variable {s : Script} {t owner : Nat}

/-- **Who owns a closer.**  It is the body of a keyword, or the branch that comes first among those
of a switch that end there; and then the switch itself ends elsewhere. -/
theorem owner_cases (h : s.scopeTable.ownerOf? t = some owner) :
    ∃ a, s.scopeTable.scopeOf? owner = some a ∧ a.closer = t
      ∧ (s.brackets.groupEnd? a.opener = some a.closer
        ∨ ∃ i body, s.kindAt i = .switchKw ∧ s.bodyScope? s.brackets i = some body
            ∧ body.closer ≠ t ∧ s.RecordedFirst body t a) := by
  unfold ScopeTable.ownerOf? at h
  rw [(insertAll_detectedScopes s).2.2.2] at h
  obtain ⟨a, hfind, rfl⟩ := Option.map_eq_some_iff.mp h
  have hcloser : a.closer = t := by simpa using List.find?_some hfind
  refine ⟨a, scopeOf?_scopeTable_iff.mpr ⟨List.mem_of_find?_eq_some hfind, rfl⟩, hcloser, ?_⟩
  -- the keyword that records the owner
  unfold detectedScopes at hfind
  rw [List.find?_flatMap] at hfind
  obtain ⟨i, _, hat⟩ := List.exists_of_findSome?_eq_some hfind
  obtain ⟨body, hbody, heq | ⟨hkind, hmem⟩⟩ := mem_scopesAt (List.mem_of_find?_eq_some hat)
  · rw [heq]
    exact .inl (bodyScope?_eq_some hbody).2.2
  · rw [scopesAt_switch hkind hbody] at hat
    by_cases hends : body.closer = t
    · -- a switch that ends there was recorded before its branches
      rw [List.find?_cons_of_pos (by simpa using hends)] at hat
      obtain rfl := Option.some.inj hat
      exact .inl (bodyScope?_eq_some hbody).2.2
    · rw [List.find?_cons_of_neg (by simpa using hends)] at hat
      exact .inr ⟨i, body, hkind, hbody, hends, hat⟩

/-- A condition whose scope ends at a statement is a branch of the one switch that has the
statement on its top level. -/
theorem branch_of_closer {i b : Nat} {body scope : Scope} (hkind : s.kindAt i = .switchKw)
    (hbody : s.bodyScope? s.brackets i = some body)
    (ht : t ∈ s.brackets.topLevel (body.opener + 1) body.closer)
    (hbrace : s.kindAt t ≠ .closeBrace) (hscope : s.scopeTable.scopeOf? b = some scope)
    (hcloser : scope.closer = t) :
    scope ∈ s.branchScopesOf body := by
  obtain ⟨hmem, _⟩ := scopeOf?_scopeTable_iff.mp hscope
  rcases group_or_branch hmem with hgroup | ⟨i', body', hkind', hbody', hmem'⟩
  · rw [← hcloser] at hbrace
    exact absurd (kindAt_closer_of_group (ordered_of_mem_detectedScopes hmem).2.2.2 hgroup) hbrace
  · -- the first branch of the other switch that ends there shows the statement on its top level
    obtain ⟨first, hfirst⟩ := exists_recordedFirst hmem' hcloser
    have ht' := (hfirst.nearest hbody' hbrace).1
    obtain rfl := switch_eq_of_topLevel hkind hkind' hbody hbody' ht ht'
    rw [hbody] at hbody'
    obtain rfl := Option.some.inj hbody'
    exact hmem'

/-- The owner of a statement that leaves a branch, as it should be. -/
structure OwnsExit (s : Script) (t owner : Nat) : Prop where
  owns : s.scopeTable.ownerOf? t = some owner
  /-- It is the last of the conditions whose scopes end at the statement. -/
  greatest : IsGreatest {b | (s.scopeTable.scopeOf? b).map Scope.closer = some t} owner
  /-- It is a branch of the switch that has the statement on its top level, and no branch of this
  switch stands in between. -/
  nearest : ∃ i body, s.kindAt i = .switchKw ∧ s.scopeTable.scopeOf? i = some body
    ∧ owner ∈ s.branchesIn s.brackets body.opener body.closer
    ∧ t ∈ s.brackets.topLevel (body.opener + 1) body.closer
    ∧ ∀ x ∈ s.branchesIn s.brackets body.opener body.closer, ¬ (owner < x ∧ x < t)

/-- **The owner of a statement.** -/
theorem owner_of_exit (ht : (s.kindAt t).leavesBranch = true)
    (hcloser : ∃ b scope, s.scopeTable.scopeOf? b = some scope ∧ scope.closer = t) :
    ∃ owner, s.OwnsExit t owner := by
  have hbrace : s.kindAt t ≠ .closeBrace := by
    intro heq
    rw [heq] at ht
    cases ht
  obtain ⟨owner, howner⟩ : ∃ owner, s.scopeTable.ownerOf? t = some owner := by
    obtain ⟨b, scope, hscope, hends⟩ := hcloser
    unfold ScopeTable.ownerOf?
    rw [(insertAll_detectedScopes s).2.2.2, ← Option.isSome_iff_exists, Option.isSome_map,
      List.find?_isSome]
    exact ⟨scope, (scopeOf?_scopeTable_iff.mp hscope).1, by simpa using hends⟩
  obtain ⟨a, hscope, hends, hcase⟩ := owner_cases howner
  obtain ⟨hmem, hcond⟩ := scopeOf?_scopeTable_iff.mp hscope
  rcases hcase with hgroup | ⟨i, body, hkind, hbody, _, hfirst⟩
  · rw [← hends] at hbrace
    exact absurd (kindAt_closer_of_group (ordered_of_mem_detectedScopes hmem).2.2.2 hgroup) hbrace
  · obtain ⟨htop, hnone⟩ := hfirst.nearest hbody hbrace
    rw [hcond] at hnone
    refine ⟨owner, howner, ⟨?_, fun b hb => ?_⟩, ⟨i, body, hkind, ?_, ?_, htop, hnone⟩⟩
    · show (s.scopeTable.scopeOf? owner).map Scope.closer = some t
      rw [hscope, Option.map_some, hends]
    · obtain ⟨scope, hb', hclose⟩ := Option.map_eq_some_iff.mp hb
      have hbranch := branch_of_closer hkind hbody htop hbrace hb' hclose
      have hle := hfirst.le_condition hbody hbranch hclose
      rw [hcond, (scopeOf?_scopeTable_iff.mp hb').2] at hle
      exact hle
    · exact scopeOf?_scopeTable_iff.mpr ⟨mem_detectedScopes_of_switch hkind hbody
        List.mem_cons_self, (bodyScope?_eq_some hbody).1⟩
    · have hin := ((branchScopes_of_body hbody).1 a hfirst.mem).2.2
      rw [hcond] at hin
      exact hin

/-- **The owner of a brace.**  It is no branch whose label ends in a colon or a semicolon: the
brace belongs to the switch, or to a block that the branch falls into. -/
theorem not_isOwner_of_closeBrace {b : Nat} {scope : Scope}
    (hscope : s.scopeTable.scopeOf? b = some scope)
    (hlabel : s.kindAt scope.opener = .colon ∨ s.kindAt scope.opener = .semicolon)
    (hbrace : s.kindAt scope.closer = .closeBrace) :
    s.scopeTable.isOwner b scope.closer = false := by
  rw [Bool.eq_false_iff]
  intro howner
  obtain ⟨a, ha, _, hcase⟩ := owner_cases (by simpa [ScopeTable.isOwner] using howner)
  obtain rfl : scope = a := Option.some.inj (hscope.symm.trans ha)
  have hopener : s.kindAt scope.opener ≠ .openBrace := by
    rcases hlabel with hkind | hkind <;> (rw [hkind]; decide)
  have hends := (ordered_of_mem_detectedScopes (scopeOf?_scopeTable_iff.mp hscope).1).2.2.2
  rcases hcase with hgroup | ⟨i, body, hkind, hbody, hother, hfirst⟩
  · exact groupEnd?_of_opens (opens?_of_endsLabel hends hopener) hgroup
  · cases endsBy_of_mem_branchScopes (branchesIn_sorted s _ _) hfirst.mem with
    | block _ hopen => exact hopener hopen
    | body heq => exact hother heq.symm
    | borrowed below hbelow hlt heq =>
        have hle := hfirst.le_condition hbody hbelow heq
        omega
    | leaves _ hleaves =>
        rcases hleaves.leaves with hterm | hexit
        · rw [hbrace] at hterm
          cases hterm
        · rw [hbrace] at hexit
          cases hexit

end Owners

/-! ## §3. The table. -/

/-- **Shared closers have the right owner.**  A statement that leaves a branch and closes a scope
belongs to the last of the conditions whose scopes end there, and of its switch no branch stands
between this one and the statement.  A scope that opens with a colon or a semicolon, as only
branches do, owns no brace. -/
theorem scopeTable_owners (s : Script) :
    (∀ t, (s.kindAt t).leavesBranch = true →
      (∃ b scope, s.scopeTable.scopeOf? b = some scope ∧ scope.closer = t) →
        ∃ owner, s.OwnsExit t owner)
      ∧ ∀ b scope, s.scopeTable.scopeOf? b = some scope →
          (s.kindAt scope.opener = .colon ∨ s.kindAt scope.opener = .semicolon) →
            s.kindAt scope.closer = .closeBrace →
              s.scopeTable.isOwner b scope.closer = false := by
  constructor
  · intro t ht hcloser
    exact owner_of_exit ht hcloser
  · intro b scope hscope hlabel hbrace
    exact not_isOwner_of_closeBrace hscope hlabel hbrace

/-- Two cases end at one `break`, and a third one at the brace of the block that it falls into. -/
theorem scopeTable_owners_block :
    let s := Script.ofText 4
      "switch ($a) \x7b case 1: case 2: break; case 3: default \x7b \x7d \x7d"
    ((s.kindAt 18).leavesBranch = true
        ∧ (∃ b scope, s.scopeTable.scopeOf? b = some scope ∧ scope.closer = 18)
        ∧ ∃ owner, s.OwnsExit 18 owner)
      ∧ s.scopeTable.scopeOf? 21 = some ⟨21, 24, 30⟩ ∧ s.kindAt 24 = .colon
      ∧ s.kindAt 30 = .closeBrace ∧ s.scopeTable.isOwner 21 30 = false := by
  intro s
  obtain ⟨hexit, hends, hscope, hcolon, hbrace⟩ :
      (s.kindAt 18).leavesBranch = true ∧ s.scopeTable.scopeOf? 8 = some ⟨8, 11, 18⟩
        ∧ s.scopeTable.scopeOf? 21 = some ⟨21, 24, 30⟩ ∧ s.kindAt 24 = .colon
        ∧ s.kindAt 30 = .closeBrace := by
    decide +kernel
  have hcloser : ∃ b scope, s.scopeTable.scopeOf? b = some scope ∧ scope.closer = 18 :=
    ⟨8, _, hends, rfl⟩
  obtain ⟨hstatements, hbraces⟩ := scopeTable_owners s
  exact ⟨⟨hexit, hcloser, hstatements 18 hexit hcloser⟩, hscope, hcolon, hbrace,
    hbraces 21 _ hscope (.inl hcolon) hbrace⟩

end Script

end SwitchLayout
