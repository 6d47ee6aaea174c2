/-
  SwitchLayout.Proofs.Branches
  ────────────────────────────
  **Two ways to list the branches of a switch.**

  Detection walks the body of a switch and steps over every group in brackets.  The rule walks
  the same body and steps over nothing but an inner switch that has a scope.  The second list
  therefore holds the first: a branch outside all groups is never inside an inner switch
  (`not_hidden_of_isOutside`).  It can hold more, a `default` in a match expression for one.

    • `mem_branches_iff` — what the rule lists: every branch keyword of the body that no inner
      switch hides,
    • `branches_vs_branchesIn` — what detection lists is the part of it outside all groups, and
      exactly when it is all of it.
-/
import SwitchLayout.Proofs.Scopes
import SwitchLayout.Rule.SwitchBody
import Mathlib.Data.List.Sort

namespace SwitchLayout

/-! ## §1. The walk of the rule, over any table. -/

namespace SwitchBody

/-- The position lies behind the keyword of an inner switch and no later than the closer of its
scope. -/
def Hidden (b : SwitchBody) (i : Nat) : Prop :=
  ∃ q c, b.scope.opener < q ∧ q < i ∧ b.script.kindAt q = .switchKw
    ∧ b.table.closerOf? q = some c ∧ i ≤ c

theorem isWaypoint_iff {k : TokenKind} :
    isWaypoint k = true ↔ k.isBranch = true ∨ k = .switchKw := by
  unfold isWaypoint
  rw [Bool.or_eq_true, beq_iff_eq]

/-- What the walk lists are branch keywords of the stretch, in order. -/
theorem branchesFrom_spec (b : SwitchBody) (start : Nat) :
    (b.branchesFrom start).Pairwise (· < ·)
      ∧ ∀ i ∈ b.branchesFrom start, start ≤ i ∧ i < b.scope.closer ∧ i < b.script.size
          ∧ (b.script.kindAt i).isBranch = true := by
  fun_induction b.branchesFrom start with
  | case1 start hnone => exact ⟨List.Pairwise.nil, fun i hi => absurd hi List.not_mem_nil⟩
  | case2 start w hw hswitch ih =>
      obtain ⟨hlo, _⟩ := Script.next?_eq_some_iff.mp hw
      have hresume := b.lt_resume w
      refine ⟨ih.1, fun i hi => ?_⟩
      obtain ⟨h1, h2⟩ := ih.2 i hi
      exact ⟨by omega, h2⟩
  | case3 start w hw hswitch ih =>
      obtain ⟨hlo, hstop, hsize, hway, _⟩ := Script.next?_eq_some_iff.mp hw
      have hbranch : (b.script.kindAt w).isBranch = true :=
        (isWaypoint_iff.mp hway).resolve_right hswitch
      refine ⟨List.pairwise_cons.mpr ⟨fun i hi => (ih.2 i hi).1, ih.1⟩, fun i hi => ?_⟩
      rcases List.mem_cons.mp hi with rfl | hi
      · exact ⟨hlo, hstop, hsize, hbranch⟩
      · obtain ⟨h1, h2⟩ := ih.2 i hi
        exact ⟨by omega, h2⟩

/-- **The walk misses only what an inner switch hides.** -/
theorem hidden_of_not_mem_branchesFrom (b : SwitchBody) (start : Nat) {i : Nat}
    (hlo : start ≤ i) (hhi : i < b.scope.closer) (hsize : i < b.script.size)
    (hbranch : (b.script.kindAt i).isBranch = true) (hi : i ∉ b.branchesFrom start) :
    ∃ q c, start ≤ q ∧ q < i ∧ b.script.kindAt q = .switchKw
      ∧ b.table.closerOf? q = some c ∧ i ≤ c := by
  fun_induction b.branchesFrom start with
  | case1 start hnone =>
      -- the branch itself is a waypoint of the stretch
      unfold Script.next? at hnone
      have hfalse := (firstIn?_eq_none_iff _ _ _).mp hnone i hlo (Nat.lt_min.mpr ⟨hhi, hsize⟩)
      rw [isWaypoint_iff.mpr (Or.inl hbranch)] at hfalse
      cases hfalse
  | case2 start w hw hswitch ih =>
      obtain ⟨hwlo, _, _, _, hleast⟩ := Script.next?_eq_some_iff.mp hw
      have hwi : w < i := by
        rcases Nat.lt_trichotomy i w with hlt | heq | hgt
        · have hfalse := hleast i hlo hlt
          rw [isWaypoint_iff.mpr (Or.inl hbranch)] at hfalse
          cases hfalse
        · rw [heq, hswitch] at hbranch
          cases hbranch
        · exact hgt
      by_cases hres : b.resume w ≤ i
      · obtain ⟨q, c, hq, hrest⟩ := ih hres hi
        have hresume := b.lt_resume w
        exact ⟨q, c, by omega, hrest⟩
      · -- the walk went on behind `i`, so the inner switch at `w` reaches it
        unfold resume at hres
        cases hc : b.table.closerOf? w with
        | none =>
            rw [hc, Option.getD_none] at hres
            omega
        | some c =>
            rw [hc, Option.getD_some] at hres
            exact ⟨w, c, hwlo, hwi, hswitch, hc, by omega⟩
  | case3 start w hw hswitch ih =>
      obtain ⟨hwlo, _, _, _, hleast⟩ := Script.next?_eq_some_iff.mp hw
      have hne : i ≠ w := fun heq => hi (heq ▸ List.mem_cons_self)
      have hwi : w + 1 ≤ i := by
        by_contra hlt
        have hfalse := hleast i hlo (by omega)
        rw [isWaypoint_iff.mpr (Or.inl hbranch)] at hfalse
        cases hfalse
      obtain ⟨q, c, hq, hrest⟩ := ih hwi (fun hmem => hi (List.mem_cons_of_mem w hmem))
      exact ⟨q, c, by omega, hrest⟩

/-- If an inner switch inside an inner switch ends inside it, nothing that is listed is hidden. -/
theorem closer_lt_of_mem_branchesFrom (b : SwitchBody) (start : Nat)
    (hnest : ∀ q c q' c', b.script.kindAt q = .switchKw → b.table.closerOf? q = some c →
      b.script.kindAt q' = .switchKw → b.table.closerOf? q' = some c' → q < q' → q' ≤ c → c' ≤ c)
    {i q c : Nat} (hi : i ∈ b.branchesFrom start) (hq : start ≤ q) (hqi : q < i)
    (hswitch : b.script.kindAt q = .switchKw) (hc : b.table.closerOf? q = some c) : c < i := by
  fun_induction b.branchesFrom start with
  | case1 start hnone => cases hi
  | case2 start w hw hwswitch ih =>
      obtain ⟨hwlo, _, _, _, hleast⟩ := Script.next?_eq_some_iff.mp hw
      have hresume := ((b.branchesFrom_spec (b.resume w)).2 i hi).1
      have hwq : w ≤ q := by
        by_contra hlt
        have hfalse := hleast q hq (by omega)
        rw [isWaypoint_iff.mpr (Or.inr hswitch)] at hfalse
        cases hfalse
      by_cases hqr : b.resume w ≤ q
      · exact ih hi hqr
      · -- `q` stands inside the inner switch at `w`, or is that switch
        unfold resume at hresume hqr
        rcases Nat.eq_or_lt_of_le hwq with rfl | hlt
        · rw [hc, Option.getD_some] at hresume
          omega
        · cases hcw : b.table.closerOf? w with
          | none =>
              rw [hcw, Option.getD_none] at hqr
              omega
          | some e =>
              rw [hcw, Option.getD_some] at hqr hresume
              have hle := hnest w e q c hwswitch hcw hswitch hc hlt (by omega)
              omega
  | case3 start w hw hwswitch ih =>
      obtain ⟨hwlo, _, _, _, hleast⟩ := Script.next?_eq_some_iff.mp hw
      have hwq : w < q := by
        rcases Nat.lt_trichotomy q w with hlt | heq | hgt
        · have hfalse := hleast q hq hlt
          rw [isWaypoint_iff.mpr (Or.inr hswitch)] at hfalse
          cases hfalse
        · exact absurd (heq ▸ hswitch) hwswitch
        · exact hgt
      rcases List.mem_cons.mp hi with rfl | hi
      · omega
      · exact ih hi hwq

end SwitchBody

/-! ## §2. The scopes of switches. -/

namespace Script

/-- The scope that the table has for a switch is its body. -/
theorem bodyScope?_of_scopeOf? {s : Script} {q : Nat} {scope : Scope}
    (hkind : s.kindAt q = .switchKw) (h : s.scopeTable.scopeOf? q = some scope) :
    s.bodyScope? s.brackets q = some scope := by
  -- its condition is no branch keyword
  have hnot : ∀ {o c : Nat}, q ∉ s.branchesIn s.brackets o c := by
    intro o c hmem
    have hbranch := (mem_branchesIn_iff.mp hmem).2.2.2
    rw [hkind] at hbranch
    cases hbranch
  obtain ⟨hmem, hcond⟩ := scopeOf?_scopeTable_iff.mp h
  obtain ⟨i, _, _, hat⟩ := mem_detectedScopes_iff.mp hmem
  obtain ⟨body, hbody, heq | ⟨_, hbranch⟩⟩ := mem_scopesAt hat
  · have hi := (bodyScope?_eq_some hbody).1
    rw [← heq, hcond] at hi
    rw [hi, hbody, heq]
  · have hin := ((branchScopes_of_body hbody).1 scope hbranch).2.2
    rw [hcond] at hin
    exact absurd hin hnot

/-- For a switch the table has a closer exactly with a scope: its keyword opens no scope. -/
theorem closerOf?_switch {s : Script} {q c : Nat} (hkind : s.kindAt q = .switchKw)
    (h : s.scopeTable.closerOf? q = some c) :
    ∃ scope, s.bodyScope? s.brackets q = some scope ∧ scope.closer = c := by
  unfold ScopeTable.closerOf? at h
  have hopener : s.scopeTable.openers[q]? = none := by
    rw [(insertAll_detectedScopes s).2.2.1, Option.map_eq_none_iff, List.find?_eq_none]
    intro scope hscope heq
    have hends := (ordered_of_mem_detectedScopes hscope).2.2.2
    rw [beq_iff_eq.mp heq, hkind] at hends
    cases hends
  rw [hopener, Option.bind_none, Option.or_none] at h
  obtain ⟨scope, hscope, rfl⟩ := Option.map_eq_some_iff.mp h
  exact ⟨scope, bodyScope?_of_scopeOf? hkind hscope, rfl⟩

/-- Behind the keyword of a switch, up to its closer, all that is no layout, no comment and no
bracket stands in one of its two groups. -/
theorem group_of_lt_closer {s : Script} {q x : Nat} {body : Scope}
    (hkind : s.kindAt q = .switchKw) (hbody : s.bodyScope? s.brackets q = some body)
    (hqx : q < x) (hxc : x ≤ body.closer) (htrivia : (s.kindAt x).isTrivia = false)
    (hopens : (s.kindAt x).opens? = none) (hcloses : (s.kindAt x).closes? = none) :
    ∃ g h, s.brackets.groupEnd? g = some h ∧ q < g ∧ g < x ∧ x < h ∧ h ≤ body.closer := by
  obtain ⟨p, e, hp, he, ho⟩ := switchHead hkind hbody
  obtain ⟨_, _, hgroup⟩ := bodyScope?_eq_some hbody
  obtain ⟨hqp, _, hbefore⟩ := significant?_eq_some hp
  obtain ⟨heo, _, hbetween⟩ := significant?_eq_some ho
  have hpe := Brackets.lt_of_groupEnd? he
  have hoc := Brackets.lt_of_groupEnd? hgroup
  -- `x` is none of the four brackets, and not among the layout beside them
  have hbracket : ∀ {g h : Nat}, s.brackets.groupEnd? g = some h → x ≠ g ∧ x ≠ h := by
    intro g h hgh
    obtain ⟨shape, hg, hh⟩ := groupEnd?_shapes hgh
    constructor
    · rintro rfl
      rw [hg] at hopens
      cases hopens
    · rintro rfl
      rw [hh] at hcloses
      cases hcloses
  have hxp : ¬ x < p := fun hlt => by
    rw [hbefore x hqx hlt] at htrivia
    cases htrivia
  have hxo : ¬ (e < x ∧ x < body.opener) := fun hlt => by
    rw [hbetween x hlt.1 hlt.2] at htrivia
    cases htrivia
  obtain ⟨h1, h2⟩ := hbracket he
  obtain ⟨h3, h4⟩ := hbracket hgroup
  by_cases hxe : x < e
  · exact ⟨p, e, he, by omega, by omega, hxe, by omega⟩
  · exact ⟨body.opener, body.closer, hgroup, by omega, by omega, by omega, Nat.le_refl _⟩

/-- A switch inside a group ends inside it. -/
theorem closer_lt_of_group {s : Script} {g h q : Nat} {body : Scope}
    (hgh : s.brackets.groupEnd? g = some h) (hgq : g < q) (hqh : q < h)
    (hkind : s.kindAt q = .switchKw) (hbody : s.bodyScope? s.brackets q = some body) :
    body.closer < h := by
  obtain ⟨p, e, hp, he, ho⟩ := switchHead hkind hbody
  obtain ⟨_, _, hgroup⟩ := bodyScope?_eq_some hbody
  obtain ⟨shape, _, hclose⟩ := groupEnd?_shapes hgh
  -- a search for the next token of the code does not pass the end of the group
  have hstop : ∀ {k y : Nat}, k < h → s.significant? (k + 1) = some y → y ≤ h := by
    intro k y hk hy
    obtain ⟨_, _, htrivia⟩ := significant?_eq_some hy
    by_contra hlt
    have hbad := htrivia h (by omega) (by omega)
    rw [TokenKind.isTrivia_of_closes (by rw [hclose]; rfl)] at hbad
    cases hbad
  have hqp := (significant?_eq_some hp).1
  have heo := (significant?_eq_some ho).1
  have hph := hstop hqh hp
  have heh := wellNested_brackets s g h p e hgh he (by omega) hph
  have hoh := hstop heh ho
  have hpe := Brackets.lt_of_groupEnd? he
  exact wellNested_brackets s g h body.opener body.closer hgh hgroup (by omega) hoh

/-- **Switches nest.**  A switch that starts inside another one ends inside it. -/
theorem closerOf?_switch_nested {s : Script} {q c q' c' : Nat} (hq : s.kindAt q = .switchKw)
    (hc : s.scopeTable.closerOf? q = some c) (hq' : s.kindAt q' = .switchKw)
    (hc' : s.scopeTable.closerOf? q' = some c') (hlt : q < q') (hle : q' ≤ c) : c' ≤ c := by
  obtain ⟨body, hbody, rfl⟩ := closerOf?_switch hq hc
  obtain ⟨body', hbody', rfl⟩ := closerOf?_switch hq' hc'
  obtain ⟨g, h, hgh, _, hgq, hqh, hhc⟩ := group_of_lt_closer hq hbody hlt hle
    (by rw [hq']; rfl) (by rw [hq']; rfl) (by rw [hq']; rfl)
  have hin := closer_lt_of_group hgh hgq hqh hq' hbody'
  omega

end Script

/-! ## §3. The two lists. -/

/-- A branch keyword is neither layout nor comment nor bracket. -/
theorem TokenKind.plain_of_isBranch {k : TokenKind} (h : k.isBranch = true) :
    k.isTrivia = false ∧ k.opens? = none ∧ k.closes? = none := by
  revert h
  cases k <;> decide

namespace SwitchBody

/-- A branch outside the groups of a body is not hidden by an inner switch. -/
theorem not_hidden_of_isOutside {s : Script} {scope : Scope} {indent i : Nat}
    (hbranch : (s.kindAt i).isBranch = true)
    (hout : s.brackets.IsOutside (scope.opener + 1) i) :
    ¬ (SwitchBody.mk s s.scopeTable scope indent).Hidden i := by
  rintro ⟨q, c, hoq, hqi, hswitch, hc, hic⟩
  obtain ⟨body, hbody, rfl⟩ := Script.closerOf?_switch hswitch hc
  obtain ⟨htrivia, hopens, hcloses⟩ := TokenKind.plain_of_isBranch hbranch
  obtain ⟨g, h, hgh, hqg, hgi, hih, _⟩ :=
    Script.group_of_lt_closer hswitch hbody hqi hic htrivia hopens hcloses
  have hbad := hout g h (by
    show scope.opener + 1 ≤ g
    have hoq' : scope.opener < q := hoq
    omega) hgi hgh
  omega

/-- **What the rule lists**: the branch keywords of the body that no inner switch hides. -/
theorem mem_branches_iff {s : Script} {scope : Scope} {indent i : Nat}
    (hsize : scope.closer ≤ s.size) :
    i ∈ (SwitchBody.mk s s.scopeTable scope indent).branches ↔
      scope.opener < i ∧ i < scope.closer ∧ (s.kindAt i).isBranch = true
        ∧ ¬ (SwitchBody.mk s s.scopeTable scope indent).Hidden i := by
  set b := SwitchBody.mk s s.scopeTable scope indent with hb
  constructor
  · intro hi
    obtain ⟨hlo, hhi, _, hbranch⟩ := (b.branchesFrom_spec (scope.opener + 1)).2 i hi
    refine ⟨hlo, hhi, hbranch, ?_⟩
    rintro ⟨q, c, hoq, hqi, hswitch, hc, hic⟩
    have hlt := b.closer_lt_of_mem_branchesFrom (scope.opener + 1)
      (fun _ _ _ _ hq hc hq' hc' => Script.closerOf?_switch_nested hq hc hq' hc')
      hi hoq hqi hswitch hc
    omega
  · rintro ⟨hlo, hhi, hbranch, hnot⟩
    by_contra hi
    obtain ⟨q, c, hq⟩ := b.hidden_of_not_mem_branchesFrom (scope.opener + 1) hlo hhi
      (Nat.lt_of_lt_of_le hhi hsize) hbranch hi
    exact hnot ⟨q, c, hq⟩

/-- **The two lists compared.**  For a switch with a scope, detection lists the part of the
rule's list that stands outside the groups of the body; and it lists the same branches exactly
when every branch keyword inside a group is hidden by an inner switch. -/
theorem branches_vs_branchesIn {s : Script} {i indent : Nat} {scope : Scope}
    (hkind : s.kindAt i = .switchKw) (hscope : s.scopeTable.scopeOf? i = some scope) :
    s.branchesIn s.brackets scope.opener scope.closer
        = (SwitchBody.mk s s.scopeTable scope indent).branches.filter
            (· ∈ s.brackets.topLevel (scope.opener + 1) scope.closer)
      ∧ ((SwitchBody.mk s s.scopeTable scope indent).branches
            = s.branchesIn s.brackets scope.opener scope.closer ↔
          ∀ x, scope.opener < x → x < scope.closer → (s.kindAt x).isBranch = true →
            x ∉ s.brackets.topLevel (scope.opener + 1) scope.closer →
              (SwitchBody.mk s s.scopeTable scope indent).Hidden x) := by
  obtain ⟨_, _, hgroup⟩ := Script.bodyScope?_eq_some (Script.bodyScope?_of_scopeOf? hkind hscope)
  have hsize := Nat.le_of_lt (groupEnd?_lt_size hgroup)
  set b := SwitchBody.mk s s.scopeTable scope indent with hb
  have hmem : ∀ x, x ∈ b.branches ↔ scope.opener < x ∧ x < scope.closer
      ∧ (s.kindAt x).isBranch = true ∧ ¬ b.Hidden x := fun x => mem_branches_iff hsize
  have htop : ∀ x, x ∈ s.brackets.topLevel (scope.opener + 1) scope.closer ↔
      scope.opener + 1 ≤ x ∧ x < scope.closer ∧ s.brackets.IsOutside (scope.opener + 1) x :=
    fun x => mem_topLevel_iff (wellNested_brackets s) _ _ x
  have hsorted : b.branches.Pairwise (· < ·) := (b.branchesFrom_spec (scope.opener + 1)).1
  have hsortedIn := Script.branchesIn_sorted s scope.opener scope.closer
  constructor
  · refine hsortedIn.eq_of_mem_iff (hsorted.filter _) (fun x => ?_)
    rw [Script.mem_branchesIn_iff, List.mem_filter, decide_eq_true_eq, hmem, htop]
    constructor
    · rintro ⟨hlo, hhi, hout, hbranch⟩
      exact ⟨⟨hlo, hhi, hbranch, not_hidden_of_isOutside hbranch hout⟩, hlo, hhi, hout⟩
    · rintro ⟨⟨hlo, hhi, hbranch, _⟩, _, _, hout⟩
      exact ⟨hlo, hhi, hout, hbranch⟩
  · constructor
    · intro heq x hlo hhi hbranch hx
      by_contra hnot
      have hin := (hmem x).mpr ⟨hlo, hhi, hbranch, hnot⟩
      rw [heq, Script.mem_branchesIn_iff] at hin
      exact hx ((htop x).mpr ⟨hlo, hhi, hin.2.2.1⟩)
    · intro hall
      refine hsorted.eq_of_mem_iff hsortedIn (fun x => ?_)
      rw [Script.mem_branchesIn_iff, hmem]
      constructor
      · rintro ⟨hlo, hhi, hbranch, hnot⟩
        have hx : x ∈ s.brackets.topLevel (scope.opener + 1) scope.closer := by
          by_contra hx
          exact hnot (hall x hlo hhi hbranch hx)
        exact ⟨hlo, hhi, ((htop x).mp hx).2.2, hbranch⟩
      · rintro ⟨hlo, hhi, hout, hbranch⟩
        exact ⟨hlo, hhi, hbranch, not_hidden_of_isOutside hbranch hout⟩

end SwitchBody

/-- The script of a text; a text that cannot be read counts as empty. -/
def Script.ofText (tabWidth : Nat) (text : String) : Script :=
  ((Script.read tabWidth text).toOption).getD (Script.ofTokens [])

theorem Script.read_ofText {tabWidth : Nat} {text : String}
    (h : (Script.read tabWidth text).isOk = true) :
    Script.read tabWidth text = .ok (Script.ofText tabWidth text) := by
  unfold Script.ofText
  cases hread : Script.read tabWidth text with
  | ok s => rfl
  | error e =>
      rw [hread] at h
      cases h

namespace SwitchBody

/-- The two lists of a switch with another one inside a block of its first case. -/
theorem branches_vs_branchesIn_inner_switch :
    let s := Script.ofText 4
      "switch ($a) \x7b case 1: if ($b) \x7b switch ($c) \x7b case 2: break; \x7d \x7d break; default: \x7d"
    let scope : Scope := ⟨0, 6, 47⟩
    (s.kindAt 0 = .switchKw ∧ s.scopeTable.scopeOf? 0 = some scope) ∧
      (s.branchesIn s.brackets scope.opener scope.closer
          = (SwitchBody.mk s s.scopeTable scope 4).branches.filter
              (· ∈ s.brackets.topLevel (scope.opener + 1) scope.closer)
        ∧ ((SwitchBody.mk s s.scopeTable scope 4).branches
              = s.branchesIn s.brackets scope.opener scope.closer ↔
            ∀ x, scope.opener < x → x < scope.closer → (s.kindAt x).isBranch = true →
              x ∉ s.brackets.topLevel (scope.opener + 1) scope.closer →
                (SwitchBody.mk s s.scopeTable scope 4).Hidden x)) := by
  intro s scope
  have hkind : s.kindAt 0 = .switchKw := by decide +kernel
  have hscope : s.scopeTable.scopeOf? 0 = some scope := by decide +kernel
  exact ⟨⟨hkind, hscope⟩, branches_vs_branchesIn hkind hscope⟩

/-- A `default` inside a match expression is listed by the rule and not by detection. -/
theorem branches_ne_branchesIn_match :
    let s := Script.ofText 4
      "switch ($x) \x7b case 1: $y = match (1) \x7b default => 2 \x7d; break; default: \x7d"
    let scope : Scope := ⟨0, 6, 40⟩
    (s.kindAt 0 = .switchKw ∧ s.scopeTable.scopeOf? 0 = some scope) ∧
      (SwitchBody.mk s s.scopeTable scope 4).branches
        ≠ s.branchesIn s.brackets scope.opener scope.closer := by
  decide +kernel

end SwitchBody

end SwitchLayout
