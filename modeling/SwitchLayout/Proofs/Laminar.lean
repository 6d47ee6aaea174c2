/-
  SwitchLayout.Proofs.Laminar
  ───────────────────────────
  **The scopes of a script never cross.**

  Scopes come from two sources.  A body in braces is a group, and groups nest.  The stretch of
  a branch is found by a walk: from the end of its label to a statement that leaves it, to a
  closer that it borrows from the branch below, or to the brace of the switch.  Such a stretch
  is no group, but it treats groups as a group would:

    • `BranchStretch` — what the walk guarantees: a group that opens behind the keyword of the
      branch, up to its closer, does not reach beyond the closer,
    • `branchStretch_of_branchScope?`, `branchStretch_of_mem` — one branch has it, and so do
      all branches of a body, whatever they borrow from one another,
    • `nests_of_precedes`, `nests_of_bodies` — two branches of one body, and of two bodies.

  All scopes of a script: `scopeTable_nests`.
-/
import SwitchLayout.Proofs.Branches

namespace SwitchLayout

/-! ## §1. Stretches. -/

namespace Scope

/-- The stretches from opener to closer have no position in common. -/
def Apart (a b : Scope) : Prop := a.closer < b.opener ∨ b.closer < a.opener

/-- The stretch of `b` lies in the stretch of `a`. -/
def Holds (a b : Scope) : Prop := a.opener ≤ b.opener ∧ b.closer ≤ a.closer

/-- The two stretches do not cross: they are apart, or one of them lies in the other. -/
def Nests (a b : Scope) : Prop := a.Apart b ∨ a.Holds b ∨ b.Holds a

theorem Nests.symm {a b : Scope} (h : a.Nests b) : b.Nests a := by
  rcases h with h | h | h
  · exact .inl h.symm
  · exact .inr (.inr h)
  · exact .inr (.inl h)

end Scope

namespace Script

/-- Two groups do not cross. -/
theorem nests_of_groups {s : Script} {a b : Scope}
    (ha : s.brackets.groupEnd? a.opener = some a.closer)
    (hb : s.brackets.groupEnd? b.opener = some b.closer) : a.Nests b := by
  have hnested := wellNested_brackets s
  rcases Nat.lt_trichotomy a.opener b.opener with hlt | heq | hgt
  · by_cases hin : b.opener ≤ a.closer
    · have hend := hnested _ _ _ _ ha hb hlt hin
      exact .inr (.inl ⟨by omega, by omega⟩)
    · exact .inl (.inl (by omega))
  · -- one bracket opens one group
    rw [heq, hb] at ha
    have hend := Option.some.inj ha
    exact .inr (.inl ⟨by omega, by omega⟩)
  · by_cases hin : a.opener ≤ b.closer
    · have hend := hnested _ _ _ _ hb ha hgt hin
      exact .inr (.inr ⟨by omega, by omega⟩)
    · exact .inl (.inr (by omega))

/-! ## §2. The stretch of a branch. -/

/-- What the scope of a branch of the body between `bodyOpener` and `bodyCloser` guarantees. -/
structure BranchStretch (s : Script) (bodyOpener bodyCloser : Nat) (scope : Scope) : Prop where
  /-- The branch stands in the body. -/
  inside : bodyOpener < scope.condition
  /-- Its scope is in order and ends with the body at the latest. -/
  ordered : Ordered bodyCloser scope
  /-- Its label ends outside the groups of the body. -/
  outside : s.brackets.IsOutside (bodyOpener + 1) scope.opener
  /-- A group that opens behind its keyword does not reach beyond its closer. -/
  tight : ∀ g h, scope.condition < g → g ≤ scope.closer →
    s.brackets.groupEnd? g = some h → h ≤ scope.closer

/-- A token that opens nothing starts no group. -/
theorem groupEnd?_of_opens {s : Script} {i j : Nat} (h : (s.kindAt i).opens? = none) :
    s.brackets.groupEnd? i ≠ some j := by
  intro hgroup
  obtain ⟨shape, hshape, _⟩ := groupEnd?_shapes hgroup
  rw [h] at hshape
  cases hshape

/-- A token that ends a branch opens nothing. -/
theorem opens?_of_endsBranch {kind : TokenKind} (h : endsBranch kind = true) :
    kind.opens? = none := by
  revert h
  cases kind <;> decide

/-- What ends a label and is no brace opens nothing. -/
theorem opens?_of_endsLabel {kind : TokenKind} (h : endsLabel kind = true)
    (hbrace : kind ≠ .openBrace) : kind.opens? = none := by
  revert h hbrace
  cases kind <;> decide

/-- The walk goes on outside the groups of the body behind a branch that stands outside. -/
theorem isOutside_label {s : Script} {bodyOpener branch opener : Nat}
    (hkind : (s.kindAt branch).isBranch = true)
    (hbranch : s.brackets.IsOutside (bodyOpener + 1) branch) (hlt : branch < opener)
    (hlabel : s.brackets.IsOutside (branch + 1) opener) :
    s.brackets.IsOutside (bodyOpener + 1) opener := by
  apply hbranch.trans _ (Nat.le_of_lt hlt)
  intro j k hlo hhi hjk
  rcases Nat.eq_or_lt_of_le hlo with rfl | hgt
  · exact absurd hjk (groupEnd?_of_opens (TokenKind.plain_of_isBranch hkind).2.1)
  · exact hlabel j k hgt hhi hjk

/-- A group that opens behind the end of a label does not reach beyond the end of the branch,
if this holds of the branches below. -/
theorem tight_of_branchEnd? {s : Script} {bodyOpener bodyCloser opener closer : Nat}
    {later : List Scope} (hbody : s.brackets.groupEnd? bodyOpener = some bodyCloser)
    (hopener : bodyOpener < opener)
    (hlater : ∀ scope ∈ later, s.BranchStretch bodyOpener bodyCloser scope)
    (h : s.branchEnd? s.brackets opener bodyCloser later = some closer) {g k : Nat}
    (hlo : opener < g) (hhi : g ≤ closer) (hgroup : s.brackets.groupEnd? g = some k) :
    k ≤ closer := by
  unfold branchEnd? at h
  split at h
  · -- the branch runs to the brace of the body
    cases h
    have hin := wellNested_brackets s bodyOpener bodyCloser g k hbody hgroup (by omega) hhi
    omega
  · rename_i i hfind
    obtain ⟨hoi, _, hout⟩ := (mem_topLevel_iff (wellNested_brackets s) _ _ _).mp
      (List.mem_of_find?_eq_some hfind)
    have hends : endsBranch (s.kindAt i) = true := by simpa using List.find?_some hfind
    -- the group ends in front of `i`, or it opens behind it
    have hside : k < i ∨ i < g := by
      rcases Nat.lt_trichotomy g i with hlt | rfl | hgt
      · exact .inl (hout g k hlo hlt hgroup)
      · exact absurd hgroup (groupEnd?_of_opens (opens?_of_endsBranch hends))
      · exact .inr hgt
    split at h
    · -- a borrowed closer: behind the branch below, its own stretch decides
      obtain ⟨scope, hscope, rfl⟩ := Option.map_eq_some_iff.mp h
      have hcond : scope.condition = i := by simpa using List.find?_some hscope
      have hstretch := hlater scope (List.mem_of_find?_eq_some hscope)
      obtain ⟨h1, h2, _⟩ := hstretch.ordered
      rcases hside with hlt | hgt
      · omega
      · exact hstretch.tight g k (by omega) hhi hgroup
    · cases h
      omega

/-- **One branch.**  Its stretch is as it should be, if those of the branches below are. -/
theorem branchStretch_of_branchScope? {s : Script} {bodyOpener bodyCloser branch limit : Nat}
    {later : List Scope} {scope : Scope}
    (hbody : s.brackets.groupEnd? bodyOpener = some bodyCloser)
    (hbranch : branch ∈ s.branchesIn s.brackets bodyOpener bodyCloser)
    (hlimit : limit ≤ bodyCloser)
    (hlater : ∀ scope ∈ later, s.BranchStretch bodyOpener bodyCloser scope)
    (h : s.branchScope? s.brackets branch limit bodyCloser later = some scope) :
    scope.condition = branch ∧ scope.opener < limit
      ∧ s.BranchStretch bodyOpener bodyCloser scope := by
  obtain ⟨hin, _, hout, hkind⟩ := mem_branchesIn_iff.mp hbranch
  have hspec := branchScope?_eq_some hbody hin hlimit (fun sc hsc => (hlater sc hsc).ordered) h
  rw [branchScope?_eq] at h
  obtain ⟨opener, hopener, hrest⟩ := Option.bind_eq_some_iff.mp h
  obtain ⟨closer, hcloser, rfl⟩ := Option.map_eq_some_iff.mp hrest
  obtain ⟨hmem, hlabel⟩ := labelEnd?_eq_some hopener
  obtain ⟨hlo, hhi, hafter⟩ := (mem_topLevel_iff (wellNested_brackets s) _ _ _).mp hmem
  have hlt : opener < closer := hspec.2.1.2.1
  refine ⟨rfl, hhi, ⟨hin, hspec.2.1, isOutside_label hkind hout hlo hafter, ?_⟩⟩
  intro g k hbg hgc hgroup
  show k ≤ closer
  rcases Nat.lt_trichotomy g opener with hgo | rfl | hgo
  · -- a group of the label
    have hend := hafter g k hbg hgo hgroup
    omega
  · split at hcloser
    · rw [hgroup] at hcloser
      exact Nat.le_of_eq (Option.some.inj hcloser)
    · rename_i hbrace
      exact absurd hgroup (groupEnd?_of_opens (opens?_of_endsLabel hlabel hbrace))
  · split at hcloser
    · have hend := wellNested_brackets s opener closer g k hcloser hgroup hgo hgc
      omega
    · exact tight_of_branchEnd? hbody (by omega) hlater hcloser hgo hgc hgroup

/-! ## §3. The branches of one body. -/

/-- The scope of a branch in front of another one of the same body: it ends in front of the
other branch, or no earlier than the other one does. -/
def Precedes (a b : Scope) : Prop :=
  a.opener < b.condition ∧ (a.closer < b.condition ∨ b.closer ≤ a.closer)

/-- The first element of a list in order that passes a test is ahead of the others that do. -/
theorem eq_or_rel_of_find?_eq_some {α : Type} {r : α → α → Prop} {l : List α} {p : α → Bool}
    {x y : α} (hsorted : l.Pairwise r) (hfind : l.find? p = some x) (hy : y ∈ l)
    (hp : p y = true) : x = y ∨ r x y := by
  obtain ⟨_, before, after, rfl, hbefore⟩ := List.find?_eq_some_iff_append.mp hfind
  rcases List.mem_append.mp hy with hy | hy
  · have hfalse := hbefore y hy
    rw [hp] at hfalse
    cases hfalse
  · rcases List.mem_cons.mp hy with rfl | hy
    · exact .inl rfl
    · have htail := (List.pairwise_append.mp hsorted).2.1
      exact .inr ((List.pairwise_cons.mp htail).1 y hy)

/-- The first position of a list in order that passes a test is no later than any other. -/
theorem le_of_find?_eq_some {is : List Nat} {p : Nat → Bool} {i j : Nat}
    (hsorted : is.Pairwise (· < ·)) (hfind : is.find? p = some i) (hj : j ∈ is)
    (hp : p j = true) : i ≤ j := by
  rcases eq_or_rel_of_find?_eq_some hsorted hfind hj hp with rfl | hlt
  · exact Nat.le_refl _
  · exact Nat.le_of_lt hlt

/-- The walk from the end of a label either stops in front of a branch below, or it borrows a
closer, or it runs to the end of the body. -/
theorem branchEnd?_cases {s : Script} {bodyOpener bodyCloser opener closer below : Nat}
    {later : List Scope} (hopener : bodyOpener < opener) (hlt : opener < below)
    (hbelow : below ∈ s.branchesIn s.brackets bodyOpener bodyCloser)
    (h : s.branchEnd? s.brackets opener bodyCloser later = some closer) :
    closer < below ∨ closer = bodyCloser
      ∨ ∃ scope ∈ later, scope.condition ≤ below ∧ scope.closer = closer := by
  obtain ⟨_, hend, hout, hkind⟩ := mem_branchesIn_iff.mp hbelow
  -- the branch below is on the way of the walk
  have hmem : below ∈ s.brackets.topLevel (opener + 1) bodyCloser := by
    rw [mem_topLevel_iff (wellNested_brackets s)]
    exact ⟨hlt, hend, fun j k hj hjb hjk => hout j k (by omega) hjb hjk⟩
  have hends : endsBranch (s.kindAt below) = true := by
    unfold endsBranch
    rw [hkind, Bool.or_true]
  unfold branchEnd? at h
  split at h
  · exact .inr (.inl (Option.some.inj h).symm)
  · rename_i i hfind
    have hle := le_of_find?_eq_some (topLevel_sorted _ _ _).1 hfind hmem hends
    split at h
    · obtain ⟨scope, hscope, rfl⟩ := Option.map_eq_some_iff.mp h
      have hcond : scope.condition = i := by simpa using List.find?_some hscope
      exact .inr (.inr ⟨scope, List.mem_of_find?_eq_some hscope, by omega, rfl⟩)
    · rename_i hbranch
      cases h
      left
      rcases Nat.eq_or_lt_of_le hle with rfl | hlt
      · exact absurd hkind hbranch
      · exact hlt

/-- A branch precedes the branches below, if these precede one another. -/
theorem precedes_of_branchScope? {s : Script} {bodyOpener bodyCloser branch limit : Nat}
    {later : List Scope} {scope other : Scope}
    (hbranch : branch ∈ s.branchesIn s.brackets bodyOpener bodyCloser)
    (hlater : ∀ sc ∈ later, s.BranchStretch bodyOpener bodyCloser sc
      ∧ sc.condition ∈ s.branchesIn s.brackets bodyOpener bodyCloser)
    (hprecedes : ∀ a ∈ later, ∀ b ∈ later, a.condition < b.condition → Precedes a b)
    (hunique : ∀ a ∈ later, ∀ b ∈ later, a.condition = b.condition → a = b)
    (hother : other ∈ later) (hlimit : limit ≤ other.condition)
    (h : s.branchScope? s.brackets branch limit bodyCloser later = some scope) :
    Precedes scope other := by
  obtain ⟨hstretch, hin⟩ := hlater other hother
  have hbelow := mem_branchesIn_iff.mp hin
  have hstart := (mem_branchesIn_iff.mp hbranch).1
  rw [branchScope?_eq] at h
  obtain ⟨opener, hopener, hrest⟩ := Option.bind_eq_some_iff.mp h
  obtain ⟨closer, hcloser, rfl⟩ := Option.map_eq_some_iff.mp hrest
  obtain ⟨hlo, hhi, _⟩ := (mem_topLevel_iff (wellNested_brackets s) _ _ _).mp
    (labelEnd?_eq_some hopener).1
  have hlt : opener < other.condition := by omega
  refine ⟨hlt, ?_⟩
  show closer < other.condition ∨ other.closer ≤ closer
  split at hcloser
  · -- the branch below stands outside the braces
    exact .inl (hbelow.2.2.1 opener closer (by omega) hlt hcloser)
  · rcases branchEnd?_cases (by omega) hlt hin hcloser with hbefore | rfl | ⟨sc, hsc, hle, rfl⟩
    · exact .inl hbefore
    · exact .inr hstretch.ordered.2.2
    · rcases Nat.eq_or_lt_of_le hle with heq | hless
      · rw [hunique sc hsc other hother heq]
        exact .inr (Nat.le_refl _)
      · exact (hprecedes sc hsc other hother hless).2

/-- **All branches of a body.**  Their stretches are as they should be, and each precedes
those below it. -/
theorem branchStretch_of_mem {s : Script} {bodyOpener bodyCloser : Nat}
    (hbody : s.brackets.groupEnd? bodyOpener = some bodyCloser) :
    ∀ branches : List Nat, branches.Pairwise (· < ·) →
      (∀ i ∈ branches, i ∈ s.branchesIn s.brackets bodyOpener bodyCloser) →
      (∀ a ∈ s.branchScopes s.brackets bodyCloser branches,
          s.BranchStretch bodyOpener bodyCloser a ∧ a.condition ∈ branches)
        ∧ (∀ a ∈ s.branchScopes s.brackets bodyCloser branches,
            ∀ b ∈ s.branchScopes s.brackets bodyCloser branches,
              a.condition < b.condition → Precedes a b)
        ∧ (∀ a ∈ s.branchScopes s.brackets bodyCloser branches,
            ∀ b ∈ s.branchScopes s.brackets bodyCloser branches,
              a.condition = b.condition → a = b) := by
  intro branches
  induction branches with
  | nil =>
      intro _ _
      refine ⟨?_, ?_, ?_⟩ <;> (intro a ha; cases ha)
  | cons branch below ih =>
      intro hsorted hin
      obtain ⟨hhead, htail⟩ := List.pairwise_cons.mp hsorted
      have hbranch := hin branch List.mem_cons_self
      obtain ⟨hlater, hprecedes, hunique⟩ := ih htail fun i hi => hin i (List.mem_cons_of_mem _ hi)
      have hlimit : below.head?.getD bodyCloser ≤ bodyCloser := by
        cases below with
        | nil => exact Nat.le_refl _
        | cons next _ =>
            exact Nat.le_of_lt (mem_branchesIn_iff.mp (hin next (by simp))).2.1
      -- the limit of the label is the first of the branches below
      have hfirst : ∀ i ∈ below, below.head?.getD bodyCloser ≤ i := by
        intro i hi
        cases below with
        | nil => cases hi
        | cons next rest =>
            rcases List.mem_cons.mp hi with rfl | hi
            · exact Nat.le_refl _
            · exact Nat.le_of_lt ((List.pairwise_cons.mp htail).1 i hi)
      have hstretch : ∀ sc ∈ s.branchScopes s.brackets bodyCloser below,
          s.BranchStretch bodyOpener bodyCloser sc := fun sc hsc => (hlater sc hsc).1
      have hbranches : ∀ sc ∈ s.branchScopes s.brackets bodyCloser below,
          s.BranchStretch bodyOpener bodyCloser sc
            ∧ sc.condition ∈ s.branchesIn s.brackets bodyOpener bodyCloser := by
        intro sc hsc
        obtain ⟨h1, h2⟩ := hlater sc hsc
        exact ⟨h1, hin _ (List.mem_cons_of_mem _ h2)⟩
      simp only [branchScopes]
      cases hscope : s.branchScope? s.brackets branch (below.head?.getD bodyCloser) bodyCloser
          (s.branchScopes s.brackets bodyCloser below) with
      | none =>
          simp only [Option.toList_none, List.append_nil]
          refine ⟨fun a ha => ?_, hprecedes, hunique⟩
          exact ⟨(hlater a ha).1, List.mem_cons_of_mem _ (hlater a ha).2⟩
      | some scope =>
          obtain ⟨hcond, _, hnew⟩ :=
            branchStretch_of_branchScope? hbody hbranch hlimit hstretch hscope
          have hlt : ∀ a ∈ s.branchScopes s.brackets bodyCloser below,
              scope.condition < a.condition := by
            intro a ha
            rw [hcond]
            exact hhead _ (hlater a ha).2
          simp only [Option.toList_some, List.mem_append, List.mem_singleton]
          refine ⟨?_, ?_, ?_⟩
          · rintro a (ha | rfl)
            · exact ⟨(hlater a ha).1, List.mem_cons_of_mem _ (hlater a ha).2⟩
            · exact ⟨hnew, hcond ▸ List.mem_cons_self⟩
          · rintro a (ha | rfl) b (hb | rfl) hab
            · exact hprecedes a ha b hb hab
            · have := hlt a ha
              omega
            · exact precedes_of_branchScope? hbranch hbranches hprecedes hunique hb
                (hfirst _ (hlater b hb).2) hscope
            · omega
          · rintro a (ha | rfl) b (hb | rfl) hab
            · exact hunique a ha b hb hab
            · have := hlt a ha
              omega
            · have := hlt b hb
              omega
            · rfl

/-- Two branches of one body do not cross. -/
theorem nests_of_precedes {s : Script} {bodyOpener bodyCloser : Nat} {a b : Scope}
    (hb : s.BranchStretch bodyOpener bodyCloser b) (h : Precedes a b) : a.Nests b := by
  obtain ⟨hopener, hcloser⟩ := h
  have hlt := hb.ordered.1
  rcases hcloser with hbefore | hafter
  · exact .inl (.inl (by omega))
  · exact .inr (.inl ⟨by omega, hafter⟩)

/-! ## §4. Branches and groups. -/

/-- A group inside the body is apart from the stretch of a branch or lies in it. -/
theorem group_of_branchStretch {s : Script} {bodyOpener bodyCloser g h : Nat} {scope : Scope}
    (hstretch : s.BranchStretch bodyOpener bodyCloser scope) (hinside : bodyOpener < g)
    (hgroup : s.brackets.groupEnd? g = some h) :
    h < scope.opener ∨ scope.closer < g ∨ (scope.opener ≤ g ∧ h ≤ scope.closer) := by
  obtain ⟨hlt, _, _⟩ := hstretch.ordered
  by_cases hfront : g < scope.opener
  · exact .inl (hstretch.outside g h hinside hfront hgroup)
  · by_cases hbehind : scope.closer < g
    · exact .inr (.inl hbehind)
    · have hend := hstretch.tight g h (by omega) (by omega) hgroup
      exact .inr (.inr ⟨by omega, hend⟩)

/-- A branch and a group do not cross. -/
theorem nests_of_group {s : Script} {bodyOpener bodyCloser : Nat} {scope group : Scope}
    (hbody : s.brackets.groupEnd? bodyOpener = some bodyCloser)
    (hstretch : s.BranchStretch bodyOpener bodyCloser scope)
    (hgroup : s.brackets.groupEnd? group.opener = some group.closer) : scope.Nests group := by
  obtain ⟨hcond, hlt, hle⟩ := hstretch.ordered
  have hinside := hstretch.inside
  by_cases hin : bodyOpener < group.opener
  · rcases group_of_branchStretch hstretch hin hgroup with h | h | h
    · exact .inl (.inr h)
    · exact .inl (.inl h)
    · exact .inr (.inl h)
  · -- the group is the body, holds it, or ends in front of it
    have hbodies : (Scope.mk bodyOpener bodyOpener bodyCloser).Nests group :=
      nests_of_groups hbody hgroup
    have hgrouplt := Brackets.lt_of_groupEnd? hgroup
    have hbodylt := Brackets.lt_of_groupEnd? hbody
    have hsame : group.opener = bodyOpener → group.closer = bodyCloser := by
      intro heq
      rw [heq, hbody] at hgroup
      exact (Option.some.inj hgroup).symm
    rcases hbodies with (h | h) | h | h
    · change bodyCloser < group.opener at h
      omega
    · change group.closer < bodyOpener at h
      exact .inl (.inr (by omega))
    · change bodyOpener ≤ group.opener ∧ group.closer ≤ bodyCloser at h
      have := hsame (by omega)
      exact .inr (.inr ⟨by omega, by omega⟩)
    · change group.opener ≤ bodyOpener ∧ bodyCloser ≤ group.closer at h
      exact .inr (.inr ⟨by omega, by omega⟩)

/-- A branch of an inner body does not cross one of the body around it. -/
theorem nests_of_bodies {s : Script} {o c o' c' : Nat} {a b : Scope}
    (hbody' : s.brackets.groupEnd? o' = some c') (hlt : o < o') (ha : s.BranchStretch o c a) (hb : s.BranchStretch o' c' b) : a.Nests b := by
  obtain ⟨_, hb2, hb3⟩ := hb.ordered
  have hb1 := hb.ordered.1
  have hbin := hb.inside
  rcases group_of_branchStretch ha hlt hbody' with h | h | ⟨h1, h2⟩
  · exact .inl (.inr (by omega))
  · exact .inl (.inl (by omega))
  · exact .inr (.inl ⟨by omega, by omega⟩)

/-! ## §5. All scopes. -/

/-- A detected scope is a group, or a branch of the body of a switch. -/
theorem group_or_branch {s : Script} {scope : Scope} (h : scope ∈ s.detectedScopes) :
    s.brackets.groupEnd? scope.opener = some scope.closer
      ∨ ∃ i body, s.kindAt i = .switchKw ∧ s.bodyScope? s.brackets i = some body
          ∧ scope ∈ s.branchScopes s.brackets body.closer
              (s.branchesIn s.brackets body.opener body.closer) := by
  obtain ⟨i, _, _, hat⟩ := mem_detectedScopes_iff.mp h
  obtain ⟨body, hbody, rfl | ⟨hkind, hmem⟩⟩ := mem_scopesAt hat
  · exact .inl (bodyScope?_eq_some hbody).2.2
  · exact .inr ⟨i, body, hkind, hbody, hmem⟩

/-- What is known of the branches of the switch at `i`. -/
theorem branchStretch_of_body {s : Script} {i : Nat} {body : Scope}
    (hbody : s.bodyScope? s.brackets i = some body) :
    (∀ a ∈ s.branchScopes s.brackets body.closer
        (s.branchesIn s.brackets body.opener body.closer),
          s.BranchStretch body.opener body.closer a)
      ∧ ∀ a ∈ s.branchScopes s.brackets body.closer
          (s.branchesIn s.brackets body.opener body.closer),
        ∀ b ∈ s.branchScopes s.brackets body.closer
          (s.branchesIn s.brackets body.opener body.closer), a.Nests b := by
  obtain ⟨hstretch, hprecedes, hunique⟩ := branchStretch_of_mem (bodyScope?_eq_some hbody).2.2 _
    (branchesIn_sorted s body.opener body.closer) (fun i hi => hi)
  refine ⟨fun a ha => (hstretch a ha).1, fun a ha b hb => ?_⟩
  rcases Nat.lt_trichotomy a.condition b.condition with hlt | heq | hgt
  · exact nests_of_precedes (hstretch b hb).1 (hprecedes a ha b hb hlt)
  · rw [hunique a ha b hb heq]
    exact .inr (.inl ⟨Nat.le_refl _, Nat.le_refl _⟩)
  · exact (nests_of_precedes (hstretch a ha).1 (hprecedes b hb a ha hgt)).symm

/-- **Detected scopes never cross.** -/
theorem nests_of_mem_detectedScopes {s : Script} {a b : Scope} (ha : a ∈ s.detectedScopes)
    (hb : b ∈ s.detectedScopes) : a.Nests b := by
  rcases group_or_branch ha with hga | ⟨i, body, hkind, hbody, hmem⟩
  · rcases group_or_branch hb with hgb | ⟨i', body', hkind', hbody', hmem'⟩
    · exact nests_of_groups hga hgb
    · exact (nests_of_group (bodyScope?_eq_some hbody').2.2
        ((branchStretch_of_body hbody').1 b hmem') hga).symm
  · have hstretch := (branchStretch_of_body hbody).1 a hmem
    obtain ⟨_, _, hgroup⟩ := bodyScope?_eq_some hbody
    rcases group_or_branch hb with hgb | ⟨i', body', hkind', hbody', hmem'⟩
    · exact nests_of_group hgroup hstretch hgb
    · have hstretch' := (branchStretch_of_body hbody').1 b hmem'
      obtain ⟨_, _, hgroup'⟩ := bodyScope?_eq_some hbody'
      rcases Nat.lt_trichotomy body.opener body'.opener with hlt | heq | hgt
      · exact nests_of_bodies hgroup' hlt hstretch hstretch'
      · -- the two switches are one
        have hii := switch_eq_of_opener_eq hkind hkind' hbody hbody' heq
        rw [← hii, hbody] at hbody'
        obtain rfl := Option.some.inj hbody'
        exact (branchStretch_of_body hbody).2 a hmem b hmem'
      · exact (nests_of_bodies hgroup hgt hstretch' hstretch).symm

/-- A scope of the table was detected. -/
theorem mem_detectedScopes_of_mem_toList {s : Script} {scope : Scope}
    (h : scope ∈ s.scopeTable.toList) : scope ∈ s.detectedScopes := by
  obtain ⟨entry, hentry, rfl⟩ := List.mem_map.mp h
  exact (scopeOf?_scopeTable_iff.mp (Std.ExtTreeMap.mem_toList_iff_getElem?_eq_some.mp hentry)).1

/-- **The scopes of a script are well nested.**  Of any two scopes in its table, the stretches
from opener to closer are apart, or one of them lies in the other. -/
theorem scopeTable_nests (s : Script) {a b : Scope} (ha : a ∈ s.scopeTable.toList)
    (hb : b ∈ s.scopeTable.toList) :
    a.Apart b ∨ a.Holds b ∨ b.Holds a :=
  nests_of_mem_detectedScopes (mem_detectedScopes_of_mem_toList ha)
    (mem_detectedScopes_of_mem_toList hb)

/-- A case that falls through, and a block in the case it falls into.  A parenthesis and a
square bracket stay open. -/
theorem scopeTable_nests_fallthrough :
    let s := Script.ofText 4
      "switch ($a) \x7b case 1: case 2; ( if ($b) \x7b return; \x7d break; default \x7b [ \x7d \x7d )"
    let a : Scope := ⟨8, 11, 33⟩
    let b : Scope := ⟨20, 26, 31⟩
    (a ∈ s.scopeTable.toList ∧ b ∈ s.scopeTable.toList)
      ∧ (a.Apart b ∨ a.Holds b ∨ b.Holds a) := by
  intro s a b
  have ha : a ∈ s.scopeTable.toList := by decide +kernel
  have hb : b ∈ s.scopeTable.toList := by decide +kernel
  exact ⟨⟨ha, hb⟩, scopeTable_nests s ha hb⟩

end Script

end SwitchLayout
