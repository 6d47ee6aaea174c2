/-
  SwitchLayout.Proofs.Fallthrough
  ───────────────────────────────
  **A branch ends at the first statement behind its label that leaves it.**

  Detection finds the closers of the branches of a switch from the last branch to the first, and a
  branch that runs into the next one takes over the closer of that one.  Where every label ends in
  a colon or a semicolon, the outcome can be said without that detour:

    • `Script.exits` — the statements on the top level of the body that leave a branch, those in
      labels left out,
    • `Script.exitBehind` — the first of them behind a position, or the brace of the body,
    • `branchEnd?_eq_exitBehind` — one branch ends at the first exit behind its label, if the
      branches below do,
    • `branchScopes_eq_exitBehind` — so all branches do, however many fall through in a row,
    • `exitBehind_eq_iff` — two branches then have the same closer exactly when no exit stands
      between them.
-/
import SwitchLayout.Proofs.Laminar
import Mathlib.Data.List.Find

namespace SwitchLayout

/-- The keyword starts a statement that leaves the branch it stands in. -/
def TokenKind.leavesBranch (kind : TokenKind) : Bool := kind.isTerminator || kind == .exitKw

/-- What leaves a branch or starts one ends the branch in front of it. -/
theorem Script.endsBranch_eq (kind : TokenKind) :
    endsBranch kind = (kind.leavesBranch || kind.isBranch) := rfl

namespace Script

/-! ## §1. Labels and exits. -/

/-- The branch behind the one at `b` in the body from `o` to `c`, or the end of the body. -/
def nextBranch (s : Script) (o c b : Nat) : Nat :=
  ((s.branchesIn s.brackets o c).find? (b < ·)).getD c

/-- Where the label of the branch at `b` ends, in front of the next branch. -/
def labelOf? (s : Script) (o c b : Nat) : Option Nat :=
  s.labelEnd? s.brackets 0 (s.brackets.topLevel (b + 1) (s.nextBranch o c b))

/-- The position lies in the label of the branch at `b`, from its keyword to its end. -/
def inLabel (s : Script) (o c b t : Nat) : Bool :=
  (s.labelOf? o c b).any fun e => decide (b ≤ t ∧ t ≤ e)

/-- The exits of a body: the tokens on its top level that leave a branch and lie in no label. -/
def exits (s : Script) (o c : Nat) : List Nat :=
  (s.brackets.topLevel (o + 1) c).filter fun t =>
    (s.kindAt t).leavesBranch && !(s.branchesIn s.brackets o c).any (s.inLabel o c · t)

/-- The first exit of the body behind `e`, or the end of the body. -/
def exitBehind (s : Script) (o c e : Nat) : Nat := ((s.exits o c).find? (e < ·)).getD c

/-- The label of the branch at `b` ends in a colon, or in a semicolon in its place. -/
def Labelled (s : Script) (o c b : Nat) : Prop :=
  ∃ e, s.labelOf? o c b = some e ∧ (s.kindAt e = .colon ∨ s.kindAt e = .semicolon)

instance (s : Script) (o c b : Nat) : Decidable (s.Labelled o c b) :=
  decidable_of_iff
    ((s.labelOf? o c b).any fun e => decide (s.kindAt e = .colon ∨ s.kindAt e = .semicolon))
    (by simp [Labelled, Option.any_eq_true])

section Labels

variable {s : Script} {o c b e t : Nat}

theorem mem_exits_iff :
    t ∈ s.exits o c ↔ t ∈ s.brackets.topLevel (o + 1) c ∧ (s.kindAt t).leavesBranch = true
      ∧ ∀ b ∈ s.branchesIn s.brackets o c, ∀ e, s.labelOf? o c b = some e → ¬ (b ≤ t ∧ t ≤ e) := by
  unfold exits inLabel
  rw [List.mem_filter, Bool.and_eq_true, Bool.not_eq_true', List.any_eq_false]
  refine and_congr_right fun _ => and_congr_right fun _ => forall₂_congr fun b _ => ?_
  cases s.labelOf? o c b with
  | none => simp
  | some e => simp

theorem exits_sorted (s : Script) (o c : Nat) : (s.exits o c).Pairwise (· < ·) :=
  (topLevel_sorted _ _ _).1.filter _

/-- The next branch is no later than any branch behind, or than the end of the body. -/
theorem nextBranch_le (s : Script) (o c b : Nat) :
    s.nextBranch o c b ≤ c
      ∧ ∀ b' ∈ s.branchesIn s.brackets o c, b < b' → s.nextBranch o c b ≤ b' := by
  unfold nextBranch
  cases hfind : (s.branchesIn s.brackets o c).find? (b < ·) with
  | none =>
      refine ⟨Nat.le_refl c, fun b' hb' hlt => ?_⟩
      exact absurd (decide_eq_true hlt) (List.find?_eq_none.mp hfind b' hb')
  | some n =>
      refine ⟨?_, fun b' hb' hlt => ?_⟩
      · exact Nat.le_of_lt (mem_branchesIn_iff.mp (List.mem_of_find?_eq_some hfind)).2.1
      · exact le_of_find?_eq_some (branchesIn_sorted s o c) hfind hb' (decide_eq_true hlt)

/-- A label ends behind its keyword and in front of the branches below, outside the groups of the
body. -/
theorem labelOf?_eq_some (hb : b ∈ s.branchesIn s.brackets o c) (h : s.labelOf? o c b = some e) :
    b < e ∧ e < c ∧ s.brackets.IsOutside (o + 1) e
      ∧ ∀ b' ∈ s.branchesIn s.brackets o c, b < b' → e < b' := by
  obtain ⟨hlo, hhi, hout⟩ := (mem_topLevel_iff (wellNested_brackets s) _ _ _).mp
    (labelEnd?_eq_some h).1
  obtain ⟨hend, hnext⟩ := s.nextBranch_le o c b
  obtain ⟨_, _, hbout, hkind⟩ := mem_branchesIn_iff.mp hb
  refine ⟨hlo, by omega, isOutside_label hkind hbout hlo hout, fun b' hb' hlt => ?_⟩
  have hle := hnext b' hb' hlt
  omega

/-- Behind a label the walk meets what stands on the top level of the body. -/
theorem mem_topLevel_behind (hopens : (s.kindAt e).opens? = none) (hoe : o < e)
    (hout : s.brackets.IsOutside (o + 1) e) (het : e < t) :
    t ∈ s.brackets.topLevel (e + 1) c ↔ t ∈ s.brackets.topLevel (o + 1) c := by
  rw [mem_topLevel_iff (wellNested_brackets s), mem_topLevel_iff (wellNested_brackets s)]
  constructor
  · rintro ⟨_, hhi, htout⟩
    refine ⟨by omega, hhi, hout.trans (fun j k hlo hhi hjk => ?_) (Nat.le_of_lt het)⟩
    rcases Nat.eq_or_lt_of_le hlo with rfl | hlt
    · exact absurd hjk (groupEnd?_of_opens hopens)
    · exact htout j k hlt hhi hjk
  · rintro ⟨_, hhi, htout⟩
    exact ⟨het, hhi, fun j k hlo hhi hjk => htout j k (by omega) hhi hjk⟩

end Labels

/-! ## §2. The first exit. -/

section Exits

variable {s : Script} {o c e t : Nat}

theorem exitBehind_le (ht : t ∈ s.exits o c) (het : e < t) : s.exitBehind o c e ≤ t := by
  unfold exitBehind
  cases hfind : (s.exits o c).find? (e < ·) with
  | none => exact absurd (decide_eq_true het) (List.find?_eq_none.mp hfind t ht)
  | some u => exact le_of_find?_eq_some (exits_sorted s o c) hfind ht (decide_eq_true het)

/-- The first exit is an exit behind the position, unless there is none. -/
theorem exitBehind_cases (s : Script) (o c e : Nat) :
    (s.exitBehind o c e ∈ s.exits o c ∧ e < s.exitBehind o c e)
      ∨ (s.exitBehind o c e = c ∧ ∀ t ∈ s.exits o c, ¬ e < t) := by
  unfold exitBehind
  cases hfind : (s.exits o c).find? (e < ·) with
  | none =>
      refine .inr ⟨rfl, fun t ht het => ?_⟩
      exact List.find?_eq_none.mp hfind t ht (decide_eq_true het)
  | some u =>
      have hu : e < u := by simpa using List.find?_some hfind
      exact .inl ⟨List.mem_of_find?_eq_some hfind, hu⟩

theorem lt_exitBehind (hec : e < c) : e < s.exitBehind o c e := by
  rcases s.exitBehind_cases o c e with ⟨_, hlt⟩ | ⟨heq, _⟩
  · exact hlt
  · omega

/-- What is the first exit. -/
theorem exitBehind_eq (ht : t ∈ s.exits o c) (het : e < t)
    (hfirst : ∀ u ∈ s.exits o c, e < u → t ≤ u) : s.exitBehind o c e = t := by
  have hle := exitBehind_le ht het
  rcases s.exitBehind_cases o c e with ⟨hmem, hlt⟩ | ⟨_, hnone⟩
  · have hge := hfirst _ hmem hlt
    omega
  · exact absurd het (hnone t ht)

/-- A stretch without exits may be left out. -/
theorem exitBehind_congr {e' : Nat} (hle : e ≤ e')
    (hnone : ∀ t ∈ s.exits o c, ¬ (e < t ∧ t ≤ e')) :
    s.exitBehind o c e = s.exitBehind o c e' := by
  have hsame : ∀ t ∈ s.exits o c, decide (e < t) = decide (e' < t) := by
    intro t ht
    have hout := hnone t ht
    exact decide_eq_decide.mpr ⟨fun het => by omega, fun het => by omega⟩
  unfold exitBehind
  rw [List.find?_congr hsame]

end Exits

/-! ## §3. The end of a branch. -/

section Branches

variable {s : Script} {o c : Nat}

/-- A statement that ends the walk from a label is an exit of the body: no label holds it. -/
theorem mem_exits_of_find? {b e i : Nat} (hb : b ∈ s.branchesIn s.brackets o c)
    (he : s.labelOf? o c b = some e) (hopens : (s.kindAt e).opens? = none)
    (hfind : (s.brackets.topLevel (e + 1) c).find? (fun i => endsBranch (s.kindAt i)) = some i)
    (hbranch : ¬ (s.kindAt i).isBranch = true) : i ∈ s.exits o c := by
  obtain ⟨hbe, _, hout, hnext⟩ := labelOf?_eq_some hb he
  have hob := (mem_branchesIn_iff.mp hb).1
  have hway := List.mem_of_find?_eq_some hfind
  have hei : e < i := (topLevel_sorted _ _ _).2 i hway
  have hleaves : (s.kindAt i).leavesBranch = true := by
    have hends := List.find?_some hfind
    rw [endsBranch_eq, Bool.or_eq_true] at hends
    exact hends.resolve_right hbranch
  have htop := (mem_topLevel_behind hopens (by omega) hout hei).mp hway
  refine mem_exits_iff.mpr ⟨htop, hleaves, fun b' hb' e' he' hin => ?_⟩
  obtain ⟨_, _, _, hnext'⟩ := labelOf?_eq_some hb' he'
  rcases Nat.lt_trichotomy b' b with hlt | rfl | hgt
  · -- the labels above end in front of this branch
    have hback := hnext' b hb hlt
    omega
  · rw [he] at he'
    obtain rfl := Option.some.inj he'
    omega
  · -- a branch between the label and the statement would have ended the walk
    have heb := hnext b' hb' hgt
    obtain ⟨hmem, hkind⟩ := List.mem_filter.mp hb'
    have hle := le_of_find?_eq_some (topLevel_sorted _ _ _).1 hfind
      ((mem_topLevel_behind hopens (by omega) hout heb).mpr hmem)
      (by rw [endsBranch_eq, hkind, Bool.or_true])
    obtain rfl : b' = i := by omega
    exact hbranch hkind

/-- **One branch.**  It ends at the first exit behind its label, if the branches below do. -/
theorem branchEnd?_eq_exitBehind {b e : Nat} {later : List Scope}
    (hb : b ∈ s.branchesIn s.brackets o c) (he : s.labelOf? o c b = some e)
    (hkind : s.kindAt e = .colon ∨ s.kindAt e = .semicolon)
    (hbelow : ∀ b' ∈ s.branchesIn s.brackets o c, b < b' → ∃ a ∈ later, a.condition = b')
    (hlater : ∀ a ∈ later, s.labelOf? o c a.condition = some a.opener
      ∧ a.closer = s.exitBehind o c a.opener) :
    s.branchEnd? s.brackets e c later = some (s.exitBehind o c e) := by
  obtain ⟨hbe, _, hout, _⟩ := labelOf?_eq_some hb he
  have hob := (mem_branchesIn_iff.mp hb).1
  have hopens : (s.kindAt e).opens? = none := by
    rcases hkind with hkind | hkind <;> (rw [hkind]; rfl)
  -- an exit behind the label is on the way of the walk, and ends it
  have hexit : ∀ {t : Nat}, t ∈ s.exits o c → e < t →
      t ∈ s.brackets.topLevel (e + 1) c ∧ endsBranch (s.kindAt t) = true := by
    intro t ht het
    obtain ⟨hmem, hleaves, _⟩ := mem_exits_iff.mp ht
    exact ⟨(mem_topLevel_behind hopens (by omega) hout het).mpr hmem,
      by rw [endsBranch_eq, hleaves]; rfl⟩
  unfold branchEnd?
  cases hfind : (s.brackets.topLevel (e + 1) c).find? (fun i => endsBranch (s.kindAt i)) with
  | none =>
      rcases s.exitBehind_cases o c e with ⟨hmem, hlt⟩ | ⟨heq, _⟩
      · obtain ⟨hway, hends⟩ := hexit hmem hlt
        exact absurd hends (List.find?_eq_none.mp hfind _ hway)
      · rw [heq]
  | some i =>
      have hway := List.mem_of_find?_eq_some hfind
      have hei : e < i := (topLevel_sorted _ _ _).2 i hway
      have hfirst : ∀ t ∈ s.exits o c, e < t → i ≤ t := by
        intro t ht het
        obtain ⟨htway, htends⟩ := hexit ht het
        exact le_of_find?_eq_some (topLevel_sorted _ _ _).1 hfind htway htends
      dsimp only
      by_cases hbranch : (s.kindAt i).isBranch = true
      · -- the walk runs into a branch, whose label holds no exit
        rw [if_pos hbranch]
        have htop := (mem_topLevel_behind hopens (by omega) hout hei).mp hway
        have hi : i ∈ s.branchesIn s.brackets o c := List.mem_filter.mpr ⟨htop, hbranch⟩
        obtain ⟨a, ha, hcond⟩ := hbelow i hi (by omega)
        obtain ⟨found, hfound⟩ : ∃ found, later.find? (·.condition == i) = some found := by
          rw [← Option.isSome_iff_exists, List.find?_isSome]
          exact ⟨a, ha, by simpa using hcond⟩
        have hcond' : found.condition = i := by simpa using List.find?_some hfound
        obtain ⟨hlabel, hcloser⟩ := hlater found (List.mem_of_find?_eq_some hfound)
        rw [hcond'] at hlabel
        have hlt := (labelOf?_eq_some hi hlabel).1
        rw [hfound, Option.map_some, hcloser]
        refine congrArg some (exitBehind_congr (by omega) fun t ht hbetween => ?_).symm
        have hle := hfirst t ht hbetween.1
        exact (mem_exits_iff.mp ht).2.2 i hi _ hlabel ⟨hle, hbetween.2⟩
      · rw [if_neg hbranch]
        have hi := mem_exits_of_find? hb he hopens hfind hbranch
        exact congrArg some (exitBehind_eq hi hei hfirst).symm

/-- The next branch stands first among those below. -/
theorem nextBranch_of_append {front below : List Nat} {b : Nat}
    (h : s.branchesIn s.brackets o c = front ++ b :: below) :
    s.nextBranch o c b = below.head?.getD c := by
  have hsorted := branchesIn_sorted s o c
  rw [h, List.pairwise_append] at hsorted
  obtain ⟨_, htail, hfront⟩ := hsorted
  have hnone : (front ++ [b]).find? (b < ·) = none := by
    rw [List.find?_eq_none]
    intro x hx hlt
    have hbx : b < x := by simpa using hlt
    rcases List.mem_append.mp hx with hx | hx
    · have := hfront x hx b List.mem_cons_self
      omega
    · rw [List.mem_singleton.mp hx] at hbx
      omega
  unfold nextBranch
  rw [h, ← List.singleton_append, ← List.append_assoc, List.find?_append, hnone, Option.none_or]
  cases below with
  | nil => rfl
  | cons next rest =>
      have hlt := (List.pairwise_cons.mp htail).1 next List.mem_cons_self
      rw [List.find?_cons_of_pos (by simpa using hlt)]
      rfl

/-- **The last branches of a body.**  Each has a scope, from the end of its label to the first exit
behind it, if all of them have plain labels. -/
theorem branchScopes_eq_exitBehind (branches : List Nat)
    (hlabels : ∀ b ∈ branches, s.Labelled o c b) :
    ∀ front : List Nat, s.branchesIn s.brackets o c = front ++ branches →
      (∀ b ∈ branches, ∃ a ∈ s.branchScopes s.brackets c branches, a.condition = b)
        ∧ ∀ a ∈ s.branchScopes s.brackets c branches,
            s.labelOf? o c a.condition = some a.opener
              ∧ a.closer = s.exitBehind o c a.opener := by
  induction branches with
  | nil =>
      intro front _
      exact ⟨fun b hb => absurd hb List.not_mem_nil, fun a ha => absurd ha List.not_mem_nil⟩
  | cons b below ih =>
      intro front hsplit
      obtain ⟨hexists, hlater⟩ := ih (fun b' hb' => hlabels b' (List.mem_cons_of_mem b hb'))
        (front ++ [b]) (by rw [hsplit, List.append_assoc]; rfl)
      have hb : b ∈ s.branchesIn s.brackets o c := by
        rw [hsplit]
        exact List.mem_append_right front List.mem_cons_self
      obtain ⟨e, he, hkind⟩ := hlabels b List.mem_cons_self
      have hbelow : ∀ b' ∈ s.branchesIn s.brackets o c, b < b' →
          ∃ a ∈ s.branchScopes s.brackets c below, a.condition = b' := by
        intro b' hb' hlt
        refine hexists b' ?_
        have hsorted := branchesIn_sorted s o c
        rw [hsplit] at hb' hsorted
        rcases List.mem_append.mp hb' with hb' | hb'
        · have := (List.pairwise_append.mp hsorted).2.2 b' hb' b List.mem_cons_self
          omega
        · rcases List.mem_cons.mp hb' with rfl | hb'
          · exact absurd hlt (Nat.lt_irrefl _)
          · exact hb'
      have hbrace : s.kindAt e ≠ .openBrace := by
        rcases hkind with hkind | hkind <;> (rw [hkind]; decide)
      -- the scope that the step adds
      have hscope : s.branchScope? s.brackets b (below.head?.getD c) c
          (s.branchScopes s.brackets c below) = some ⟨b, e, s.exitBehind o c e⟩ := by
        rw [branchScope?_eq, ← nextBranch_of_append hsplit]
        rw [show s.labelEnd? s.brackets 0
          (s.brackets.topLevel (b + 1) (s.nextBranch o c b)) = some e from he]
        rw [Option.bind_some, if_neg hbrace, branchEnd?_eq_exitBehind hb he hkind hbelow hlater]
        rfl
      simp only [branchScopes, hscope, Option.toList_some, List.mem_append, List.mem_singleton]
      refine ⟨fun x hx => ?_, fun a ha => ?_⟩
      · rcases List.mem_cons.mp hx with rfl | hx
        · exact ⟨_, .inr rfl, rfl⟩
        · obtain ⟨a, ha, hcond⟩ := hexists x hx
          exact ⟨a, .inl ha, hcond⟩
      · rcases ha with ha | rfl
        · exact hlater a ha
        · exact ⟨he, rfl⟩

/-- **Fallthrough.**  Behind two labels of a body the same exit comes first exactly when no exit
stands between the end of the first label and the second branch. -/
theorem exitBehind_eq_iff {b b' e e' : Nat} (hb : b ∈ s.branchesIn s.brackets o c)
    (hb' : b' ∈ s.branchesIn s.brackets o c) (hlt : b < b') (he : s.labelOf? o c b = some e)
    (he' : s.labelOf? o c b' = some e') :
    s.exitBehind o c e = s.exitBehind o c e' ↔ ∀ t ∈ s.exits o c, ¬ (e < t ∧ t < b') := by
  obtain ⟨_, _, _, hnext⟩ := labelOf?_eq_some hb he
  obtain ⟨hbe', hec', _, _⟩ := labelOf?_eq_some hb' he'
  have heb := hnext b' hb' hlt
  constructor
  · intro heq t ht hbetween
    have hle := exitBehind_le ht hbetween.1
    have hgt : e' < s.exitBehind o c e' := lt_exitBehind hec'
    omega
  · intro hnone
    refine exitBehind_congr (by omega) fun t ht hbetween => ?_
    have hout := hnone t ht
    exact (mem_exits_iff.mp ht).2.2 b' hb' e' he' ⟨by omega, hbetween.2⟩

end Branches

/-! ## §4. The scopes of a switch. -/

/-- The scopes of the branches of a body. -/
def branchScopesOf (s : Script) (body : Scope) : List Scope :=
  s.branchScopes s.brackets body.closer (s.branchesIn s.brackets body.opener body.closer)

/-- A switch records its body and then its branches. -/
theorem scopesAt_switch {s : Script} {i : Nat} {body : Scope} (hkind : s.kindAt i = .switchKw)
    (hbody : s.bodyScope? s.brackets i = some body) :
    s.scopesAt s.brackets i = body :: s.branchScopesOf body := by
  unfold scopesAt
  rw [hbody]
  exact if_pos hkind

theorem mem_detectedScopes_of_switch {s : Script} {i : Nat} {body a : Scope}
    (hkind : s.kindAt i = .switchKw) (hbody : s.bodyScope? s.brackets i = some body)
    (ha : a ∈ body :: s.branchScopesOf body) : a ∈ s.detectedScopes := by
  obtain ⟨_, hbrace, hgroup⟩ := bodyScope?_eq_some hbody
  have hopener := (bodyBrace?_eq_some hbrace).1
  have hcloser := Brackets.lt_of_groupEnd? hgroup
  have hsize := groupEnd?_lt_size hgroup
  refine mem_detectedScopes_iff.mpr ⟨i, by omega, by rw [hkind]; rfl, ?_⟩
  rw [scopesAt_switch hkind hbody]
  exact ha

/-- **A branch ends at the first statement behind its label that leaves it.**  Take a switch with a
scope, all of whose labels end in a colon or a semicolon.  Each of its branches has a scope from
the end of its label to the first exit behind it or, if there is none, to the brace of the switch;
and of two branches the first runs into the closer of the second exactly when no exit stands
between the end of its label and the second branch. -/
theorem branch_closes_at_exit {s : Script} {i : Nat} {body : Scope}
    (hkind : s.kindAt i = .switchKw) (hscope : s.scopeTable.scopeOf? i = some body)
    (hlabels : ∀ b ∈ s.branchesIn s.brackets body.opener body.closer,
      s.Labelled body.opener body.closer b) :
    (∀ b ∈ s.branchesIn s.brackets body.opener body.closer,
        ∃ e, s.labelOf? body.opener body.closer b = some e
          ∧ s.scopeTable.scopeOf? b = some ⟨b, e, s.exitBehind body.opener body.closer e⟩)
      ∧ ∀ b ∈ s.branchesIn s.brackets body.opener body.closer,
          ∀ b' ∈ s.branchesIn s.brackets body.opener body.closer, b < b' →
            ∀ e, s.labelOf? body.opener body.closer b = some e →
              ((s.scopeTable.scopeOf? b).map Scope.closer
                  = (s.scopeTable.scopeOf? b').map Scope.closer ↔
                ∀ t ∈ s.exits body.opener body.closer, ¬ (e < t ∧ t < b')) := by
  have hbody := bodyScope?_of_scopeOf? hkind hscope
  obtain ⟨hexists, hscopes⟩ := branchScopes_eq_exitBehind _ hlabels [] rfl
  have htable : ∀ b ∈ s.branchesIn s.brackets body.opener body.closer,
      ∃ e, s.labelOf? body.opener body.closer b = some e
        ∧ s.scopeTable.scopeOf? b = some ⟨b, e, s.exitBehind body.opener body.closer e⟩ := by
    intro b hb
    obtain ⟨a, ha, hcond⟩ := hexists b hb
    obtain ⟨hlabel, hcloser⟩ := hscopes a ha
    rw [hcond] at hlabel
    refine ⟨a.opener, hlabel, ?_⟩
    rw [← hcloser, ← hcond]
    exact scopeOf?_scopeTable_iff.mpr
      ⟨mem_detectedScopes_of_switch hkind hbody (List.mem_cons_of_mem _ ha), rfl⟩
  refine ⟨htable, fun b hb b' hb' hlt e he => ?_⟩
  obtain ⟨e₁, he₁, hscope₁⟩ := htable b hb
  obtain ⟨e', he', hscope'⟩ := htable b' hb'
  obtain rfl : e = e₁ := Option.some.inj (he.symm.trans he₁)
  rw [hscope₁, hscope', Option.map_some, Option.map_some, Option.some.injEq]
  exact exitBehind_eq_iff hb hb' hlt he he'

/-- The first case falls through.  The label of the second holds an `exit`, and its statements a
`return` inside a block; both cases end at the `break` behind the block. -/
theorem branch_closes_at_exit_ternary :
    let s := Script.ofText 4
      "switch ($a) \x7b case 1: case $b ? exit : 2: do \x7b return; \x7d break; \x7d"
    (s.kindAt 0 = .switchKw ∧ s.scopeTable.scopeOf? 0 = some ⟨0, 6, 38⟩
        ∧ ∀ b ∈ s.branchesIn s.brackets 6 38, s.Labelled 6 38 b)
      ∧ (∃ e, s.labelOf? 6 38 13 = some e
          ∧ s.scopeTable.scopeOf? 13 = some ⟨13, e, s.exitBehind 6 38 e⟩)
      ∧ (s.scopeTable.scopeOf? 8).map Scope.closer
          = (s.scopeTable.scopeOf? 13).map Scope.closer := by
  intro s
  obtain ⟨⟨hkind, hscope, hlabels⟩, h8, h13, hlabel, hnone⟩ :
      (s.kindAt 0 = .switchKw ∧ s.scopeTable.scopeOf? 0 = some ⟨0, 6, 38⟩
          ∧ ∀ b ∈ s.branchesIn s.brackets 6 38, s.Labelled 6 38 b)
        ∧ 8 ∈ s.branchesIn s.brackets 6 38 ∧ 13 ∈ s.branchesIn s.brackets 6 38
        ∧ s.labelOf? 6 38 8 = some 11 ∧ ∀ t ∈ s.exits 6 38, ¬ (11 < t ∧ t < 13) := by
    decide +kernel
  obtain ⟨hends, hshared⟩ := branch_closes_at_exit hkind hscope hlabels
  exact ⟨⟨hkind, hscope, hlabels⟩, hends 13 h13,
    (hshared 8 h8 13 h13 (by decide) 11 hlabel).mpr hnone⟩

end Script

end SwitchLayout
