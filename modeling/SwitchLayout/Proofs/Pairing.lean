/-
  SwitchLayout.Proofs.Pairing
  ───────────────────────────
  **The pairs of a script are a matching without crossings, and complete where one exists.**

  A closing bracket that finds no open one of its shape on top gives up whatever lies above, so
  on a script with mixed-up brackets some stay alone.  The pairs that are made are sound all the
  same, and where the brackets follow the grammar

      S → ε  |  S ( S )  |  S [ S ]  |  S { S }

  none stays alone:

    • `Bracketing` — the grammar, with the two ends of every production that was used,
    • `balanced_of_bracketing` — tokens whose brackets follow the grammar are balanced, whatever
      stands between them,
    • `groupEnd?_of_bracketing` — the two ends of a production are partners,
    • `partner?_matching` — the whole, for every script.
-/
import SwitchLayout.Proofs.Branches

namespace SwitchLayout

/-! ## §1. The grammar of brackets. -/

/-- The token opens or closes a group. -/
def Token.isBracket (t : Token) : Bool :=
  t.kind.opens?.isSome || t.kind.closes?.isSome

/-- The row of brackets follows the grammar, and `pairs` holds the positions of the two ends of
every production, in the order in which the groups end. -/
inductive Bracketing : List Token → List (Nat × Nat) → Prop
  | empty : Bracketing [] []
  /-- One more group behind a row of them. -/
  | group {opener closer : Token} {shape : BracketShape} {front inner : List Token}
      {pairs inside : List (Nat × Nat)} (hopens : opener.kind.opens? = some shape)
      (hcloses : closer.kind.closes? = some shape) (hfront : Bracketing front pairs)
      (hinner : Bracketing inner inside) :
      Bracketing (front ++ opener :: (inner ++ [closer]))
        (pairs ++ inside ++ [(opener.position, closer.position)])

theorem Token.isBracket_eq_false_iff {t : Token} :
    t.isBracket = false ↔ t.kind.opens? = none ∧ t.kind.closes? = none := by
  simp [Token.isBracket]

/-- Tokens without a bracket are balanced. -/
theorem balanced_of_filter_eq_nil {ts : List Token} (h : ts.filter Token.isBracket = []) :
    Balanced (ts.map Token.kind) := by
  refine balanced_of_plain fun kind hkind => ?_
  obtain ⟨t, ht, rfl⟩ := List.mem_map.mp hkind
  have hplain := List.filter_eq_nil_iff.mp h t ht
  exact Token.isBracket_eq_false_iff.mp (Bool.eq_false_iff.mpr hplain)

/-- Where the brackets end in a group, the tokens do, up to tokens that are no brackets. -/
theorem exists_of_filter_group {ts bs cs : List Token} {opener closer : Token}
    (h : ts.filter Token.isBracket = bs ++ opener :: (cs ++ [closer])) :
    ∃ front inner behind, ts = front ++ opener :: (inner ++ closer :: behind)
      ∧ front.filter Token.isBracket = bs ∧ inner.filter Token.isBracket = cs
      ∧ behind.filter Token.isBracket = [] := by
  obtain ⟨front, rest, rfl, hfront, hrest⟩ := List.filter_eq_append_iff.mp h
  obtain ⟨gap, rest, rfl, hgap, -, hrest⟩ := List.filter_eq_cons_iff.mp hrest
  obtain ⟨inner, rest, rfl, hinner, hrest⟩ := List.filter_eq_append_iff.mp hrest
  obtain ⟨gap', behind, rfl, hgap', -, hbehind⟩ := List.filter_eq_cons_iff.mp hrest
  -- what stands between the brackets goes to the part in front of it
  refine ⟨front ++ gap, inner ++ gap', behind, by simp, ?_, ?_, hbehind⟩
  · rw [List.filter_append, hfront, List.filter_eq_nil_iff.mpr hgap, List.append_nil]
  · rw [List.filter_append, hinner, List.filter_eq_nil_iff.mpr hgap', List.append_nil]

/-- **Tokens whose brackets follow the grammar are balanced.** -/
theorem balanced_of_bracketing {bs : List Token} {pairs : List (Nat × Nat)}
    (h : Bracketing bs pairs) :
    ∀ ts : List Token, ts.filter Token.isBracket = bs → Balanced (ts.map Token.kind) := by
  induction h with
  | empty => exact fun ts hts => balanced_of_filter_eq_nil hts
  | group hopens hcloses _ _ ihfront ihinner =>
      intro ts hts
      obtain ⟨front, inner, behind, rfl, hfront, hinner, hbehind⟩ := exists_of_filter_group hts
      rw [List.map_append, List.map_cons, List.map_append, List.map_cons]
      exact (ihfront front hfront).append
        (.group hopens hcloses (ihinner inner hinner) (balanced_of_filter_eq_nil hbehind))

/-! ## §2. The pairs that the grammar asks for. -/

/-- **The two ends of a production are partners.** -/
theorem groupEnd?_of_bracketing {s : Script} {bs : List Token} {pairs : List (Nat × Nat)}
    (h : Bracketing bs pairs) :
    ∀ before ts after : List Token, s.tokens.toList = before ++ (ts ++ after) →
      ts.filter Token.isBracket = bs →
      ∀ i j, (i, j) ∈ pairs → s.brackets.groupEnd? i = some j := by
  induction h with
  | empty => intro _ _ _ _ _ i j hij; cases hij
  | @group opener closer _ _ _ _ _ hopens hcloses _ hinside ihfront ihinner =>
      intro before ts after hs hts i j hij
      obtain ⟨front, inner, behind, rfl, hfront, hinner, -⟩ := exists_of_filter_group hts
      rcases List.mem_append.mp hij with hij | hij
      · rcases List.mem_append.mp hij with hij | hij
        · exact ihfront before front (opener :: (inner ++ closer :: behind) ++ after)
            (by simpa using hs) hfront i j hij
        · exact ihinner (before ++ front ++ [opener]) inner (closer :: behind ++ after)
            (by simpa using hs) hinner i j hij
      · -- the group itself: what it holds is balanced
        have hopener : s.tokens.toList
            = (before ++ front) ++ opener :: (inner ++ closer :: (behind ++ after)) := by
          simpa using hs
        have hcloser : s.tokens.toList
            = (before ++ front ++ opener :: inner) ++ closer :: (behind ++ after) := by
          simpa using hs
        have hgroup := groupEnd?_of_balanced hopener hopens hcloses
          (balanced_of_bracketing hinside inner hinner)
        obtain ⟨rfl, rfl⟩ := Prod.mk.inj (List.mem_singleton.mp hij)
        rw [position_of_tokens hopener, position_of_tokens hcloser, hgroup]
        simp only [List.length_append, List.length_cons, Nat.add_assoc]

/-- Every bracket is an end of some production. -/
theorem Bracketing.covers {bs : List Token} {pairs : List (Nat × Nat)} (h : Bracketing bs pairs) :
    ∀ t ∈ bs, ∃ j, (t.position, j) ∈ pairs ∨ (j, t.position) ∈ pairs := by
  induction h with
  | empty => intro t ht; cases ht
  | @group opener closer _ _ _ pairs inside _ _ _ _ ihfront ihinner =>
      intro t ht
      simp only [List.mem_append, List.mem_cons, List.not_mem_nil, or_false] at ht ⊢
      -- in front of the group, its opening bracket, inside of it, its closing bracket
      rcases ht with ht | rfl | ht | rfl
      · obtain ⟨j, hj⟩ := ihfront t ht
        exact ⟨j, hj.imp (fun h => .inl (.inl h)) fun h => .inl (.inl h)⟩
      · exact ⟨closer.position, .inl (.inr rfl)⟩
      · obtain ⟨j, hj⟩ := ihinner t ht
        exact ⟨j, hj.imp (fun h => .inl (.inr h)) fun h => .inl (.inr h)⟩
      · exact ⟨opener.position, .inr (.inr rfl)⟩

/-- A bracket is a token of the script, and it knows its position. -/
theorem Script.mem_brackets_of_isBracket {s : Script} {i : Nat}
    (h : (s.tokenAt i).isBracket = true) :
    s.tokenAt i ∈ s.tokens.toList.filter Token.isBracket ∧ (s.tokenAt i).position = i := by
  cases hget : s.get? i with
  | none =>
      have habsent : s.tokenAt i = Script.absent := by rw [Script.tokenAt, hget]; rfl
      rw [habsent] at h
      cases h
  | some t =>
      have ht : s.tokenAt i = t := by rw [Script.tokenAt, hget]; rfl
      rw [ht] at h ⊢
      have hmem : t ∈ s.tokens.toList := List.mem_of_getElem? (i := i) <| by
        rw [Array.getElem?_toList]
        exact hget
      exact ⟨List.mem_filter.mpr ⟨hmem, h⟩, s.position_of_get? hget⟩

/-! ## §3. The matching. -/

/-- **Brackets are matched without crossings, and completely where the grammar allows.**  Partners
name each other; the first of two partners opens what the second closes; no two pairs cross; and
where the brackets of the script follow the grammar, every bracket has for partner the other end
of its production. -/
theorem partner?_matching (s : Script) :
    (∀ i j, s.brackets.partner? i = some j ↔ s.brackets.partner? j = some i)
      ∧ (∀ i j, s.brackets.partner? i = some j → i < j →
          ∃ shape, (s.kindAt i).opens? = some shape ∧ (s.kindAt j).closes? = some shape)
      ∧ (∀ i j k l, s.brackets.partner? i = some j → s.brackets.partner? k = some l →
          i < j → k < l → ¬ (i < k ∧ k < j ∧ j < l))
      ∧ ∀ pairs, Bracketing (s.tokens.toList.filter Token.isBracket) pairs →
          (∀ i j, (i, j) ∈ pairs → i < j
            ∧ s.brackets.partner? i = some j ∧ s.brackets.partner? j = some i)
          ∧ ∀ i, (s.tokenAt i).isBracket = true →
              ∃ j, s.brackets.partner? i = some j ∧ ((i, j) ∈ pairs ∨ (j, i) ∈ pairs) := by
  have hnests := nests_brackets s
  refine ⟨fun i j => ⟨hnests.symm i j, hnests.symm j i⟩, fun i j hij hlt => ?_,
    fun i j k l hij hkl hijlt hkllt hcross => ?_, fun pairs hpairs => ?_⟩
  · exact groupEnd?_shapes (Brackets.groupEnd?_eq_some_iff.mpr ⟨hij, hlt⟩)
  · have hlj := hnests.crossless i j k l hij hijlt hkl hkllt hcross.1 hcross.2.1
    omega
  · have hends : ∀ i j, (i, j) ∈ pairs → i < j
        ∧ s.brackets.partner? i = some j ∧ s.brackets.partner? j = some i := by
      intro i j hij
      have hgroup : s.brackets.groupEnd? i = some j :=
        groupEnd?_of_bracketing hpairs [] s.tokens.toList [] (by simp) rfl i j hij
      obtain ⟨hpartner, hlt⟩ := Brackets.groupEnd?_eq_some_iff.mp hgroup
      exact ⟨hlt, hpartner, hnests.symm i j hpartner⟩
    refine ⟨hends, fun i hi => ?_⟩
    obtain ⟨hmem, hposition⟩ := Script.mem_brackets_of_isBracket hi
    obtain ⟨j, hj⟩ := hpairs.covers _ hmem
    rw [hposition] at hj
    rcases hj with hj | hj
    · exact ⟨j, (hends i j hj).2.1, .inl hj⟩
    · exact ⟨j, (hends j i hj).2.2, .inr hj⟩

/-- Groups of all three shapes, side by side and within each other. -/
theorem partner?_matching_shapes :
    let s := Script.ofText 4 "f([a], \x7b$b\x7d)"
    Bracketing (s.tokens.toList.filter Token.isBracket) [(2, 4), (7, 9), (1, 10)]
      ∧ (∃ j, s.brackets.partner? 4 = some j
          ∧ ((4, j) ∈ [(2, 4), (7, 9), (1, 10)] ∨ (j, 4) ∈ [(2, 4), (7, 9), (1, 10)]))
      ∧ s.brackets.partner? 1 = some 10 := by
  intro s
  have hrow : s.tokens.toList.filter Token.isBracket
      = [] ++ s.tokenAt 1 :: ([] ++ s.tokenAt 2 :: ([] ++ [s.tokenAt 4])
          ++ s.tokenAt 7 :: ([] ++ [s.tokenAt 9]) ++ [s.tokenAt 10]) := by
    decide +kernel
  have hgroups : Bracketing (s.tokens.toList.filter Token.isBracket) [(2, 4), (7, 9), (1, 10)] := by
    have hpairs : [(2, 4), (7, 9), (1, 10)]
        = [] ++ ([] ++ [] ++ [((s.tokenAt 2).position, (s.tokenAt 4).position)] ++ []
            ++ [((s.tokenAt 7).position, (s.tokenAt 9).position)])
          ++ [((s.tokenAt 1).position, (s.tokenAt 10).position)] := by
      decide +kernel
    obtain ⟨ho, hc, ho', hc', ho'', hc''⟩ :
        (s.tokenAt 1).kind.opens? = some .round ∧ (s.tokenAt 10).kind.closes? = some .round
          ∧ (s.tokenAt 2).kind.opens? = some .square ∧ (s.tokenAt 4).kind.closes? = some .square
          ∧ (s.tokenAt 7).kind.opens? = some .curly
          ∧ (s.tokenAt 9).kind.closes? = some .curly := by
      decide +kernel
    rw [hrow, hpairs]
    exact .group ho hc .empty (.group ho'' hc'' (.group ho' hc' .empty .empty) .empty)
  have hmatching := (partner?_matching s).2.2.2 _ hgroups
  exact ⟨hgroups, hmatching.2 4 (by decide +kernel), (hmatching.1 1 10 (by simp)).2.1⟩

/-- A closing bracket gives up what was opened behind its partner. -/
example : let b := (Script.ofText 4 "([)]").brackets
    b.partner? 0 = some 2 ∧ b.partner? 1 = none ∧ b.partner? 3 = none := by
  decide +kernel

end SwitchLayout
