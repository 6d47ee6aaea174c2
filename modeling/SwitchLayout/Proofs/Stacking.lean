/-
  SwitchLayout.Proofs.Stacking
  ────────────────────────────
  **A script below another.**

  Two scripts that are stacked are two windows of their stack.  Detection carries two things from
  one to the other: brackets that are left open, and searches that run on for a brace.  Both end
  where the upper script is a unit (`IsUnit`), whose brackets are closed and whose last token of
  code ends a statement or a body.

    • `groupEnd?_window` — the brackets of a window have partners inside of it,
    • `bodyBrace?_above`, `bodyBrace?_below` — bodies start where they do in the script alone,
    • `detectedScopes_stack` — the scopes are those of the one and then those of the other,
    • `inset_above`, `inset_below` — so both scripts stand in the stack with their scopes.
-/
import SwitchLayout.Proofs.Seams
import SwitchLayout.Proofs.WindowFindings

namespace SwitchLayout

/-! ## §1. Two windows. -/

namespace Script

variable {s s' : Script} {lines i : Nat}

theorem size_stack (s : Script) (lines : Nat) (s' : Script) :
    (s.stack lines s').size = s.size + s'.size := by
  unfold stack
  rw [size_ofTokens]
  simp [size]

theorem tokenAt_above (hi : i < s.size) : (s.stack lines s').tokenAt i = s.tokenAt i := by
  have htokens := tokens_stack s lines s'
  have hlength : i < s.tokens.toList.length := hi
  unfold tokenAt get?
  rw [← Array.getElem?_toList, ← Array.getElem?_toList, htokens, List.getElem?_append_left hlength]

theorem tokenAt_below (hi : i < s'.size) :
    (s.stack lines s').tokenAt (s.size + i) = (s'.tokenAt i).shift s.size lines := by
  have htokens := tokens_stack s lines s'
  have hlength : s.tokens.toList.length ≤ s.size + i := Nat.le_add_right _ _
  have hsub : s.size + i - s.tokens.toList.length = i := Nat.add_sub_cancel_left _ _
  unfold tokenAt get?
  rw [← Array.getElem?_toList, ← Array.getElem?_toList, htokens,
    List.getElem?_append_right hlength, hsub, List.getElem?_map,
    List.getElem?_eq_getElem (show i < s'.tokens.toList.length from hi)]
  rfl

theorem window_above (s : Script) (lines : Nat) (s' : Script) :
    Window s (s.stack lines s') 0 0 where
  within := by
    rw [size_stack]
    omega
  token := fun {i} hi => by rw [Nat.zero_add, tokenAt_above hi, Token.shift_zero]
  apart := fun hm => by cases hm

theorem window_below
    (h : ∀ {m i : Nat}, m + 1 = s.size → i < s'.size →
      (s.stack lines s').lineAt m ≠ (s.stack lines s').lineAt (s.size + i)) :
    Window s' (s.stack lines s') s.size lines where
  within := Nat.le_of_eq (size_stack s lines s').symm
  token := tokenAt_below
  apart := h

end Script

/-! ## §2. Brackets. -/

/-- As long as only brackets behind `n` are open, the pairs in front of `n` stay as they are. -/
theorem BracketScan.step_behind {scan : BracketScan} {t : Token} {n : Nat}
    (hopened : ∀ b ∈ scan.opened, n ≤ b.1) (ht : n ≤ t.position) :
    (∀ b ∈ (scan.step t).opened, n ≤ b.1)
      ∧ ∀ i < n, (scan.step t).partners[i]? = scan.partners[i]? := by
  unfold BracketScan.step
  split
  · refine ⟨fun b hb => ?_, fun _ _ => rfl⟩
    rcases List.mem_cons.mp hb with rfl | hb
    · exact ht
    · exact hopened b hb
  · exact ⟨hopened, fun _ _ => rfl⟩
  · rename_i shape _ _
    split
    · exact ⟨hopened, fun _ _ => rfl⟩
    · rename_i opener shape' outer hdrop
      have hrest : ∀ b ∈ (opener, shape') :: outer, n ≤ b.1 := by
        intro b hb
        rw [← hdrop] at hb
        exact hopened b ((List.dropWhile_suffix _).subset hb)
      have hopener := hrest _ List.mem_cons_self
      refine ⟨fun b hb => hrest b (List.mem_cons_of_mem _ hb), fun i hi => ?_⟩
      show ((scan.partners.insert opener t.position).insert t.position opener)[i]? = _
      rw [getElem?_insert_pair, if_neg (by omega), if_neg (by omega)]

/-- Where all brackets are closed, the pairs in front are all there will be. -/
theorem Script.partners_behind {s : Script} {n m : Nat} (hnm : n ≤ m) (hm : m ≤ s.size)
    (hclosed : (s.scanTo n).opened = []) :
    (∀ b ∈ (s.scanTo m).opened, n ≤ b.1)
      ∧ ∀ i < n, (s.scanTo m).partners[i]? = (s.scanTo n).partners[i]? := by
  induction m, hnm using Nat.le_induction with
  | base =>
      rw [hclosed]
      exact ⟨fun b hb => absurd hb List.not_mem_nil, fun _ _ => rfl⟩
  | succ m hnm ih =>
      obtain ⟨hopened, hpartners⟩ := ih (by omega)
      have hposition : n ≤ (s.tokenAt m).position := by
        rw [Script.position_tokenAt_of_lt hm]
        exact hnm
      obtain ⟨hopened', hpartners'⟩ := BracketScan.step_behind hopened hposition
      rw [Script.scanTo_succ hm]
      exact ⟨hopened', fun i hi => (hpartners' i hi).trans (hpartners i hi)⟩

namespace Window

variable {e s : Script} {offset lines i : Nat}

/-- The pairing passes go side by side, if the one finds nothing open at the window. -/
theorem mirrors_scanTo (hw : Window e s offset lines) (hclosed : (s.scanTo offset).opened = [])
    {n : Nat} (hn : n ≤ e.size) :
    (e.scanTo n).Mirrors (offset + ·) (s.scanTo (offset + n)) := by
  have hwithin := hw.within
  induction n with
  | zero =>
      refine ⟨hclosed, fun i => ?_⟩
      -- what is paired so far lies in front of the window
      have hnone : (s.scanTo offset).partners[offset + i]? = none := by
        cases hpartner : (s.scanTo offset).partners[offset + i]? with
        | none => rfl
        | some j =>
            have hlt := (nests_scan s offset (by omega)).paired_lt _ _ hpartner
            omega
      show (s.scanTo offset).partners[offset + i]? = (∅ : Std.ExtTreeMap Nat Nat)[i]?.map _
      rw [hnone, Std.ExtTreeMap.getElem?_empty]
      rfl
  | succ n ih =>
      rw [Script.scanTo_succ hn, ← Nat.add_assoc, Script.scanTo_succ (by omega), hw.token hn]
      exact BracketScan.mirrors_step (fun _ _ heq => Nat.add_left_cancel heq)
        (Token.kind_shift _ _ _) (Token.position_shift _ _ _) (ih (by omega))

/-- **The brackets of a window have their partners inside of it**, if nothing is open in front of
it and what comes behind pairs none of them. -/
theorem groupEnd?_window (hw : Window e s offset lines) (hclosed : (s.scanTo offset).opened = [])
    (hbehind : s.brackets.partner? (offset + i)
      = (s.scanTo (offset + e.size)).partners[offset + i]?) :
    s.brackets.groupEnd? (offset + i) = (e.brackets.groupEnd? i).map (offset + ·) := by
  refine Brackets.groupEnd?_of_partner? Nat.add_lt_add_iff_left ?_
  rw [hbehind, e.brackets_eq_scanTo]
  exact (hw.mirrors_scanTo hclosed (Nat.le_refl _)).partners i

/-- A window is embedded, once its brackets are paired inside of it. -/
theorem embeds (hw : Window e s offset lines)
    (hgroup : ∀ {i : Nat}, i < e.size →
      s.brackets.groupEnd? (offset + i) = (e.brackets.groupEnd? i).map (offset + ·)) :
    Embeds e s (offset + ·) where
  increasing := fun hij => Nat.add_lt_add_left hij offset
  within := hw.within
  kind := hw.kindAt
  form := fun hi _ => by rw [hw.token hi, Token.bodyForm_shift]
  assignment := fun hi _ => by rw [hw.token hi, Token.text_shift]
  group := hgroup
  between := fun {i k} _ hlo hhi => by
    change offset + i < k at hlo
    change k < offset + (i + 1) at hhi
    omega

end Window

/-- A longer stretch starts with the top level of a shorter one. -/
theorem Brackets.topLevel_append (b : Brackets) {start mid stop : Nat} (h : mid ≤ stop) :
    ∃ rest, b.topLevel start stop = b.topLevel start mid ++ rest := by
  fun_induction b.topLevel start stop with
  | case1 start hlt ih =>
      rw [Brackets.topLevel.eq_def b start mid]
      split
      · obtain ⟨rest, hrest⟩ := ih
        exact ⟨rest, by rw [hrest, List.cons_append]⟩
      · exact ⟨_, rfl⟩
  | case2 start hge =>
      rw [Brackets.topLevel.eq_def b start mid, if_neg (by omega)]
      exact ⟨[], rfl⟩

/-! ## §3. Units. -/

/-- A script that ends what it starts: its opening brackets have partners, and its last token
that is neither layout nor comment, if there is one, is a semicolon or a closing brace. -/
structure Script.IsUnit (s : Script) : Prop where
  paired : ∀ i < s.size, (s.kindAt i).opens?.isSome = true → (s.brackets.partner? i).isSome = true
  ended : ∀ i ∈ s.previous? (!·.isTrivia) s.size 0,
    s.kindAt i = .semicolon ∨ s.kindAt i = .closeBrace

namespace Script

variable {s s' : Script} {lines i : Nat}

/-- The token at `i` is code that ends neither a statement nor a body. -/
structure GoesOn (s : Script) (i : Nat) : Prop where
  lt : i < s.size
  code : (s.kindAt i).isTrivia = false
  noSemicolon : s.kindAt i ≠ .semicolon
  noBrace : s.kindAt i ≠ .closeBrace

theorem goesOn_of_kind {kind : TokenKind} (hi : i < s.size) (hkind : s.kindAt i = kind)
    (h : kind.isTrivia = false ∧ kind ≠ .semicolon ∧ kind ≠ .closeBrace) : s.GoesOn i := by
  subst hkind
  exact ⟨hi, h.1, h.2.1, h.2.2⟩

/-- Nothing is open behind a unit. -/
theorem IsUnit.opened_eq_nil (h : s.IsUnit) : (s.scanTo s.size).opened = [] := by
  by_contra hne
  obtain ⟨b, hb⟩ := List.exists_mem_of_ne_nil _ hne
  have hnests : (s.scanTo s.size).Nests s.kindAt s.size := nests_scan s s.size (Nat.le_refl _)
  have hopens : (s.kindAt b.1).opens?.isSome = true := by
    rw [hnests.opened_kind b hb]
    rfl
  obtain ⟨j, hj⟩ := Option.isSome_iff_exists.mp (h.paired b.1 (hnests.opened_lt b hb) hopens)
  rw [s.brackets_eq_scanTo] at hj
  exact not_paired_of_opened hnests hb hj

/-- Code that goes on is followed by code that does not, and that by none. -/
theorem IsUnit.exists_end (h : s.IsUnit) (hi : s.GoesOn i) :
    ∃ j, i < j ∧ j < s.size ∧ (s.kindAt j = .semicolon ∨ s.kindAt j = .closeBrace)
      ∧ ∀ k, j < k → k < s.size → (s.kindAt k).isTrivia = true := by
  cases hlast : s.previous? (!·.isTrivia) s.size 0 with
  | none =>
      have hsize := hi.lt
      have hnone := (lastIn?_eq_none_iff _ _ _).mp hlast i (Nat.zero_le i) (by omega)
      simp [hi.code] at hnone
  | some j =>
      obtain ⟨_, hj, _, hgreatest⟩ := (lastIn?_eq_some_iff _ _ _ _).mp hlast
      have hsize := hi.lt
      have hend := h.ended j hlast
      refine ⟨j, ?_, by omega, hend, fun k hjk hk => by simpa using hgreatest k hjk (by omega)⟩
      rcases Nat.lt_trichotomy i j with hlt | rfl | hgt
      · exact hlt
      · rcases hend with hend | hend
        · exact absurd hend hi.noSemicolon
        · exact absurd hend hi.noBrace
      · have htrivia := hgreatest i hgt (by omega)
        simp [hi.code] at htrivia

theorem opened_stack (h : s.IsUnit) (lines : Nat) (s' : Script) :
    ((s.stack lines s').scanTo s.size).opened = [] := by
  have hmirror := ((window_above s lines s').mirrors_scanTo rfl (Nat.le_refl s.size)).opened
  rw [h.opened_eq_nil, Nat.zero_add] at hmirror
  exact hmirror

theorem embeds_above (h : s.IsUnit) (lines : Nat) (s' : Script) :
    Embeds s (s.stack lines s') (0 + ·) := by
  refine (window_above s lines s').embeds fun {i} hi => ?_
  refine (window_above s lines s').groupEnd?_window rfl ?_
  rw [brackets_eq_scanTo, Nat.zero_add, Nat.zero_add]
  have hwithin : s.size ≤ (s.stack lines s').size := by
    rw [size_stack]
    exact Nat.le_add_right _ _
  exact (partners_behind hwithin (Nat.le_refl _) (opened_stack h lines s')).2 i hi

theorem embeds_below (h : s.IsUnit) (hw : Window s' (s.stack lines s') s.size lines) :
    Embeds s' (s.stack lines s') (s.size + ·) := by
  refine hw.embeds fun {i} hi => hw.groupEnd?_window (opened_stack h lines s') ?_
  rw [brackets_eq_scanTo, size_stack]
  rfl

/-! ## §4. Bodies. -/

/-- The code behind code of a unit that goes on. -/
theorem significant?_above (h : s.IsUnit) (hi : s.GoesOn i) (lines : Nat) (s' : Script) :
    (s.stack lines s').significant? (0 + i + 1) = (s.significant? (i + 1)).map (0 + ·) := by
  obtain ⟨j, hij, hj, hend, _⟩ := h.exists_end hi
  cases hnext : s.significant? (i + 1) with
  | none =>
      have hnone := (firstIn?_eq_none_iff _ _ _).mp hnext j hij (by omega)
      rcases hend with hend | hend <;> simp [hend, TokenKind.isTrivia] at hnone
  | some x => exact (window_above s lines s').next?_of_some hnext

/-- The kinds at which the search for the brace of a declaration stops. -/
def endsHead : TokenKind → Bool
  | .openBrace | .semicolon | .closeBrace => true
  | _ => false

/-- The search does not go on behind such a token. -/
theorem declarationBrace?_append (b : Brackets) {is : List Nat}
    (h : ∃ i ∈ is, endsHead (s.kindAt i) = true) (rest : List Nat) :
    s.declarationBrace? b (is ++ rest) = s.declarationBrace? b is := by
  induction is with
  | nil =>
      obtain ⟨i, hi, _⟩ := h
      cases hi
  | cons i is ih =>
      have hrest : endsHead (s.kindAt i) = false →
          s.declarationBrace? b (is ++ rest) = s.declarationBrace? b is := by
        intro hhead
        obtain ⟨j, hj, hstop⟩ := h
        rcases List.mem_cons.mp hj with rfl | hj
        · rw [hhead] at hstop
          cases hstop
        · exact ih ⟨j, hj, hstop⟩
      rw [List.cons_append]
      unfold declarationBrace?
      cases hkind : s.kindAt i with
      | openBrace | semicolon | closeParen | closeBracket | closeBrace => rfl
      | _ => rw [hrest (by rw [hkind]; rfl)]

/-- Behind code of a unit that goes on, the search for a brace stops inside the unit. -/
theorem IsUnit.exists_endsHead (h : s.IsUnit) (hi : s.GoesOn i) :
    ∃ x ∈ s.brackets.topLevel (i + 1) s.size, endsHead (s.kindAt x) = true := by
  obtain ⟨j, hij, hj, hend, hlast⟩ := h.exists_end hi
  -- no group ends behind the last token of code
  have hle : ∀ {g k : Nat}, s.brackets.groupEnd? g = some k → k ≤ j := by
    intro g k hgroup
    obtain ⟨shape, _, hcloses⟩ := groupEnd?_shapes hgroup
    by_contra hgt
    have htrivia := hlast k (by omega) (groupEnd?_lt_size hgroup)
    rw [(TokenKind.brackets_of_isTrivia htrivia).2] at hcloses
    cases hcloses
  by_cases hout : s.brackets.IsOutside (i + 1) j
  · refine ⟨j, (mem_topLevel_iff (wellNested_brackets s) _ _ _).mpr ⟨hij, hj, hout⟩, ?_⟩
    rcases hend with hend | hend <;> rw [hend] <;> rfl
  · -- it closes a group of the stretch, whose brace the search meets
    simp only [Brackets.IsOutside, not_forall, Nat.not_lt] at hout
    obtain ⟨g, k, hlo, hgj, hgroup, hjk⟩ := hout
    obtain rfl : k = j := Nat.le_antisymm (hle hgroup) hjk
    refine ⟨g, (mem_topLevel_iff (wellNested_brackets s) _ _ _).mpr ⟨hlo, by omega, ?_⟩, ?_⟩
    · intro g' k' _ hg hgroup'
      by_contra hge
      have hlt := wellNested_brackets s g' k' g k hgroup' hgroup hg (by omega)
      have hback := hle hgroup'
      omega
    · obtain ⟨shape, hopens, hcloses⟩ := groupEnd?_shapes hgroup
      rcases hend with hend | hend
      · rw [hend] at hcloses
        cases hcloses
      · rw [hend] at hcloses
        obtain rfl : BracketShape.curly = shape := Option.some.inj hcloses
        generalize s.kindAt g = kind at hopens
        cases kind <;> first | rfl | cases hopens

theorem declarationBrace?_above (h : s.IsUnit) (hi : s.GoesOn i) (lines : Nat) (s' : Script) :
    (s.stack lines s').declarationBrace? (s.stack lines s').brackets
        ((s.stack lines s').brackets.topLevel (0 + i + 1) (s.stack lines s').size)
      = (s.declarationBrace? s.brackets (s.brackets.topLevel (i + 1) s.size)).map (0 + ·) := by
  have he := embeds_above h lines s'
  obtain ⟨rest, hrest⟩ : ∃ rest,
      (s.stack lines s').brackets.topLevel (0 + i + 1) (s.stack lines s').size
        = (s.stack lines s').brackets.topLevel (0 + i + 1) (0 + s.size) ++ rest :=
    Brackets.topLevel_append _ he.within
  rw [hrest, declarationBrace?_append, he.declarationBrace?_place i (Nat.le_refl _)]
  -- the token that stops the search is on the top level of both
  obtain ⟨x, hx, hstop⟩ := h.exists_endsHead hi
  have hsize := Brackets.mem_topLevel_lt hx
  refine ⟨0 + x, List.mem_of_mem_filter (p := fun k => !((s.stack lines s').kindAt k).isTrivia) ?_,
    by rw [he.kind hsize]; exact hstop⟩
  rw [he.topLevel_place i (Nat.le_refl _)]
  refine List.mem_map_of_mem (List.mem_filter.mpr ⟨hx, ?_⟩)
  generalize s.kindAt x = kind at hstop
  cases kind <;> first | rfl | cases hstop

/-- **A body of a unit** starts where it does in the unit alone. -/
theorem bodyBrace?_above (h : s.IsUnit) (hi : i < s.size) (howns : (s.kindAt i).ownsBody = true)
    (lines : Nat) (s' : Script) :
    (s.stack lines s').bodyBrace? (s.stack lines s').brackets (0 + i)
      = (s.bodyBrace? s.brackets i).map (0 + ·) := by
  have hgoes : s.GoesOn i := by
    refine goesOn_of_kind hi rfl ?_
    generalize s.kindAt i = kind at howns
    revert howns
    cases kind <;> decide
  refine (embeds_above h lines s').bodyBrace?_place hi howns (significant?_above h hgoes lines s')
    (fun {paren close} hparen hgroup => ?_) (declarationBrace?_above h hgoes lines s')
  obtain ⟨shape, hopens, hcloses⟩ := groupEnd?_shapes hgroup
  rw [hparen] at hopens
  obtain rfl : BracketShape.round = shape := Option.some.inj hopens
  have hclose : s.kindAt close = .closeParen := by
    generalize s.kindAt close = kind at hcloses
    cases kind <;> first | rfl | cases hcloses
  exact significant?_above h (goesOn_of_kind (groupEnd?_lt_size hgroup) hclose (by decide)) lines s'

/-- **A body below a unit** starts where it does in its own script. -/
theorem bodyBrace?_below (h : s.IsUnit) (hw : Window s' (s.stack lines s') s.size lines)
    (hi : i < s'.size) (howns : (s'.kindAt i).ownsBody = true) :
    (s.stack lines s').bodyBrace? (s.stack lines s').brackets (s.size + i)
      = (s'.bodyBrace? s'.brackets i).map (s.size + ·) := by
  have hnext : ∀ j, (s.stack lines s').significant? (s.size + j + 1)
      = (s'.significant? (j + 1)).map (s.size + ·) := by
    intro j
    unfold significant?
    rw [size_stack]
    exact hw.next?_window _ (j + 1) (Nat.le_refl _)
  refine (embeds_below h hw).bodyBrace?_place hi howns (hnext i) (fun _ _ => hnext _) ?_
  rw [size_stack]
  exact (embeds_below h hw).declarationBrace?_place i (Nat.le_refl _)

end Script

/-! ## §5. Scopes. -/

/-- What is made of the tokens of some kind of a window, one by one. -/
theorem Window.flatMap_range {e s : Script} {offset lines : Nat} (hw : Window e s offset lines)
    {α : Type} (p : TokenKind → Bool) {f g : Nat → List α} {move : α → α}
    (h : ∀ {i : Nat}, i < e.size → p (e.kindAt i) = true → f (offset + i) = (g i).map move) :
    (((List.range e.size).map (offset + ·)).filter (fun i => p (s.kindAt i))).flatMap f
      = (((List.range e.size).filter (fun i => p (e.kindAt i))).flatMap g).map move := by
  have hfilter : ((List.range e.size).map (offset + ·)).filter (fun i => p (s.kindAt i))
      = ((List.range e.size).filter (fun i => p (e.kindAt i))).map (offset + ·) := by
    rw [List.filter_map]
    refine congrArg (List.map _) (List.filter_congr fun i hi => ?_)
    show p (s.kindAt (offset + i)) = _
    rw [hw.kindAt (List.mem_range.mp hi)]
  rw [hfilter, List.flatMap_map, List.map_flatMap]
  refine List.flatMap_congr fun i hi => ?_
  obtain ⟨hsize, hkind⟩ := List.mem_filter.mp hi
  exact h (List.mem_range.mp hsize) hkind

namespace Script

variable {s s' : Script} {lines : Nat}

/-- The positions of a stack are those of the one and then those of the other. -/
theorem range_stack (s : Script) (lines : Nat) (s' : Script) :
    List.range (s.stack lines s').size
      = (List.range s.size).map (0 + ·) ++ (List.range s'.size).map (s.size + ·) := by
  have hzero : (List.range s.size).map (0 + ·) = List.range s.size := by
    simp only [Nat.zero_add, List.map_id']
  rw [size_stack, List.range_add, hzero]

/-- **The scopes of a stack** are those of the unit and then those of the script below. -/
theorem detectedScopes_stack (h : s.IsUnit) (hw : Window s' (s.stack lines s') s.size lines) :
    (s.stack lines s').detectedScopes
      = s.detectedScopes.map (Scope.move (0 + ·))
        ++ s'.detectedScopes.map (Scope.move (s.size + ·)) := by
  unfold detectedScopes
  dsimp only
  rw [range_stack, List.filter_append, List.flatMap_append]
  refine congr_arg₂ (· ++ ·) ?_ ?_
  -- each window brings in the scopes of its own keywords
  · refine (window_above s lines s').flatMap_range TokenKind.ownsBody fun hi howns => ?_
    exact (embeds_above h lines s').scopesAt_place hi (bodyBrace?_above h hi howns lines s')
  · refine hw.flatMap_range TokenKind.ownsBody fun hi howns => ?_
    exact (embeds_below h hw).scopesAt_place hi (bodyBrace?_below h hw hi howns)

end Script

/-- A window has its scopes, if the other scopes lie in front of it and behind it. -/
theorem Window.inset {e s : Script} {offset lines : Nat} (hw : Window e s offset lines)
    (he : Embeds e s (offset + ·)) {front back : List Scope}
    (hscopes : s.detectedScopes = front ++ (e.detectedScopes.map (Scope.move (offset + ·)) ++ back))
    (hfront : ∀ scope ∈ front, scope.closer < offset)
    (hback : ∀ scope ∈ back, offset + e.size ≤ scope.condition) : Inset e s offset lines := by
  have hmem : ∀ {scope : Scope}, scope ∈ front ∨ scope ∈ back → scope ∈ s.detectedScopes := by
    intro scope hscope
    rw [hscopes, List.mem_append, List.mem_append]
    rcases hscope with hscope | hscope
    · exact .inl hscope
    · exact .inr (.inr hscope)
  -- a scope of the window is found by a position that it starts or ends at
  have hfind : ∀ key : Scope → Nat, (∀ scope, key (scope.move (offset + ·)) = offset + key scope) →
      (∀ scope ∈ s.detectedScopes, scope.condition ≤ key scope ∧ key scope ≤ scope.closer) →
      ∀ {i : Nat}, i < e.size → s.detectedScopes.find? (key · == offset + i)
        = (e.detectedScopes.find? (key · == i)).map (Scope.move (offset + ·)) := by
    intro key hmove hkey i hi
    have hnofront : front.find? (key · == offset + i) = none := by
      refine List.find?_eq_none.mpr fun scope hscope heq => ?_
      have hlt := hfront scope hscope
      have hle := (hkey scope (hmem (.inl hscope))).2
      have hkeyeq : key scope = offset + i := beq_iff_eq.mp heq
      omega
    have hnoback : back.find? (key · == offset + i) = none := by
      refine List.find?_eq_none.mpr fun scope hscope heq => ?_
      have hlt := hback scope hscope
      have hle := (hkey scope (hmem (.inr hscope))).1
      have hkeyeq : key scope = offset + i := beq_iff_eq.mp heq
      omega
    rw [hscopes, List.find?_append, hnofront, Option.none_or, List.find?_append,
      he.find?_place key hmove, hnoback, Option.or_none]
  have hordered : ∀ scope ∈ s.detectedScopes,
      scope.condition ≤ scope.opener ∧ scope.opener ≤ scope.closer := by
    intro scope hscope
    obtain ⟨hco, hoc, _⟩ := Script.ordered_of_mem_detectedScopes hscope
    exact ⟨Nat.le_of_lt hco, Nat.le_of_lt hoc⟩
  refine ⟨hw, ⟨he, fun hi => hi, hfind _ (fun _ => rfl) ?_, hfind _ (fun _ => rfl) hordered,
    hfind _ (fun _ => rfl) ?_⟩⟩
  · intro scope hscope
    exact ⟨Nat.le_refl _, Nat.le_trans (hordered scope hscope).1 (hordered scope hscope).2⟩
  · intro scope hscope
    exact ⟨Nat.le_trans (hordered scope hscope).1 (hordered scope hscope).2, Nat.le_refl _⟩

namespace Script

variable {s s' : Script} {lines : Nat}

/-- **A unit** stands in a stack with its scopes. -/
theorem inset_above (h : s.IsUnit) (hw : Window s' (s.stack lines s') s.size lines) :
    Inset s (s.stack lines s') 0 0 := by
  have hscopes : (s.stack lines s').detectedScopes
      = [] ++ (s.detectedScopes.map (Scope.move (0 + ·))
        ++ s'.detectedScopes.map (Scope.move (s.size + ·))) := detectedScopes_stack h hw
  refine (window_above s lines s').inset (embeds_above h lines s') hscopes
    (fun scope hscope => absurd hscope List.not_mem_nil) ?_
  intro scope hscope
  obtain ⟨scope', _, rfl⟩ := List.mem_map.mp hscope
  show 0 + s.size ≤ s.size + scope'.condition
  omega

/-- **The script below a unit** stands in the stack with its scopes. -/
theorem inset_below (h : s.IsUnit) (hw : Window s' (s.stack lines s') s.size lines) :
    Inset s' (s.stack lines s') s.size lines := by
  have hscopes : (s.stack lines s').detectedScopes
      = s.detectedScopes.map (Scope.move (0 + ·))
        ++ (s'.detectedScopes.map (Scope.move (s.size + ·)) ++ []) := by
    rw [List.append_nil]
    exact detectedScopes_stack h hw
  refine hw.inset (embeds_below h hw) hscopes (fun scope hscope => ?_)
    fun scope hscope => absurd hscope List.not_mem_nil
  obtain ⟨scope', hscope', rfl⟩ := List.mem_map.mp hscope
  obtain ⟨_, _, hsize, _⟩ := ordered_of_mem_detectedScopes hscope'
  show 0 + scope'.closer < s.size
  omega

end Script

end SwitchLayout
