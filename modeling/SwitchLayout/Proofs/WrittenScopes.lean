/-
  SwitchLayout.Proofs.WrittenScopes
  ─────────────────────────────────
  **The scopes of a written switch.**

  The switch owns its braces, each case reaches from its colon to the statement that ends it,
  and the `default` from its colon to the closing brace.  Detection finds just these:

    • `branchesIn_script`, `branches_script` — the branches, as detection and as the rule on
      switches lists them,
    • `detectedScopes_script` — the scopes in the order in which they are recorded,
    • `isOwner_case`, `isOwner_brace` — each case owns its closer, and the brace belongs to the
      switch.
-/
import SwitchLayout.Proofs.Placement

namespace SwitchLayout

open Text

namespace SwitchText

variable {w : SwitchText} {tabWidth n q : Nat}

/-! ## §1. Branches. -/

/-- From the front of balanced pieces to their end no bracket stays open. -/
theorem isOutside_of_pieces {p : Nat} {qs : List Piece} (h : StandsAt w.pieces p qs)
    (hp : p ≤ (w.script tabWidth).size)
    (hqs : Balanced ((qs.map Piece.lexeme).map Lexeme.kind)) :
    (w.script tabWidth).brackets.IsOutside p (p + qs.length) := by
  have hout := Script.isOutside_of_standsAt (standsAt_script tabWidth h) hp hqs
  rw [List.length_map] at hout
  exact hout

/-- No part of a label opens a bracket. -/
theorem opens?_of_isLabelPart {kind : TokenKind} (h : isLabelPart kind = true) :
    kind.opens? = none := by
  cases kind <;> first | rfl | cases h

theorem lt_size_of_piece {p : Nat} {r : Piece} (h : w.pieces[p]? = some r) :
    p < (w.script tabWidth).size :=
  Script.lt_size_of_lexeme (lexeme_of_piece tabWidth h)

namespace CaseAt

variable {x : Case × CaseLayout}

/-- The calls of a case are all that has brackets in it. -/
theorem isOutside_closer (h : w.CaseAt tabWidth n q x) :
    (w.script tabWidth).brackets.IsOutside ((caseScope q x).opener + 1)
      (caseScope q x).closer := by
  have hnewline : (w.script tabWidth).brackets.IsOutside ((caseScope q x).opener + 1)
      ((caseScope q x).opener + 2) := by
    refine isOutside_of_opens fun j hlo hhi => ?_
    obtain rfl : j = (caseScope q x).opener + 1 := by omega
    rw [kindAt_script h.newline_colon]
    rfl
  have hsize : (caseScope q x).opener + 2 ≤ (w.script tabWidth).size :=
    lt_size_of_piece h.newline_colon
  have hcalls := isOutside_of_pieces h.calls hsize (balanced_calls w.two x.1.body)
  rw [length_calls, Nat.add_right_comm] at hcalls
  have hend : (caseScope q x).closer < (w.script tabWidth).size := lt_size_of_piece h.closer
  have hblanks := isOutside_of_pieces h.ends.left
    (Nat.le_of_lt (Nat.lt_of_le_of_lt (Nat.le_add_right _ _) hend)) (balanced_blanks _ _)
  rw [length_blanks_spaces] at hblanks
  exact (hnewline.trans hcalls (by omega)).trans hblanks (Nat.le_add_right _ _)

/-- A case closes what it opens. -/
theorem isOutside_end (h : w.CaseAt tabWidth n q x) :
    (w.script tabWidth).brackets.IsOutside (q + 2) (caseEnd q x + 2) := by
  have hsize : q + 2 < (w.script tabWidth).size := lt_size_of_piece h.stands.head
  have hout := isOutside_of_pieces h.pieces (Nat.le_of_lt hsize) (w.balanced_casePieces x)
  rw [Nat.add_right_comm, w.length_casePieces] at hout
  exact hout

end CaseAt

/-- A branch keyword stands behind the layout of its line. -/
theorem isOutside_keyword {p : Nat} {cs tidy : List Char}
    (h : w.pieces[p]? = some ⟨⟨.whitespace, cs⟩, tidy⟩) :
    (w.script tabWidth).brackets.IsOutside p (p + 1) := by
  refine isOutside_of_opens fun j hlo hhi => ?_
  obtain rfl : j = p := by omega
  rw [kindAt_script h]
  rfl

/-- So the keywords that are still to come stand in no bracket of the switch. -/
theorem isOutside_condition (xs : List (Case × CaseLayout)) :
    ∀ {n q start : Nat}, w.Placed tabWidth n q xs →
      (w.script tabWidth).brackets.IsOutside start (q + 2) →
      ∀ scope ∈ w.scopesFrom q xs,
        (w.script tabWidth).brackets.IsOutside start scope.condition := by
  induction xs with
  | nil =>
      intro n q start h hstart scope hscope
      rw [List.mem_singleton.mp hscope]
      exact hstart.trans (isOutside_keyword (placed_nil h).stands.head) (Nat.le_succ _)
  | cons x xs ih =>
      intro n q start h hstart scope hscope
      obtain ⟨hcase, hrest⟩ := placed_cons h
      rcases List.mem_cons.mp hscope with rfl | hscope
      · exact hstart.trans (isOutside_keyword hcase.stands.head) (Nat.le_succ _)
      · have hlt := caseScope_lt q x
        exact ih hrest (hstart.trans hcase.isOutside_end (by omega)) scope hscope

/-- They stand in front of the brace, -/
theorem condition_lt_braceFrom (w : SwitchText) (xs : List (Case × CaseLayout)) :
    ∀ {q : Nat} {scope : Scope}, scope ∈ w.scopesFrom q xs →
      scope.condition < w.braceFrom q xs := by
  induction xs with
  | nil =>
      intro q scope h
      rw [List.mem_singleton.mp h]
      exact w.lt_braceFrom [] q
  | cons x xs ih =>
      intro q scope h
      rcases List.mem_cons.mp h with rfl | h
      · exact w.lt_braceFrom (x :: xs) q
      · exact ih h

/-- and in their order. -/
theorem sorted_conditions (w : SwitchText) (xs : List (Case × CaseLayout)) :
    ∀ q, ((w.scopesFrom q xs).map Scope.condition).Pairwise (· < ·) := by
  induction xs with
  | nil => intro q; exact List.pairwise_singleton _ _
  | cons x xs ih =>
      intro q
      refine List.pairwise_cons.mpr ⟨fun j hj => ?_, ih (caseEnd q x)⟩
      obtain ⟨scope, hscope, rfl⟩ := List.mem_map.mp hj
      have hle := w.lt_condition xs hscope
      have hlt := caseScope_lt q x
      show q + 3 < scope.condition
      omega

/-- **The branches that detection lists.** -/
theorem branchesIn_script (w : SwitchText) (tabWidth : Nat) :
    (w.script tabWidth).branchesIn (w.script tabWidth).brackets w.scope.opener w.scope.closer
      = (w.scopesFrom w.scope.opener w.cases).map Scope.condition := by
  have hplaced := w.placed_start tabWidth
  have hkinds := (kindAt_of_placed w.cases hplaced).2.2
  refine (Script.branchesIn_sorted _ _ _).eq_of_mem_iff (w.sorted_conditions _ _) fun j => ?_
  rw [Script.mem_branchesIn_iff]
  constructor
  · intro h
    exact (hkinds j h.1 h.2.1).2.mp h.2.2.2
  · intro h
    obtain ⟨scope, hscope, rfl⟩ := List.mem_map.mp h
    have hlo := w.lt_condition w.cases hscope
    have hhi : scope.condition < w.scope.closer := w.condition_lt_braceFrom w.cases hscope
    refine ⟨by omega, hhi, ?_, (hkinds _ (by omega) hhi).2.mpr h⟩
    refine isOutside_condition w.cases hplaced ?_ scope hscope
    refine isOutside_of_opens fun j hlo hhi => ?_
    obtain rfl : j = w.scope.opener + 1 := by omega
    rw [Script.kindAt_of_lexeme hplaced.line.newline]
    rfl

/-! ## §2. The scopes of branches. -/

/-- The first member of a sorted list that passes a test. -/
theorem find?_of_sorted {p : Nat → Bool} {is : List Nat} {e : Nat}
    (hsorted : is.Pairwise (· < ·)) (he : e ∈ is) (hp : p e = true)
    (hbefore : ∀ j ∈ is, j < e → p j = false) : is.find? p = some e := by
  induction is with
  | nil => cases he
  | cons i is ih =>
      obtain ⟨hi, hrest⟩ := List.pairwise_cons.mp hsorted
      rcases List.mem_cons.mp he with rfl | he
      · exact List.find?_cons_of_pos hp
      · have hpi := hbefore i List.mem_cons_self (hi e he)
        rw [List.find?_cons_of_neg (by rw [hpi]; decide)]
        exact ih hrest he fun j hj => hbefore j (List.mem_cons_of_mem _ hj)

/-- A label ends in the first colon behind nothing but layout, words and strings. -/
theorem labelEnd?_of_parts {s : Script} {b : Brackets} {is : List Nat} {o : Nat}
    (hsorted : is.Pairwise (· < ·)) (ho : o ∈ is) (hcolon : s.kindAt o = .colon)
    (hparts : ∀ j ∈ is, j < o → isLabelPart (s.kindAt j) = true) :
    s.labelEnd? b 0 is = some o := by
  induction is with
  | nil => cases ho
  | cons i is ih =>
      obtain ⟨hi, hrest⟩ := List.pairwise_cons.mp hsorted
      unfold Script.labelEnd?
      rcases List.mem_cons.mp ho with rfl | ho
      · rw [hcolon]
        rfl
      · have hpart := hparts i List.mem_cons_self (hi o ho)
        have hgo := ih hrest ho fun j hj => hparts j (List.mem_cons_of_mem _ hj)
        cases hkind : s.kindAt i with
        | whitespace => exact hgo
        | word => exact hgo
        | string => exact hgo
        | _ =>
            rw [hkind] at hpart
            cases hpart

/-- A token in no bracket of the body is at its top level. -/
theorem mem_topLevel {s : Script} {start stop i : Nat} (hlo : start ≤ i) (hhi : i < stop)
    (hout : s.brackets.IsOutside start i) : i ∈ s.brackets.topLevel start stop :=
  (mem_topLevel_iff (wellNested_brackets s) start stop i).mpr ⟨hlo, hhi, hout⟩

/-- A branch whose label is plain reaches from its colon to where its statements end. -/
theorem branchScope?_of_label {s : Script} {branch opener limit brace closer : Nat}
    {later : List Scope} (hlo : branch < opener) (hhi : opener < limit)
    (hcolon : s.kindAt opener = .colon)
    (hlabel : ∀ j, branch < j → j < opener → isLabelPart (s.kindAt j) = true)
    (hend : s.branchEnd? s.brackets opener brace later = some closer) :
    s.branchScope? s.brackets branch limit brace later = some ⟨branch, opener, closer⟩ := by
  have hsorted := topLevel_sorted s.brackets (branch + 1) limit
  have hout : s.brackets.IsOutside (branch + 1) opener :=
    isOutside_of_opens fun j hj hjo => opens?_of_isLabelPart (hlabel j hj hjo)
  have hopener : s.labelEnd? s.brackets 0 (s.brackets.topLevel (branch + 1) limit) = some opener :=
    labelEnd?_of_parts hsorted.1 (mem_topLevel hlo hhi hout) hcolon
      fun j hj hjo => hlabel j (hsorted.2 j hj) hjo
  have hbrace : s.kindAt opener ≠ .openBrace := by
    rw [hcolon]
    decide
  rw [Script.branchScope?_eq, hopener, Option.bind_some, if_neg hbrace, hend]
  rfl

/-- **The scope of a case** is the one that was written, -/
theorem branchScope?_case {x : Case × CaseLayout} {limit brace : Nat} (h : w.CaseAt tabWidth n q x)
    (hlimit : (caseScope q x).opener < limit) (hbrace : (caseScope q x).closer < brace)
    (later : List Scope) :
    (w.script tabWidth).branchScope? (w.script tabWidth).brackets (q + 3) limit brace later
      = some (caseScope q x) := by
  obtain ⟨hqo, hoc, _⟩ := caseScope_lt q x
  -- the first statement that leaves the case
  have hsorted := topLevel_sorted (w.script tabWidth).brackets ((caseScope q x).opener + 1) brace
  have hfind : ((w.script tabWidth).brackets.topLevel ((caseScope q x).opener + 1) brace).find?
      (fun i => Script.endsBranch ((w.script tabWidth).kindAt i)) = some (caseScope q x).closer := by
    refine find?_of_sorted hsorted.1 (mem_topLevel hoc hbrace h.isOutside_closer) ?_
      fun j hj hjc => ?_
    · rw [kindAt_script h.closer]
      cases x.1.terminator <;> rfl
    · exact (not_ends_of_isFiller (h.kindAt_code (hsorted.2 j hj) hjc)).1
  have hkind : ((w.script tabWidth).kindAt (caseScope q x).closer).isBranch = false := by
    rw [kindAt_script h.closer]
    cases x.1.terminator <;> rfl
  have hend : (w.script tabWidth).branchEnd? (w.script tabWidth).brackets (caseScope q x).opener
      brace later = some (caseScope q x).closer := by
    unfold Script.branchEnd?
    rw [hfind]
    dsimp only
    rw [hkind]
    rfl
  exact branchScope?_of_label (by omega) hlimit (kindAt_script h.colon)
    (fun j hj hjo => h.kindAt_label hj hjo) hend

/-- **and so is that of the `default`.** -/
theorem branchScope?_default (h : w.DefaultAt tabWidth n q) (later : List Scope) :
    (w.script tabWidth).branchScope? (w.script tabWidth).brackets (q + 3)
        (w.defaultScope q).closer (w.defaultScope q).closer later
      = some (w.defaultScope q) := by
  have hlt : q + 3 < (w.defaultScope q).opener
      ∧ (w.defaultScope q).opener < (w.defaultScope q).closer := by
    unfold defaultScope
    dsimp only
    omega
  -- no statement leaves the `default`, so that it runs to the brace
  have hfind : ((w.script tabWidth).brackets.topLevel ((w.defaultScope q).opener + 1)
      (w.defaultScope q).closer).find?
        (fun i => Script.endsBranch ((w.script tabWidth).kindAt i)) = none := by
    rw [List.find?_eq_none]
    intro j hj
    have hmem := (mem_topLevel_iff (wellNested_brackets _) _ _ j).mp hj
    rw [(not_ends_of_isFiller (h.kindAt_code hmem.1 hmem.2.1)).1]
    decide
  have hend : (w.script tabWidth).branchEnd? (w.script tabWidth).brackets (w.defaultScope q).opener
      (w.defaultScope q).closer later = some (w.defaultScope q).closer := by
    unfold Script.branchEnd?
    rw [hfind]
  exact branchScope?_of_label hlt.1 hlt.2 (kindAt_script h.colon)
    (fun j hj hjo => h.kindAt_label hj hjo) hend

theorem head?_conditions (w : SwitchText) (q : Nat) (xs : List (Case × CaseLayout)) :
    ((w.scopesFrom q xs).map Scope.condition).head? = some (q + 3) := by
  cases xs <;> rfl

/-- **The scopes of the branches**, the last one first. -/
theorem branchScopes_script (xs : List (Case × CaseLayout)) :
    ∀ {n q : Nat}, w.Placed tabWidth n q xs →
      (w.script tabWidth).branchScopes (w.script tabWidth).brackets (w.braceFrom q xs)
          ((w.scopesFrom q xs).map Scope.condition)
        = (w.scopesFrom q xs).reverse := by
  induction xs with
  | nil =>
      intro n q h
      have hscope := branchScope?_default (placed_nil h) []
      show [] ++ (Script.branchScope? _ _ (q + 3) (w.defaultScope q).closer
        (w.defaultScope q).closer []).toList = [w.defaultScope q]
      rw [hscope]
      rfl
  | cons x xs ih =>
      intro n q h
      obtain ⟨hcase, hrest⟩ := placed_cons h
      have hlater := ih hrest
      have hlt := caseScope_lt q x
      have hbrace := w.lt_braceFrom xs (caseEnd q x)
      have hscope := branchScope?_case hcase (show (caseScope q x).opener < caseEnd q x + 3 by omega)
        (show (caseScope q x).closer < w.braceFrom (caseEnd q x) xs by omega)
        (w.scopesFrom (caseEnd q x) xs).reverse
      show Script.branchScopes _ _ (w.braceFrom (caseEnd q x) xs)
          ((q + 3) :: (w.scopesFrom (caseEnd q x) xs).map Scope.condition)
        = (caseScope q x :: w.scopesFrom (caseEnd q x) xs).reverse
      rw [Script.branchScopes, hlater, w.head?_conditions, Option.getD_some, hscope,
        List.reverse_cons]
      rfl

/-! ## §3. The body. -/

theorem standsAt_switch (w : SwitchText) (tabWidth : Nat) :
    StandsAt (w.script tabWidth).lexemes w.keywordAt
      [.mk .switchKw ['s', 'w', 'i', 't', 'c', 'h'], .mk .whitespace [' '], .mk .openParen ['('],
        .mk .word ['$', 'x'], .mk .closeParen [')'], .mk .whitespace [' '],
        .mk .openBrace ['\x7b'], .newline] := by
  have hhead := w.standsAt_head tabWidth
  rw [List.append_assoc] at hhead
  have hright := hhead.right
  rw [Nat.zero_add] at hright
  exact hright

theorem length_body (w : SwitchText) (xs : List (Case × CaseLayout)) :
    ∀ q, q + 2 + (xs.flatMap w.casePieces ++ (w.defaultPieces
        ++ Piece.blanks (spaces w.pad) (spaces w.pad))).length = w.braceFrom q xs := by
  induction xs with
  | nil =>
      intro q
      rw [List.flatMap_nil, List.nil_append, List.length_append, length_blanks_spaces,
        defaultPieces_eq]
      show _ = (w.defaultScope q).closer
      unfold defaultScope
      simp only [List.length_cons, List.length_append, length_calls]
      omega
  | cons x xs ih =>
      intro q
      have hcase := w.length_casePieces q x
      have hrest := ih (caseEnd q x)
      rw [List.flatMap_cons, List.append_assoc, List.length_append]
      show _ = w.braceFrom (caseEnd q x) xs
      omega

/-- The braces of the switch belong to each other. -/
theorem groupEnd?_scope (w : SwitchText) (tabWidth : Nat) :
    (w.script tabWidth).brackets.groupEnd? w.scope.opener = some w.scope.closer := by
  have hopener : StandsAt (w.script tabWidth).lexemes w.scope.opener [.mk .openBrace ['\x7b'], .newline] :=
    (w.standsAt_switch tabWidth).tail.tail.tail.tail.tail.tail
  have hinner : StandsAt (w.script tabWidth).lexemes (w.scope.opener + 2)
      ((w.cases.flatMap w.casePieces ++ (w.defaultPieces
        ++ Piece.blanks (spaces w.pad) (spaces w.pad))).map Piece.lexeme
          ++ [.mk .closeBrace ['\x7d']]) := by
    have hpieces := standsAt_script tabWidth (w.placed_start tabWidth).pieces
    unfold tailPieces at hpieces
    rw [← List.append_assoc w.defaultPieces, ← List.append_assoc, List.append_cons,
      List.map_append, List.map_append] at hpieces
    exact hpieces.left
  have hbody : StandsAt (w.script tabWidth).lexemes w.scope.opener (.mk .openBrace ['\x7b']
      :: ((.newline :: (w.cases.flatMap w.casePieces ++ (w.defaultPieces
        ++ Piece.blanks (spaces w.pad) (spaces w.pad))).map Piece.lexeme)
          ++ [.mk .closeBrace ['\x7d']])) :=
    .cons hopener.head (.cons hopener.tail.head hinner)
  have hbalanced : Balanced ((.newline :: (w.cases.flatMap w.casePieces ++ (w.defaultPieces
      ++ Piece.blanks (spaces w.pad) (spaces w.pad))).map Piece.lexeme).map Lexeme.kind) := by
    rw [List.map_cons, List.map_append, List.map_append, List.map_append, List.map_append]
    exact .plain rfl rfl ((w.balanced_cases w.cases).append
      (w.balanced_defaultPieces.append (balanced_blanks _ _)))
  have hgroup := Script.groupEnd?_of_standsAt hbody rfl rfl hbalanced
  have hlength := w.length_body w.cases w.scope.opener
  rw [List.length_cons, List.length_map] at hgroup
  rw [hgroup]
  show some _ = some (w.braceFrom w.scope.opener w.cases)
  rw [← hlength]
  congr 1
  omega

theorem significant?_of_layout {s : Script} {i : Nat} {cs : List Char} {l : Lexeme}
    (hspace : s.lexemes[i]? = some ⟨.whitespace, cs⟩) (hl : s.lexemes[i + 1]? = some l)
    (hcode : l.kind.isTrivia = false) : s.significant? i = some (i + 1) := by
  have hsize := Script.lt_size_of_lexeme hl
  unfold Script.significant?
  rw [Script.next?_eq_some_iff]
  refine ⟨Nat.le_succ i, hsize, hsize, ?_, fun j hlo hhi => ?_⟩
  · rw [Script.kindAt_of_lexeme hl, hcode]
    rfl
  · obtain rfl : j = i := by omega
    rw [Script.kindAt_of_lexeme hspace]
    rfl

/-- The parentheses of the `switch` are those around its subject. -/
theorem groupEnd?_parens (w : SwitchText) (tabWidth : Nat) :
    (w.script tabWidth).brackets.groupEnd? (w.keywordAt + 2) = some (w.keywordAt + 4) := by
  have hbehind : StandsAt (w.script tabWidth).lexemes (w.keywordAt + 2) ([_, _, _] ++ [_, _, _]) :=
    (w.standsAt_switch tabWidth).tail.tail
  have hgroup : StandsAt (w.script tabWidth).lexemes (w.keywordAt + 2)
      (.mk .openParen ['('] :: ([.mk .word ['$', 'x']] ++ [.mk .closeParen [')']])) :=
    hbehind.left
  exact Script.groupEnd?_of_standsAt hgroup rfl rfl (.plain rfl rfl .nil)

/-- The brace behind the parentheses of the switch. -/
theorem bodyBrace?_script (w : SwitchText) (tabWidth : Nat) :
    (w.script tabWidth).bodyBrace? (w.script tabWidth).brackets w.keywordAt
      = some w.scope.opener := by
  have hstands := w.standsAt_switch tabWidth
  have hform : ((w.script tabWidth).tokenAt w.keywordAt).bodyForm = .afterParens := by
    have hkind := Script.kindAt_of_lexeme hstands.head
    unfold Script.kindAt at hkind
    unfold Token.bodyForm
    rw [hkind]
    rfl
  have hparen : ((w.script tabWidth).significant? (w.keywordAt + 1)).filter
      ((w.script tabWidth).kindAt · = .openParen) = some (w.keywordAt + 2) := by
    have hkind : (w.script tabWidth).kindAt (w.keywordAt + 2) = .openParen :=
      Script.kindAt_of_lexeme hstands.tail.tail.head
    rw [significant?_of_layout hstands.tail.head hstands.tail.tail.head rfl]
    exact Option.filter_some_pos (decide_eq_true hkind)
  have hbrace : (w.script tabWidth).braceAfter? (w.keywordAt + 4) = some (w.keywordAt + 6) := by
    have hkind : (w.script tabWidth).kindAt (w.keywordAt + 6) = .openBrace :=
      Script.kindAt_of_lexeme hstands.tail.tail.tail.tail.tail.tail.head
    unfold Script.braceAfter?
    rw [significant?_of_layout hstands.tail.tail.tail.tail.tail.head
      hstands.tail.tail.tail.tail.tail.tail.head rfl]
    exact Option.filter_some_pos (decide_eq_true hkind)
  unfold Script.bodyBrace?
  rw [hform]
  show Script.braceAfterParens? _ _ _ = _
  unfold Script.braceAfterParens?
  rw [hparen]
  show ((w.script tabWidth).brackets.groupEnd? (w.keywordAt + 2)).bind _ = _
  rw [w.groupEnd?_parens tabWidth]
  exact hbrace

/-- The switch owns the braces behind its parentheses. -/
theorem bodyScope?_script (w : SwitchText) (tabWidth : Nat) :
    (w.script tabWidth).bodyScope? (w.script tabWidth).brackets w.keywordAt = some w.scope := by
  unfold Script.bodyScope?
  rw [w.bodyBrace?_script tabWidth]
  show ((w.script tabWidth).brackets.groupEnd? w.scope.opener).bind _ = _
  rw [w.groupEnd?_scope tabWidth]
  rfl

/-! ## §4. The table. -/

/-- The script ends with the line of the brace. -/
theorem size_script (w : SwitchText) (tabWidth : Nat) :
    (w.script tabWidth).size = w.scope.closer + 2 := by
  have hlexemes : (w.script tabWidth).size = w.pieces.length := by
    have hlength := congrArg List.length (w.lexemes_script tabWidth)
    rw [List.length_map] at hlength
    rw [← hlength]
    unfold Script.lexemes Script.size
    rw [List.length_map, Array.length_toList]
  have hbody := w.length_body w.cases w.scope.opener
  rw [hlexemes]
  show _ = w.braceFrom w.scope.opener w.cases + 2
  rw [← hbody]
  unfold pieces headPieces tailPieces
  simp only [List.length_append, length_blanks_spaces]
  show (Lexeme.indentation w.pad).length + 8 + _ + _ + (_ + 2) = w.keywordAt + 6 + 2 + _ + 2
  unfold keywordAt
  omega

/-- The keyword of the switch is the only one that owns a body. -/
theorem ownsBody_iff (w : SwitchText) (tabWidth : Nat) {j : Nat}
    (hj : j < (w.script tabWidth).size) :
    ((w.script tabWidth).kindAt j).ownsBody = true ↔ j = w.keywordAt := by
  have hstands := w.standsAt_switch tabWidth
  have hplaced := w.placed_start tabWidth
  obtain ⟨hbrace, hnewline, hkinds⟩ := kindAt_of_placed w.cases hplaced
  have hsize := w.size_script tabWidth
  have hopener : w.scope.opener = w.keywordAt + 6 := rfl
  by_cases hkeyword : j = w.keywordAt
  · rw [hkeyword, Script.kindAt_of_lexeme hstands.head]
    simp [TokenKind.ownsBody]
  · -- in front of the keyword, in the head of the switch, in its body, or at its end
    have hnone : ((w.script tabWidth).kindAt j).ownsBody = false := by
      rcases Nat.lt_or_ge j w.keywordAt with hlt | hge
      · refine Script.kindAt_of_standsAt (P := (TokenKind.ownsBody · = false))
          (w.standsAt_head tabWidth).left.left (fun l hl => ?_) (Nat.zero_le j)
          (by rw [Nat.zero_add]; exact hlt)
        unfold Lexeme.indentation at hl
        by_cases hpad : w.pad = 0
        · rw [if_pos hpad] at hl
          cases hl
        · rw [if_neg hpad] at hl
          rw [List.mem_singleton.mp hl]
          rfl
      · rcases Nat.lt_or_ge w.scope.opener j with hlt | hle
        · rcases Nat.lt_trichotomy j w.scope.closer with hlt' | heq | hgt
          · exact (hkinds j hlt hlt').1
          · rw [heq]
            exact congrArg TokenKind.ownsBody hbrace
          · obtain rfl : j = w.scope.closer + 1 := by omega
            exact congrArg TokenKind.ownsBody hnewline
        · refine Script.kindAt_of_standsAt (P := (TokenKind.ownsBody · = false))
            hstands.tail (fun l hl => ?_) (show w.keywordAt + 1 ≤ j by omega)
            (show j < w.keywordAt + 1 + 7 by omega)
          revert l
          decide
    rw [hnone]
    simp [hkeyword]

/-- A test that passes no keyword but those that own a body finds the switch alone. -/
theorem filter_range_eq (w : SwitchText) (tabWidth : Nat) {p : Nat → Bool}
    (hp : p w.keywordAt = true)
    (howns : ∀ j, p j = true → ((w.script tabWidth).kindAt j).ownsBody = true) :
    (List.range (w.script tabWidth).size).filter p = [w.keywordAt] := by
  refine (List.pairwise_lt_range.filter _).eq_of_mem_iff (List.pairwise_singleton _ _) fun j => ?_
  rw [List.mem_filter, List.mem_range, List.mem_singleton]
  constructor
  · intro h
    exact (w.ownsBody_iff tabWidth h.1).mp (howns j h.2)
  · intro h
    rw [h]
    exact ⟨Script.lt_size_of_lexeme (w.standsAt_switch tabWidth).head, hp⟩

theorem kindAt_switch (w : SwitchText) (tabWidth : Nat) :
    (w.script tabWidth).kindAt w.keywordAt = .switchKw :=
  Script.kindAt_of_lexeme (w.standsAt_switch tabWidth).head

/-- **The scopes that are found** are those that were written. -/
theorem detectedScopes_script (w : SwitchText) (tabWidth : Nat) :
    (w.script tabWidth).detectedScopes
      = w.scope :: (w.scopesFrom w.scope.opener w.cases).reverse := by
  have hkind := w.kindAt_switch tabWidth
  have hfilter : (List.range (w.script tabWidth).size).filter
      (fun i => ((w.script tabWidth).kindAt i).ownsBody) = [w.keywordAt] :=
    w.filter_range_eq tabWidth (by rw [hkind]; rfl) fun j hj => hj
  unfold Script.detectedScopes
  dsimp only
  rw [hfilter, List.flatMap_singleton]
  unfold Script.scopesAt
  rw [w.bodyScope?_script tabWidth]
  dsimp only
  rw [if_pos hkind, w.branchesIn_script tabWidth]
  exact congrArg (w.scope :: ·) (branchScopes_script w.cases (w.placed_start tabWidth))

/-- The rule on switches, at the switch. -/
def body (w : SwitchText) (tabWidth : Nat) : SwitchBody :=
  ⟨w.script tabWidth, (w.script tabWidth).scopeTable, w.scope, w.indent⟩

@[simp] theorem script_body (w : SwitchText) (tabWidth : Nat) :
    (w.body tabWidth).script = w.script tabWidth := rfl

@[simp] theorem table_body (w : SwitchText) (tabWidth : Nat) :
    (w.body tabWidth).table = (w.script tabWidth).scopeTable := rfl

@[simp] theorem scope_body (w : SwitchText) (tabWidth : Nat) :
    (w.body tabWidth).scope = w.scope := rfl

/-- **The branches that the rule lists.** -/
theorem branches_script (w : SwitchText) (tabWidth : Nat) :
    (w.body tabWidth).branches = (w.scopesFrom w.scope.opener w.cases).map Scope.condition := by
  have hkinds := (kindAt_of_placed w.cases (w.placed_start tabWidth)).2.2
  have hsize : w.scope.closer ≤ (w.script tabWidth).size := by
    rw [w.size_script tabWidth]
    omega
  have hsorted := ((w.body tabWidth).branchesFrom_spec (w.scope.opener + 1)).1
  refine hsorted.eq_of_mem_iff (w.sorted_conditions _ _) fun j => ?_
  refine (SwitchBody.mem_branches_iff hsize).trans ⟨fun h => ?_, fun h => ?_⟩
  · exact (hkinds j h.1 h.2.1).2.mp h.2.2.1
  · obtain ⟨scope, hscope, hcondition⟩ := List.mem_map.mp h
    have hlo := w.lt_condition w.cases hscope
    have hhi : scope.condition < w.scope.closer := w.condition_lt_braceFrom w.cases hscope
    rw [hcondition] at hlo hhi
    refine ⟨by omega, hhi, (hkinds j (by omega) hhi).2.mpr h, ?_⟩
    -- no switch stands inside that could hide it
    rintro ⟨i, c, hoi, hij, hswitch, _⟩
    have howns := (hkinds i hoi (Nat.lt_trans hij hhi)).1
    have hkind : (w.script tabWidth).kindAt i = .switchKw := hswitch
    rw [hkind] at howns
    cases howns

/-- Every scope of a branch is in the table. -/
theorem scopeOf?_branch {scope : Scope} (h : scope ∈ w.scopesFrom w.scope.opener w.cases) :
    (w.script tabWidth).scopeTable.scopeOf? scope.condition = some scope := by
  refine Script.scopeOf?_scopeTable_iff.mpr ⟨?_, rfl⟩
  rw [w.detectedScopes_script tabWidth]
  exact List.mem_cons_of_mem _ (List.mem_reverse.mpr h)

theorem scopeOf?_switch (w : SwitchText) (tabWidth : Nat) :
    (w.script tabWidth).scopeTable.scopeOf? w.keywordAt = some w.scope := by
  refine Script.scopeOf?_scopeTable_iff.mpr ⟨?_, rfl⟩
  rw [w.detectedScopes_script tabWidth]
  exact List.mem_cons_self

/-- The closers come in the order of their branches, and the brace last. -/
theorem sorted_closers (w : SwitchText) (xs : List (Case × CaseLayout)) :
    ∀ q, (w.scopesFrom q xs).Pairwise (fun a b => a.closer < b.closer)
      ∧ ∀ scope ∈ w.scopesFrom q xs, q < scope.closer ∧ scope.closer ≤ w.braceFrom q xs := by
  induction xs with
  | nil =>
      intro q
      refine ⟨List.pairwise_singleton _ _, fun scope hscope => ?_⟩
      rw [List.mem_singleton.mp hscope]
      have hlt := w.lt_braceFrom [] q
      exact ⟨by have : q + 3 < (w.defaultScope q).closer := hlt; omega, Nat.le_refl _⟩
  | cons x xs ih =>
      intro q
      obtain ⟨hsorted, hbounds⟩ := ih (caseEnd q x)
      have hlt := caseScope_lt q x
      have hbrace := w.lt_braceFrom xs (caseEnd q x)
      refine ⟨List.pairwise_cons.mpr ⟨fun scope hscope => ?_, hsorted⟩, fun scope hscope => ?_⟩
      · have hscope' := (hbounds scope hscope).1
        omega
      · show q < scope.closer ∧ scope.closer ≤ w.braceFrom (caseEnd q x) xs
        rcases List.mem_cons.mp hscope with rfl | hscope
        · omega
        · have hscope' := hbounds scope hscope
          omega

/-- No two of them are closed by one token. -/
theorem eq_of_closer_eq {scope scope' : Scope} {q : Nat} {xs : List (Case × CaseLayout)}
    (h : scope ∈ w.scopesFrom q xs) (h' : scope' ∈ w.scopesFrom q xs)
    (heq : scope.closer = scope'.closer) : scope = scope' := by
  have hnodup : ((w.scopesFrom q xs).map Scope.closer).Nodup :=
    List.pairwise_map.mpr ((w.sorted_closers xs q).1.imp Nat.ne_of_lt)
  exact List.inj_on_of_nodup_map hnodup h h' heq

/-- A search finds the one that there is. -/
theorem find?_of_unique {α : Type} {p : α → Bool} {as : List α} {a : α} (ha : a ∈ as)
    (hp : p a = true) (hunique : ∀ b ∈ as, p b = true → b = a) : as.find? p = some a := by
  cases hfind : as.find? p with
  | none => exact absurd hp (List.find?_eq_none.mp hfind a ha)
  | some b =>
      rw [hunique b (List.mem_of_find?_eq_some hfind) (List.find?_some hfind)]

/-- A case owns its closer. -/
theorem isOwner_case {scope : Scope} (h : scope ∈ w.scopesFrom w.scope.opener w.cases)
    (hne : scope.closer ≠ w.scope.closer) :
    (w.script tabWidth).scopeTable.isOwner scope.condition scope.closer = true := by
  have howner := (Script.insertAll_detectedScopes (w.script tabWidth)).2.2.2 scope.closer
  have hfind : (w.scopesFrom w.scope.opener w.cases).reverse.find? (·.closer == scope.closer)
      = some scope := by
    refine find?_of_unique (List.mem_reverse.mpr h) (beq_self_eq_true _) fun scope' h' heq => ?_
    exact eq_of_closer_eq (List.mem_reverse.mp h') h (beq_iff_eq.mp heq)
  rw [w.detectedScopes_script tabWidth, List.find?_cons_of_neg (by simpa using hne.symm), hfind]
    at howner
  unfold ScopeTable.isOwner ScopeTable.ownerOf?
  rw [howner]
  exact beq_self_eq_true _

/-- The brace belongs to the switch. -/
theorem isOwner_brace (w : SwitchText) (tabWidth i : Nat) :
    (w.script tabWidth).scopeTable.isOwner i w.scope.closer = (w.keywordAt == i) := by
  have howner := (Script.insertAll_detectedScopes (w.script tabWidth)).2.2.2 w.scope.closer
  rw [w.detectedScopes_script tabWidth, List.find?_cons_of_pos (by simp)] at howner
  unfold ScopeTable.isOwner ScopeTable.ownerOf?
  rw [howner]
  rfl

end SwitchText

end SwitchLayout
