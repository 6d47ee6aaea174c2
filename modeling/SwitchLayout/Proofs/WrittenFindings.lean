/-
  SwitchLayout.Proofs.WrittenFindings
  ───────────────────────────────────
  **What the rules find in a written switch.**

  A written switch takes its liberties in four places, and the rule on switches has one finding
  for each of them: the letter case of a keyword, the blanks behind a `case`, the blanks in front
  of a colon, and the depth of the statement that ends a case.  Each comes with an edit.

    • `casingFindings_eq`, `caseSpacingFindings_eq`, `openerFindings_eq`, `breakIndentFindings_eq`
      — the four findings with their edits,
    • `findings_body` — and there is nothing else to find for the rule on switches,
    • `scopeEnd_check` — and where the depths are right the rule on closers has nothing to say.
-/
import SwitchLayout.Proofs.WrittenScopes
import SwitchLayout.Proofs.Fixes

namespace SwitchLayout

open Text

namespace SwitchText

variable {w : SwitchText} {tabWidth n q : Nat} {x : Case × CaseLayout}

/-! ## §1. Columns. -/

theorem leads_switch (w : SwitchText) (tabWidth : Nat) :
    (w.script tabWidth).Leads 1 w.pad w.keywordAt := by
  have hline : StandsAt (w.script tabWidth).lexemes 0
      (Lexeme.indentation w.pad ++ [.mk .switchKw ['s', 'w', 'i', 't', 'c', 'h']]) := by
    have hhead := (w.standsAt_head tabWidth).left
    rw [List.append_cons] at hhead
    exact hhead.left
  have hleads := Script.leads_of_line (w.located_script tabWidth) rfl (Or.inl rfl) hline
    (by decide)
  rw [Nat.zero_add] at hleads
  exact hleads

theorem caseColumn_body (w : SwitchText) (tabWidth : Nat) :
    (w.body tabWidth).caseColumn = w.one + 1 := by
  show (w.script tabWidth).columnAt w.keywordAt + w.indent = w.one + 1
  rw [(w.leads_switch tabWidth).column]
  unfold one
  omega

theorem breakColumn_body (w : SwitchText) (tabWidth : Nat) :
    (w.body tabWidth).breakColumn = w.two + 1 := by
  unfold SwitchBody.breakColumn
  rw [w.caseColumn_body tabWidth]
  show w.one + 1 + w.indent = w.two + 1
  unfold one two
  omega

/-! ## §2. Labels. -/

theorem text_tokenAt (tabWidth : Nat) {p : Nat} {r : Piece} (h : w.pieces[p]? = some r) :
    ((w.script tabWidth).tokenAt p).text = String.ofList r.lexeme.chars := by
  have hchars := Script.chars_of_lexeme (lexeme_of_piece tabWidth h)
  rw [← hchars]
  exact String.ofList_toList.symm

theorem lowercase_keyword {p : Nat} {kind : TokenKind} {keyword letters tidy : List Char}
    (h : w.pieces[p]? = some ⟨⟨kind, keyword⟩, tidy⟩) (hkind : kind.isBranch = true)
    (hkeyword : lowerAscii keyword = letters) : Text.lowercase keyword = letters := by
  obtain ⟨t, hget, hlexeme, _⟩ := Script.get?_of_lexeme (lexeme_of_piece 0 h)
  have hkind' : t.kind = kind := congrArg Lexeme.kind hlexeme
  have hchars : t.chars = keyword := congrArg Lexeme.chars hlexeme
  have hlower := Script.lowercase_of_branch (w.read_text 0) hget (by rw [hkind']; exact hkind)
  rw [hchars, hkeyword] at hlower
  exact hlower

/-- The letter case of a branch keyword. -/
theorem casingFindings_eq {p : Nat} {kind : TokenKind} {keyword letters : List Char}
    (branch : Branch) (h : w.pieces[p]? = some ⟨⟨kind, keyword⟩, letters⟩)
    (hkind : kind.isBranch = true) (hkeyword : lowerAscii keyword = letters) :
    (w.body tabWidth).casingFindings branch p
      = if keyword = letters then []
        else [(w.body tabWidth).report
          (.notLower branch (String.ofList letters) (String.ofList keyword)) p
          (some (.replace ((w.script tabWidth).tokenAt p) (String.ofList letters)))] := by
  have hchars := Script.chars_of_lexeme (lexeme_of_piece tabWidth h)
  have htext := text_tokenAt tabWidth h
  unfold SwitchBody.casingFindings
  dsimp only
  rw [script_body, hchars, htext,
    lowercase_keyword h hkind hkeyword]
  by_cases heq : keyword = letters
  · rw [if_pos heq, if_pos (congrArg String.ofList heq)]
  · rw [if_neg heq, if_neg (fun hof => heq (String.ofList_injective hof))]

/-- The blanks behind a `case`. -/
theorem caseSpacingFindings_eq (h : w.CaseAt tabWidth n q x) :
    (w.body tabWidth).caseSpacingFindings (q + 3)
      = if x.2.gap = [' '] then []
        else [(w.body tabWidth).report .spacingAfterCase (q + 3)
          (some (.replace ((w.script tabWidth).tokenAt (q + 4)) " "))] := by
  obtain ⟨t, hget, hlexeme, htoken⟩ := Script.get?_of_lexeme (lexeme_of_piece tabWidth h.gap)
  have hkind : t.kind = .whitespace := congrArg Lexeme.kind hlexeme
  have htext : t.text = String.ofList x.2.gap := by
    have := text_tokenAt tabWidth h.gap
    rwa [htoken] at this
  have hfix : (w.body tabWidth).caseSpacingFix? (q + 3)
      = if x.2.gap = [' '] then none else some (.replace t " ") := by
    unfold SwitchBody.caseSpacingFix?
    rw [show (w.body tabWidth).script.get? (q + 3 + 1) = some t from hget]
    dsimp only
    rw [if_pos hkind, htext]
    by_cases hgap : x.2.gap = [' ']
    · rw [if_pos hgap, if_pos (by rw [hgap])]
    · have hne : String.ofList x.2.gap ≠ " " := by
        intro heq
        exact hgap (String.ofList_injective (heq.trans (rfl : " " = String.ofList [' '])))
      rw [if_neg hgap, if_neg hne]
  unfold SwitchBody.caseSpacingFindings
  rw [hfix, htoken]
  by_cases hgap : x.2.gap = [' ']
  · rw [if_pos hgap, if_pos hgap]
  · rw [if_neg hgap, if_neg hgap]

/-- The blanks between the end of a label at `m` and its colon. -/
theorem openerFindings_eq {branch : Branch} {scope : Scope} {i m : Nat} {cs : List Char}
    (hfirst : SwitchBody.firstSpaceless branch i ≤ m + 1)
    (hlabel : (w.script tabWidth).kindAt m ≠ .whitespace)
    (hblanks : StandsAt w.pieces (m + 1) (Piece.blanks cs []))
    (hopener : scope.opener = m + 1 + (Piece.blanks cs []).length)
    (hcolon : (w.script tabWidth).kindAt scope.opener = .colon) :
    (w.body tabWidth).openerFindings branch i scope
      = if cs = [] then []
        else [(w.body tabWidth).report (.spaceBeforeColon branch) i
          (some (.replace ((w.script tabWidth).tokenAt (m + 1)) ""))] := by
  have hkind : ((w.script tabWidth).tokenAt scope.opener).kind = .colon := hcolon
  unfold SwitchBody.openerFindings
  dsimp only
  rw [script_body, if_pos hkind]
  by_cases hcs : cs = []
  · -- the label itself stands in front of the colon
    have hbefore : scope.opener - 1 = m := by
      rw [hopener, hcs]
      rfl
    rw [if_pos hcs, hbefore, if_neg (fun h => hlabel h.2)]
  · have hone : Piece.blanks cs [] = [⟨⟨.whitespace, cs⟩, []⟩] := Piece.blanks_of_ne hcs
    have hbefore : scope.opener - 1 = m + 1 := by
      rw [hopener, hone]
      rfl
    have hspace : (w.script tabWidth).kindAt (m + 1) = .whitespace := by
      rw [hone] at hblanks
      exact kindAt_script hblanks.head
    rw [if_neg hcs, hbefore, if_pos ⟨hfirst, hspace⟩]

theorem openerFindings_case (h : w.CaseAt tabWidth n q x) :
    (w.body tabWidth).openerFindings .caseLabel (q + 3) (caseScope q x)
      = if x.2.beforeColon = [] then []
        else [(w.body tabWidth).report (.spaceBeforeColon .caseLabel) (q + 3)
          (some (.replace ((w.script tabWidth).tokenAt (q + 6)) ""))] := by
  refine openerFindings_eq (m := q + 5) (Nat.le_succ _) ?_ h.beforeColon rfl
    (kindAt_script h.colon)
  rw [kindAt_script h.label]
  cases x.1.label <;> exact fun hkind => by cases hkind

theorem openerFindings_default (h : w.DefaultAt tabWidth n q) :
    (w.body tabWidth).openerFindings .defaultLabel (q + 3) (w.defaultScope q)
      = if w.defaultLayout.beforeColon = [] then []
        else [(w.body tabWidth).report (.spaceBeforeColon .defaultLabel) (q + 3)
          (some (.replace ((w.script tabWidth).tokenAt (q + 4)) ""))] := by
  refine openerFindings_eq (m := q + 3) (Nat.le_refl _) ?_ h.beforeColon rfl
    (kindAt_script h.colon)
  rw [kindAt_script h.keyword]
  exact fun hkind => by cases hkind

/-! ## §3. The end of a case. -/

/-- The depth of the statement that ends a case. -/
theorem indentFix?_case (h : w.CaseAt tabWidth n q x) (hdepth : x.2.depth ≠ w.two) :
    (w.body tabWidth).indentFix? (caseScope q x).closer (w.two + 1)
      = some (if x.2.depth < w.two then
          .insertBefore (caseScope q x).closer (String.ofList (spaces (w.two - x.2.depth)))
        else .trimStart ((caseScope q x).closer - 1) (x.2.depth - w.two)) := by
  have hleads := h.leads_closer
  unfold SwitchBody.indentFix?
  rw [script_body, hleads.starts, if_neg (by simp)]
  dsimp only
  rw [hleads.column]
  by_cases hlt : x.2.depth < w.two
  · rw [if_pos hlt, if_pos (by omega), show w.two + 1 - (x.2.depth + 1) = w.two - x.2.depth by omega]
    rfl
  · -- the spaces in front are there to be trimmed
    have hspaces := h.indent (show 0 < x.2.depth by omega)
    have hkind : ((w.script tabWidth).tokenAt ((caseScope q x).closer - 1)).kind = .whitespace :=
      kindAt_script hspaces
    have hchars := Script.chars_of_lexeme (lexeme_of_piece tabWidth hspaces)
    have hposition := Script.position_tokenAt (lexeme_of_piece tabWidth hspaces)
    have hzero : (caseScope q x).closer ≠ 0 := by
      have hlt := caseScope_lt q x
      omega
    have htrim : x.2.depth + 1 - (w.two + 1) = x.2.depth - w.two := by omega
    rw [if_neg hlt, if_neg (by omega), if_neg hzero, hposition, hchars, htrim, if_pos]
    refine ⟨hkind, ?_, ?_⟩
    · show x.2.depth - w.two ≤ (List.replicate x.2.depth ' ').length
      rw [List.length_replicate]
      omega
    · rw [List.all_eq_true]
      intro c hc
      rw [List.eq_of_mem_replicate hc]
      rfl

theorem breakIndentFindings_eq (h : w.CaseAt tabWidth n q x) :
    (w.body tabWidth).breakIndentFindings (caseScope q x).closer
      = if x.2.depth = w.two then []
        else [(w.body tabWidth).report (.breakIndent w.indent) (caseScope q x).closer
          (some (if x.2.depth < w.two then
              .insertBefore (caseScope q x).closer (String.ofList (spaces (w.two - x.2.depth)))
            else .trimStart ((caseScope q x).closer - 1) (x.2.depth - w.two)))] := by
  have hcolumn : (w.body tabWidth).script.columnAt (caseScope q x).closer = x.2.depth + 1 :=
    h.leads_closer.column
  unfold SwitchBody.breakIndentFindings
  rw [hcolumn, w.breakColumn_body tabWidth]
  by_cases hdepth : x.2.depth = w.two
  · rw [if_pos hdepth, if_pos (by omega)]
  · rw [if_neg hdepth, if_neg (by omega), indentFix?_case h hdepth]
    rfl

/-- Layout alone stands between the code of a case and the statement that ends it. -/
theorem kindAt_indent (h : w.CaseAt tabWidth n q x) {j : Nat}
    (hlo : (caseScope q x).opener + 6 * x.1.body.length < j) (hhi : j < (caseScope q x).closer) :
    (w.script tabWidth).kindAt j = .whitespace :=
  kindAt_layout h.line_code h.ends.left hlo hhi

/-- The code in front of the statement that ends a case stands on the line above. -/
theorem contentLineBefore_case (h : w.CaseAt tabWidth n q x) (hq : w.keywordAt < q) :
    (w.body tabWidth).contentLineBefore (caseScope q x).closer + 1
      = (w.script tabWidth).lineAt (caseScope q x).closer := by
  have hlt := caseScope_lt q x
  have hsize : (caseScope q x).closer < (w.script tabWidth).size := lt_size_of_piece h.closer
  have hprevious := h.line_code.previous?_eq
    (show w.scope.condition + 1 ≤ (caseScope q x).opener + 6 * x.1.body.length by
      unfold scope; dsimp only; omega)
    (show _ < (caseScope q x).closer by unfold caseScope; dsimp only; omega)
    (Nat.le_of_lt hsize) (fun j hlo hhi => kindAt_indent h hlo hhi)
  unfold SwitchBody.contentLineBefore
  rw [script_body, scope_body, hprevious]
  dsimp only
  rw [h.line_code.endLineAt_mark (w.located_script tabWidth), h.leads_closer.line]

/-- The semicolon of the statement that ends a case is the first one behind its keyword. -/
theorem next?_semicolon (h : w.CaseAt tabWidth n q x) {stop : Nat} (hstop : caseEnd q x < stop) :
    (w.script tabWidth).next? (· = .semicolon) (caseScope q x).closer stop
      = some (caseEnd q x) := by
  obtain ⟨front, hrest, _, hfront⟩ := restPieces_eq x.1.terminator
  have hstands := h.rest.left
  rw [hrest] at hstands
  have hend : caseEnd q x = (caseScope q x).closer + 1 + front.length := by
    unfold caseEnd
    rw [hrest, List.length_append, List.length_singleton]
    omega
  have hsemicolon : w.pieces[caseEnd q x]? = some (.kept .semicolon [';']) := by
    rw [hend]
    exact hstands.right.head
  rw [Script.next?_eq_some_iff]
  refine ⟨by omega, hstop, lt_size_of_piece hsemicolon, ?_, fun j hlo hhi => ?_⟩
  · rw [kindAt_script hsemicolon]
    rfl
  · rcases Nat.eq_or_lt_of_le hlo with rfl | hlt
    · rw [kindAt_script h.closer]
      cases x.1.terminator <;> rfl
    · refine kindAt_of_pieces (P := fun k => decide (k = .semicolon) = false) hstands.left
        (fun p hp => ?_) hlt (by omega)
      rcases hfront p hp with hkind | hkind <;> (rw [hkind]; rfl)

/-- The first code behind the end of a line and the spaces of the next. -/
theorem next?_behind_line {p stop : Nat} (hnewline : (w.script tabWidth).kindAt (p + 1) = .whitespace)
    (hspace : (w.script tabWidth).kindAt (p + 2) = .whitespace)
    (hcode : (w.script tabWidth).kindAt (p + 3) ≠ .whitespace) (hstop : p + 3 < stop)
    (hsize : stop ≤ (w.script tabWidth).size) :
    (w.script tabWidth).next? (· ≠ .whitespace) (p + 1) stop = some (p + 3) := by
  rw [Script.next?_eq_some_iff]
  refine ⟨by omega, hstop, by omega, decide_eq_true hcode, fun j hlo hhi => ?_⟩
  obtain rfl | rfl : j = p + 1 ∨ j = p + 2 := by omega
  · rw [hnewline]
    rfl
  · rw [hspace]
    rfl

/-- What follows the line of a case or of the switch: layout and a branch keyword. -/
theorem kindAt_below {xs : List (Case × CaseLayout)} (h : w.Placed tabWidth n q xs) :
    (w.script tabWidth).kindAt (q + 1) = .whitespace
      ∧ (w.script tabWidth).kindAt (q + 2) = .whitespace
      ∧ ((w.script tabWidth).kindAt (q + 3)).isBranch = true := by
  refine ⟨Script.kindAt_of_lexeme h.line.newline, ?_⟩
  cases xs with
  | nil =>
      have hdefault := placed_nil h
      refine ⟨kindAt_script hdefault.stands.head, ?_⟩
      rw [kindAt_script hdefault.keyword]
      rfl
  | cons x xs =>
      have hcase := (placed_cons h).1
      refine ⟨kindAt_script hcase.stands.head, ?_⟩
      rw [kindAt_script hcase.keyword]
      rfl

/-- No second `break` follows. -/
theorem secondBreak?_case {xs : List (Case × CaseLayout)} (h : w.CaseAt tabWidth n q x)
    (hbelow : w.Placed tabWidth (n + x.1.body.length + 2) (caseEnd q x) xs)
    (hbrace : w.braceFrom (caseEnd q x) xs = w.scope.closer) :
    (w.body tabWidth).secondBreak? (caseScope q x).closer = none := by
  have hlt := w.lt_braceFrom xs (caseEnd q x)
  rw [hbrace] at hlt
  have hsize := w.size_script tabWidth
  obtain ⟨hnewline, hspace, hbranch⟩ := kindAt_below hbelow
  have hkind : ∀ kind : TokenKind, kind.isBranch = false →
      (w.script tabWidth).kindAt (caseEnd q x + 3) ≠ kind := by
    intro kind hno heq
    rw [heq, hno] at hbranch
    cases hbranch
  have hnext := next?_behind_line hnewline hspace (hkind .whitespace rfl) hlt (by omega)
  unfold SwitchBody.secondBreak?
  rw [script_body, scope_body, next?_semicolon h (show caseEnd q x < w.scope.closer by omega)]
  show ((w.script tabWidth).next? (· ≠ .whitespace) (caseEnd q x + 1) w.scope.closer).bind _ = none
  rw [hnext]
  exact if_neg (hkind .breakKw rfl)

/-- The code of a case starts on the line below its label. -/
theorem lineAt_firstContent (h : w.CaseAt tabWidth n q x) :
    (w.script tabWidth).lineAt ((w.body tabWidth).firstContent (caseScope q x))
      = (w.script tabWidth).lineAt (q + 3) + 1 := by
  have hsize : (caseScope q x).closer < (w.script tabWidth).size := lt_size_of_piece h.closer
  rw [h.leads_keyword.line]
  unfold SwitchBody.firstContent
  rw [script_body]
  cases hbody : x.1.body with
  | nil =>
      -- the statement that ends the case is all its code
      have hzero : x.1.body.length = 0 := by rw [hbody]; rfl
      have hnone : (w.script tabWidth).next? (· ≠ .whitespace) ((caseScope q x).opener + 1)
          (caseScope q x).closer = none := by
        unfold Script.next?
        rw [firstIn?_eq_none_iff]
        intro j hlo hhi
        rw [kindAt_indent h (by omega) (by omega)]
        rfl
      rw [hnone, Option.getD_none, h.leads_closer.line, hzero]
  | cons f fs =>
      have hcalls := h.calls
      rw [hbody, List.flatMap_cons] at hcalls
      have hcall : StandsAt w.pieces ((caseScope q x).opener + 2) (_ :: _ :: _) := hcalls.left
      have hleads : (w.script tabWidth).Leads (n + 1) w.two ((caseScope q x).opener + 3) :=
        leads_of_spaces w.two_pos h.line_colon hcall (fun hkind => by cases hkind)
      have hlength : x.1.body.length = fs.length + 1 := by rw [hbody]; rfl
      have hlt : (caseScope q x).opener + 3 < (caseScope q x).closer := by
        unfold caseScope
        dsimp only
        omega
      have hnext := next?_behind_line (kindAt_script h.newline_colon) (kindAt_script hcall.head)
        (by rw [kindAt_script hcall.tail.head]; exact fun hkind => by cases hkind) hlt
        (Nat.le_of_lt hsize)
      rw [hnext, Option.getD_some, hleads.line]

/-! ## §4. The findings of the rule on switches. -/

theorem reportIf_false {b : SwitchBody} {v : Violation} {i : Nat} {found : Bool}
    (h : found = false) : b.reportIf found v i = [] := by
  unfold SwitchBody.reportIf
  rw [h]
  rfl

/-- A branch keyword stands in its column. -/
theorem reportIf_column {branch : Branch} {i line : Nat}
    (h : (w.script tabWidth).Leads line w.one i) :
    (w.body tabWidth).reportIf
        ((w.body tabWidth).script.columnAt i != (w.body tabWidth).caseColumn)
        (.branchIndent branch (w.body tabWidth).indent) i = [] := by
  refine reportIf_false ?_
  rw [w.caseColumn_body tabWidth, script_body, h.column]
  exact bne_self_eq_false _

/-- What is found at the end of a case is the depth of the statement there. -/
theorem caseEndFindings_eq {xs : List (Case × CaseLayout)} (h : w.CaseAt tabWidth n q x)
    (hbelow : w.Placed tabWidth (n + x.1.body.length + 2) (caseEnd q x) xs)
    (hbrace : w.braceFrom (caseEnd q x) xs = w.scope.closer) (hq : w.keywordAt < q)
    (hmem : caseScope q x ∈ w.scopesFrom w.scope.opener w.cases) :
    (w.body tabWidth).caseEndFindings (q + 3) (caseScope q x)
      = (w.body tabWidth).breakIndentFindings (caseScope q x).closer := by
  have hlt := w.lt_braceFrom xs (caseEnd q x)
  have hce := caseScope_lt q x
  have howner : (w.script tabWidth).scopeTable.isOwner (q + 3) (caseScope q x).closer = true :=
    isOwner_case hmem (show (caseScope q x).closer ≠ w.scope.closer by omega)
  have hkind : ((w.script tabWidth).kindAt (caseScope q x).closer).isTerminator = true := by
    rw [kindAt_script h.closer]
    exact isTerminator_kind x.1.terminator
  have hcontent := contentLineBefore_case h hq
  have hfirst := lineAt_firstContent h
  unfold SwitchBody.caseEndFindings
  dsimp only
  rw [script_body, table_body, hkind, howner, Bool.and_self, if_pos rfl, secondBreak?_case h hbelow hbrace,
    reportIf_false (bne_eq_false_iff_eq.mpr hcontent),
    reportIf_false (bne_eq_false_iff_eq.mpr hfirst)]
  simp

/-- The next case ends behind this one. -/
theorem fallthroughFindings_eq {xs : List (Case × CaseLayout)} {next : Option Nat}
    (hnext : ∀ j ∈ next, j ∈ (w.scopesFrom (caseEnd q x) xs).map Scope.condition)
    (hsub : ∀ scope ∈ w.scopesFrom (caseEnd q x) xs,
      scope ∈ w.scopesFrom w.scope.opener w.cases) :
    (w.body tabWidth).fallthroughFindings (q + 3) (caseScope q x) next = [] := by
  cases next with
  | none => rfl
  | some j =>
      obtain ⟨scope, hscope, rfl⟩ := List.mem_map.mp (hnext j rfl)
      have hbehind := (w.sorted_closers xs (caseEnd q x)).2 scope hscope
      have hlt := caseScope_lt q x
      refine reportIf_false ?_
      have hshares : (w.body tabWidth).sharesCloser (caseScope q x) scope.condition = false := by
        unfold SwitchBody.sharesCloser
        rw [table_body, scopeOf?_branch (hsub scope hscope)]
        show (some scope.closer == some (caseScope q x).closer) = false
        refine beq_eq_false_iff_ne.mpr fun heq => ?_
        have := Option.some.inj heq
        omega
      rw [hshares]
      rfl

/-- The findings on the cases whose lines follow the code at `q`, and on the `default`. -/
def findingsFrom (w : SwitchText) (tabWidth : Nat) :
    Nat → List (Case × CaseLayout) → List Finding
  | q, [] => (w.body tabWidth).casingFindings .defaultLabel (q + 3)
      ++ (w.body tabWidth).openerFindings .defaultLabel (q + 3) (w.defaultScope q)
  | q, x :: xs => (w.body tabWidth).casingFindings .caseLabel (q + 3)
      ++ (w.body tabWidth).caseSpacingFindings (q + 3)
      ++ (w.body tabWidth).openerFindings .caseLabel (q + 3) (caseScope q x)
      ++ (w.body tabWidth).breakIndentFindings (caseScope q x).closer
      ++ w.findingsFrom tabWidth (caseEnd q x) xs

theorem caseFindings_eq {xs : List (Case × CaseLayout)} {next : Option Nat}
    (h : w.CaseAt tabWidth n q x)
    (hbelow : w.Placed tabWidth (n + x.1.body.length + 2) (caseEnd q x) xs)
    (hbrace : w.braceFrom (caseEnd q x) xs = w.scope.closer) (hq : w.keywordAt < q)
    (hsub : ∀ scope ∈ w.scopesFrom q (x :: xs), scope ∈ w.scopesFrom w.scope.opener w.cases)
    (hnext : ∀ j ∈ next, j ∈ (w.scopesFrom (caseEnd q x) xs).map Scope.condition) :
    (w.body tabWidth).caseFindings (q + 3) next
      = (w.body tabWidth).casingFindings .caseLabel (q + 3)
        ++ (w.body tabWidth).caseSpacingFindings (q + 3)
        ++ (w.body tabWidth).openerFindings .caseLabel (q + 3) (caseScope q x)
        ++ (w.body tabWidth).breakIndentFindings (caseScope q x).closer := by
  have hmem := hsub _ List.mem_cons_self
  have hscope : (w.body tabWidth).table.scopeOf? (q + 3) = some (caseScope q x) :=
    scopeOf?_branch hmem
  unfold SwitchBody.caseFindings SwitchBody.labelFindings
  rw [reportIf_column h.leads_keyword, if_pos rfl, hscope]
  dsimp only
  rw [caseEndFindings_eq h hbelow hbrace hq hmem,
    fallthroughFindings_eq hnext fun scope hscope => hsub scope (List.mem_cons_of_mem _ hscope)]
  simp

theorem defaultFindings_eq (h : w.DefaultAt tabWidth n q)
    (hbrace : (w.defaultScope q).closer = w.scope.closer)
    (hmem : w.defaultScope q ∈ w.scopesFrom w.scope.opener w.cases) :
    (w.body tabWidth).defaultFindings (q + 3)
      = (w.body tabWidth).casingFindings .defaultLabel (q + 3)
        ++ (w.body tabWidth).openerFindings .defaultLabel (q + 3) (w.defaultScope q) := by
  have hscope : (w.script tabWidth).scopeTable.scopeOf? (q + 3) = some (w.defaultScope q) :=
    scopeOf?_branch hmem
  have hkind : (w.script tabWidth).kindAt (w.defaultScope q).closer = .closeBrace :=
    kindAt_script h.brace
  have hend : (w.body tabWidth).defaultEndFindings (q + 3) (w.defaultScope q) = [] := by
    unfold SwitchBody.defaultEndFindings
    dsimp only
    rw [script_body, scope_body, hkind, if_neg (by decide), hbrace]
    refine reportIf_false ?_
    rw [bne_self_eq_false, Bool.false_and, Bool.false_and]
  unfold SwitchBody.defaultFindings SwitchBody.labelFindings
  rw [reportIf_column h.leads_keyword, if_neg (by decide), table_body, hscope]
  dsimp only
  rw [hend]
  simp

/-- **The findings on the branches.** -/
theorem branchFindings_eq (xs : List (Case × CaseLayout)) :
    ∀ {n q : Nat}, w.Placed tabWidth n q xs → w.keywordAt < q →
      w.braceFrom q xs = w.scope.closer →
      (∀ scope ∈ w.scopesFrom q xs, scope ∈ w.scopesFrom w.scope.opener w.cases) →
      (w.body tabWidth).branchFindings false ((w.scopesFrom q xs).map Scope.condition)
        = w.findingsFrom tabWidth q xs := by
  induction xs with
  | nil =>
      intro n q h hq hbrace hsub
      have hdefault := placed_nil h
      have hkeyword : (w.body tabWidth).isDefault (q + 3) = true := by
        unfold SwitchBody.isDefault
        rw [script_body, kindAt_script hdefault.keyword]
        rfl
      have hfindings := defaultFindings_eq hdefault hbrace (hsub _ List.mem_cons_self)
      show (w.body tabWidth).branchFindings false [q + 3] = _
      unfold SwitchBody.branchFindings
      rw [if_pos hkeyword, reportIf_false rfl, hfindings]
      simp [SwitchBody.branchFindings, findingsFrom]
  | cons x xs ih =>
      intro n q h hq hbrace hsub
      obtain ⟨hcase, hrest⟩ := placed_cons h
      have hlt := caseScope_lt q x
      have hkeyword : (w.body tabWidth).isDefault (q + 3) = false := by
        unfold SwitchBody.isDefault
        rw [script_body, kindAt_script hcase.keyword]
        rfl
      have hbelow := ih hrest (by omega) hbrace
        fun scope hscope => hsub scope (List.mem_cons_of_mem _ hscope)
      have hnext : ∀ j ∈ ((w.scopesFrom (caseEnd q x) xs).map Scope.condition).find?
          (fun i => (w.script tabWidth).kindAt i == .caseKw),
          j ∈ (w.scopesFrom (caseEnd q x) xs).map Scope.condition :=
        fun j hj => List.mem_of_find?_eq_some hj
      have hfindings := caseFindings_eq hcase hrest hbrace hq hsub hnext
      show (w.body tabWidth).branchFindings false
        ((q + 3) :: (w.scopesFrom (caseEnd q x) xs).map Scope.condition) = _
      unfold SwitchBody.branchFindings
      rw [hkeyword, if_neg Bool.false_ne_true, hbelow, script_body, hfindings]
      rfl

theorem any_isDefault (xs : List (Case × CaseLayout)) :
    ∀ {n q : Nat}, w.Placed tabWidth n q xs →
      ((w.scopesFrom q xs).map Scope.condition).any (w.body tabWidth).isDefault = true := by
  induction xs with
  | nil =>
      intro n q h
      show [q + 3].any (w.body tabWidth).isDefault = true
      rw [List.any_cons]
      unfold SwitchBody.isDefault
      rw [script_body, kindAt_script (placed_nil h).keyword]
      rfl
  | cons x xs ih =>
      intro n q h
      have hbelow := ih (placed_cons h).2
      show ((q + 3) :: (w.scopesFrom (caseEnd q x) xs).map Scope.condition).any _ = true
      rw [List.any_cons, hbelow, Bool.or_true]

/-- The brace comes first on its line, in the column of the switch, and the code above it ends
on the line above. -/
theorem leads_brace (xs : List (Case × CaseLayout)) :
    ∀ {n q : Nat}, w.Placed tabWidth n q xs →
      ∃ line mark, (w.script tabWidth).Leads line w.pad (w.braceFrom q xs)
        ∧ (w.script tabWidth).LineFrom tabWidth line mark ∧ q < mark
        ∧ mark < w.braceFrom q xs
        ∧ ∀ j, mark < j → j < w.braceFrom q xs → (w.script tabWidth).kindAt j = .whitespace := by
  induction xs with
  | nil =>
      intro n q h
      have hdefault := placed_nil h
      have hlt : q < (w.defaultScope q).opener + 6 * w.defaultBody.length
          ∧ (w.defaultScope q).opener + 6 * w.defaultBody.length < (w.defaultScope q).closer := by
        unfold defaultScope
        dsimp only
        omega
      exact ⟨_, _, hdefault.leads_brace, hdefault.line_code, hlt.1, hlt.2,
        fun j hlo hhi => kindAt_layout hdefault.line_code hdefault.tail.left hlo hhi⟩
  | cons x xs ih =>
      intro n q h
      obtain ⟨line, mark, hleads, hline, hlo, hrest⟩ := ih (placed_cons h).2
      have hlt := caseScope_lt q x
      exact ⟨line, mark, hleads, hline, by omega, hrest⟩

/-- **The findings on the switch.** -/
theorem findings_body (w : SwitchText) (tabWidth : Nat) :
    (w.body tabWidth).findings = w.findingsFrom tabWidth w.scope.opener w.cases := by
  have hplaced := w.placed_start tabWidth
  have hbranches := branchFindings_eq w.cases hplaced (show w.keywordAt < w.keywordAt + 6 by omega)
    rfl fun _ hscope => hscope
  have hany := any_isDefault w.cases hplaced
  have hall : ((w.scopesFrom w.scope.opener w.cases).map Scope.condition).all
      (w.body tabWidth).isDefault = false := by
    obtain ⟨x, xs, hcases⟩ := List.exists_cons_of_ne_nil w.cases_ne
    rw [hcases] at hplaced ⊢
    show ((w.scope.opener + 3) :: _).all _ = false
    rw [List.all_cons]
    unfold SwitchBody.isDefault
    rw [script_body, kindAt_script (placed_cons hplaced).1.keyword]
    rfl
  obtain ⟨line, mark, hleads, _⟩ := leads_brace w.cases hplaced
  have hcolumn : (w.script tabWidth).columnAt w.scope.closer
      = (w.script tabWidth).columnAt w.scope.condition :=
    hleads.column.trans (w.leads_switch tabWidth).column.symm
  unfold SwitchBody.findings
  dsimp only
  rw [w.branches_script tabWidth, hbranches, script_body, scope_body,
    reportIf_false (by rw [hany]; rfl), reportIf_false (bne_eq_false_iff_eq.mpr hcolumn),
    reportIf_false hall]
  simp

/-! ## §5. The findings of the rule on closers. -/

/-- A scope of the walk is that of a case, or that of the `default`. -/
theorem placed_of_mem (xs : List (Case × CaseLayout)) :
    ∀ {n q : Nat} {scope : Scope}, w.Placed tabWidth n q xs → scope ∈ w.scopesFrom q xs →
      (∃ n q x, x ∈ xs ∧ w.CaseAt tabWidth n q x ∧ scope = caseScope q x)
        ∨ scope.closer = w.braceFrom q xs := by
  induction xs with
  | nil =>
      intro n q scope _ hscope
      rw [List.mem_singleton.mp hscope]
      exact Or.inr rfl
  | cons x xs ih =>
      intro n q scope h hscope
      obtain ⟨hcase, hrest⟩ := placed_cons h
      rcases List.mem_cons.mp hscope with rfl | hscope
      · exact Or.inl ⟨n, q, x, List.mem_cons_self, hcase, rfl⟩
      · rcases ih hrest hscope with ⟨n', q', x', hmem, hfound⟩ | hbrace
        · exact Or.inl ⟨n', q', x', List.mem_cons_of_mem _ hmem, hfound⟩
        · exact Or.inr hbrace

theorem startColumn_of_leads {s : Script} {line depth i : Nat} (h : s.Leads line depth i) :
    ScopeEnd.startColumn s i = depth + 1 := by
  unfold ScopeEnd.startColumn
  rw [h.starts, Option.getD_some, h.column]

/-- A case whose closing statement stands at its depth. -/
theorem violation?_case (h : w.CaseAt tabWidth n q x) (hdepth : x.2.depth = w.two) :
    ScopeEnd.violation? (w.script tabWidth) w.indent (caseScope q x) = none := by
  have hsize : (caseScope q x).closer < (w.script tabWidth).size := lt_size_of_piece h.closer
  have hprevious := h.line_code.previous?_eq
    (show (caseScope q x).opener ≤ (caseScope q x).opener + 6 * x.1.body.length by omega)
    (show _ < (caseScope q x).closer by unfold caseScope; dsimp only; omega)
    (Nat.le_of_lt hsize) (fun j hlo hhi => kindAt_indent h hlo hhi)
  have hline := h.line_code.endLineAt_mark (w.located_script tabWidth)
  have hkind : ((w.script tabWidth).kindAt (q + 3)).isBranch = true := by
    rw [kindAt_script h.keyword]
    rfl
  have hstart : ScopeEnd.startColumn (w.script tabWidth) (caseScope q x).condition = w.one + 1 :=
    startColumn_of_leads h.leads_keyword
  unfold ScopeEnd.violation?
  dsimp only
  rw [hstart]
  unfold ScopeEnd.lastContent
  rw [hprevious, Option.getD_some, h.leads_closer.line, h.leads_closer.column, if_neg (by omega)]
  rw [show (caseScope q x).condition = q + 3 from rfl, hkind, if_pos rfl, if_pos]
  rw [hdepth]
  unfold one two
  omega

theorem violation?_switch (w : SwitchText) (tabWidth : Nat) :
    ScopeEnd.violation? (w.script tabWidth) w.indent w.scope = none := by
  obtain ⟨line, mark, hleads, hline, hlo, hhi, hblank⟩ :=
    leads_brace w.cases (w.placed_start tabWidth)
  have hsize : w.scope.closer ≤ (w.script tabWidth).size := by
    rw [w.size_script tabWidth]
    omega
  have hprevious : (w.script tabWidth).previous? (· ≠ .whitespace) (w.scope.closer - 1)
      w.scope.opener = some mark :=
    hline.previous?_eq (Nat.le_of_lt hlo) hhi hsize hblank
  have habove := hline.endLineAt_mark (w.located_script tabWidth)
  have hkind : (w.script tabWidth).kindAt w.scope.condition = .switchKw :=
    w.kindAt_switch tabWidth
  have hstart : ScopeEnd.startColumn (w.script tabWidth) w.scope.condition = w.pad + 1 :=
    startColumn_of_leads (w.leads_switch tabWidth)
  have hbrace : (w.script tabWidth).lineAt w.scope.closer = line
      ∧ (w.script tabWidth).columnAt w.scope.closer = w.pad + 1 := ⟨hleads.line, hleads.column⟩
  unfold ScopeEnd.violation?
  dsimp only
  rw [hstart, hkind]
  unfold ScopeEnd.lastContent
  rw [hprevious, Option.getD_some, hbrace.1, hbrace.2, if_neg (by omega), if_neg (by decide),
    if_pos rfl]

/-- The scopes of the table. -/
theorem mem_of_scopeOf? {i : Nat} {scope : Scope}
    (h : (w.script tabWidth).scopeTable.scopeOf? i = some scope) :
    scope.condition = i ∧ (scope = w.scope ∨ scope ∈ w.scopesFrom w.scope.opener w.cases) := by
  obtain ⟨hmem, hcondition⟩ := Script.scopeOf?_scopeTable_iff.mp h
  rw [w.detectedScopes_script tabWidth] at hmem
  refine ⟨hcondition, ?_⟩
  rcases List.mem_cons.mp hmem with heq | hmem
  · exact Or.inl heq
  · exact Or.inr (List.mem_reverse.mp hmem)

/-- **Closers.**  Where every case ends at its depth, the rule on closers finds nothing. -/
theorem scopeEnd_check (hdepth : ∀ x ∈ w.cases, x.2.depth = w.two) {settings : Settings}
    (hindent : settings.indent = w.indent) (i : Nat) :
    ScopeEnd.check (w.script tabWidth) (w.script tabWidth).scopeTable settings i = [] := by
  unfold ScopeEnd.check
  cases hscope : (w.script tabWidth).scopeTable.scopeOf? i with
  | none => rfl
  | some scope =>
      dsimp only
      obtain ⟨hcondition, hmem⟩ := mem_of_scopeOf? hscope
      rw [hindent]
      rcases hmem with rfl | hmem
      · rw [w.violation?_switch tabWidth]
        exact ite_self []
      · rcases placed_of_mem w.cases (w.placed_start tabWidth) hmem with
          ⟨n, q, x, hx, hcase, rfl⟩ | hbrace
        · rw [violation?_case hcase (hdepth x hx)]
          exact ite_self []
        · -- the brace belongs to the switch
          have hclose : scope.closer = w.scope.closer := hbrace
          have hlo := w.lt_condition w.cases hmem
          have hne : w.keywordAt ≠ i := by
            have hopener : w.scope.opener = w.keywordAt + 6 := rfl
            omega
          rw [hclose, w.isOwner_brace tabWidth, beq_false_of_ne hne, if_neg Bool.false_ne_true]

end SwitchText

end SwitchLayout
