/-
  SwitchLayout.Proofs.Tidying
  ───────────────────────────
  **Repair restores the canonical layout.**

  Every edit that is proposed for a written switch gives its token the text of the canonical
  layout (`tidies_of_mem`), and every token that has another text is edited (`covers_pieces`).
  So one round turns the text into the canonical one (`repaired_script`), in which there is
  nothing left to find (`flaws_tidy`).

    • `repair_restores_layout` — a repair ends there in at most one round.
-/
import SwitchLayout.Proofs.WrittenFindings
import SwitchLayout.Proofs.Rounds

namespace SwitchLayout

open Text

namespace SwitchText

variable {w : SwitchText} {tabWidth n q : Nat} {x : Case × CaseLayout}

/-! ## §1. The rules. -/

/-- Settings with the indentation of the switch, in which no code is silent. -/
def settings (w : SwitchText) (tabWidth : Nat) : Settings := ⟨w.indent, tabWidth, []⟩

/-- The rule on switches sees the one switch that was written. -/
theorem findings_switchRule (w : SwitchText) (tabWidth : Nat) :
    SwitchBody.rule.findings (w.script tabWidth) (w.script tabWidth).scopeTable
        (w.settings tabWidth)
      = w.findingsFrom tabWidth w.scope.opener w.cases := by
  have hkind := w.kindAt_switch tabWidth
  have hfilter : (List.range (w.script tabWidth).size).filter
      (fun i => SwitchBody.rule.kinds.contains ((w.script tabWidth).kindAt i)) = [w.keywordAt] := by
    refine w.filter_range_eq tabWidth (by rw [hkind]; rfl) fun j hj => ?_
    have hswitch : (w.script tabWidth).kindAt j = .switchKw :=
      List.mem_singleton.mp (List.contains_iff_mem.mp hj)
    rw [hswitch]
    rfl
  unfold Rule.findings
  rw [hfilter, List.flatMap_singleton]
  show SwitchBody.check _ _ _ _ = _
  unfold SwitchBody.check
  rw [w.scopeOf?_switch tabWidth]
  exact w.findings_body tabWidth

/-- A finding on the script is one of the rule on switches or of the rule on closers. -/
theorem mem_findings_iff (w : SwitchText) (tabWidth : Nat) {f : Finding} :
    f ∈ Ruleset.standard.findings (w.script tabWidth) (w.script tabWidth).scopeTable
        (w.settings tabWidth) ↔
      f ∈ w.findingsFrom tabWidth w.scope.opener w.cases
        ∨ f ∈ ScopeEnd.rule.findings (w.script tabWidth) (w.script tabWidth).scopeTable
            (w.settings tabWidth) := by
  unfold Ruleset.findings Ruleset.standard
  rw [List.flatMap_cons, List.flatMap_cons, List.flatMap_nil, List.append_nil, List.mem_append,
    w.findings_switchRule tabWidth]

/-! ## §2. Every edit is one of the canonical layout. -/

theorem position_of_piece (tabWidth : Nat) {p : Nat} {r : Piece} (h : w.pieces[p]? = some r) :
    ((w.script tabWidth).tokenAt p).position = p :=
  Script.position_tokenAt (lexeme_of_piece tabWidth h)

/-- The blanks in front of a colon, where there are any. -/
theorem piece_of_blanks {p : Nat} {cs : List Char} (h : StandsAt w.pieces p (Piece.blanks cs []))
    (hne : cs ≠ []) : w.pieces[p]? = some ⟨⟨.whitespace, cs⟩, []⟩ := by
  rw [Piece.blanks_of_ne hne] at h
  exact h.head

/-- What is found on a case, and on what follows it. -/
theorem mem_findingsFrom_cons {xs : List (Case × CaseLayout)} {f : Finding} :
    f ∈ w.findingsFrom tabWidth q (x :: xs) ↔
      f ∈ (w.body tabWidth).casingFindings .caseLabel (q + 3)
        ∨ f ∈ (w.body tabWidth).caseSpacingFindings (q + 3)
        ∨ f ∈ (w.body tabWidth).openerFindings .caseLabel (q + 3) (caseScope q x)
        ∨ f ∈ (w.body tabWidth).breakIndentFindings (caseScope q x).closer
        ∨ f ∈ w.findingsFrom tabWidth (caseEnd q x) xs := by
  rw [findingsFrom, List.mem_append, List.mem_append, List.mem_append, List.mem_append, or_assoc,
    or_assoc, or_assoc]

/-- The edit fits its token and gives it the text of the canonical layout. -/
def Tidies (w : SwitchText) (tabWidth : Nat) (e : Edit) : Prop :=
  ∃ r, w.pieces[e.position]? = some r
    ∧ e.fits ((w.script tabWidth).tokenAt e.position) = true
    ∧ e.apply ((w.script tabWidth).tokenAt e.position) = r.tidy

/-- Putting the canonical text in the place of a token. -/
theorem tidies_replace {p : Nat} {r : Piece} {text : String} (h : w.pieces[p]? = some r)
    (htext : text.toList = r.tidy) :
    w.Tidies tabWidth (.replace ((w.script tabWidth).tokenAt p) text) := by
  have hposition : (Edit.replace ((w.script tabWidth).tokenAt p) text).position = p :=
    position_of_piece tabWidth h
  unfold Tidies
  rw [hposition]
  refine ⟨r, h, decide_eq_true (Nat.le_refl _), ?_⟩
  unfold Edit.apply Edit.replace
  rw [List.drop_length, List.append_nil, htext]

/-- Moving the statement that ends a case to its depth. -/
theorem tidies_indent (h : w.CaseAt tabWidth n q x) (hdepth : x.2.depth ≠ w.two) :
    w.Tidies tabWidth (if x.2.depth < w.two then
        .insertBefore (caseScope q x).closer (String.ofList (spaces (w.two - x.2.depth)))
      else .trimStart ((caseScope q x).closer - 1) (x.2.depth - w.two)) := by
  by_cases hlt : x.2.depth < w.two
  · rw [if_pos hlt]
    have hchars := Script.chars_of_lexeme (lexeme_of_piece tabWidth h.closer)
    refine ⟨_, h.closer, decide_eq_true (Nat.zero_le _), ?_⟩
    show (String.ofList (spaces (w.two - x.2.depth))).toList
      ++ ((w.script tabWidth).tokenAt (caseScope q x).closer).chars.drop 0 = _
    rw [hchars, String.toList_ofList, List.drop_zero]
  · rw [if_neg hlt]
    have hspaces := h.indent (show 0 < x.2.depth by omega)
    have hchars := Script.chars_of_lexeme (lexeme_of_piece tabWidth hspaces)
    refine ⟨_, hspaces, ?_, ?_⟩
    · refine decide_eq_true ?_
      show x.2.depth - w.two ≤ ((w.script tabWidth).tokenAt ((caseScope q x).closer - 1)).chars.length
      rw [hchars]
      show _ ≤ (List.replicate x.2.depth ' ').length
      rw [List.length_replicate]
      exact Nat.sub_le _ _
    · show [] ++ ((w.script tabWidth).tokenAt ((caseScope q x).closer - 1)).chars.drop
        (x.2.depth - w.two) = _
      rw [hchars, List.nil_append]
      show (List.replicate x.2.depth ' ').drop _ = List.replicate (min x.2.depth w.two) ' '
      rw [List.drop_replicate]
      congr 1
      omega

theorem fix_report {b : SwitchBody} {v : Violation} {i : Nat} {fix : Option Edit} :
    (b.report v i fix).fix = fix := rfl

/-- The edit of a finding that is there unless `c` holds. -/
theorem fix_of_mem_ite {c : Prop} [Decidable c] {b : SwitchBody} {v : Violation} {i : Nat}
    {f : Finding} {e e' : Edit} (h : f ∈ if c then [] else [b.report v i (some e')])
    (he : f.fix = some e) : ¬ c ∧ e = e' := by
  by_cases hc : c
  · rw [if_pos hc] at h
    cases h
  · rw [if_neg hc] at h
    rw [List.mem_singleton.mp h, fix_report] at he
    exact ⟨hc, (Option.some.inj he).symm⟩

/-- **Every edit is one of the canonical layout.** -/
theorem tidies_of_mem (xs : List (Case × CaseLayout)) :
    ∀ {n q : Nat} {f : Finding} {e : Edit}, w.Placed tabWidth n q xs →
      f ∈ w.findingsFrom tabWidth q xs → f.fix = some e → w.Tidies tabWidth e := by
  induction xs with
  | nil =>
      intro n q f e h hf he
      have hdefault := placed_nil h
      rcases List.mem_append.mp hf with hf | hf
      · rw [casingFindings_eq _ hdefault.keyword rfl w.defaultLayout.keyword_eq] at hf
        obtain ⟨_, rfl⟩ := fix_of_mem_ite hf he
        exact tidies_replace hdefault.keyword String.toList_ofList
      · rw [openerFindings_default hdefault] at hf
        obtain ⟨hne, rfl⟩ := fix_of_mem_ite hf he
        exact tidies_replace (piece_of_blanks hdefault.beforeColon hne) rfl
  | cons x xs ih =>
      intro n q f e h hf he
      obtain ⟨hcase, hrest⟩ := placed_cons h
      rcases mem_findingsFrom_cons.mp hf with hf | hf | hf | hf | hf
      · rw [casingFindings_eq _ hcase.keyword rfl x.2.keyword_eq] at hf
        obtain ⟨_, rfl⟩ := fix_of_mem_ite hf he
        exact tidies_replace hcase.keyword String.toList_ofList
      · rw [caseSpacingFindings_eq hcase] at hf
        obtain ⟨_, rfl⟩ := fix_of_mem_ite hf he
        exact tidies_replace hcase.gap rfl
      · rw [openerFindings_case hcase] at hf
        obtain ⟨hne, rfl⟩ := fix_of_mem_ite hf he
        exact tidies_replace (piece_of_blanks hcase.beforeColon hne) rfl
      · rw [breakIndentFindings_eq hcase] at hf
        obtain ⟨hne, rfl⟩ := fix_of_mem_ite hf he
        exact tidies_indent hcase hne
      · exact ih hrest hf he

/-! ## §3. Every token that has another text is edited. -/

/-- The piece at `p` has its canonical text, or one of the findings proposes an edit of it. -/
def Covers (fs : List Finding) (p : Nat) (r : Piece) : Prop :=
  r.lexeme.chars = r.tidy ∨ ∃ f ∈ fs, ∃ e, f.fix = some e ∧ e.position = p

/-- So it is with all the pieces that stand from `p` on. -/
def CoversFrom (fs : List Finding) (p : Nat) (rs : List Piece) : Prop :=
  ∀ k r, rs[k]? = some r → Covers fs (p + k) r

section Covers

variable {fs : List Finding} {p : Nat} {r : Piece} {rs rs' : List Piece}

theorem coversFrom_nil : CoversFrom fs p [] := by
  intro k r hk
  cases hk

theorem coversFrom_cons (hr : Covers fs p r) (hrs : CoversFrom fs (p + 1) rs) :
    CoversFrom fs p (r :: rs) := by
  intro k r' hk
  cases k with
  | zero =>
      cases hk
      exact hr
  | succ k =>
      have hcover := hrs k r' hk
      rw [Nat.add_assoc, Nat.add_comm 1 k] at hcover
      exact hcover

/-- Stretches of pieces are covered one behind the other. -/
theorem coversFrom_append (hrs : CoversFrom fs p rs) (hrs' : CoversFrom fs (p + rs.length) rs') :
    CoversFrom fs p (rs ++ rs') := by
  intro k r hk
  by_cases hlt : k < rs.length
  · rw [List.getElem?_append_left hlt] at hk
    exact hrs k r hk
  · rw [List.getElem?_append_right (by omega)] at hk
    have hcover := hrs' (k - rs.length) r hk
    rw [show p + rs.length + (k - rs.length) = p + k by omega] at hcover
    exact hcover

/-- Pieces that are in canonical layout need no edit. -/
theorem coversFrom_kept (h : ∀ r ∈ rs, r.lexeme.chars = r.tidy) : CoversFrom fs p rs := by
  intro k r hk
  exact Or.inl (h r (List.mem_of_getElem? hk))

/-- A finding that is made unless a condition holds covers a piece that is in
order by the condition. -/
theorem covers_of_mem_ite {c : Prop} [Decidable c] {b : SwitchBody} {v : Violation} {i : Nat}
    {e : Edit} (hfs : ∀ f ∈ (if c then [] else [b.report v i (some e)]), f ∈ fs)
    (hkept : c → r.lexeme.chars = r.tidy) (he : ¬ c → e.position = p) : Covers fs p r := by
  by_cases hc : c
  · exact Or.inl (hkept hc)
  · rw [if_neg hc] at hfs
    exact Or.inr ⟨_, hfs _ List.mem_cons_self, e, rfl, he hc⟩

end Covers

theorem kept_blanks {cs : List Char} {r : Piece} (h : r ∈ Piece.blanks cs cs) :
    r.lexeme.chars = r.tidy := by
  rw [Piece.eq_of_mem_blanks h]

/-- Calls are in canonical layout, -/
theorem kept_calls {depth : Nat} {fs : List Call} {r : Piece}
    (h : r ∈ fs.flatMap (Call.pieces depth)) : r.lexeme.chars = r.tidy := by
  obtain ⟨f, _, hr⟩ := List.mem_flatMap.mp h
  simp only [Call.pieces, List.mem_cons, List.not_mem_nil, or_false] at hr
  rcases hr with rfl | rfl | rfl | rfl | rfl | rfl <;> rfl

/-- and so is the rest of a terminator. -/
theorem kept_rest {k : Terminator} {r : Piece} (h : r ∈ k.restPieces ++ [.newline]) :
    r.lexeme.chars = r.tidy := by
  cases k <;>
    simp only [Terminator.restPieces, List.cons_append, List.nil_append, List.mem_cons,
      List.not_mem_nil, or_false] at h
  · rcases h with rfl | rfl <;> rfl
  · rcases h with rfl | rfl <;> rfl
  · rcases h with rfl | rfl <;> rfl
  · rcases h with rfl | rfl | rfl | rfl <;> rfl

/-- The blanks in front of a colon. -/
theorem coversFrom_beforeColon {fs : List Finding} {p i : Nat} {branch : Branch} {cs : List Char}
    (h : StandsAt w.pieces p (Piece.blanks cs []))
    (hfs : ∀ f ∈ (if cs = [] then [] else [(w.body tabWidth).report (.spaceBeforeColon branch) i
      (some (.replace ((w.script tabWidth).tokenAt p) ""))]), f ∈ fs) :
    CoversFrom fs p (Piece.blanks cs []) := by
  by_cases hcs : cs = []
  · rw [hcs]
    exact coversFrom_nil
  · rw [Piece.blanks_of_ne hcs]
    refine coversFrom_cons ?_ coversFrom_nil
    exact covers_of_mem_ite hfs (fun hnone => absurd hnone hcs)
      fun hne => position_of_piece tabWidth (piece_of_blanks h hne)

/-- The statement that ends a case, by its column. -/
theorem coversFrom_endPieces (h : w.CaseAt tabWidth n q x) {fs : List Finding}
    (hfs : ∀ f ∈ (w.body tabWidth).breakIndentFindings (caseScope q x).closer, f ∈ fs) :
    CoversFrom fs ((caseScope q x).opener + 6 * x.1.body.length + 2) (w.endPieces x) := by
  rw [breakIndentFindings_eq h] at hfs
  unfold endPieces
  refine coversFrom_append ?_ (coversFrom_cons ?_ (coversFrom_kept fun r hr => kept_rest hr))
  · by_cases hdepth : w.two < x.2.depth
    · -- spaces are trimmed
      have hpos : 0 < x.2.depth := by omega
      rw [if_neg (show ¬ x.2.depth = w.two by omega), if_neg (show ¬ x.2.depth < w.two by omega)]
        at hfs
      rw [Piece.blanks_of_ne (spaces_ne_nil hpos)]
      refine coversFrom_cons (Or.inr ⟨_, hfs _ List.mem_cons_self, _, rfl, ?_⟩) coversFrom_nil
      show (caseScope q x).closer - 1 = (caseScope q x).opener + 6 * x.1.body.length + 2
      unfold caseScope
      rw [indentation_pos hpos]
      rfl
    · rw [Nat.min_eq_left (by omega)]
      exact coversFrom_kept fun r hr => kept_blanks hr
  · by_cases hdepth : x.2.depth < w.two
    · -- spaces are put in
      rw [if_neg (show ¬ x.2.depth = w.two by omega), if_pos hdepth] at hfs
      refine Or.inr ⟨_, hfs _ List.mem_cons_self, _, rfl, ?_⟩
      rw [length_blanks_spaces]
      rfl
    · refine Or.inl ?_
      show x.1.terminator.keyword = spaces (w.two - x.2.depth) ++ x.1.terminator.keyword
      rw [Nat.sub_eq_zero_of_le (by omega)]
      rfl

/-- **A case.** -/
theorem coversFrom_casePieces (h : w.CaseAt tabWidth n q x) {fs : List Finding}
    (hcasing : ∀ f ∈ (w.body tabWidth).casingFindings .caseLabel (q + 3), f ∈ fs)
    (hspacing : ∀ f ∈ (w.body tabWidth).caseSpacingFindings (q + 3), f ∈ fs)
    (hopener : ∀ f ∈ (w.body tabWidth).openerFindings .caseLabel (q + 3) (caseScope q x), f ∈ fs)
    (hbreak : ∀ f ∈ (w.body tabWidth).breakIndentFindings (caseScope q x).closer, f ∈ fs) :
    CoversFrom fs (q + 2) (w.casePieces x) := by
  rw [casingFindings_eq _ h.keyword rfl x.2.keyword_eq] at hcasing
  rw [caseSpacingFindings_eq h] at hspacing
  rw [openerFindings_case h] at hopener
  have hend := coversFrom_endPieces h hbreak
  rw [casePieces_eq]
  refine coversFrom_cons (Or.inl rfl) (coversFrom_cons ?_ (coversFrom_cons ?_ (coversFrom_cons
    (Or.inl x.1.label.chars_lexeme) (coversFrom_append ?_ (coversFrom_cons (Or.inl rfl)
      (coversFrom_cons (Or.inl rfl) (coversFrom_append (coversFrom_kept fun r hr => kept_calls hr)
        ?_)))))))
  · exact covers_of_mem_ite hcasing id fun _ => position_of_piece tabWidth h.keyword
  · exact covers_of_mem_ite hspacing id fun _ => position_of_piece tabWidth h.gap
  · exact coversFrom_beforeColon h.beforeColon hopener
  · rw [length_calls]
    rw [Nat.add_right_comm] at hend
    exact hend

/-- **The `default`.** -/
theorem coversFrom_defaultPieces (h : w.DefaultAt tabWidth n q) {fs : List Finding}
    (hcasing : ∀ f ∈ (w.body tabWidth).casingFindings .defaultLabel (q + 3), f ∈ fs)
    (hopener : ∀ f ∈ (w.body tabWidth).openerFindings .defaultLabel (q + 3) (w.defaultScope q),
      f ∈ fs) :
    CoversFrom fs (q + 2) w.defaultPieces := by
  rw [casingFindings_eq _ h.keyword rfl w.defaultLayout.keyword_eq] at hcasing
  rw [openerFindings_default h] at hopener
  rw [defaultPieces_eq]
  refine coversFrom_cons (Or.inl rfl) (coversFrom_cons ?_ (coversFrom_append ?_ (coversFrom_cons
    (Or.inl rfl) (coversFrom_cons (Or.inl rfl) (coversFrom_kept fun r hr => kept_calls hr)))))
  · exact covers_of_mem_ite hcasing id fun _ => position_of_piece tabWidth h.keyword
  · exact coversFrom_beforeColon h.beforeColon hopener

theorem kept_tailPieces {r : Piece} (h : r ∈ w.tailPieces) : r.lexeme.chars = r.tidy := by
  rcases List.mem_append.mp h with h | h
  · exact kept_blanks h
  · simp only [List.mem_cons, List.not_mem_nil, or_false] at h
    rcases h with rfl | rfl <;> rfl

theorem kept_headPieces {r : Piece} (h : r ∈ w.headPieces) : r.lexeme.chars = r.tidy := by
  rcases List.mem_append.mp h with h | h
  · exact kept_blanks h
  · simp only [List.mem_cons, List.not_mem_nil, or_false] at h
    rcases h with rfl | rfl | rfl | rfl | rfl | rfl | rfl | rfl <;> rfl

/-- The pieces of the cases that are still to come, and of what is below them. -/
theorem coversFrom_cases {fs : List Finding} (xs : List (Case × CaseLayout)) :
    ∀ {n q : Nat}, w.Placed tabWidth n q xs → (∀ f ∈ w.findingsFrom tabWidth q xs, f ∈ fs) →
      CoversFrom fs (q + 2) (xs.flatMap w.casePieces ++ (w.defaultPieces ++ w.tailPieces)) := by
  induction xs with
  | nil =>
      intro n q h hfs
      rw [List.flatMap_nil, List.nil_append]
      refine coversFrom_append ?_ (coversFrom_kept fun r hr => kept_tailPieces hr)
      refine coversFrom_defaultPieces (placed_nil h) (fun f hf => hfs f ?_) (fun f hf => hfs f ?_)
      · exact List.mem_append_left _ hf
      · exact List.mem_append_right _ hf
  | cons x xs ih =>
      intro n q h hfs
      obtain ⟨hcase, hrest⟩ := placed_cons h
      have hbelow := ih hrest fun f hf =>
        hfs f (mem_findingsFrom_cons.mpr (.inr (.inr (.inr (.inr hf)))))
      rw [← w.length_casePieces q x, Nat.add_right_comm] at hbelow
      rw [List.flatMap_cons, List.append_assoc]
      refine coversFrom_append ?_ hbelow
      refine coversFrom_casePieces hcase (fun f hf => hfs f (mem_findingsFrom_cons.mpr ?_))
        (fun f hf => hfs f (mem_findingsFrom_cons.mpr ?_))
        (fun f hf => hfs f (mem_findingsFrom_cons.mpr ?_))
        (fun f hf => hfs f (mem_findingsFrom_cons.mpr ?_))
      · exact .inl hf
      · exact .inr (.inl hf)
      · exact .inr (.inr (.inl hf))
      · exact .inr (.inr (.inr (.inl hf)))

/-- **Every token that has another text is edited.** -/
theorem covers_pieces (tabWidth : Nat) {p : Nat} {r : Piece} (h : w.pieces[p]? = some r) :
    Covers (w.findingsFrom tabWidth w.scope.opener w.cases) p r := by
  have hcases : CoversFrom (w.findingsFrom tabWidth w.scope.opener w.cases) (w.scope.opener + 2)
      (w.cases.flatMap w.casePieces ++ (w.defaultPieces ++ w.tailPieces)) :=
    coversFrom_cases w.cases (w.placed_start tabWidth) fun _ hf => hf
  have hhead : CoversFrom (w.findingsFrom tabWidth w.scope.opener w.cases) 0 w.headPieces :=
    coversFrom_kept fun r hr => kept_headPieces hr
  have hlength : w.scope.opener + 2 = 0 + w.headPieces.length := by
    unfold headPieces
    rw [List.length_append, length_blanks_spaces]
    show w.keywordAt + 6 + 2 = 0 + (_ + 8)
    unfold keywordAt
    omega
  rw [hlength] at hcases
  have hcover := coversFrom_append hhead hcases p r
  rw [Nat.zero_add] at hcover
  refine hcover ?_
  rw [← List.append_assoc, ← List.append_assoc]
  exact h

/-! ## §4. One round. -/

theorem mem_flaws_iff (w : SwitchText) (tabWidth : Nat) {f : Finding} :
    f ∈ (w.script tabWidth).flaws (w.settings tabWidth) ↔
      f ∈ w.findingsFrom tabWidth w.scope.opener w.cases
        ∨ f ∈ ScopeEnd.rule.findings (w.script tabWidth) (w.script tabWidth).scopeTable
            (w.settings tabWidth) := by
  unfold Script.flaws
  rw [mem_sortByPosition, List.mem_filter, w.mem_findings_iff tabWidth]
  exact and_iff_left rfl

/-- **Every edit makes a piece tidy.** -/
theorem tidies_of_mem_flaws {f : Finding} {e : Edit}
    (hf : f ∈ (w.script tabWidth).flaws (w.settings tabWidth)) (he : f.fix = some e) :
    w.Tidies tabWidth e := by
  rcases (w.mem_flaws_iff tabWidth).mp hf with hf | hf
  · exact tidies_of_mem w.cases (w.placed_start tabWidth) hf he
  · rw [scopeEnd_fix hf] at he
    cases he

/-- **A round gives every token its canonical text.** -/
theorem textOf_selection {p : Nat} {r : Piece} {t : Token} (h : w.pieces[p]? = some r)
    (ht : (w.script tabWidth).get? p = some t) :
    ((w.script tabWidth).selection (w.settings tabWidth)).textOf t = r.tidy := by
  have htoken : (w.script tabWidth).tokenAt p = t := by
    unfold Script.tokenAt
    rw [ht]
    rfl
  rw [Script.textOf_eq ht]
  unfold Script.selection
  rw [Selection.getElem?_chosen]
  cases hfind : (((w.script tabWidth).flaws (w.settings tabWidth)).filterMap Finding.fix).find?
      (Selection.Suits (w.script tabWidth) p) with
  | some e =>
      -- whichever edit was chosen, it is one of the canonical layout
      obtain ⟨f, hf, he⟩ := List.mem_filterMap.mp (List.mem_of_find?_eq_some hfind)
      obtain ⟨r', hr', _, happly⟩ := tidies_of_mem_flaws hf he
      have hsuits := List.find?_some hfind
      unfold Selection.Suits at hsuits
      rw [Bool.and_eq_true, beq_iff_eq] at hsuits
      rw [hsuits.1] at hr' happly
      obtain rfl : r = r' := Option.some.inj (h.symm.trans hr')
      rw [htoken] at happly
      exact happly
  | none =>
      have hchars : t.chars = r.lexeme.chars := by
        rw [← htoken]
        exact Script.chars_of_lexeme (lexeme_of_piece tabWidth h)
      rcases covers_pieces tabWidth h with hkept | ⟨f, hf, e, he, hposition⟩
      · exact hchars.trans hkept
      · -- an edit of the token would have been chosen
        have hf' := (w.mem_flaws_iff tabWidth).mpr (Or.inl hf)
        obtain ⟨_, _, hfits, _⟩ := tidies_of_mem_flaws hf' he
        have hnone := List.find?_eq_none.mp hfind e (List.mem_filterMap.mpr ⟨f, hf', he⟩)
        refine absurd ?_ hnone
        unfold Selection.Suits Selection.fits
        rw [hposition] at hfits ⊢
        rw [htoken] at hfits
        rw [ht, Option.any_some, hfits, beq_self_eq_true]
        rfl

/-- **One round gives the canonical text.** -/
theorem repaired_script (w : SwitchText) (tabWidth : Nat) :
    (w.script tabWidth).repaired (w.settings tabWidth) = w.tidy.text := by
  have htexts : (w.script tabWidth).tokens.toList.map
      ((w.script tabWidth).selection (w.settings tabWidth)).textOf = w.pieces.map Piece.tidy := by
    refine List.ext_getElem? fun p => ?_
    rw [List.getElem?_map, List.getElem?_map, Array.getElem?_toList]
    cases hr : w.pieces[p]? with
    | none =>
        have hsize : (w.script tabWidth).lexemes[p]? = none := by
          rw [lexemes_script, List.getElem?_map, hr]
          rfl
        rw [Script.getElem?_lexemes, Option.map_eq_none_iff] at hsize
        rw [show (w.script tabWidth).tokens[p]? = none from hsize]
        rfl
    | some r =>
        obtain ⟨t, ht, _⟩ := Script.get?_of_lexeme (lexeme_of_piece tabWidth hr)
        rw [show (w.script tabWidth).tokens[p]? = some t from ht, Option.map_some, Option.map_some,
          textOf_selection hr ht]
  rw [← String.toList_inj, Script.toList_repaired, htexts, ← List.flatMap_def]
  exact w.tidyChars_pieces

/-! ## §5. The canonical layout. -/

/-- **In canonical layout the rule on switches finds nothing.** -/
theorem findingsFrom_eq_nil (hdefault : w.defaultLayout = .tidy) (xs : List (Case × CaseLayout)) :
    ∀ {n q : Nat}, w.Placed tabWidth n q xs → (∀ x ∈ xs, x.2 = .tidy w.two) →
      w.findingsFrom tabWidth q xs = [] := by
  induction xs with
  | nil =>
      intro n q h _
      have hat := placed_nil h
      unfold findingsFrom
      rw [casingFindings_eq _ hat.keyword rfl w.defaultLayout.keyword_eq,
        openerFindings_default hat, hdefault]
      rfl
  | cons x xs ih =>
      intro n q h hxs
      obtain ⟨hcase, hrest⟩ := placed_cons h
      have hbelow := ih hrest fun x hx => hxs x (List.mem_cons_of_mem _ hx)
      have htidy : x.2 = .tidy w.two := hxs x List.mem_cons_self
      have hdepth : x.2.depth = w.two := by
        rw [htidy]
        rfl
      unfold findingsFrom
      rw [casingFindings_eq _ hcase.keyword rfl x.2.keyword_eq, caseSpacingFindings_eq hcase,
        openerFindings_case hcase, breakIndentFindings_eq hcase, if_pos hdepth, hbelow, htidy]
      rfl

/-- **Nothing is left to find in the canonical layout.** -/
theorem flaws_tidy (w : SwitchText) (tabWidth : Nat) :
    (w.tidy.script tabWidth).flaws (w.settings tabWidth) = [] := by
  have hcases : ∀ x ∈ w.tidy.cases, x.2 = .tidy w.tidy.two := by
    intro x hx
    obtain ⟨y, _, rfl⟩ := List.mem_map.mp hx
    rfl
  have hswitch : w.tidy.findingsFrom tabWidth w.tidy.scope.opener w.tidy.cases = [] :=
    findingsFrom_eq_nil rfl w.tidy.cases (w.tidy.placed_start tabWidth) hcases
  rw [List.eq_nil_iff_forall_not_mem]
  intro f hf
  rcases (w.tidy.mem_flaws_iff tabWidth).mp hf with hf | hf
  · rw [hswitch] at hf
    cases hf
  · obtain ⟨i, _, hf⟩ := List.mem_flatMap.mp hf
    change f ∈ ScopeEnd.check _ _ _ i at hf
    rw [scopeEnd_check (fun x hx => by rw [hcases x hx]; rfl) rfl] at hf
    cases hf

end SwitchText

/-! ## §6. The repair. -/

/-- A text without findings is its own repair. -/
theorem repairWithin_of_flaws_eq_nil {settings : Settings} {text : String} {s : Script}
    (hindent : 1 ≤ settings.indent) (h : Script.read settings.tabWidth text = .ok s)
    (hflaws : s.flaws settings = []) (passes : Nat) :
    repairWithin settings passes text = .ok ⟨text, 0, 0, []⟩ := by
  cases passes with
  | zero => rw [repairWithin_zero hindent h, hflaws]
  | succ passes =>
      rw [repairWithin_succ hindent h, hflaws]
      exact if_pos rfl

/-- **Repair restores the canonical layout.**  Take a switch of any number of cases, written with
any letter case of its branch keywords, any blanks behind a `case` and in front of a colon, and
any depth of the statements that end the cases.  With the columns of its levels as the setting,
and whatever the width of a tab, the repair ends after at most one round with the same switch in
canonical layout, in which nothing is left to find. -/
theorem repair_restores_layout (w : SwitchText) (tabWidth : Nat) :
    (∃ report, repair w.text (w.settings tabWidth) = .ok report
        ∧ report.source = w.tidy.text ∧ report.remaining = [] ∧ report.passes ≤ 1)
      ∧ checkText w.tidy.text (w.settings tabWidth) = .ok [] := by
  have hindent : 1 ≤ (w.settings tabWidth).indent := w.indent_pos
  have hread : Script.read (w.settings tabWidth).tabWidth w.text = .ok (w.script tabWidth) :=
    w.read_text tabWidth
  have htidy : Script.read (w.settings tabWidth).tabWidth w.tidy.text
      = .ok (w.tidy.script tabWidth) := w.tidy.read_text tabWidth
  have hflaws := w.flaws_tidy tabWidth
  constructor
  · unfold repair maxPasses
    rw [repairWithin_succ hindent hread]
    by_cases hnone : ((w.script tabWidth).applyFixes
        ((w.script tabWidth).flaws (w.settings tabWidth))).applied = 0
    · -- without edits the text was canonical from the start
      have htext : w.text = w.tidy.text := by
        rw [← w.repaired_script tabWidth, Script.repaired_of_applied_eq_zero hnone]
        exact (Script.source_read hread).symm
      have hscript : w.script tabWidth = w.tidy.script tabWidth := by
        rw [htext] at hread
        exact Except.ok.inj (hread.symm.trans htidy)
      rw [if_pos hnone, hscript, hflaws]
      exact ⟨_, rfl, htext, rfl, Nat.zero_le 1⟩
    · rw [if_neg hnone, w.repaired_script tabWidth,
        repairWithin_of_flaws_eq_nil hindent htidy hflaws]
      exact ⟨_, rfl, rfl, rfl, Nat.le_refl 1⟩
  · unfold checkText
    rw [Settings.validate_eq_ok hindent, htidy]
    show (w.tidy.script tabWidth).check _ _ = _
    rw [Script.check_scopeTable _ hindent, hflaws]

end SwitchLayout
