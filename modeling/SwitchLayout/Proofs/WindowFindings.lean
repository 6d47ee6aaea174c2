/-
  SwitchLayout.Proofs.WindowFindings
  ──────────────────────────────────
  **The findings in a window.**

  A window with the scopes of its own script (`Inset`) is looked at in the same way as that
  script: each check finds what it finds there, moved by the offset.  The lemmas follow the
  definitions of the two rules, one for each check:

    • `labelFindings_inset`, `openerFindings_inset`, `caseEndFindings_inset`,
      `defaultEndFindings_inset`, `fallthroughFindings_inset` — the checks of a branch,
    • `findings_inset` — a switch,
    • `violation?_inset` — the closer of a scope,
    • `switchCheck_inset`, `closerCheck_inset` — the two rules.
-/
import Mathlib.Data.List.Find
import SwitchLayout.Proofs.Guarded
import SwitchLayout.Proofs.Retouching
import SwitchLayout.Proofs.Windows

namespace SwitchLayout

open Text

/-- The script `e` stands in `s` as a window, and its scopes are those of `s` there. -/
structure Inset (e s : Script) (offset lines : Nat) : Prop extends Window e s offset lines where
  scopes : EmbedsScopes e s (offset + ·) (· < e.size)

/-- Two choices that hang on one condition. -/
theorem ite_eq_map {c c' : Prop} [Decidable c] [Decidable c'] {α β : Type} {g : α → β} {x y : α}
    {x' y' : β} (hc : c' ↔ c) (hx : c → x' = g x) (hy : ¬ c → y' = g y) :
    (if c' then x' else y') = g (if c then x else y) := by
  by_cases h : c
  · rw [if_pos h, if_pos (hc.mpr h), hx h]
  · rw [if_neg h, if_neg fun h' => h (hc.mp h'), hy h]

namespace Inset

variable {e s : Script} {offset lines indent i : Nat} {scope label : Scope}

/-- The scopes of the inset, moved to where it stands, -/
theorem scopeOf?_inset (hs : Inset e s offset lines) (hi : i < e.size) :
    s.scopeTable.scopeOf? (offset + i) = (e.scopeTable.scopeOf? i).map (Scope.move (offset + ·)) :=
  hs.scopes.scopeOf?_place hi

/-- and their owners. -/
theorem isOwner_inset (hs : Inset e s offset lines) {c : Nat} (hc : c < e.size) (i : Nat) :
    s.scopeTable.isOwner (offset + i) (offset + c) = e.scopeTable.isOwner i c :=
  hs.scopes.isOwner_place hc i

/-! ## §1. Reports. -/

/-- A finding is moved with what it points at. -/
theorem report_inset (hs : Inset e s offset lines) (hi : i < e.size) {v v' : Violation}
    {fix fix' : Option Edit} (hv : v' = v) (hfix : fix' = fix.map (Edit.shift offset)) :
    [(s.body indent (scope.move (offset + ·))).report v' (offset + i) fix']
      = [(e.body indent scope).report v i fix].map (Finding.shift offset lines) := by
  show [v'.finding SwitchBody.ruleName (s.tokenAt (offset + i)) fix'] = _
  rw [hs.token hi, hv, hfix]
  rfl

theorem reportIf_inset (hs : Inset e s offset lines) (hi : i < e.size) {found found' : Bool}
    (hfound : found' = found) (v : Violation) :
    (s.body indent (scope.move (offset + ·))).reportIf found' v (offset + i)
      = ((e.body indent scope).reportIf found v i).map (Finding.shift offset lines) := by
  subst hfound
  exact ite_eq_map Iff.rfl (fun _ => hs.report_inset hi rfl rfl) fun _ => rfl

/-- Columns are counted from the `switch`, which is in the inset. -/
theorem caseColumn_inset (hs : Inset e s offset lines) (hscope : scope.condition < e.size) :
    (s.body indent (scope.move (offset + ·))).caseColumn = (e.body indent scope).caseColumn :=
  congrArg (· + indent) (hs.columnAt hscope)

theorem breakColumn_inset (hs : Inset e s offset lines) (hscope : scope.condition < e.size) :
    (s.body indent (scope.move (offset + ·))).breakColumn = (e.body indent scope).breakColumn :=
  congrArg (· + indent) (hs.caseColumn_inset hscope)

/-! ## §2. Labels. -/

theorem casingFindings_inset (hs : Inset e s offset lines) (hi : i < e.size) (branch : Branch) :
    (s.body indent (scope.move (offset + ·))).casingFindings branch (offset + i)
      = ((e.body indent scope).casingFindings branch i).map (Finding.shift offset lines) := by
  have htoken : (s.body indent (scope.move (offset + ·))).script.tokenAt (offset + i)
      = (e.tokenAt i).shift offset lines := hs.token hi
  unfold SwitchBody.casingFindings
  rw [htoken]
  exact ite_eq_map Iff.rfl (fun _ => rfl) fun _ => hs.report_inset hi rfl rfl

/-- The token behind a `case`, if the inset does not end with the `case`. -/
theorem caseSpacingFix?_inset (hs : Inset e s offset lines) (hi : i + 1 < e.size) :
    (s.body indent (scope.move (offset + ·))).caseSpacingFix? (offset + i)
      = ((e.body indent scope).caseSpacingFix? i).map (Edit.shift offset) := by
  have hnext : (s.body indent (scope.move (offset + ·))).script.get? (offset + i + 1)
      = some ((e.tokenAt (i + 1)).shift offset lines) := by
    show s.get? (offset + (i + 1)) = _
    rw [hs.get? hi, Script.get?_of_lt hi]
    rfl
  have hnext' : (e.body indent scope).script.get? (i + 1) = some (e.tokenAt (i + 1)) :=
    Script.get?_of_lt hi
  unfold SwitchBody.caseSpacingFix?
  rw [hnext, hnext']
  exact ite_eq_map Iff.rfl (fun _ => ite_eq_map Iff.rfl (fun _ => rfl) fun _ => rfl) fun _ => rfl

theorem caseSpacingFindings_inset (hs : Inset e s offset lines) (hi : i + 1 < e.size) :
    (s.body indent (scope.move (offset + ·))).caseSpacingFindings (offset + i)
      = ((e.body indent scope).caseSpacingFindings i).map (Finding.shift offset lines) := by
  unfold SwitchBody.caseSpacingFindings
  rw [hs.caseSpacingFix?_inset hi]
  cases (e.body indent scope).caseSpacingFix? i with
  | none => rfl
  | some fix => exact hs.report_inset (Nat.lt_of_succ_lt hi) rfl rfl

/-- **The keyword of a branch.** -/
theorem labelFindings_inset (hs : Inset e s offset lines) (hscope : scope.condition < e.size)
    (hi : i + 1 < e.size) (branch : Branch) :
    (s.body indent (scope.move (offset + ·))).labelFindings branch (offset + i)
      = ((e.body indent scope).labelFindings branch i).map (Finding.shift offset lines) := by
  have hi' := Nat.lt_of_succ_lt hi
  have hcolumn : (s.body indent (scope.move (offset + ·))).reportIf
        (s.columnAt (offset + i) != (s.body indent (scope.move (offset + ·))).caseColumn)
        (.branchIndent branch indent) (offset + i)
      = ((e.body indent scope).reportIf (e.columnAt i != (e.body indent scope).caseColumn)
          (.branchIndent branch indent) i).map (Finding.shift offset lines) := by
    refine hs.reportIf_inset hi' ?_ _
    rw [hs.columnAt hi', hs.caseColumn_inset hscope]
  unfold SwitchBody.labelFindings
  rw [List.map_append, List.map_append]
  refine congr_arg₂ (· ++ ·) (congr_arg₂ (· ++ ·) (hs.casingFindings_inset hi' branch) hcolumn) ?_
  exact ite_eq_map Iff.rfl (fun _ => hs.caseSpacingFindings_inset hi) fun _ => rfl

/-- **The token that ends a label.** -/
theorem openerFindings_inset (hs : Inset e s offset lines) (hi : i < label.opener)
    (hlabel : label.opener < e.size) (branch : Branch) :
    (s.body indent (scope.move (offset + ·))).openerFindings branch (offset + i)
        (label.move (offset + ·))
      = ((e.body indent scope).openerFindings branch i label).map (Finding.shift offset lines) := by
  have hi' : i < e.size := Nat.lt_trans hi hlabel
  have hbefore : label.opener - 1 < e.size := by omega
  -- the positions are compared with each other, so that the offset drops out
  have hspace : SwitchBody.firstSpaceless branch (offset + i) ≤ offset + (label.opener - 1)
        ∧ s.kindAt (offset + (label.opener - 1)) = .whitespace
      ↔ SwitchBody.firstSpaceless branch i ≤ label.opener - 1
        ∧ e.kindAt (label.opener - 1) = .whitespace := by
    rw [hs.kindAt hbefore]
    refine and_congr_left fun _ => ?_
    unfold SwitchBody.firstSpaceless
    cases branch <;> dsimp only <;> omega
  have hopener : (s.body indent (scope.move (offset + ·))).script.tokenAt
      (label.move (offset + ·)).opener = (e.tokenAt label.opener).shift offset lines :=
    hs.token hlabel
  have hposition : (label.move (offset + ·)).opener - 1 = offset + (label.opener - 1) := by
    show offset + label.opener - 1 = _
    omega
  have htoken : (s.body indent (scope.move (offset + ·))).script.tokenAt
      (offset + (label.opener - 1)) = (e.tokenAt (label.opener - 1)).shift offset lines :=
    hs.token hbefore
  unfold SwitchBody.openerFindings
  dsimp only
  rw [hopener, hposition, htoken]
  exact ite_eq_map Iff.rfl
    (fun _ => ite_eq_map hspace (fun _ => hs.report_inset hi' rfl rfl) fun _ => rfl)
    fun _ => ite_eq_map Iff.rfl (fun _ => hs.report_inset hi' rfl rfl)
      fun _ => hs.report_inset hi' rfl rfl

/-! ## §3. Ends of branches. -/

/-- Numbers that were moved alike differ if they did before. -/
theorem bne_add (offset a b : Nat) : (offset + a != offset + b) = (a != b) := by
  simp [bne]

/-- **The end of a `default`.** -/
theorem defaultEndFindings_inset (hs : Inset e s offset lines) (hi : i < e.size)
    (hlabel : label.closer < e.size) :
    (s.body indent (scope.move (offset + ·))).defaultEndFindings (offset + i)
        (label.move (offset + ·))
      = ((e.body indent scope).defaultEndFindings i label).map (Finding.shift offset lines) := by
  have hkind : (s.body indent (scope.move (offset + ·))).script.kindAt
      (label.move (offset + ·)).closer = e.kindAt label.closer := hs.kindAt hlabel
  unfold SwitchBody.defaultEndFindings
  dsimp only
  rw [hkind]
  refine ite_eq_map Iff.rfl (fun _ => hs.report_inset hi rfl rfl) fun _ => ?_
  refine hs.reportIf_inset hi ?_ _
  exact congrArg (fun x => x && _ && _) (bne_add offset label.closer scope.closer)

/-- Moving a statement: it looks at its line, and at the token in front of it. -/
theorem indentFix?_inset (hs : Inset e s offset lines) (hpos : 0 < i) (hi : i < e.size)
    (expected : Nat) :
    (s.body indent (scope.move (offset + ·))).indentFix? (offset + i) expected
      = ((e.body indent scope).indentFix? i expected).map (Edit.shift offset) := by
  have hbefore : i - 1 < e.size := by omega
  have hstart : (s.body indent (scope.move (offset + ·))).script.lineStart? (offset + i)
      = (e.lineStart? i).map (offset + ·) := hs.lineStart?_window hi
  have hcolumn : (s.body indent (scope.move (offset + ·))).script.columnAt (offset + i)
      = e.columnAt i := hs.columnAt hi
  have htoken : (s.body indent (scope.move (offset + ·))).script.tokenAt (offset + i - 1)
      = (e.tokenAt (i - 1)).shift offset lines := by
    rw [show offset + i - 1 = offset + (i - 1) by omega]
    exact hs.token hbefore
  unfold SwitchBody.indentFix?
  dsimp only
  rw [hstart, hcolumn, htoken]
  -- of the four conditions two speak of positions
  refine ite_eq_map ?_ (fun _ => rfl) fun _ => ite_eq_map Iff.rfl (fun _ => rfl) fun _ =>
    ite_eq_map ?_ (fun _ => rfl) fun _ => ite_eq_map Iff.rfl (fun _ => rfl) fun _ => rfl
  · show (e.lineStart? i).map (offset + ·) ≠ some (offset + i) ↔ e.lineStart? i ≠ some i
    refine not_congr ?_
    rw [Option.map_eq_some_iff]
    exact ⟨fun ⟨j, hj, heq⟩ => Nat.add_left_cancel heq ▸ hj, fun h => ⟨i, h, rfl⟩⟩
  · omega

theorem breakIndentFindings_inset (hs : Inset e s offset lines) (hscope : scope.condition < e.size)
    (hpos : 0 < i) (hi : i < e.size) :
    (s.body indent (scope.move (offset + ·))).breakIndentFindings (offset + i)
      = ((e.body indent scope).breakIndentFindings i).map (Finding.shift offset lines) := by
  have hcolumn : (s.body indent (scope.move (offset + ·))).script.columnAt (offset + i)
      = e.columnAt i := hs.columnAt hi
  unfold SwitchBody.breakIndentFindings
  rw [hcolumn, hs.breakColumn_inset hscope, hs.indentFix?_inset hpos hi]
  exact ite_eq_map Iff.rfl (fun _ => rfl) fun _ => hs.report_inset hi rfl rfl

/-- The line on which the code in front of `i` ends, where there is such code.  Without it the line
is zero in both scripts, and does not move. -/
theorem contentLineBefore_inset (hs : Inset e s offset lines) (hpos : 0 < i) (hi : i < e.size)
    (hcontent : (e.previous? (· ≠ .whitespace) (i - 1) (scope.condition + 1)).isSome = true) :
    (s.body indent (scope.move (offset + ·))).contentLineBefore (offset + i)
      = (e.body indent scope).contentLineBefore i + lines := by
  obtain ⟨j, hj⟩ := Option.isSome_iff_exists.mp hcontent
  obtain ⟨_, hjhi, _⟩ := (lastIn?_eq_some_iff _ _ _ _).mp hj
  have hlast : (s.body indent (scope.move (offset + ·))).script.previous? (· ≠ .whitespace)
      (offset + i - 1) ((scope.move (offset + ·)).condition + 1) = some (offset + j) := by
    rw [show offset + i - 1 = offset + (i - 1) by omega]
    show s.previous? (· ≠ .whitespace) (offset + (i - 1)) (offset + (scope.condition + 1)) = _
    rw [hs.previous?_window _ (by omega), hj]
    rfl
  have hlast' : (e.body indent scope).script.previous? (· ≠ .whitespace) (i - 1)
      ((e.body indent scope).scope.condition + 1) = some j := hj
  unfold SwitchBody.contentLineBefore
  rw [show (s.body indent (scope.move (offset + ·))).scope = scope.move (offset + ·) from rfl,
    hlast, hlast']
  exact hs.endLineAt (by omega)

/-- A search that ends at the closer of the switch stays in the inset. -/
theorem next?_closer_inset (hs : Inset e s offset lines) (hscope : scope.closer < e.size)
    (p : TokenKind → Bool) (start : Nat) :
    (s.body indent (scope.move (offset + ·))).script.next? p (offset + start)
        (s.body indent (scope.move (offset + ·))).scope.closer
      = ((e.body indent scope).script.next? p start (e.body indent scope).scope.closer).map
          (offset + ·) :=
  hs.next?_window p start (Nat.le_of_lt hscope)

theorem secondBreak?_inset (hs : Inset e s offset lines) (hscope : scope.closer < e.size) :
    (s.body indent (scope.move (offset + ·))).secondBreak? (offset + i)
      = ((e.body indent scope).secondBreak? i).map (offset + ·) := by
  unfold SwitchBody.secondBreak?
  rw [hs.next?_closer_inset hscope]
  cases (e.body indent scope).script.next? (· = .semicolon) i
      (e.body indent scope).scope.closer with
  | none => rfl
  | some semicolon =>
      show ((s.body indent (scope.move (offset + ·))).script.next? (· ≠ .whitespace)
          (offset + (semicolon + 1)) (s.body indent (scope.move (offset + ·))).scope.closer >>= _)
        = Option.map _ (((e.body indent scope).script.next? (· ≠ .whitespace) (semicolon + 1)
            (e.body indent scope).scope.closer) >>= _)
      rw [hs.next?_closer_inset hscope]
      cases hnext : (e.body indent scope).script.next? (· ≠ .whitespace) (semicolon + 1)
          (e.body indent scope).scope.closer with
      | none => rfl
      | some next =>
          have hsize : next < e.size := (Script.next?_eq_some_iff.mp hnext).2.2.1
          show (if s.kindAt (offset + next) = .breakKw then some (offset + next) else none)
            = Option.map _ (if e.kindAt next = .breakKw then some next else none)
          rw [hs.kindAt hsize]
          exact ite_eq_map Iff.rfl (fun _ => rfl) fun _ => rfl

/-- A second `break` is a token of the script. -/
theorem secondBreak?_lt_size {b : SwitchBody} {j : Nat} (h : b.secondBreak? i = some j) :
    j < b.script.size := by
  unfold SwitchBody.secondBreak? at h
  obtain ⟨semicolon, _, h⟩ := Option.bind_eq_some_iff.mp h
  obtain ⟨next, hnext, h⟩ := Option.bind_eq_some_iff.mp h
  split at h
  · obtain rfl := Option.some.inj h
    exact (Script.next?_eq_some_iff.mp hnext).2.2.1
  · cases h

theorem firstContent_inset (hs : Inset e s offset lines) (hlabel : label.closer < e.size) :
    (s.body indent (scope.move (offset + ·))).firstContent (label.move (offset + ·))
      = offset + (e.body indent scope).firstContent label := by
  have hnext : (s.body indent (scope.move (offset + ·))).script.next? (· ≠ .whitespace)
      ((label.move (offset + ·)).opener + 1) (label.move (offset + ·)).closer
      = (e.next? (· ≠ .whitespace) (label.opener + 1) label.closer).map (offset + ·) :=
    hs.next?_window _ (label.opener + 1) (Nat.le_of_lt hlabel)
  unfold SwitchBody.firstContent
  rw [hnext]
  exact Option.getD_map (offset + ·) label.closer _

/-- **The end of a `case`.** -/
theorem caseEndFindings_inset (hs : Inset e s offset lines)
    (hswitch : scope.condition < scope.opener) (hbrace : e.kindAt scope.opener = .openBrace) (hscope : scope.closer < e.size)
    (hi : scope.opener < i) (hopener : i < label.opener) (hcloser : label.opener < label.closer)
    (hlabel : label.closer < e.size) :
    (s.body indent (scope.move (offset + ·))).caseEndFindings (offset + i)
        (label.move (offset + ·))
      = ((e.body indent scope).caseEndFindings i label).map (Finding.shift offset lines) := by
  have hsize : i < e.size := by omega
  -- the brace of the body stands in front of the closer
  have hcontent : (e.previous? (· ≠ .whitespace) (label.closer - 1)
      (scope.condition + 1)).isSome = true := by
    by_contra hnone
    rw [Bool.not_eq_true, Option.isSome_eq_false_iff, Option.isNone_iff_eq_none] at hnone
    have hall := (lastIn?_eq_none_iff _ _ _).mp hnone scope.opener (by omega) (by omega)
    rw [hbrace] at hall
    cases hall
  have hline : (s.body indent (scope.move (offset + ·))).contentLineBefore (offset + label.closer)
      = (e.body indent scope).contentLineBefore label.closer + lines :=
    hs.contentLineBefore_inset (by omega) hlabel hcontent
  have hfirst : (s.body indent (scope.move (offset + ·))).firstContent (label.move (offset + ·))
      = offset + (e.body indent scope).firstContent label := hs.firstContent_inset hlabel
  have hfirstSize : (e.body indent scope).firstContent label < e.size :=
    SwitchBody.firstContent_lt_size hlabel
  unfold SwitchBody.caseEndFindings
  dsimp only
  refine ite_eq_map ?_ (fun _ => ?_) fun _ => rfl
  · show ((s.kindAt (offset + label.closer)).isTerminator
        && s.scopeTable.isOwner (offset + i) (offset + label.closer)) = true ↔ _
    rw [hs.kindAt hlabel, hs.isOwner_inset hlabel]
    rfl
  · rw [List.map_append, List.map_append, List.map_append, hfirst]
    refine congr_arg₂ (· ++ ·) (congr_arg₂ (· ++ ·) (congr_arg₂ (· ++ ·) ?_ ?_) ?_) ?_
    · exact hs.breakIndentFindings_inset (by omega) (by omega) hlabel
    · refine hs.reportIf_inset hlabel ?_ _
      show ((s.body indent (scope.move (offset + ·))).contentLineBefore (offset + label.closer) + 1
        != s.lineAt (offset + label.closer)) = _
      rw [hline, hs.lineAt hlabel, Nat.add_right_comm, Nat.add_comm _ lines, Nat.add_comm _ lines]
      exact bne_add lines _ _
    · show ((s.body indent (scope.move (offset + ·))).secondBreak?
        (offset + label.closer)).toList.map _ = _
      rw [hs.secondBreak?_inset hscope]
      cases hsecond : (e.body indent scope).secondBreak? label.closer with
      | none => rfl
      | some j => exact hs.report_inset (secondBreak?_lt_size hsecond) rfl rfl
    · refine hs.reportIf_inset hsize ?_ _
      show (s.lineAt (offset + (e.body indent scope).firstContent label)
        != s.lineAt (offset + i) + 1) = _
      rw [hs.lineAt hfirstSize, hs.lineAt hsize, Nat.add_right_comm, Nat.add_comm _ lines,
        Nat.add_comm _ lines]
      exact bne_add lines _ _

/-! ## §4. Fallthrough. -/

/-- The search for a comment stays between the two cases. -/
theorem isAnnounced_inset (hs : Inset e s offset lines) {next : Nat} (hpos : 0 < next)
    (hnext : next < e.size) :
    (s.body indent (scope.move (offset + ·))).isAnnounced (offset + i) (offset + next)
      = (e.body indent scope).isAnnounced i next := by
  have hprevious : (s.body indent (scope.move (offset + ·))).script.previous? (· = .comment)
      (offset + next - 1) (offset + i + 1)
      = ((e.body indent scope).script.previous? (· = .comment) (next - 1) (i + 1)).map
          (offset + ·) := by
    rw [show offset + next - 1 = offset + (next - 1) by omega]
    exact hs.previous?_window _ (by omega) (i + 1)
  unfold SwitchBody.isAnnounced
  rw [hprevious]
  cases hcomment : (e.body indent scope).script.previous? (· = .comment) (next - 1) (i + 1) with
  | none => rfl
  | some comment =>
      obtain ⟨_, hhi, _⟩ := (lastIn?_eq_some_iff _ _ _ _).mp hcomment
      show (s.endLineAt (offset + comment) + 1 == s.lineAt (offset + next))
        = (e.endLineAt comment + 1 == e.lineAt next)
      rw [hs.endLineAt (by omega), hs.lineAt hnext, Nat.add_right_comm]
      exact Bool.eq_iff_iff.mpr (by simp)

theorem sharesCloser_inset (hs : Inset e s offset lines) {next : Nat} (hnext : next < e.size) :
    (s.body indent (scope.move (offset + ·))).sharesCloser (label.move (offset + ·)) (offset + next)
      = (e.body indent scope).sharesCloser label next := by
  unfold SwitchBody.sharesCloser
  show ((s.scopeTable.scopeOf? (offset + next)).map Scope.closer == some (offset + label.closer))
    = ((e.scopeTable.scopeOf? next).map Scope.closer == some label.closer)
  rw [hs.scopeOf?_inset hnext]
  cases e.scopeTable.scopeOf? next with
  | none => rfl
  | some other =>
      show (some (offset + other.closer) == some (offset + label.closer)) = _
      exact Bool.eq_iff_iff.mpr (by simp)

/-- **The comment that a fallthrough needs.** -/
theorem fallthroughFindings_inset (hs : Inset e s offset lines) (hi : i < e.size)
    {next : Option Nat} (hnext : ∀ j ∈ next, 0 < j ∧ j < e.size) :
    (s.body indent (scope.move (offset + ·))).fallthroughFindings (offset + i)
        (label.move (offset + ·)) (next.map (offset + ·))
      = ((e.body indent scope).fallthroughFindings i label next).map
          (Finding.shift offset lines) := by
  cases next with
  | none => rfl
  | some j =>
      obtain ⟨hpos, hj⟩ := hnext j rfl
      refine hs.reportIf_inset hi ?_ _
      rw [hs.sharesCloser_inset hj, hs.isAnnounced_inset hpos hj]

/-! ## §5. A switch. -/

/-- What is known of a label of a switch. -/
theorem bounds_of_label (hlabel : e.scopeTable.scopeOf? i = some label) :
    i < label.opener ∧ label.opener < label.closer ∧ label.closer < e.size := by
  obtain ⟨hmem, hcondition⟩ := Script.scopeOf?_scopeTable_iff.mp hlabel
  obtain ⟨hlt, hlt', hsize, _⟩ := Script.ordered_of_mem_detectedScopes hmem
  omega

/-- All that is checked of a `default`, -/
theorem defaultFindings_inset (hs : Inset e s offset lines) (hscope : scope.condition < e.size)
    (hi : i + 1 < e.size) :
    (s.body indent (scope.move (offset + ·))).defaultFindings (offset + i)
      = ((e.body indent scope).defaultFindings i).map (Finding.shift offset lines) := by
  have htable : (s.body indent (scope.move (offset + ·))).table.scopeOf? (offset + i)
      = ((e.body indent scope).table.scopeOf? i).map (Scope.move (offset + ·)) :=
    hs.scopeOf?_inset (Nat.lt_of_succ_lt hi)
  unfold SwitchBody.defaultFindings
  rw [List.map_append, hs.labelFindings_inset hscope hi, htable]
  cases hlabel : (e.body indent scope).table.scopeOf? i with
  | none => rfl
  | some label =>
      obtain ⟨hopener, hcloser, hsize⟩ := bounds_of_label hlabel
      show _ ++ (_ ++ _) = _ ++ List.map _ (_ ++ _)
      rw [List.map_append, hs.openerFindings_inset hopener (by omega),
        hs.defaultEndFindings_inset (Nat.lt_of_succ_lt hi) hsize]

/-- and of a case. -/
theorem caseFindings_inset (hs : Inset e s offset lines) (hswitch : e.IsSwitch scope)
    (hi : i ∈ (e.body indent scope).branches) {next : Option Nat}
    (hnext : ∀ j ∈ next, 0 < j ∧ j < e.size) :
    (s.body indent (scope.move (offset + ·))).caseFindings (offset + i) (next.map (offset + ·))
      = ((e.body indent scope).caseFindings i next).map (Finding.shift offset lines) := by
  obtain ⟨hco, hoc, hscope, _⟩ := Script.ordered_of_mem_detectedScopes hswitch.1
  obtain ⟨hlo, hhi, _⟩ := (SwitchBody.branchesFrom_spec _ _).2 i hi
  change scope.opener + 1 ≤ i at hlo
  change i < scope.closer at hhi
  have hbrace : e.kindAt scope.opener = .openBrace := by
    have hbody := Script.bodyScope?_of_scopeOf? hswitch.2 hswitch.scopeOf?
    exact (Script.bodyBrace?_eq_some (Script.bodyScope?_eq_some hbody).2.1).2
  have htable : (s.body indent (scope.move (offset + ·))).table.scopeOf? (offset + i)
      = ((e.body indent scope).table.scopeOf? i).map (Scope.move (offset + ·)) :=
    hs.scopeOf?_inset (by omega)
  unfold SwitchBody.caseFindings
  rw [List.map_append, hs.labelFindings_inset (by omega) (by omega), htable]
  cases hlabel : (e.body indent scope).table.scopeOf? i with
  | none => rfl
  | some label =>
      obtain ⟨hopener, hcloser, hsize⟩ := bounds_of_label hlabel
      show _ ++ (_ ++ _ ++ _) = _ ++ List.map _ (_ ++ _ ++ _)
      rw [List.map_append, List.map_append, hs.openerFindings_inset hopener (by omega),
        hs.caseEndFindings_inset hco hbrace hscope hlo hopener hcloser hsize,
        hs.fallthroughFindings_inset (by omega) hnext]

/-- **The branches of a switch.** -/
theorem branchFindings_inset (hs : Inset e s offset lines) (hswitch : e.IsSwitch scope)
    {is : List Nat} (his : ∀ i ∈ is, i ∈ (e.body indent scope).branches) (seen : Bool) :
    (s.body indent (scope.move (offset + ·))).branchFindings seen (is.map (offset + ·))
      = ((e.body indent scope).branchFindings seen is).map (Finding.shift offset lines) := by
  obtain ⟨hco, hoc, hscope, _⟩ := Script.ordered_of_mem_detectedScopes hswitch.1
  have hbounds : ∀ {j : Nat}, j ∈ is → 0 < j ∧ j + 1 < e.size := by
    intro j hj
    obtain ⟨hlo, hhi, _⟩ := (SwitchBody.branchesFrom_spec _ _).2 j (his j hj)
    change scope.opener + 1 ≤ j at hlo
    change j < scope.closer at hhi
    omega
  induction is generalizing seen with
  | nil => rfl
  | cons i is ih =>
      obtain ⟨_, hi⟩ := hbounds List.mem_cons_self
      have hrest := fun seen => ih (fun j hj => his j (List.mem_cons_of_mem i hj)) seen
        fun hj => hbounds (List.mem_cons_of_mem i hj)
      have hkind : ∀ {j : Nat}, j ∈ i :: is →
          (s.body indent (scope.move (offset + ·))).script.kindAt (offset + j)
            = (e.body indent scope).script.kindAt j := by
        intro j hj
        exact hs.kindAt (Nat.lt_of_succ_lt (hbounds hj).2)
      -- the next case is the next case
      have hnext : (is.map (offset + ·)).find?
            ((s.body indent (scope.move (offset + ·))).script.kindAt · == .caseKw)
          = (is.find? ((e.body indent scope).script.kindAt · == .caseKw)).map (offset + ·) := by
        rw [List.find?_map]
        refine congrArg _ (List.find?_congr fun j hj => ?_)
        show (_ == _) = _
        rw [hkind (List.mem_cons_of_mem i hj)]
      unfold SwitchBody.branchFindings
      refine ite_eq_map ?_ (fun _ => ?_) fun _ => ?_
      · unfold SwitchBody.isDefault
        show (_ == _) = true ↔ (_ == _) = true
        rw [hkind List.mem_cons_self]
      · rw [List.map_append, List.map_append, hs.reportIf_inset (Nat.lt_of_succ_lt hi) rfl,
          hs.defaultFindings_inset (by omega) hi, hrest true]
      · rw [hnext, List.map_append, hrest seen,
          hs.caseFindings_inset hswitch (his i List.mem_cons_self)]
        intro j hj
        obtain ⟨hpos, hj'⟩ := hbounds (List.mem_cons_of_mem i (List.mem_of_find?_eq_some hj))
        exact ⟨hpos, Nat.lt_of_succ_lt hj'⟩

/-- **A switch.** -/
theorem findings_inset (hs : Inset e s offset lines) (hswitch : e.IsSwitch scope) :
    (s.body indent (scope.move (offset + ·))).findings
      = (e.body indent scope).findings.map (Finding.shift offset lines) := by
  obtain ⟨hco, hoc, hscope, _⟩ := Script.ordered_of_mem_detectedScopes hswitch.1
  have hbranches : (s.body indent (scope.move (offset + ·))).branches
      = (e.body indent scope).branches.map (offset + ·) := hs.scopes.branches_place hscope indent
  have hdefault : ∀ i ∈ (e.body indent scope).branches,
      (s.body indent (scope.move (offset + ·))).isDefault (offset + i)
        = (e.body indent scope).isDefault i := by
    intro i hi
    have hsize : i < e.size := ((SwitchBody.branchesFrom_spec _ _).2 i hi).2.2.1
    exact congrArg (· == .defaultKw) (hs.kindAt hsize)
  unfold SwitchBody.findings
  dsimp only
  rw [hbranches, List.map_append, List.map_append, List.map_append]
  refine congr_arg₂ (· ++ ·) (congr_arg₂ (· ++ ·) (congr_arg₂ (· ++ ·) ?_ ?_) ?_) ?_
  · exact hs.branchFindings_inset hswitch (fun _ hi => hi) false
  · refine hs.reportIf_inset (by omega) ?_ _
    refine congrArg (!·) ?_
    rw [List.any_map, Bool.eq_iff_iff, List.any_eq_true, List.any_eq_true]
    refine exists_congr fun i => and_congr_right fun hi => ?_
    rw [Function.comp_apply, hdefault i hi]
  · refine hs.reportIf_inset hscope ?_ _
    show (s.columnAt (offset + scope.closer) != s.columnAt (offset + scope.condition)) = _
    rw [hs.columnAt hscope, hs.columnAt (by omega)]
    rfl
  · refine hs.reportIf_inset (by omega) ?_ _
    rw [List.all_map, Bool.eq_iff_iff, List.all_eq_true, List.all_eq_true]
    refine forall_congr' fun i => forall_congr' fun hi => ?_
    rw [Function.comp_apply, hdefault i hi]

/-- **The rule on switches.** -/
theorem switchCheck_inset (hs : Inset e s offset lines) (settings : Settings) (hi : i < e.size)
    (hswitch : e.kindAt i = .switchKw) :
    SwitchBody.check s s.scopeTable settings (offset + i)
      = (SwitchBody.check e e.scopeTable settings i).map (Finding.shift offset lines) := by
  unfold SwitchBody.check
  rw [hs.scopeOf?_inset hi]
  cases hscope : e.scopeTable.scopeOf? i with
  | none => rfl
  | some scope =>
      obtain ⟨hmem, rfl⟩ := Script.scopeOf?_scopeTable_iff.mp hscope
      exact hs.findings_inset ⟨hmem, hswitch⟩

/-! ## §6. Closers. -/

/-- The last content of a scope is between its opener and its closer. -/
theorem lastContent_inset (hs : Inset e s offset lines) (horder : scope.opener < scope.closer)
    (hscope : scope.closer < e.size) :
    ScopeEnd.lastContent s (scope.move (offset + ·)) = offset + ScopeEnd.lastContent e scope := by
  have hlast : s.previous? (· ≠ .whitespace) ((scope.move (offset + ·)).closer - 1)
      (scope.move (offset + ·)).opener
      = (e.previous? (· ≠ .whitespace) (scope.closer - 1) scope.opener).map (offset + ·) := by
    show s.previous? (· ≠ .whitespace) (offset + scope.closer - 1) (offset + scope.opener) = _
    rw [show offset + scope.closer - 1 = offset + (scope.closer - 1) by omega]
    exact hs.previous?_window _ (by omega) scope.opener
  unfold ScopeEnd.lastContent
  rw [hlast]
  exact Option.getD_map (offset + ·) scope.opener _

/-- What starts the line of a keyword: the line starts in the inset. -/
theorem startColumn_inset (hs : Inset e s offset lines) (hi : i < e.size) :
    ScopeEnd.startColumn s (offset + i) = ScopeEnd.startColumn e i := by
  unfold ScopeEnd.startColumn
  rw [hs.lineStart?_window hi]
  exact (congrArg s.columnAt (Option.getD_map (offset + ·) i _)).trans
    (hs.columnAt (ScopeEnd.lineStart_lt_size hi))

/-- **The closer of a scope.** -/
theorem violation?_inset (hs : Inset e s offset lines) (hscope : scope ∈ e.detectedScopes)
    (indent : Nat) :
    ScopeEnd.violation? s indent (scope.move (offset + ·))
      = ScopeEnd.violation? e indent scope := by
  obtain ⟨hco, hoc, hsize, _⟩ := Script.ordered_of_mem_detectedScopes hscope
  have hcondition : scope.condition < e.size := by omega
  have hline : s.lineAt (scope.move (offset + ·)).closer = e.lineAt scope.closer + lines :=
    hs.lineAt hsize
  have hcolumn : s.columnAt (scope.move (offset + ·)).closer = e.columnAt scope.closer :=
    hs.columnAt hsize
  have hkind : s.kindAt (scope.move (offset + ·)).condition = e.kindAt scope.condition :=
    hs.kindAt hcondition
  have hstart : ScopeEnd.startColumn s (scope.move (offset + ·)).condition
      = ScopeEnd.startColumn e scope.condition := hs.startColumn_inset hcondition
  unfold ScopeEnd.violation?
  rw [hs.lastContent_inset hoc hsize, hs.endLineAt (ScopeEnd.lastContent_lt_size (by omega)), hline,
    hcolumn, hkind, hstart]
  simp only [Nat.add_right_cancel_iff]

/-- **The rule on closers.** -/
theorem closerCheck_inset (hs : Inset e s offset lines) (settings : Settings) (hi : i < e.size) :
    ScopeEnd.check s s.scopeTable settings (offset + i)
      = (ScopeEnd.check e e.scopeTable settings i).map (Finding.shift offset lines) := by
  unfold ScopeEnd.check
  rw [hs.scopeOf?_inset hi]
  cases hscope : e.scopeTable.scopeOf? i with
  | none => rfl
  | some scope =>
      obtain ⟨hmem, rfl⟩ := Script.scopeOf?_scopeTable_iff.mp hscope
      obtain ⟨_, _, hsize, _⟩ := Script.ordered_of_mem_detectedScopes hmem
      refine ite_eq_map ?_ (fun _ => ?_) fun _ => rfl
      · show s.scopeTable.isOwner (offset + scope.condition) (offset + scope.closer) = true ↔ _
        rw [hs.isOwner_inset hsize]
      · rw [hs.violation?_inset hmem]
        show List.map (fun v : Violation =>
          v.finding ScopeEnd.ruleName (s.tokenAt (offset + scope.closer)) none) _ = _
        rw [hs.token hsize, List.map_map]
        rfl

end Inset

end SwitchLayout
