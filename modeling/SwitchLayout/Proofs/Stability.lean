/-
  SwitchLayout.Proofs.Stability
  ─────────────────────────────
  **A repair reports what it leaves, and stops only when there is nothing left to do.**

  The loop has an exit for a round in which no edit could be made.  That exit never leaves a
  finding behind that could be cured: every edit that a rule proposes fits its token.

    • `SwitchBody.fits_of_proposes` — the four kinds of edits fit, one by one,
    • `isFixable_of_applied_eq_zero` — so a round without edits has nothing to cure,
    • `repairWithin_report` — what the report says after any number of rounds, by induction over
      the rounds that are left.

  The whole repair: `repair_report_truthful`.
-/
import SwitchLayout.Proofs.Rounds

namespace SwitchLayout

/-! ## §1. Every edit fits. -/

theorem Selection.fits_of_get? {s : Script} {e : Edit} {t : Token}
    (ht : s.get? e.position = some t) (hle : e.deleted ≤ t.chars.length) :
    Selection.fits s e = true := by
  unfold Selection.fits
  rw [ht]
  show decide (e.deleted ≤ t.chars.length) = true
  exact decide_eq_true hle

/-- A token can be replaced. -/
theorem Selection.fits_replace {s : Script} {i : Nat} {t : Token} (ht : s.get? i = some t)
    (text : String) : Selection.fits s (.replace t text) = true := by
  apply Selection.fits_of_get? (t := t)
  · show s.get? t.position = some t
    rw [Script.position_of_get? ht, ht]
  · exact Nat.le_refl _

/-- Something can be put in front of a token. -/
theorem Selection.fits_insertBefore {s : Script} {i : Nat} {t : Token} (ht : s.get? i = some t)
    (text : String) : Selection.fits s (.insertBefore i text) = true :=
  Selection.fits_of_get? (e := .insertBefore i text) ht (Nat.zero_le _)

theorem Script.Moves.fits {s : Script} {expected i : Nat} {e : Edit} (h : s.Moves expected i e) :
    Selection.fits s e = true := by
  cases h with
  | ahead count hstart =>
      -- the statement is there, for it starts its line
      unfold Script.lineStart? at hstart
      split at hstart
      · rename_i hlt
        exact Selection.fits_insertBefore (Array.getElem?_eq_getElem hlt) _
      · cases hstart
  | back count _ hspace _ hcount =>
      obtain ⟨space, hget, htoken, _⟩ := Script.get?_of_kindAt hspace (by decide)
      rw [htoken] at hcount
      exact Selection.fits_of_get? hget hcount

namespace SwitchBody

variable {b : SwitchBody} {i : Nat} {e : Edit}

theorem fits_of_spacing (h : b.caseSpacingFix? i = some e) :
    Selection.fits b.script e = true := by
  unfold caseSpacingFix? at h
  split at h
  · cases h
  · rename_i next hnext
    split at h
    · split at h
      · cases h
      · obtain rfl := Option.some.inj h
        exact Selection.fits_replace hnext _
    · obtain rfl := Option.some.inj h
      rw [Script.position_of_get? hnext]
      exact Selection.fits_insertBefore hnext _

theorem fits_of_indent {closer expected : Nat} (h : b.indentFix? closer expected = some e) :
    Selection.fits b.script e = true :=
  (moves_of_indent h).fits

/-- **Every edit that is proposed fits its token.** -/
theorem fits_of_proposes (hi : i < b.script.size) {code : Code} (h : b.Proposes i code e) :
    Selection.fits b.script e = true := by
  cases h with
  | lower =>
      have hget : b.script.get? i = some (b.script.tokenAt i) := by
        unfold Script.tokenAt Script.get?
        rw [Array.getElem?_eq_getElem hi]
        rfl
      exact Selection.fits_replace hget _
  | spacing _ hfix => exact fits_of_spacing hfix
  | unspace _ _ _ _ hspace =>
      obtain ⟨space, hget, htoken, _⟩ := Script.get?_of_kindAt hspace (by decide)
      rw [htoken]
      exact Selection.fits_replace hget _
  | indent _ _ _ _ hfix => exact fits_of_indent hfix

end SwitchBody

/-! ## §2. A round without edits. -/

/-- An edit that comes with a finding on a script fits the script. -/
theorem Script.fits_of_mem_flaws {s : Script} {settings : Settings} {f : Finding} {e : Edit}
    (hf : f ∈ s.flaws settings) (he : f.fix = some e) : Selection.fits s e = true := by
  obtain ⟨q, scope, _, _, i, hi, hprop⟩ := standard_fix (mem_flaws_iff.mp hf).1 he
  have hsize := ((SwitchBody.branchesFrom_spec _ _).2 i hi).2.2.1
  exact SwitchBody.fits_of_proposes hsize hprop

/-- **A round makes an edit as soon as one is proposed.** -/
theorem Script.isFixable_of_applied_eq_zero {s : Script} {settings : Settings}
    (h : (s.applyFixes (s.flaws settings)).applied = 0) :
    ∀ f ∈ s.flaws settings, f.isFixable = false := by
  intro f hf
  cases hfix : f.fix with
  | none =>
      unfold Finding.isFixable
      rw [hfix]
      rfl
  | some e =>
      -- its edit, or an earlier one of the same token, is among the chosen ones
      have hmem : e ∈ (s.flaws settings).filterMap Finding.fix :=
        List.mem_filterMap.mpr ⟨f, hf, hfix⟩
      have hsuits : Selection.Suits s e.position e = true := by
        unfold Selection.Suits
        rw [Script.fits_of_mem_flaws hf hfix, beq_self_eq_true]
        rfl
      have hsome : ((s.selection settings).chosen[e.position]?).isSome = true := by
        unfold Script.selection
        rw [Selection.getElem?_chosen, List.find?_isSome]
        exact ⟨e, hmem, hsuits⟩
      have hempty : (s.selection settings).chosen = ∅ := by
        rw [Std.ExtTreeMap.eq_empty_iff_size_eq_zero]
        exact h
      rw [hempty, Std.ExtTreeMap.getElem?_empty] at hsome
      cases hsome

/-! ## §3. The report of the rounds. -/

section Loop

variable {settings : Settings} {text : String} {s : Script} {r : Report}

/-- A text that can be read is checked to the end. -/
theorem checkText_of_read (hindent : 1 ≤ settings.indent)
    (h : Script.read settings.tabWidth text = .ok s) :
    checkText text settings = .ok (s.flaws settings) := by
  unfold checkText
  rw [Settings.validate_eq_ok hindent, h]
  show s.check s.scopeTable settings = _
  exact s.check_scopeTable hindent

/-- Only settings without an indentation are refused. -/
theorem Settings.validate_eq_error (h : settings.indent = 0) :
    settings.validate = .error .zeroIndent := by
  unfold Settings.validate
  rw [if_pos h]

/-- A repair with a report had settings that can be used and a text that can be read. -/
theorem read_of_repairWithin {passes : Nat} (h : repairWithin settings passes text = .ok r) :
    1 ≤ settings.indent ∧ ∃ s, Script.read settings.tabWidth text = .ok s := by
  cases hread : Script.read settings.tabWidth text with
  | error e =>
      rw [repairWithin_of_error hread] at h
      cases h
  | ok s =>
      refine ⟨?_, s, rfl⟩
      by_contra hzero
      -- the check refuses the settings, and with it the loop ends
      have hcheck : s.check s.scopeTable settings = .error (.settings .zeroIndent) := by
        unfold Script.check Ruleset.run
        rw [Settings.validate_eq_error (by omega)]
        rfl
      unfold repairWithin at h
      rw [hread] at h
      change (s.check s.scopeTable settings >>= _) = _ at h
      rw [hcheck] at h
      cases h

/-- What a report says about the text it comes with, after at most `passes` rounds on `text`. -/
structure Report.Truthful (r : Report) (settings : Settings) (passes : Nat) (text : String) :
    Prop where
  /-- The findings are those on the text that is left. -/
  remaining : checkText r.source settings = .ok r.remaining
  /-- No more rounds were made than there were. -/
  passes_le : r.passes ≤ passes
  /-- Every round made an edit. -/
  passes_le_applied : r.passes ≤ r.applied
  /-- Without a round the text stays. -/
  untouched : r.passes = 0 → r.source = text
  /-- If rounds are left, nothing is left that could be cured. -/
  exhausted : r.passes < passes → ∀ f ∈ r.remaining, f.isFixable = false

/-- The report of a repair that ends at once. -/
theorem truthful_of_stop (hindent : 1 ≤ settings.indent)
    (h : Script.read settings.tabWidth text = .ok s) {passes : Nat}
    (hcured : 0 < passes → ∀ f ∈ s.flaws settings, f.isFixable = false) :
    (Report.mk text 0 0 (s.flaws settings)).Truthful settings passes text where
  remaining := checkText_of_read hindent h
  passes_le := Nat.zero_le _
  passes_le_applied := Nat.le_refl _
  untouched := fun _ => rfl
  exhausted := hcured

/-- **The report of the loop is truthful.** -/
theorem repairWithin_report (passes : Nat) :
    ∀ {text : String} {r : Report}, repairWithin settings passes text = .ok r →
      r.Truthful settings passes text := by
  induction passes with
  | zero =>
      intro text r h
      obtain ⟨hindent, s, hread⟩ := read_of_repairWithin h
      rw [repairWithin_zero hindent hread] at h
      obtain rfl := Except.ok.inj h
      exact truthful_of_stop hindent hread fun hlt => absurd hlt (Nat.lt_irrefl 0)
  | succ passes ih =>
      intro text r h
      obtain ⟨hindent, s, hread⟩ := read_of_repairWithin h
      rw [repairWithin_succ hindent hread] at h
      by_cases hnone : (s.applyFixes (s.flaws settings)).applied = 0
      · rw [if_pos hnone] at h
        obtain rfl := Except.ok.inj h
        exact truthful_of_stop hindent hread fun _ => Script.isFixable_of_applied_eq_zero hnone
      · -- the report of the later rounds, with this one counted in
        rw [if_neg hnone] at h
        cases hrest : repairWithin settings passes (s.repaired settings) with
        | error e =>
            rw [hrest] at h
            cases h
        | ok rest =>
            rw [hrest] at h
            obtain rfl := Except.ok.inj h
            obtain ⟨hremaining, hle, happlied, _, hcured⟩ := ih hrest
            refine ⟨hremaining, ?_, ?_, ?_, ?_⟩
            · show rest.passes + 1 ≤ passes + 1
              omega
            · show rest.passes + 1 ≤ rest.applied + (s.applyFixes (s.flaws settings)).applied
              omega
            · intro hzero
              exact absurd hzero (Nat.succ_ne_zero _)
            · intro hlt
              exact hcured (Nat.lt_of_succ_lt_succ hlt)

/-- A repair of a text without anything to cure leaves it alone. -/
theorem repair_of_cured (hindent : 1 ≤ settings.indent)
    (h : Script.read settings.tabWidth text = .ok s)
    (hcured : ∀ f ∈ s.flaws settings, f.isFixable = false) :
    repair text settings = .ok ⟨text, 0, 0, s.flaws settings⟩ := by
  have hnone : (s.applyFixes (s.flaws settings)).applied = 0 := by
    by_contra hsome
    obtain ⟨f, hf, hfix⟩ := List.any_eq_true.mp (any_isFixable_of_applied hsome)
    rw [hcured f hf] at hfix
    cases hfix
  show repairWithin settings (7 + 1) text = _
  rw [repairWithin_succ hindent h, if_pos hnone]

/-- **The report of a repair is truthful and stable.**  The findings it comes with are those on
the text it leaves, no more rounds are made than allowed, every round makes an edit, and without
a round the text stays.  If rounds are left over, no finding can be cured any more, and a second
repair leaves the text and its findings alone. -/
theorem repair_report_truthful (h : repair text settings = .ok r) :
    checkText r.source settings = .ok r.remaining
      ∧ r.passes ≤ maxPasses
      ∧ r.passes ≤ r.applied
      ∧ (r.passes = 0 → r.source = text)
      ∧ (r.passes < maxPasses →
          (∀ f ∈ r.remaining, f.isFixable = false)
            ∧ repair r.source settings = .ok ⟨r.source, 0, 0, r.remaining⟩) := by
  have htrue := repairWithin_report maxPasses h
  refine ⟨htrue.remaining, htrue.passes_le, htrue.passes_le_applied, htrue.untouched, ?_⟩
  intro hlt
  have hcured := htrue.exhausted hlt
  refine ⟨hcured, ?_⟩
  -- the text that is left can be read, for it was checked
  have hindent := (read_of_repairWithin h).1
  cases hread : Script.read settings.tabWidth r.source with
  | error e =>
      have hcheck := htrue.remaining
      unfold checkText at hcheck
      rw [Settings.validate_eq_ok hindent, hread] at hcheck
      cases hcheck
  | ok s =>
      have hflaws : s.flaws settings = r.remaining := by
        have hcheck := htrue.remaining
        rw [checkText_of_read hindent hread] at hcheck
        exact Except.ok.inj hcheck
      rw [← hflaws] at hcured ⊢
      exact repair_of_cured hindent hread hcured

/-- A switch whose one case is badly written, and which has no `default`: one round of three
edits, and one finding that no edit cures. -/
theorem repair_report_truthful_missing_default :
    let text := "switch ($x) \x7b\n    CASE  1 :\n        break;\n\x7d\n"
    let r : Report :=
      { source := "switch ($x) \x7b\n    case 1:\n        break;\n\x7d\n"
        passes := 1
        applied := 3
        remaining := [Violation.missingDefault.finding SwitchBody.ruleName
          ⟨.switchKw, "switch", .origin, 0⟩ none] }
    repair text .standard = .ok r
      ∧ (checkText r.source .standard = .ok r.remaining
        ∧ r.passes ≤ maxPasses
        ∧ r.passes ≤ r.applied
        ∧ (r.passes = 0 → r.source = text)
        ∧ (r.passes < maxPasses →
            (∀ f ∈ r.remaining, f.isFixable = false)
              ∧ repair r.source .standard = .ok ⟨r.source, 0, 0, r.remaining⟩)) := by
  intro text r
  have h : repair text .standard = .ok r := by decide +kernel
  exact ⟨h, repair_report_truthful h⟩

end Loop

end SwitchLayout
