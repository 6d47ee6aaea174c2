/-
  SwitchLayout.Proofs.Rounds
  ──────────────────────────
  **The rounds of a repair, one at a time.**

  With settings that can be used, a script that was read always gives findings, for the table
  of its own scopes fits it (`check_scopeTable`).  `flaws` names them, `selection` the edits
  that a round makes of them and `repaired` the text it leaves.  In these terms the loop reads:

    • `repairWithin_of_error` — a text that cannot be read ends it,
    • `repairWithin_zero` — no rounds left, the text stays,
    • `repairWithin_succ` — a round without edits ends it, any other hands its text on.
-/
import SwitchLayout.Proofs.Fixes

namespace SwitchLayout

open Text

/-! ## §1. The findings on a script. -/

theorem mem_sortByPosition (f : Finding) (fs : List Finding) : f ∈ sortByPosition fs ↔ f ∈ fs := by
  induction fs with
  | nil => rfl
  | cons g fs ih =>
      show f ∈ placeByPosition g (sortByPosition fs) ↔ f ∈ g :: fs
      rw [mem_placeByPosition, ih, List.mem_cons]

theorem Settings.validate_eq_ok {settings : Settings} (h : 1 ≤ settings.indent) :
    settings.validate = .ok () := by
  unfold Settings.validate
  rw [if_neg (by omega)]

namespace Script

/-- The findings on a script with the scopes found in it. -/
def flaws (s : Script) (settings : Settings) : List Finding :=
  sortByPosition
    ((Ruleset.standard.findings s s.scopeTable settings).filter (!settings.suppresses ·))

theorem mem_flaws_iff {s : Script} {settings : Settings} {f : Finding} :
    f ∈ s.flaws settings ↔
      f ∈ Ruleset.standard.findings s s.scopeTable settings
        ∧ settings.suppresses f = false := by
  unfold flaws
  rw [mem_sortByPosition, List.mem_filter, Bool.not_eq_true']

/-- **A script that was read is always checked to the end.** -/
theorem check_scopeTable (s : Script) {settings : Settings} (h : 1 ≤ settings.indent) :
    s.check s.scopeTable settings = .ok (s.flaws settings) := by
  unfold check Ruleset.run
  rw [Settings.validate_eq_ok h, checkBounds_scopeTable s]
  rfl

/-! ## §2. One round. -/

/-- The edits that a round makes on a script. -/
def selection (s : Script) (settings : Settings) : Selection :=
  ((s.flaws settings).filterMap Finding.fix).foldl (Selection.add s) .start

/-- The text that a round leaves. -/
def repaired (s : Script) (settings : Settings) : String :=
  (s.applyFixes (s.flaws settings)).source

theorem toList_repaired (s : Script) (settings : Settings) :
    (s.repaired settings).toList
      = (s.tokens.toList.map (s.selection settings).textOf).flatten := by
  show (String.ofList (s.tokens.toList.flatMap (s.selection settings).textOf)).toList = _
  rw [String.toList_ofList, List.flatMap_def]

/-- An edit that a round makes is proposed by a finding, for a token that it fits. -/
theorem selection_eq_some {s : Script} {settings : Settings} {p : Nat} {e : Edit}
    (h : (s.selection settings).chosen[p]? = some e) :
    e.position = p ∧ Selection.fits s e = true ∧ ∃ f ∈ s.flaws settings, f.fix = some e := by
  unfold selection at h
  rw [Selection.getElem?_chosen] at h
  have hsuits := List.find?_some h
  unfold Selection.Suits at hsuits
  rw [Bool.and_eq_true, beq_iff_eq] at hsuits
  obtain ⟨f, hf, hfix⟩ := List.mem_filterMap.mp (List.mem_of_find?_eq_some h)
  exact ⟨hsuits.1, hsuits.2, f, hf, hfix⟩

/-- The text that a round gives to the token at a position. -/
theorem textOf_eq {s : Script} {sel : Selection} {p : Nat} {t : Token} (ht : s.get? p = some t) :
    sel.textOf t = match sel.chosen[p]? with
      | some e => e.apply t
      | none => t.chars := by
  show (match sel.chosen[t.position]? with
    | some e => e.apply t
    | none => t.chars) = _
  rw [position_of_get? ht]

/-- A round without edits leaves every token as it is. -/
theorem textOf_of_applied_eq_zero {s : Script} {settings : Settings}
    (h : (s.applyFixes (s.flaws settings)).applied = 0) (t : Token) :
    (s.selection settings).textOf t = t.chars := by
  change (s.selection settings).chosen.size = 0 at h
  have hempty : (s.selection settings).chosen = ∅ := by
    rw [Std.ExtTreeMap.eq_empty_iff_size_eq_zero]
    exact h
  unfold Selection.textOf
  rw [hempty, Std.ExtTreeMap.getElem?_empty]

/-- A round without edits leaves the text as it is. -/
theorem repaired_of_applied_eq_zero {s : Script} {settings : Settings}
    (h : (s.applyFixes (s.flaws settings)).applied = 0) : s.repaired settings = s.source := by
  rw [← String.toList_inj, toList_repaired]
  unfold source
  rw [String.toList_ofList, List.flatMap_def]
  refine congrArg List.flatten (List.map_congr_left fun t _ => ?_)
  exact textOf_of_applied_eq_zero h t

end Script

/-! ## §3. The loop. -/

section Loop

variable {settings : Settings} {text : String} {s : Script}

theorem repairWithin_of_error {e : LexError} (h : Script.read settings.tabWidth text = .error e)
    (passes : Nat) : repairWithin settings passes text = .error (.lex e) := by
  cases passes <;> (rw [repairWithin, h]; rfl)

theorem repairWithin_zero (hindent : 1 ≤ settings.indent)
    (h : Script.read settings.tabWidth text = .ok s) :
    repairWithin settings 0 text = .ok ⟨text, 0, 0, s.flaws settings⟩ := by
  rw [repairWithin, h]
  show (s.check s.scopeTable settings >>= _) = _
  rw [s.check_scopeTable hindent]
  rfl

theorem any_isFixable_of_applied {settings : Settings} {s : Script}
    (h : (s.applyFixes (s.flaws settings)).applied ≠ 0) :
    (s.flaws settings).any Finding.isFixable = true := by
  rw [← Bool.not_eq_false]
  intro hnone
  refine h ?_
  -- without a fix there is nothing to choose
  have hfixes : (s.flaws settings).filterMap Finding.fix = [] := by
    rw [List.filterMap_eq_nil_iff]
    intro f hf
    rw [List.any_eq_false] at hnone
    have hfix := hnone f hf
    unfold Finding.isFixable at hfix
    simpa using hfix
  unfold Script.applyFixes Script.applyEdits
  rw [hfixes]
  rfl

/-- **One turn of the loop.** -/
theorem repairWithin_succ (hindent : 1 ≤ settings.indent)
    (h : Script.read settings.tabWidth text = .ok s) (passes : Nat) :
    repairWithin settings (passes + 1) text =
      if (s.applyFixes (s.flaws settings)).applied = 0 then .ok ⟨text, 0, 0, s.flaws settings⟩
      else (repairWithin settings passes (s.repaired settings)).map fun rest =>
        { rest with
          passes := rest.passes + 1
          applied := rest.applied + (s.applyFixes (s.flaws settings)).applied } := by
  rw [repairWithin, h]
  show (s.check s.scopeTable settings >>= _) = _
  rw [s.check_scopeTable hindent]
  show (if _ then _ else _) = _
  by_cases hnone : (s.applyFixes (s.flaws settings)).applied = 0
  · rw [if_pos (by simp [hnone]), if_pos hnone]
    rfl
  · rw [if_neg (by simp [hnone, any_isFixable_of_applied hnone]), if_neg hnone]
    show (repairWithin settings passes (s.repaired settings) >>= _) = _
    cases repairWithin settings passes (s.repaired settings) <;> rfl

end Loop

end SwitchLayout
