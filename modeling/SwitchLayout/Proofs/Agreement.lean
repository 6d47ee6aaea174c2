/-
  SwitchLayout.Proofs.Agreement
  ─────────────────────────────
  **The two rules give no contrary advice.**

  Both rules look at the column of a closer, each from a point of its own.  The rule on switches
  measures from the keyword of the switch, two levels in for the statement that ends a case and none
  for the brace; the rule on closers measures from the start of the line of the condition.  Each is
  brought to an equation between columns first, over any table whose scopes end in the script:

    • `SwitchBody.exists_breakIndent_iff`, `SwitchBody.exists_closeBraceAlign_iff` — the rule on
      switches,
    • `ScopeEnd.exists_caseCloserIndent_iff`, `ScopeEnd.exists_closeBraceIndent_iff` — the rule on
      closers, where the closer does not share its line.

  For a condition that starts its line, and a case in the column due to it, the equations are the
  same: `checkers_agree`.
-/
import SwitchLayout.Proofs.ClosingLines

namespace SwitchLayout

/-! ## §1. The rule on switches. -/

namespace SwitchBody

variable {b : SwitchBody} {i : Nat} {f : Finding} {label : Scope}

/-- What is found on the end of a case is found on its switch. -/
theorem mem_branchFindings_of_caseEnd {is : List Nat} (hi : i ∈ is)
    (hkind : b.script.kindAt i = .caseKw) (hlabel : b.table.scopeOf? i = some label)
    (hf : f ∈ b.caseEndFindings i label) (seen : Bool) : f ∈ b.branchFindings seen is := by
  induction is generalizing seen with
  | nil => cases hi
  | cons j is ih =>
      unfold branchFindings
      rcases List.mem_cons.mp hi with rfl | hi
      · have hcase : ¬ b.isDefault i = true := by
          unfold isDefault
          rw [hkind]
          decide
        rw [if_neg hcase]
        refine List.mem_append_left _ ?_
        unfold caseFindings
        rw [hlabel]
        exact List.mem_append_right _ (List.mem_append_left _ (List.mem_append_right _ hf))
      · split
        · exact List.mem_append_right _ (ih hi true)
        · exact List.mem_append_right _ (ih hi seen)

theorem mem_breakIndentFindings_iff {closer : Nat} :
    f ∈ b.breakIndentFindings closer ↔ b.script.columnAt closer ≠ b.breakColumn
      ∧ f = b.report (.breakIndent b.indent) closer (b.indentFix? closer b.breakColumn) := by
  unfold breakIndentFindings
  split <;> simp_all

/-- **The statement that ends a case is reported exactly if it is not in its column.**  Whichever
case of the switch the finding came from, it is about this statement. -/
theorem exists_breakIndent_iff (hbounds : b.table.checkBounds b.script.size = .ok ())
    (hi : i ∈ b.branches) (hkind : b.script.kindAt i = .caseKw)
    (hlabel : b.table.scopeOf? i = some label) (howner : b.table.isOwner i label.closer = true)
    (hleaves : (b.script.kindAt label.closer).isTerminator = true) :
    (∃ f ∈ b.findings, f.code = .breakIndent ∧ f.position = label.closer)
      ↔ b.script.columnAt label.closer ≠ b.breakColumn := by
  constructor
  · rintro ⟨f, hf, hcode, hposition⟩
    obtain ⟨j, _, _, other, hother, _, _, hfound | ⟨x, _, rfl⟩⟩ :=
      caseEnd_of_findings (.inr hcode) hf
    · -- another case may have reported it, but the position tells the statement
      obtain ⟨hcolumn, rfl⟩ := mem_breakIndentFindings_iff.mp hfound
      have hsame : other.closer = label.closer := by
        rw [← Script.position_tokenAt_of_lt (closer_lt_of_checkBounds hbounds hother)]
        exact hposition
      rwa [hsame] at hcolumn
    · cases hcode
  · intro hcolumn
    refine ⟨b.report (.breakIndent b.indent) label.closer
        (b.indentFix? label.closer b.breakColumn), ?_, rfl,
      Script.position_tokenAt_of_lt (closer_lt_of_checkBounds hbounds hlabel)⟩
    rw [findings_eq]
    refine List.mem_append_left _ (mem_branchFindings_of_caseEnd hi hkind hlabel ?_ false)
    unfold caseEndFindings
    dsimp only
    rw [hleaves, howner, Bool.true_and, if_pos rfl, List.append_assoc, List.append_assoc]
    exact List.mem_append_left _ (mem_breakIndentFindings_iff.mpr ⟨hcolumn, rfl⟩)

/-- **The brace of a switch is reported exactly if it is not in the column of the keyword.** -/
theorem exists_closeBraceAlign_iff (hcloser : b.scope.closer < b.script.size) :
    (∃ f ∈ b.findings, f.code = .closeBraceAlign ∧ f.position = b.scope.closer)
      ↔ b.script.columnAt b.scope.closer ≠ b.script.columnAt b.scope.condition := by
  constructor
  · rintro ⟨f, hf, hcode, _⟩
    rw [findings_eq, List.mem_append, List.mem_append, List.mem_append] at hf
    rcases hf with hf | (hf | hf) | hf
    · -- what is found on a branch is not about the brace
      obtain ⟨_, _, hconcerns⟩ := concerns_of_branchFindings hf
      refine absurd ?_ hconcerns.site_ne.2
      rw [hcode]
      rfl
    · rw [eq_report_of_mem hf] at hcode
      cases hcode
    · unfold reportIf at hf
      split at hf
      · rename_i hcolumn
        simpa using hcolumn
      · cases hf
    · rw [eq_report_of_mem hf] at hcode
      cases hcode
  · intro hcolumn
    refine ⟨b.report .closeBraceAlign b.scope.closer none, ?_, rfl,
      Script.position_tokenAt_of_lt hcloser⟩
    rw [findings_eq]
    refine List.mem_append_right _ (List.mem_append_left _ (List.mem_append_right _ ?_))
    unfold reportIf
    rw [if_pos (by simpa using hcolumn)]
    exact List.mem_singleton_self _

end SwitchBody

/-! ## §2. The rule on closers. -/

namespace ScopeEnd

variable {s : Script} {table : ScopeTable} {settings : Settings} {k : Nat} {scope : Scope}

/-- Whatever is found points at the closer. -/
theorem exists_mem_check_at_iff (hbounds : table.checkBounds s.size = .ok ())
    (hscope : table.scopeOf? k = some scope) (howner : table.isOwner k scope.closer = true)
    {code : Code} :
    (∃ f ∈ check s table settings k, f.code = code ∧ f.position = scope.closer)
      ↔ (violation? s settings.indent scope).map Violation.code = some code := by
  rw [← exists_mem_check_iff hscope howner, check_of_isOwner hscope howner]
  have hposition := Script.position_tokenAt_of_lt (closer_lt_of_checkBounds hbounds hscope)
  constructor
  · rintro ⟨f, hf, hcode, _⟩
    exact ⟨f, hf, hcode⟩
  · rintro ⟨f, hf, hcode⟩
    obtain ⟨v, _, rfl⟩ := List.mem_map.mp hf
    exact ⟨_, hf, hcode, hposition⟩

/-- The column from which a closer is measured, where it is known what starts the line. -/
theorem startColumn_of_lineStart? {i x : Nat} (h : s.lineStart? i = some x) :
    startColumn s i = s.columnAt x := by
  unfold startColumn
  rw [h]
  rfl

/-- **The closer of a branch** that starts its line. -/
theorem exists_caseCloserIndent_iff (hbounds : table.checkBounds s.size = .ok ())
    (hscope : table.scopeOf? k = some scope) (howner : table.isOwner k scope.closer = true)
    (hcondition : scope.condition = k) (hbranch : (s.kindAt k).isBranch = true)
    (hfirst : s.lineStart? k = some k)
    (hline : s.endLineAt (lastContent s scope) ≠ s.lineAt scope.closer) :
    (∃ f ∈ check s table settings k, f.code = .caseCloserIndent ∧ f.position = scope.closer)
      ↔ s.columnAt scope.closer ≠ s.columnAt k + settings.indent := by
  rw [exists_mem_check_at_iff hbounds hscope howner, code_violation?, if_neg hline, hcondition,
    if_pos hbranch, startColumn_of_lineStart? hfirst]
  split <;> simp_all

/-- **The closer of any other scope** whose condition starts its line. -/
theorem exists_closeBraceIndent_iff (hbounds : table.checkBounds s.size = .ok ())
    (hscope : table.scopeOf? k = some scope) (howner : table.isOwner k scope.closer = true)
    (hcondition : scope.condition = k) (hbranch : (s.kindAt k).isBranch = false)
    (hfirst : s.lineStart? k = some k)
    (hline : s.endLineAt (lastContent s scope) ≠ s.lineAt scope.closer) :
    (∃ f ∈ check s table settings k, f.code = .closeBraceIndent ∧ f.position = scope.closer)
      ↔ s.columnAt scope.closer ≠ s.columnAt k := by
  rw [exists_mem_check_at_iff hbounds hscope howner, code_violation?, if_neg hline, hcondition,
    if_neg (by rw [hbranch]; decide), startColumn_of_lineStart? hfirst]
  split <;> simp_all

end ScopeEnd

/-! ## §3. Agreement. -/

/-- **The two rules agree on what is well placed.**  Over any table that was built and fits the
script, take a switch at `k`.  For a case of it that stands first on its line and in its column, and
that owns the statement at which it ends, on a line that no code before it reaches: the rule on
switches finds the statement out of its column exactly if the rule on closers does.  And so for the
brace of a switch that stands first on its line and owns it. -/
theorem checkers_agree {s : Script} {table : ScopeTable} {settings : Settings} {k : Nat}
    {scope : Scope} (htable : table.Built) (hbounds : table.checkBounds s.size = .ok ())
    (hswitch : s.kindAt k = .switchKw) (hscope : table.scopeOf? k = some scope) :
    (∀ i label, i ∈ (SwitchBody.mk s table scope settings.indent).branches →
        s.kindAt i = .caseKw → table.scopeOf? i = some label →
        s.columnAt i = s.columnAt k + settings.indent → s.lineStart? i = some i →
        table.isOwner i label.closer = true → (s.kindAt label.closer).isTerminator = true →
        s.endLineAt (ScopeEnd.lastContent s label) ≠ s.lineAt label.closer →
        ((∃ f ∈ SwitchBody.check s table settings k,
            f.code = .breakIndent ∧ f.position = label.closer)
          ↔ ∃ f ∈ ScopeEnd.check s table settings i,
              f.code = .caseCloserIndent ∧ f.position = label.closer))
      ∧ (s.lineStart? k = some k → table.isOwner k scope.closer = true →
          s.endLineAt (ScopeEnd.lastContent s scope) ≠ s.lineAt scope.closer →
          ((∃ f ∈ SwitchBody.check s table settings k,
              f.code = .closeBraceAlign ∧ f.position = scope.closer)
            ↔ ∃ f ∈ ScopeEnd.check s table settings k,
                f.code = .closeBraceIndent ∧ f.position = scope.closer)) := by
  have hordered := ScopeTable.ordered_of_built htable
  have hcondition : scope.condition = k := (hordered.scopes hscope).1
  have hcheck : SwitchBody.check s table settings k
      = (SwitchBody.mk s table scope settings.indent).findings := by
    rw [SwitchBody.check, hscope]
  rw [hcheck]
  refine ⟨fun i label hi hkind hlabel hcolumn hfirst howner hleaves hline => ?_,
    fun hfirst howner hline => ?_⟩
  · -- a case in its column makes the two points to measure from one
    have hbreak : (SwitchBody.mk s table scope settings.indent).breakColumn
        = s.columnAt i + settings.indent := by
      rw [hcolumn, ← hcondition]
      rfl
    rw [ScopeEnd.exists_caseCloserIndent_iff hbounds hlabel howner (hordered.scopes hlabel).1
      (by rw [hkind]; rfl) hfirst hline, ← hbreak]
    exact SwitchBody.exists_breakIndent_iff hbounds hi hkind hlabel howner hleaves
  · rw [ScopeEnd.exists_closeBraceIndent_iff hbounds hscope howner hcondition
      (by rw [hswitch]; rfl) hfirst hline, ← hcondition]
    exact SwitchBody.exists_closeBraceAlign_iff (closer_lt_of_checkBounds hbounds hscope)

/-- Two cases end in one `break`, which the table gives to the first of them.  The `break` and the
brace are out of their columns, and both rules say so. -/
theorem checkers_agree_shared_closer :
    let settings := Settings.standard
    let s := Script.ofText 4
      "switch ($x) \x7b\n    case 1:\n    case 2:\n      break;\n  \x7d\n"
    let scopes := ScopeTable.empty.insertAccepted [⟨0, 6, 25⟩, ⟨15, 18, 21⟩, ⟨9, 12, 21⟩]
    let table : ScopeTable := { scopes with owners := scopes.owners.insert 21 9 }
    (table.Built ∧ table.checkBounds s.size = .ok () ∧ s.kindAt 0 = .switchKw
        ∧ table.scopeOf? 0 = some ⟨0, 6, 25⟩)
      ∧ (∃ f ∈ SwitchBody.check s table settings 0, f.code = .breakIndent ∧ f.position = 21)
      ∧ (∃ f ∈ ScopeEnd.check s table settings 9, f.code = .caseCloserIndent ∧ f.position = 21)
      ∧ (∃ f ∈ SwitchBody.check s table settings 0, f.code = .closeBraceAlign ∧ f.position = 25)
      ∧ ∃ f ∈ ScopeEnd.check s table settings 0, f.code = .closeBraceIndent ∧ f.position = 25 := by
  intro settings s scopes table
  have hset : scopes.setOwner 21 9 = .ok table := if_pos (by decide +kernel)
  have htable : table.Built := .setOwner (ScopeTable.built_insertAccepted _ .empty) hset
  obtain ⟨hbounds, hswitch, hscope, hbranch, hkind, hlabel, hcolumn, hfirst, howner, hleaves, hline,
      hfirst', howner', hline', hbreak, halign⟩ :
      table.checkBounds s.size = .ok () ∧ s.kindAt 0 = .switchKw
        ∧ table.scopeOf? 0 = some ⟨0, 6, 25⟩
        ∧ 9 ∈ (SwitchBody.mk s table ⟨0, 6, 25⟩ settings.indent).branches ∧ s.kindAt 9 = .caseKw
        ∧ table.scopeOf? 9 = some ⟨9, 12, 21⟩ ∧ s.columnAt 9 = s.columnAt 0 + settings.indent
        ∧ s.lineStart? 9 = some 9 ∧ table.isOwner 9 21 = true
        ∧ (s.kindAt 21).isTerminator = true
        ∧ s.endLineAt (ScopeEnd.lastContent s ⟨9, 12, 21⟩) ≠ s.lineAt 21
        ∧ s.lineStart? 0 = some 0 ∧ table.isOwner 0 25 = true
        ∧ s.endLineAt (ScopeEnd.lastContent s ⟨0, 6, 25⟩) ≠ s.lineAt 25
        ∧ (∃ f ∈ SwitchBody.check s table settings 0, f.code = .breakIndent ∧ f.position = 21)
        ∧ ∃ f ∈ SwitchBody.check s table settings 0,
            f.code = .closeBraceAlign ∧ f.position = 25 := by
    decide +kernel
  obtain ⟨hcase, hbrace⟩ := @checkers_agree s table settings 0 _ htable hbounds hswitch hscope
  have hcloser := hcase 9 _ hbranch hkind hlabel hcolumn hfirst howner hleaves hline
  exact ⟨⟨htable, hbounds, hswitch, hscope⟩, hbreak, hcloser.mp hbreak, halign,
    (hbrace hfirst' howner' hline').mp halign⟩

end SwitchLayout
