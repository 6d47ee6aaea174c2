/-
  SwitchLayout.Proofs.Uniqueness
  ──────────────────────────────
  **Nothing is reported twice.**

  Each switch is looked at in its own turn, and branches that fall through share a closer, so
  the same flaw could be met more than once.  It is not: what is found for a branch points at
  its keyword or at the closer that it owns (`Concerns`), no branch belongs to two switches, and
  no closer to two owners.

    • `nodup_codes_caseFindings`, `nodup_codes_defaultFindings` — on one branch no code comes
      twice,
    • `branchFindings_distinct`, `findings_distinct` — on the branches of a switch, on a switch,
    • `distinct_of_switches` — on two switches,
    • `scopeEnd_distinct` — on the closers of scopes.

  The whole check: `checkText_reports_once`.
-/
import Mathlib.Data.List.Nodup
import SwitchLayout.Proofs.Retouching
import SwitchLayout.Proofs.Stability

namespace SwitchLayout

/-! ## §1. Codes by name. -/

/-- All codes. -/
def Code.all : List Code :=
  [.notLower .caseLabel, .notLower .defaultLabel, .branchIndent .caseLabel,
    .branchIndent .defaultLabel, .spacingAfterCase, .spaceBeforeColon .caseLabel,
    .spaceBeforeColon .defaultLabel, .wrongOpener .caseLabel, .wrongOpener .defaultLabel,
    .breakIndent, .defaultNoBreak, .defaultNotLast, .duplicateDefault, .spacingBeforeBreak,
    .blankLineAfterCase, .multipleBreaks, .silentFallthrough, .missingDefault, .missingCase,
    .closeBraceAlign, .closeBraceLine, .closeBraceIndent, .caseCloserIndent]

theorem Code.mem_all (code : Code) : code ∈ Code.all := by
  cases code with
  | notLower branch | branchIndent branch | spaceBeforeColon branch | wrongOpener branch =>
      cases branch <;> decide
  | _ => decide

theorem Code.nodup_names : (Code.all.map Code.name).Nodup := by
  decide +kernel

/-- A short name belongs to one code. -/
theorem Code.name_injective : Function.Injective Code.name := fun code code' h =>
  List.inj_on_of_nodup_map nodup_names (mem_all code) (mem_all code') h

/-! ## §2. Findings that differ. -/

namespace Finding

/-- The findings differ in the rule, the code or the position, a second `break` apart, and two of
the rule on closers in their positions. -/
structure Distinct (f g : Finding) : Prop where
  content : f.rule = g.rule → f.code = g.code → f.position = g.position →
    f.code = .multipleBreaks
  closer : f.rule = ScopeEnd.ruleName → g.rule = ScopeEnd.ruleName → f.position ≠ g.position

theorem Distinct.symm {f g : Finding} (h : f.Distinct g) : g.Distinct f where
  content := fun hrule hcode hposition =>
    hcode.trans (h.content hrule.symm hcode.symm hposition.symm)
  closer := fun hg hf heq => h.closer hf hg heq.symm

/-- Findings of two rules differ. -/
theorem distinct_of_rule {f g : Finding} (hf : f.rule = SwitchBody.ruleName)
    (hg : g.rule = ScopeEnd.ruleName) : f.Distinct g where
  content := fun hrule _ _ => by
    rw [hf, hg] at hrule
    exact absurd hrule (by decide)
  closer := fun hrule _ => by
    rw [hf] at hrule
    exact absurd hrule (by decide)

/-- Two findings on switches differ as soon as their codes or their positions do. -/
theorem distinct_of_content {f g : Finding} (hf : f.rule = SwitchBody.ruleName)
    (h : f.code = g.code → f.position = g.position → f.code = .multipleBreaks) :
    f.Distinct g where
  content := fun _ => h
  closer := fun hrule _ => by
    rw [hf] at hrule
    exact absurd hrule (by decide)

end Finding

open Finding

/-! ## §3. One branch. -/

namespace SwitchBody

variable {b : SwitchBody} {i : Nat} {f g : Finding}

theorem codes_reportIf (b : SwitchBody) (found : Bool) (v : Violation) (i : Nat) :
    ((b.reportIf found v i).map Finding.code).Sublist [v.code] := by
  unfold reportIf
  split
  · exact List.Sublist.refl _
  · exact List.nil_sublist _

/-- The keyword of a branch is reported with each of its codes once at most, -/
theorem codes_labelFindings (b : SwitchBody) (branch : Branch) (i : Nat) :
    ((b.labelFindings branch i).map Finding.code).Sublist
      ([.notLower branch] ++ [.branchIndent branch]
        ++ (if branch = .caseLabel then [.spacingAfterCase] else [])) := by
  unfold labelFindings
  rw [List.map_append, List.map_append]
  refine .append (.append ?_ (codes_reportIf b _ _ i)) ?_
  · unfold casingFindings
    dsimp only
    split
    · exact List.nil_sublist _
    · exact .refl _
  · split
    · unfold caseSpacingFindings
      split
      · exact List.nil_sublist _
      · exact .refl _
    · exact List.nil_sublist _

/-- so is its opener, -/
theorem codes_openerFindings (b : SwitchBody) (branch : Branch) (i : Nat) (scope : Scope) :
    ((b.openerFindings branch i scope).map Finding.code).Sublist
      [.spaceBeforeColon branch, .wrongOpener branch] := by
  have hwrong : [Code.wrongOpener branch].Sublist [.spaceBeforeColon branch, .wrongOpener branch] :=
    .cons _ (.refl _)
  unfold openerFindings
  dsimp only
  split
  · split
    · exact .cons_cons _ (List.nil_sublist _)
    · exact List.nil_sublist _
  · split
    · exact hwrong
    · exact hwrong

/-- the end of a case, -/
theorem codes_caseEndFindings (b : SwitchBody) (i : Nat) (scope : Scope) :
    ((b.caseEndFindings i scope).map Finding.code).Sublist
      ([.breakIndent] ++ [.spacingBeforeBreak] ++ [.multipleBreaks] ++ [.blankLineAfterCase]) := by
  unfold caseEndFindings
  dsimp only
  split
  · rw [List.map_append, List.map_append, List.map_append]
    refine .append (.append (.append ?_ (codes_reportIf b _ _ _)) ?_) (codes_reportIf b _ _ _)
    · unfold breakIndentFindings
      split
      · exact List.nil_sublist _
      · exact .refl _
    · cases b.secondBreak? scope.closer with
      | none => exact List.nil_sublist _
      | some j => exact .refl _
  · exact List.nil_sublist _

theorem codes_fallthroughFindings (b : SwitchBody) (i : Nat) (scope : Scope) (next : Option Nat) :
    ((b.fallthroughFindings i scope next).map Finding.code).Sublist [.silentFallthrough] := by
  unfold fallthroughFindings
  split
  · exact List.nil_sublist _
  · exact codes_reportIf b _ _ i

/-- and the end of a `default`. -/
theorem codes_defaultEndFindings (b : SwitchBody) (i : Nat) (scope : Scope) :
    ((b.defaultEndFindings i scope).map Finding.code).Sublist
      ([.defaultNoBreak] ++ [.defaultNotLast]) := by
  unfold defaultEndFindings
  dsimp only
  split
  · exact .cons_cons _ (List.nil_sublist _)
  · exact (codes_reportIf b _ _ i).trans (List.sublist_append_right _ _)

/-- The codes of the findings on a `case`, in the order in which they are made. -/
def caseCodes : List Code :=
  [.notLower .caseLabel, .branchIndent .caseLabel, .spacingAfterCase,
    .spaceBeforeColon .caseLabel, .wrongOpener .caseLabel, .breakIndent, .spacingBeforeBreak,
    .multipleBreaks, .blankLineAfterCase, .silentFallthrough]

/-- The codes of the findings on a `default`, in the order in which they are made. -/
def defaultCodes : List Code :=
  [.duplicateDefault, .notLower .defaultLabel, .branchIndent .defaultLabel,
    .spaceBeforeColon .defaultLabel, .wrongOpener .defaultLabel, .defaultNoBreak, .defaultNotLast]

/-- All codes of a case, in the order in which they are reported. -/
theorem codes_caseFindings (b : SwitchBody) (i : Nat) (next : Option Nat) :
    ((b.caseFindings i next).map Finding.code).Sublist caseCodes := by
  have hlabel := codes_labelFindings b .caseLabel i
  unfold caseFindings
  rw [List.map_append]
  split
  · exact hlabel.append (List.nil_sublist _)
  · rename_i scope hscope
    rw [List.map_append, List.map_append]
    exact hlabel.append (((codes_openerFindings b .caseLabel i scope).append
      (codes_caseEndFindings b i scope)).append (codes_fallthroughFindings b i scope next))

/-- All codes of a `default`. -/
theorem codes_defaultFindings (b : SwitchBody) (seen : Bool) (i : Nat) :
    ((b.reportIf seen .duplicateDefault i ++ b.defaultFindings i).map Finding.code).Sublist
      defaultCodes := by
  have hlabel := codes_labelFindings b .defaultLabel i
  have hduplicate := codes_reportIf b seen .duplicateDefault i
  unfold defaultFindings
  rw [List.map_append, List.map_append]
  split
  · exact hduplicate.append (hlabel.append (List.nil_sublist _))
  · rename_i scope hscope
    rw [List.map_append]
    exact hduplicate.append (hlabel.append ((codes_openerFindings b .defaultLabel i scope).append
      (codes_defaultEndFindings b i scope)))

/-- **On a `case` no code comes twice.** -/
theorem nodup_codes_caseFindings (b : SwitchBody) (i : Nat) (next : Option Nat) :
    ((b.caseFindings i next).map Finding.code).Nodup :=
  (codes_caseFindings b i next).nodup (by decide)

/-- **On a `default` no code comes twice.** -/
theorem nodup_codes_defaultFindings (b : SwitchBody) (seen : Bool) (i : Nat) :
    ((b.reportIf seen .duplicateDefault i ++ b.defaultFindings i).map Finding.code).Nodup :=
  (codes_defaultFindings b seen i).nodup (by decide)

end SwitchBody

/-! ## §4. What a finding points at. -/

/-- The tokens at which findings point. -/
inductive Site where
  /-- The keyword of a branch. -/
  | branch
  /-- The statement that ends a case. -/
  | branchEnd
  /-- A `break` behind that statement. -/
  | secondBreak
  /-- The keyword of a switch. -/
  | switch
  /-- The closing brace of a switch. -/
  | switchEnd
  /-- The closer of any scope. -/
  | scopeEnd

/-- Where the findings with this code point. -/
def Code.site : Code → Site
  | notLower _ | branchIndent _ | spacingAfterCase | spaceBeforeColon _ | wrongOpener _
  | defaultNoBreak | defaultNotLast | duplicateDefault | blankLineAfterCase
  | silentFallthrough => .branch
  | breakIndent | spacingBeforeBreak => .branchEnd
  | multipleBreaks => .secondBreak
  | missingDefault | missingCase => .switch
  | closeBraceAlign => .switchEnd
  | closeBraceLine | closeBraceIndent | caseCloserIndent => .scopeEnd

/-- One code alone is about a second `break`. -/
theorem Code.eq_of_secondBreak {code : Code} (h : code.site = .secondBreak) :
    code = .multipleBreaks := by
  cases code <;> first | rfl | cases h

/-- Two findings on switches that point at different sites differ. -/
theorem Finding.distinct_of_site {f g : Finding} (hf : f.rule = SwitchBody.ruleName)
    (h : f.code.site ≠ g.code.site) : f.Distinct g :=
  distinct_of_content hf fun hcode _ => absurd (congrArg Code.site hcode) h

namespace SwitchBody

/-- A finding on the branch at `i`. -/
inductive Concerns (b : SwitchBody) (i : Nat) (f : Finding) : Prop
  /-- It points at the keyword. -/
  | keyword (hrule : f.rule = ruleName) (hsite : f.code.site = .branch)
      (hposition : f.position = (b.script.tokenAt i).position)
  /-- It points at the closer of the branch, and the branch owns it. -/
  | closer {scope : Scope} (hscope : b.table.scopeOf? i = some scope)
      (howner : b.table.isOwner i scope.closer = true) (hrule : f.rule = ruleName)
      (hsite : f.code.site = .branchEnd)
      (hposition : f.position = (b.script.tokenAt scope.closer).position)
  /-- It points at a second `break`. -/
  | second {j : Nat} (hrule : f.rule = ruleName) (hsite : f.code.site = .secondBreak)
      (hposition : f.position = (b.script.tokenAt j).position)

variable {b : SwitchBody} {i : Nat} {f : Finding}

theorem Concerns.rule_eq (h : b.Concerns i f) : f.rule = ruleName := by
  cases h <;> assumption

theorem eq_report_of_mem {found : Bool} {v : Violation} {j : Nat} (h : f ∈ b.reportIf found v j) :
    f = b.report v j none := by
  unfold reportIf at h
  split at h
  · exact List.mem_singleton.mp h
  · cases h

theorem concerns_of_reportIf {found : Bool} {v : Violation} (hsite : v.code.site = .branch)
    (h : f ∈ b.reportIf found v i) : b.Concerns i f := by
  rw [eq_report_of_mem h]
  exact .keyword rfl hsite rfl

theorem concerns_of_labelFindings {branch : Branch} (h : f ∈ b.labelFindings branch i) :
    b.Concerns i f := by
  unfold labelFindings at h
  rw [List.mem_append, List.mem_append] at h
  rcases h with (h | h) | h
  · unfold casingFindings at h
    dsimp only at h
    split at h
    · cases h
    · rw [List.mem_singleton.mp h]
      exact .keyword rfl rfl rfl
  · exact concerns_of_reportIf rfl h
  · split at h
    · unfold caseSpacingFindings at h
      split at h
      · cases h
      · rw [List.mem_singleton.mp h]
        exact .keyword rfl rfl rfl
    · cases h

theorem concerns_of_openerFindings {branch : Branch} {scope : Scope}
    (h : f ∈ b.openerFindings branch i scope) : b.Concerns i f := by
  unfold openerFindings at h
  dsimp only at h
  split at h
  · split at h
    · rw [List.mem_singleton.mp h]
      exact .keyword rfl rfl rfl
    · cases h
  · split at h
    · rw [List.mem_singleton.mp h]
      exact .keyword rfl rfl rfl
    · rw [List.mem_singleton.mp h]
      exact .keyword rfl rfl rfl

/-- What is found at the end of a case is about this case: it points at the keyword, at the closer
that the case owns, or behind it. -/
theorem concerns_of_caseEndFindings {scope : Scope} (hscope : b.table.scopeOf? i = some scope)
    (h : f ∈ b.caseEndFindings i scope) : b.Concerns i f := by
  unfold caseEndFindings at h
  dsimp only at h
  split at h
  · rename_i hend
    have howner := (Bool.and_eq_true_iff.mp hend).2
    rw [List.mem_append, List.mem_append, List.mem_append] at h
    rcases h with ((h | h) | h) | h
    · unfold breakIndentFindings at h
      split at h
      · cases h
      · rw [List.mem_singleton.mp h]
        exact .closer hscope howner rfl rfl rfl
    · rw [eq_report_of_mem h]
      exact .closer hscope howner rfl rfl rfl
    · obtain ⟨j, _, rfl⟩ := List.mem_map.mp h
      exact .second rfl rfl rfl
    · exact concerns_of_reportIf rfl h
  · cases h

theorem concerns_of_defaultFindings (h : f ∈ b.defaultFindings i) : b.Concerns i f := by
  unfold defaultFindings at h
  rcases List.mem_append.mp h with h | h
  · exact concerns_of_labelFindings h
  · split at h
    · cases h
    · rcases List.mem_append.mp h with h | h
      · exact concerns_of_openerFindings h
      · unfold defaultEndFindings at h
        dsimp only at h
        split at h
        · rw [List.mem_singleton.mp h]
          exact .keyword rfl rfl rfl
        · exact concerns_of_reportIf rfl h

theorem concerns_of_caseFindings {next : Option Nat} (h : f ∈ b.caseFindings i next) :
    b.Concerns i f := by
  unfold caseFindings at h
  rcases List.mem_append.mp h with h | h
  · exact concerns_of_labelFindings h
  · split at h
    · cases h
    · rename_i scope hscope
      rw [List.mem_append, List.mem_append] at h
      rcases h with (h | h) | h
      · exact concerns_of_openerFindings h
      · exact concerns_of_caseEndFindings hscope h
      · unfold fallthroughFindings at h
        split at h
        · cases h
        · exact concerns_of_reportIf rfl h

/-- Every finding on branches is about one of them. -/
theorem concerns_of_branchFindings {is : List Nat} {seen : Bool}
    (h : f ∈ b.branchFindings seen is) : ∃ j ∈ is, b.Concerns j f := by
  obtain ⟨j, hj, ⟨_, _, hf⟩ | ⟨_, _, hf⟩⟩ := exists_of_mem_branchFindings h
  · rcases List.mem_append.mp hf with hf | hf
    · exact ⟨j, hj, concerns_of_reportIf rfl hf⟩
    · exact ⟨j, hj, concerns_of_defaultFindings hf⟩
  · exact ⟨j, hj, concerns_of_caseFindings hf⟩

end SwitchBody

/-! ## §5. Two branches, one switch. -/

namespace SwitchBody

variable {s : Script} {scope scope' : Scope} {indent i j : Nat} {f g : Finding}

/-- The finding points at the closer that the branch owns. -/
theorem position_of_closer (hscope : s.scopeTable.scopeOf? i = some scope) :
    (s.tokenAt scope.closer).position = scope.closer :=
  Script.position_tokenAt_of_lt
    (Script.ordered_of_mem_detectedScopes (Script.scopeOf?_scopeTable_iff.mp hscope).1).2.2.1

/-- **Findings on two branches differ.**  A branch has its keyword for itself and shares with no
other the closer that it owns. -/
theorem distinct_of_concerns (hi : i < s.size) (hj : j < s.size) (hij : i ≠ j)
    (hf : (s.body indent scope).Concerns i f) (hg : (s.body indent scope').Concerns j g) :
    f.Distinct g := by
  refine distinct_of_content hf.rule_eq fun hcode hposition => ?_
  have hsites : f.code.site = g.code.site := congrArg Code.site hcode
  cases hf with
  | second _ hfsite => exact Code.eq_of_secondBreak hfsite
  | keyword _ hfsite hfposition =>
      cases hg with
      | keyword _ _ hgposition =>
          rw [hfposition, hgposition] at hposition
          change (s.tokenAt i).position = (s.tokenAt j).position at hposition
          rw [Script.position_tokenAt_of_lt hi, Script.position_tokenAt_of_lt hj] at hposition
          exact absurd hposition hij
      | closer _ _ _ hgsite | second _ hgsite =>
          rw [hfsite, hgsite] at hsites
          cases hsites
  | closer hscope howner _ hfsite hfposition =>
      cases hg with
      | closer hscope' howner' _ _ hgposition =>
          -- one closer has one owner
          rw [hfposition, hgposition] at hposition
          change (s.tokenAt _).position = (s.tokenAt _).position at hposition
          rw [position_of_closer hscope, position_of_closer hscope'] at hposition
          rw [hposition] at howner
          exact absurd (Script.eq_of_isOwner howner howner') hij
      | keyword _ hgsite | second _ hgsite =>
          rw [hfsite, hgsite] at hsites
          cases hsites

/-- Findings of one rule are told apart by their codes. -/
theorem pairwise_distinct_of_codes {fs : List Finding} (hrule : ∀ f ∈ fs, f.rule = ruleName)
    (h : (fs.map Finding.code).Nodup) : fs.Pairwise Finding.Distinct := by
  refine (List.pairwise_map.mp h).imp_of_mem fun {f g} hf _ hne => ?_
  exact distinct_of_content (hrule f hf) fun hcode _ => absurd hcode hne

/-- **The branches of a switch.** -/
theorem branchFindings_distinct {is : List Nat} (hsorted : is.Pairwise (· < ·))
    (hsize : ∀ j ∈ is, j < s.size) (seen : Bool) :
    ((s.body indent scope).branchFindings seen is).Pairwise Finding.Distinct := by
  induction is generalizing seen with
  | nil => exact List.Pairwise.nil
  | cons i is ih =>
      obtain ⟨hhead, htail⟩ := List.pairwise_cons.mp hsorted
      have hi := hsize i List.mem_cons_self
      have hsize' : ∀ j ∈ is, j < s.size := fun j hj => hsize j (List.mem_cons_of_mem i hj)
      -- what is found for the first branch differs from what is found below
      have hacross : ∀ {fs : List Finding} {seen : Bool},
          (∀ f ∈ fs, (s.body indent scope).Concerns i f) → ∀ f ∈ fs,
          ∀ g ∈ (s.body indent scope).branchFindings seen is, f.Distinct g := by
        intro fs seen hfs f hf g hg
        obtain ⟨j, hj, hconcerns⟩ := concerns_of_branchFindings hg
        exact distinct_of_concerns hi (hsize' j hj) (Nat.ne_of_lt (hhead j hj)) (hfs f hf) hconcerns
      unfold branchFindings
      split
      · have hfs : ∀ f ∈ (s.body indent scope).reportIf seen .duplicateDefault i
            ++ (s.body indent scope).defaultFindings i, (s.body indent scope).Concerns i f := by
          intro f hf
          rcases List.mem_append.mp hf with hf | hf
          · exact concerns_of_reportIf rfl hf
          · exact concerns_of_defaultFindings hf
        refine List.pairwise_append.mpr ⟨?_, ih htail hsize' true, hacross hfs⟩
        exact pairwise_distinct_of_codes (fun f hf => (hfs f hf).rule_eq)
          (nodup_codes_defaultFindings _ seen i)
      · have hfs : ∀ f ∈ (s.body indent scope).caseFindings i
            (is.find? ((s.body indent scope).script.kindAt · == .caseKw)),
            (s.body indent scope).Concerns i f := fun f => concerns_of_caseFindings
        refine List.pairwise_append.mpr ⟨?_, ih htail hsize' seen, hacross hfs⟩
        exact pairwise_distinct_of_codes (fun f hf => (hfs f hf).rule_eq)
          (nodup_codes_caseFindings _ i _)

/-- A finding on the switch. -/
inductive Belongs (b : SwitchBody) (f : Finding) : Prop
  /-- It is one on a branch. -/
  | branch {i : Nat} (hi : i ∈ b.branches) (h : b.Concerns i f)
  /-- It points at the keyword of the switch. -/
  | keyword (hrule : f.rule = ruleName) (hsite : f.code.site = .switch)
      (hposition : f.position = (b.script.tokenAt b.scope.condition).position)
  /-- It points at the closing brace. -/
  | brace (hrule : f.rule = ruleName) (hsite : f.code.site = .switchEnd)
      (hposition : f.position = (b.script.tokenAt b.scope.closer).position)

theorem Belongs.rule_eq {b : SwitchBody} (h : b.Belongs f) : f.rule = ruleName := by
  cases h with
  | branch _ h => exact h.rule_eq
  | keyword hrule | brace hrule => exact hrule

/-- No finding on a branch points at the keyword or the brace of a switch. -/
theorem Concerns.site_ne {b : SwitchBody} (h : b.Concerns i f) :
    f.code.site ≠ .switch ∧ f.code.site ≠ .switchEnd := by
  cases h with
  | keyword _ hsite | closer _ _ _ hsite | second _ hsite =>
      rw [hsite]
      exact ⟨nofun, nofun⟩

/-- What a switch reports besides its branches. -/
theorem belongs_of_frame {b : SwitchBody} {x y z : Bool}
    (h : f ∈ b.reportIf x .missingDefault b.scope.condition
      ++ b.reportIf y .closeBraceAlign b.scope.closer
      ++ b.reportIf z .missingCase b.scope.condition) :
    b.Belongs f ∧ (f.code.site = .switch ∨ f.code.site = .switchEnd) := by
  rw [List.mem_append, List.mem_append] at h
  rcases h with (h | h) | h
  · rw [eq_report_of_mem h]
    exact ⟨.keyword rfl rfl rfl, .inl rfl⟩
  · rw [eq_report_of_mem h]
    exact ⟨.brace rfl rfl rfl, .inr rfl⟩
  · rw [eq_report_of_mem h]
    exact ⟨.keyword rfl rfl rfl, .inl rfl⟩

theorem belongs_of_branchFindings {b : SwitchBody} {seen : Bool}
    (h : f ∈ b.branchFindings seen b.branches) : b.Belongs f := by
  obtain ⟨i, hi, hconcerns⟩ := concerns_of_branchFindings h
  exact .branch hi hconcerns

theorem findings_eq (b : SwitchBody) :
    b.findings = b.branchFindings false b.branches
      ++ (b.reportIf (!b.branches.any b.isDefault) .missingDefault b.scope.condition
        ++ b.reportIf (b.script.columnAt b.scope.closer != b.script.columnAt b.scope.condition)
            .closeBraceAlign b.scope.closer
        ++ b.reportIf (b.branches.all b.isDefault) .missingCase b.scope.condition) := by
  unfold findings
  simp only [List.append_assoc]

/-- **Every finding on a switch is about it or about one of its branches.** -/
theorem belongs_of_findings {b : SwitchBody} (h : f ∈ b.findings) : b.Belongs f := by
  rw [findings_eq] at h
  rcases List.mem_append.mp h with h | h
  · exact belongs_of_branchFindings h
  · exact (belongs_of_frame h).1

/-- **One switch.** -/
theorem findings_distinct : (s.body indent scope).findings.Pairwise Finding.Distinct := by
  have hbranches := branchesFrom_spec (s.body indent scope) (scope.opener + 1)
  rw [findings_eq]
  refine List.pairwise_append.mpr ⟨?_, ?_, fun f hf g hg => ?_⟩
  · exact branchFindings_distinct hbranches.1 (fun j hj => (hbranches.2 j hj).2.2.1) false
  · refine pairwise_distinct_of_codes (fun f hf => (belongs_of_frame hf).1.rule_eq) ?_
    rw [List.map_append, List.map_append]
    refine (((codes_reportIf _ _ _ _).append (codes_reportIf _ _ _ _)).append
      (codes_reportIf _ _ _ _)).nodup ?_
    decide
  · obtain ⟨i, _, hconcerns⟩ := concerns_of_branchFindings hf
    obtain ⟨hswitch, hend⟩ := hconcerns.site_ne
    refine distinct_of_site hconcerns.rule_eq ?_
    rcases (belongs_of_frame hg).2 with hsite | hsite
    · rw [hsite]
      exact hswitch
    · rw [hsite]
      exact hend

/-! ## §6. Two switches. -/

/-- Two switches do not end at one brace. -/
theorem condition_eq_of_closer_eq (h : s.IsSwitch scope) (h' : s.IsSwitch scope')
    (heq : scope.closer = scope'.closer) : scope.condition = scope'.condition := by
  have hbody := h.bodyScope?
  have hbody' := h'.bodyScope?
  have hgroup := (Script.bodyScope?_eq_some hbody).2.2
  have hgroup' := (Script.bodyScope?_eq_some hbody').2.2
  rw [heq] at hgroup
  exact Script.switch_eq_of_opener_eq h.2 h'.2 hbody hbody' (groupEnd?_inj hgroup hgroup')

/-- **Findings on two switches differ.** -/
theorem distinct_of_belongs (h : s.IsSwitch scope) (h' : s.IsSwitch scope')
    (hne : scope.condition ≠ scope'.condition) (hf : (s.body indent scope).Belongs f)
    (hg : (s.body indent scope').Belongs g) : f.Distinct g := by
  obtain ⟨hco, hoc, hsize, _⟩ := Script.ordered_of_mem_detectedScopes h.1
  obtain ⟨hco', hoc', hsize', _⟩ := Script.ordered_of_mem_detectedScopes h'.1
  refine distinct_of_content hf.rule_eq fun hcode hposition => ?_
  have hsites : f.code.site = g.code.site := congrArg Code.site hcode
  cases hf with
  | @branch i hi hconcerns =>
      cases hg with
      | @branch j hj hconcerns' =>
          have hisize := ((branchesFrom_spec _ _).2 _ hi).2.2.1
          have hjsize := ((branchesFrom_spec _ _).2 _ hj).2.2.1
          -- no branch belongs to both
          have hij : i ≠ j := by
            rintro rfl
            exact hne (congrArg Scope.condition (Script.scope_eq_of_mem_branches h h' hi hj))
          exact (distinct_of_concerns hisize hjsize hij hconcerns hconcerns').content
            (hconcerns.rule_eq.trans hconcerns'.rule_eq.symm) hcode hposition
      | keyword _ hgsite => exact absurd (hsites.trans hgsite) hconcerns.site_ne.1
      | brace _ hgsite => exact absurd (hsites.trans hgsite) hconcerns.site_ne.2
  | keyword _ hfsite hfposition =>
      cases hg with
      | branch _ hconcerns => exact absurd (hsites.symm.trans hfsite) hconcerns.site_ne.1
      | keyword _ _ hgposition =>
          rw [hfposition, hgposition] at hposition
          change (s.tokenAt scope.condition).position = (s.tokenAt scope'.condition).position
            at hposition
          rw [Script.position_tokenAt_of_lt (by omega), Script.position_tokenAt_of_lt (by omega)]
            at hposition
          exact absurd hposition hne
      | brace _ hgsite =>
          rw [hfsite, hgsite] at hsites
          cases hsites
  | brace _ hfsite hfposition =>
      cases hg with
      | branch _ hconcerns => exact absurd (hsites.symm.trans hfsite) hconcerns.site_ne.2
      | keyword _ hgsite =>
          rw [hfsite, hgsite] at hsites
          cases hsites
      | brace _ _ hgposition =>
          rw [hfposition, hgposition] at hposition
          change (s.tokenAt scope.closer).position = (s.tokenAt scope'.closer).position
            at hposition
          rw [Script.position_tokenAt_of_lt hsize, Script.position_tokenAt_of_lt hsize']
            at hposition
          exact absurd (condition_eq_of_closer_eq h h' hposition) hne

end SwitchBody

/-! ## §7. The rules. -/

section Rules

variable {s : Script} {settings : Settings} {i : Nat} {f : Finding}

/-- A finding of the rule on switches is one on the switch at which it was looking. -/
theorem mem_switchCheck (hkind : s.kindAt i = .switchKw)
    (h : f ∈ SwitchBody.check s s.scopeTable settings i) :
    ∃ scope, s.IsSwitch scope ∧ scope.condition = i
      ∧ f ∈ (s.body settings.indent scope).findings := by
  unfold SwitchBody.check at h
  split at h
  · cases h
  · rename_i scope hscope
    obtain ⟨hmem, rfl⟩ := Script.scopeOf?_scopeTable_iff.mp hscope
    exact ⟨scope, ⟨hmem, hkind⟩, rfl, h⟩

theorem rule_of_mem_switchBody (h : f ∈ SwitchBody.rule.findings s s.scopeTable settings) :
    f.rule = SwitchBody.ruleName := by
  obtain ⟨i, hi, hf⟩ := List.mem_flatMap.mp h
  have hkind : s.kindAt i = .switchKw := by
    simpa [SwitchBody.rule] using (List.mem_filter.mp hi).2
  obtain ⟨scope, _, _, hf⟩ := mem_switchCheck hkind hf
  exact (SwitchBody.belongs_of_findings hf).rule_eq

/-- **All switches.** -/
theorem switchBody_distinct :
    (SwitchBody.rule.findings s s.scopeTable settings).Pairwise Finding.Distinct := by
  unfold Rule.findings
  refine List.pairwise_flatMap.mpr ⟨fun i _ => ?_, ?_⟩
  · change (SwitchBody.check s s.scopeTable settings i).Pairwise _
    unfold SwitchBody.check
    split
    · exact List.Pairwise.nil
    · exact SwitchBody.findings_distinct
  · have hsorted : ((List.range s.size).filter
        fun i => SwitchBody.rule.kinds.contains (s.kindAt i)).Pairwise (· < ·) :=
      List.pairwise_lt_range.filter _
    refine hsorted.imp_of_mem fun {i j} hi hj hij f hf g hg => ?_
    have hkind : ∀ {k : Nat}, k ∈ (List.range s.size).filter
        (fun i => SwitchBody.rule.kinds.contains (s.kindAt i)) → s.kindAt k = .switchKw := by
      intro k hk
      simpa [SwitchBody.rule] using (List.mem_filter.mp hk).2
    obtain ⟨scope, hswitch, rfl, hmem⟩ := mem_switchCheck (hkind hi) hf
    obtain ⟨scope', hswitch', rfl, hmem'⟩ := mem_switchCheck (hkind hj) hg
    exact SwitchBody.distinct_of_belongs hswitch hswitch' (Nat.ne_of_lt hij)
      (SwitchBody.belongs_of_findings hmem) (SwitchBody.belongs_of_findings hmem')

/-- What is wrong with a closer is reported with a code about closers. -/
theorem site_of_violation? {indent : Nat} {scope : Scope} {v : Violation}
    (h : ScopeEnd.violation? s indent scope = some v) : v.code.site = .scopeEnd := by
  unfold ScopeEnd.violation? at h
  dsimp only at h
  split at h
  · rw [← Option.some.inj h]
    rfl
  · split at h
    · split at h
      · cases h
      · rw [← Option.some.inj h]
        rfl
    · split at h
      · cases h
      · rw [← Option.some.inj h]
        rfl

/-- A finding on a closer points at it, and is made for its owner. -/
theorem mem_scopeEndCheck (h : f ∈ ScopeEnd.check s s.scopeTable settings i) :
    f.rule = ScopeEnd.ruleName ∧ f.code.site = .scopeEnd
      ∧ s.scopeTable.isOwner i f.position = true := by
  unfold ScopeEnd.check at h
  split at h
  · cases h
  · rename_i scope hscope
    split at h
    · rename_i howner
      obtain ⟨v, hv, rfl⟩ := List.mem_map.mp h
      refine ⟨rfl, site_of_violation? (Option.mem_toList.mp hv), ?_⟩
      change s.scopeTable.isOwner i (s.tokenAt scope.closer).position = true
      rw [SwitchBody.position_of_closer hscope]
      exact howner
    · cases h

/-- **The findings of the rule on switches**, told by their codes. -/
theorem Script.mem_standard_iff_switch (hsite : f.code.site ≠ .scopeEnd) :
    f ∈ Ruleset.standard.findings s s.scopeTable settings ↔
      ∃ scope, s.IsSwitch scope ∧ f ∈ (s.body settings.indent scope).findings := by
  have hsplit : f ∈ Ruleset.standard.findings s s.scopeTable settings ↔
      f ∈ SwitchBody.rule.findings s s.scopeTable settings
        ∨ f ∈ ScopeEnd.rule.findings s s.scopeTable settings := by
    unfold Ruleset.findings Ruleset.standard
    simp
  rw [hsplit]
  constructor
  · rintro (h | h)
    · obtain ⟨q, hq, hf⟩ := List.mem_flatMap.mp h
      have hkind : s.kindAt q = .switchKw := by
        simpa [SwitchBody.rule] using (List.mem_filter.mp hq).2
      obtain ⟨scope, hswitch, _, hmem⟩ := mem_switchCheck hkind hf
      exact ⟨scope, hswitch, hmem⟩
    · obtain ⟨i, _, hf⟩ := List.mem_flatMap.mp h
      exact absurd (mem_scopeEndCheck hf).2.1 hsite
  · rintro ⟨scope, hswitch, hmem⟩
    refine .inl (List.mem_flatMap.mpr ⟨scope.condition, ?_, ?_⟩)
    · obtain ⟨hco, hoc, hsize, _⟩ := ordered_of_mem_detectedScopes hswitch.1
      rw [List.mem_filter, List.mem_range]
      refine ⟨by omega, ?_⟩
      rw [hswitch.2]
      rfl
    · change f ∈ SwitchBody.check s s.scopeTable settings scope.condition
      unfold SwitchBody.check
      rw [hswitch.scopeOf?]
      exact hmem

theorem rule_of_mem_scopeEnd (h : f ∈ ScopeEnd.rule.findings s s.scopeTable settings) :
    f.rule = ScopeEnd.ruleName := by
  obtain ⟨i, _, hf⟩ := List.mem_flatMap.mp h
  exact (mem_scopeEndCheck hf).1

/-- **All closers.**  A closer is looked at for its owner alone. -/
theorem scopeEnd_distinct :
    (ScopeEnd.rule.findings s s.scopeTable settings).Pairwise Finding.Distinct := by
  unfold Rule.findings
  refine List.pairwise_flatMap.mpr ⟨fun i _ => ?_, ?_⟩
  · change (ScopeEnd.check s s.scopeTable settings i).Pairwise _
    unfold ScopeEnd.check
    split
    · exact List.Pairwise.nil
    · rename_i scope _
      split
      · cases ScopeEnd.violation? s settings.indent scope with
        | none => exact List.Pairwise.nil
        | some v => exact List.pairwise_singleton _ _
      · exact List.Pairwise.nil
  · have hsorted : ((List.range s.size).filter
        fun i => ScopeEnd.rule.kinds.contains (s.kindAt i)).Pairwise (· < ·) :=
      List.pairwise_lt_range.filter _
    refine hsorted.imp fun {i j} hij f hf g hg => ?_
    have hne : f.position ≠ g.position := by
      intro heq
      have howner := (mem_scopeEndCheck hf).2.2
      rw [heq] at howner
      exact absurd (Script.eq_of_isOwner howner (mem_scopeEndCheck hg).2.2) (Nat.ne_of_lt hij)
    exact ⟨fun _ _ hposition => absurd hposition hne, fun _ _ => hne⟩

theorem perm_placeByPosition (f : Finding) (gs : List Finding) :
    (placeByPosition f gs).Perm (f :: gs) := by
  induction gs with
  | nil => exact .refl _
  | cons g gs ih =>
      rw [placeByPosition]
      split
      · exact (ih.cons g).trans (.swap f g gs)
      · exact .refl _

/-- Putting findings in order neither adds nor drops one. -/
theorem perm_sortByPosition (fs : List Finding) : (sortByPosition fs).Perm fs := by
  induction fs with
  | nil => exact .refl _
  | cons f fs ih => exact (perm_placeByPosition f (sortByPosition fs)).trans (ih.cons f)

/-- **A script.** -/
theorem Script.flaws_distinct (s : Script) (settings : Settings) :
    (s.flaws settings).Pairwise Finding.Distinct := by
  unfold flaws
  rw [(perm_sortByPosition _).pairwise_iff Finding.Distinct.symm]
  refine List.Pairwise.filter _ ?_
  unfold Ruleset.findings Ruleset.standard
  simp only [List.flatMap_cons, List.flatMap_nil, List.append_nil]
  refine List.pairwise_append.mpr ⟨switchBody_distinct, scopeEnd_distinct, fun f hf g hg => ?_⟩
  exact distinct_of_rule (rule_of_mem_switchBody hf) (rule_of_mem_scopeEnd hg)

end Rules

/-! ## §8. The whole check. -/

section Check

variable {settings : Settings} {text : String} {fs : List Finding}

/-- A check that gives findings read the text, and they are those on its script. -/
theorem eq_flaws_of_checkText (h : checkText text settings = .ok fs) :
    ∃ s, Script.read settings.tabWidth text = .ok s ∧ fs = s.flaws settings := by
  rcases Nat.eq_zero_or_pos settings.indent with hzero | hindent
  · unfold checkText at h
    rw [Settings.validate_eq_error hzero] at h
    cases h
  · cases hread : Script.read settings.tabWidth text with
    | error e =>
        unfold checkText at h
        rw [Settings.validate_eq_ok hindent, hread] at h
        cases h
    | ok s =>
        rw [checkText_of_read hindent hread] at h
        exact ⟨s, rfl, (Except.ok.inj h).symm⟩

/-- **Everything is reported once.**  Among the findings of a check no two, a second `break`
apart, have the same rule, code and position; and no two of the rule on closers point at one
token. -/
theorem checkText_reports_once (h : checkText text settings = .ok fs) :
    ((fs.filter (·.code ≠ .multipleBreaks)).map
        fun f => (f.rule, f.code.name, f.position)).Nodup
      ∧ ((fs.filter (·.rule = ScopeEnd.ruleName)).map Finding.position).Nodup := by
  obtain ⟨s, _, rfl⟩ := eq_flaws_of_checkText h
  have hdistinct := s.flaws_distinct settings
  constructor
  · refine List.pairwise_map.mpr (List.pairwise_filter.mpr (hdistinct.imp ?_))
    intro f g hfg hf _ heq
    obtain ⟨hrule, hname, hposition⟩ : f.rule = g.rule ∧ f.code.name = g.code.name
        ∧ f.position = g.position := by simpa using heq
    exact absurd (hfg.content hrule (Code.name_injective hname) hposition) (by simpa using hf)
  · refine List.pairwise_map.mpr (List.pairwise_filter.mpr (hdistinct.imp ?_))
    intro f g hfg hf hg
    exact hfg.closer (by simpa using hf) (by simpa using hg)

/-- A switch inside a case that shares its closer with the case above.  Only the second `break`
comes twice: the statement in front of it has no end of its own. -/
theorem checkText_reports_once_nested :
    let settings : Settings := ⟨1, 4, []⟩
    let text := "switch ($a) \x7b\n case 1:\n case 2:\n  switch ($b) \x7b\n   CASE 3:\n    break\n"
      ++ "   case 4:\n    break; break;\n  \x7d\n break;\n\x7d\n"
    let fs := (Script.ofText 4 text).flaws settings
    (checkText text settings = .ok fs
        ∧ fs.map (fun f => (f.rule, f.code, f.position)) =
          [(SwitchBody.ruleName, .missingDefault, 0), (SwitchBody.ruleName, .silentFallthrough, 9),
            (SwitchBody.ruleName, .missingDefault, 21),
            (SwitchBody.ruleName, .notLower .caseLabel, 30),
            (SwitchBody.ruleName, .multipleBreaks, 48), (SwitchBody.ruleName, .multipleBreaks, 48),
            (SwitchBody.ruleName, .breakIndent, 55), (ScopeEnd.ruleName, .caseCloserIndent, 55)])
      ∧ ((fs.filter (·.code ≠ .multipleBreaks)).map
            fun f => (f.rule, f.code.name, f.position)).Nodup
        ∧ ((fs.filter (·.rule = ScopeEnd.ruleName)).map Finding.position).Nodup := by
  intro settings text fs
  have h : checkText text settings = .ok fs :=
    checkText_of_read (by decide) (Script.read_ofText (by decide +kernel))
  exact ⟨⟨h, by decide +kernel⟩, checkText_reports_once h⟩

end Check

end SwitchLayout
