/-
  SwitchLayout.Proofs.Tallies
  ───────────────────────────
  **Which findings a repair can add to.**

  Findings are counted by rule and code (`tally`).  The two scripts, before and after a repair,
  are laid side by side: they have the same code, so that each switch, branch and scope of one is
  one of the other, and each finding is compared with the finding of the same code there.

    • `InColumn`, `InLine`, `Spared` — what is in order by a code, and that it stays so,
    • `labelFindings_le`, `openerFindings_le`, `caseEndFindings_le`, `fallthroughFindings_le`,
      `defaultEndFindings_le`, `violation?_le` — one check of the rules after the other,
    • `findings_le`, `flaws_le` — a switch, a script.

  The whole repair: `repair_tally_le`.
-/
import SwitchLayout.Proofs.CodeNumbers
import SwitchLayout.Proofs.Reach

namespace SwitchLayout

open Text

/-! ## §1. Counting. -/

/-- The number of findings of the rule `rule` with the code `code`. -/
def tally (rule : String) (code : Code) (fs : List Finding) : Nat :=
  fs.countP fun f => f.rule == rule && f.code == code

/-- The settings drop the findings of the rule `rule` with the code `code`. -/
def Settings.silences (settings : Settings) (rule : String) (code : Code) : Bool :=
  settings.suppressed.any fun name => name == code.name || name == rule ++ "." ++ code.name

section Tally

variable {rule : String} {code : Code}

@[simp] theorem tally_append (fs gs : List Finding) :
    tally rule code (fs ++ gs) = tally rule code fs + tally rule code gs :=
  List.countP_append

theorem tally_flatMap_le {α : Type} {is : List α} {f f' : α → List Finding}
    (h : ∀ i ∈ is, tally rule code (f' i) ≤ tally rule code (f i)) :
    tally rule code (is.flatMap f') ≤ tally rule code (is.flatMap f) := by
  induction is with
  | nil => exact Nat.le_refl _
  | cons i is ih =>
      have hhead := h i List.mem_cons_self
      have htail := ih fun j hj => h j (List.mem_cons_of_mem i hj)
      rw [List.flatMap_cons, List.flatMap_cons, tally_append, tally_append]
      omega

theorem tally_placeByPosition (f : Finding) (gs : List Finding) :
    tally rule code (placeByPosition f gs) = tally rule code (f :: gs) := by
  induction gs with
  | nil => rfl
  | cons g gs ih =>
      rw [placeByPosition]
      split
      · unfold tally at ih ⊢
        rw [List.countP_cons, ih, List.countP_cons, List.countP_cons, List.countP_cons]
        omega
      · rfl

theorem tally_sortByPosition (fs : List Finding) :
    tally rule code (sortByPosition fs) = tally rule code fs := by
  induction fs with
  | nil => rfl
  | cons f fs ih =>
      show tally rule code (placeByPosition f (sortByPosition fs)) = _
      rw [tally_placeByPosition]
      unfold tally at ih ⊢
      rw [List.countP_cons, List.countP_cons, ih]

/-- Settings drop findings by their rule and code. -/
theorem suppresses_eq_silences (settings : Settings) (f : Finding) :
    settings.suppresses f = settings.silences f.rule f.code := rfl

/-- Of a rule and a code all findings are dropped or none. -/
theorem tally_filter (settings : Settings) (fs : List Finding) :
    tally rule code (fs.filter (!settings.suppresses ·))
      = if settings.silences rule code = true then 0 else tally rule code fs := by
  unfold tally
  rw [List.countP_filter]
  split
  · rename_i hsilent
    rw [List.countP_eq_zero]
    intro f _ hboth
    simp only [Bool.and_eq_true, beq_iff_eq, Bool.not_eq_true'] at hboth
    rw [suppresses_eq_silences, hboth.1.1, hboth.1.2, hsilent] at hboth
    cases hboth.2
  · rename_i hloud
    apply List.countP_congr
    intro f _
    simp only [Bool.and_eq_true, beq_iff_eq, Bool.not_eq_true', and_iff_left_iff_imp]
    intro hmatch
    rw [suppresses_eq_silences, hmatch.1, hmatch.2]
    exact Bool.eq_false_iff.mpr hloud

theorem tally_singleton (f : Finding) :
    tally rule code [f] = if f.rule = rule ∧ f.code = code then 1 else 0 := by
  unfold tally
  rw [List.countP_singleton]
  simp

theorem tally_singleton_of_ne {f : Finding} (h : f.code ≠ code) : tally rule code [f] = 0 := by
  rw [tally_singleton, if_neg fun hboth => h hboth.2]

theorem tally_singleton_le {f f' : Finding} (hrule : f'.rule = f.rule) (hcode : f'.code = f.code) :
    tally rule code [f'] ≤ tally rule code [f] := by
  rw [tally_singleton, tally_singleton, hrule, hcode]

/-- A finding that is made in fewer cases counts for less. -/
theorem tally_ite_le {c c' : Prop} [Decidable c] [Decidable c'] {f f' : Finding}
    (hrule : f'.rule = f.rule) (hcode : f'.code = f.code) (himp : f'.code = code → c' → c) :
    tally rule code (if c' then [f'] else []) ≤ tally rule code (if c then [f] else []) := by
  by_cases hc' : c'
  · rw [if_pos hc']
    by_cases hmatch : f'.code = code
    · rw [if_pos (himp hmatch hc')]
      exact tally_singleton_le hrule hcode
    · rw [tally_singleton_of_ne hmatch]
      exact Nat.zero_le _
  · rw [if_neg hc']
    exact Nat.zero_le _

/-- The same for a finding that is made when a condition fails. -/
theorem tally_ite_not_le {c c' : Prop} [Decidable c] [Decidable c'] {f f' : Finding}
    (hrule : f'.rule = f.rule) (hcode : f'.code = f.code) (himp : f'.code = code → c → c') :
    tally rule code (if c' then [] else [f']) ≤ tally rule code (if c then [] else [f]) := by
  rw [← ite_not (p := c'), ← ite_not (p := c)]
  exact tally_ite_le hrule hcode fun hmatch hnot hc => hnot (himp hmatch hc)

end Tally

namespace Script

/-! ## §2. What is in order. -/

/-- **In order by columns**: by a code, the code number `a` stands where it should, counted from the
column of the code number `b`. -/
inductive InColumn (s : Script) (indent : Nat) : Code → Nat → Nat → Prop
  /-- A branch keyword stands one level inside its `switch`. -/
  | branch {scope : Scope} {k : Nat} {branch : Branch} (hscope : s.bare.IsSwitch scope)
      (hk : k ∈ (s.bare.body indent scope).branches) (hkind : s.bare.kindAt k = branchKind branch)
      (hcolumn : s.columnAt (s.place k) = s.columnAt (s.place scope.condition) + indent) :
      InColumn s indent (.branchIndent branch) k scope.condition
  /-- The statement that ends a case stands two levels inside its `switch`. -/
  | ending {scope label : Scope} (hends : s.bare.EndsCase indent scope label)
      (hcolumn : s.columnAt (s.place label.closer)
        = s.columnAt (s.place scope.condition) + (indent + indent)) :
      InColumn s indent .breakIndent label.closer scope.condition
  /-- The brace that ends a switch stands below its `switch`. -/
  | brace {scope : Scope} (hscope : s.bare.IsSwitch scope)
      (hcolumn : s.columnAt (s.place scope.closer) = s.columnAt (s.place scope.condition)) :
      InColumn s indent .closeBraceAlign scope.closer scope.condition

/-- **In order by lines**: by a code, the code number `b` stands as it should below the line on
which the code number `a` ends. -/
inductive InLine (s : Script) (indent : Nat) : Code → Nat → Nat → Prop
  /-- The content of a case starts on the line below its keyword. -/
  | content {scope label : Scope} (hends : s.bare.EndsCase indent scope label)
      (hline : s.lineAt (s.place ((s.bare.body indent scope).firstContent label))
        = s.lineAt (s.place label.condition) + 1) :
      InLine s indent .blankLineAfterCase label.condition
        ((s.bare.body indent scope).firstContent label)
  /-- A comment stands on the line above the case that another falls into. -/
  | announced {scope label next : Scope} {comment : Nat}
      (hfalls : s.bare.FallsInto indent scope label next)
      (hcomment : s.bare.previous? (· = .comment) (next.condition - 1) (label.condition + 1)
        = some comment)
      (hline : s.endLineAt (s.place comment) + 1 = s.lineAt (s.place next.condition)) :
      InLine s indent .silentFallthrough comment next.condition
  /-- The closer of a scope stands on a line of its own. -/
  | closer {scope : Scope} (hscope : s.bare.IsOwned scope) (hown : ¬ s.SharesLine scope.closer) :
      InLine s indent .closeBraceLine (scope.closer - 1) scope.closer

/-- **What is in order in `s` by a code is spared in `s'`**, which has the same code.  A code that
goes by no columns and no lines asks nothing. -/
structure Spared (s s' : Script) (indent : Nat) (code : Code) : Prop where
  /-- Two pieces of code that are in order by their columns keep their distance. -/
  column : ∀ a b, s.InColumn indent code a b →
    s'.columnAt (s'.place a) + s.columnAt (s.place b)
      = s.columnAt (s.place a) + s'.columnAt (s'.place b)
  /-- A closer that is in order, and is on a line of its own in `s'` too, keeps its distance to the
  start of the line of its keyword. -/
  closer : ∀ scope, s.bare.IsOwned scope → closerCode (s.bare.kindAt scope.condition) = code →
    ScopeEnd.violation? s indent (scope.move s.place) = none → ¬ s'.SharesLine scope.closer →
    s'.columnAt (s'.place scope.closer) + ScopeEnd.startColumn s (s.place scope.condition)
      = s.columnAt (s.place scope.closer) + ScopeEnd.startColumn s' (s'.place scope.condition)
  /-- Two pieces of code that are in order by their lines do not come together on one. -/
  line : ∀ a b, s.InLine indent code a b → s'.endLineAt (s'.place a) < s'.lineAt (s'.place b)

/-- In a text that is left as it is all is spared. -/
theorem Spared.refl {tabWidth : Nat} {text : String} {s : Script}
    (h : read tabWidth text = .ok s) (indent : Nat) (code : Code) : s.Spared s indent code where
  column _ _ _ := rfl
  closer _ _ _ _ _ := rfl
  line a b hin := by
    cases hin with
    | @content scope label hends hline =>
        -- the keyword of the case ends on the line on which it starts
        obtain ⟨hco, hsize⟩ := lt_length_of_mem s.thins_bare hends.detected
        have hbranch : (s.kindAt (s.place label.condition)).isBranch = true := by
          rw [s.thins_bare.kindAt_place, hends.keyword]
          rfl
        have hinline := isInline_of_isBranch h (place_lt_size (by omega)) hbranch
        rw [endLineAt_eq, innerBreaks_eq_zero hinline]
        omega
    | announced _ _ hline => omega
    | @closer scope hscope hown =>
        obtain ⟨hco, hsize⟩ := lt_length_of_mem s.thins_bare hscope.1
        obtain ⟨j, hj⟩ : ∃ j, scope.closer = j + 1 := ⟨scope.closer - 1, by omega⟩
        rw [hj] at hsize hown ⊢
        have hline := lineAt_of_endLineAt h hsize
        change s.endLineAt (s.place j) ≠ s.lineAt (s.place (j + 1)) at hown
        show s.endLineAt (s.place j) < s.lineAt (s.place (j + 1))
        omega

/-! ## §3. Labels, side by side. -/

section Labels

variable {settings : Settings} {s s' : Script} {k indent : Nat} {scope label : Scope}
  {rule : String} {code : Code}

theorem reportIf_le {b b' : SwitchBody} {found found' : Bool} {v v' : Violation} {i i' : Nat}
    (hcode : v'.code = v.code) (himp : v'.code = code → found' = true → found = true) :
    tally rule code (b'.reportIf found' v' i') ≤ tally rule code (b.reportIf found v i) :=
  tally_ite_le rfl hcode himp

/-- The branches of a switch, by the numbers of their code. -/
theorem branch_lt_length (hscope : s.bare.IsSwitch scope)
    (hk : k ∈ (s.bare.body indent scope).branches) :
    scope.condition < k ∧ k < s.code.length := by
  obtain ⟨hlo, hhi, _⟩ := (SwitchBody.branchesFrom_spec _ _).2 k hk
  change scope.opener + 1 ≤ k at hlo
  change k < scope.closer at hhi
  have hco := (ordered_of_mem_detectedScopes hscope.1).1
  have hsize := (lt_length_of_mem s.thins_bare hscope.1).2
  omega

/-- A branch keyword that was lowered is in lower case. -/
theorem text_of_lowerAscii {tabWidth i : Nat} {text : String} {cs : List Char}
    (h : read tabWidth text = .ok s) (hi : i < s.size) (hbranch : (s.kindAt i).isBranch = true)
    (heq : (s.tokenAt i).chars = lowerAscii cs) :
    (s.tokenAt i).text = String.ofList (Text.lowercase (s.tokenAt i).chars) := by
  rw [lowercase_of_branch h (get?_of_lt hi) hbranch, heq, lowerAscii_lowerAscii, ← heq]
  exact String.ofList_toList.symm

/-- A keyword that is in lower case stays so. -/
theorem Calmed.lowercase (hc : Calmed settings.tabWidth s s')
    (hk : k < s.code.length)
    (hlower : (s.tokenAt (s.place k)).text
      = String.ofList (Text.lowercase (s.tokenAt (s.place k)).chars)) :
    (s'.tokenAt (s'.place k)).text
      = String.ofList (Text.lowercase (s'.tokenAt (s'.place k)).chars) := by
  rcases (hc.calms.program.same_place hk).2 with heq | ⟨hbranch, heq⟩
  · -- the keyword was left as it is
    change (s'.tokenAt (s'.place k)).chars = (s.tokenAt (s.place k)).chars at heq
    rw [heq, ← hlower]
    exact String.toList_inj.mp heq
  · -- or it was lowered
    have hk' : k < s'.code.length := by
      rw [hc.length_code]
      exact hk
    refine text_of_lowerAscii hc.behind (place_lt_size hk') ?_ heq
    rw [hc.calms.program.kindAt_place]
    exact hbranch

theorem casingFindings_le (hc : Calmed settings.tabWidth s s')
    (hk : k < s.code.length) (branch : Branch) :
    tally rule code ((s'.bodyAt scope settings.indent).casingFindings branch (s'.place k))
      ≤ tally rule code ((s.bodyAt scope settings.indent).casingFindings branch (s.place k)) := by
  unfold SwitchBody.casingFindings
  -- the two findings differ in the keywords that they quote
  apply tally_ite_not_le
  · show SwitchBody.ruleName = SwitchBody.ruleName
    rfl
  · show Code.notLower branch = Code.notLower branch
    rfl
  · intro _ hlower
    exact hc.lowercase hk hlower

theorem caseSpacingFix?_eq_none_iff {b : SwitchBody} {i : Nat} :
    b.caseSpacingFix? i = none ↔ b.script.SpacedAt i := by
  unfold SwitchBody.caseSpacingFix? SpacedAt
  cases b.script.get? (i + 1) with
  | none => simp
  | some next =>
      by_cases hkind : next.kind = .whitespace
      · by_cases htext : next.text = " "
        · simp [hkind, htext]
        · simp [hkind, htext]
      · simp [hkind]

theorem caseSpacingFindings_le (hc : Calmed settings.tabWidth s s') (hk : k < s.code.length)
    (hcase : s.kindAt (s.place k) = .caseKw) :
    tally rule code ((s'.bodyAt scope settings.indent).caseSpacingFindings (s'.place k))
      ≤ tally rule code ((s.bodyAt scope settings.indent).caseSpacingFindings (s.place k)) := by
  unfold SwitchBody.caseSpacingFindings
  split
  · exact Nat.zero_le _
  · rename_i fix' hfix'
    split
    · -- the space was in order, and stays so
      rename_i hnone
      have hspaced := hc.calms.spaced k hk hcase (caseSpacingFix?_eq_none_iff.mp hnone)
      have hnone' : (s'.bodyAt scope settings.indent).caseSpacingFix? (s'.place k) = none :=
        caseSpacingFix?_eq_none_iff.mpr hspaced
      rw [hnone'] at hfix'
      cases hfix'
    · exact tally_singleton_le rfl rfl

/-- The keyword of a branch, its column and its space. -/
theorem labelFindings_le (hc : Calmed settings.tabWidth s s')
    (hs : s.Spared s' settings.indent code)
    (hscope : s.bare.IsSwitch scope) (hk : k ∈ (s.bare.body settings.indent scope).branches)
    {branch : Branch} (hkind : s.kindAt (s.place k) = branchKind branch) :
    tally rule code ((s'.bodyAt scope settings.indent).labelFindings branch (s'.place k))
      ≤ tally rule code ((s.bodyAt scope settings.indent).labelFindings branch (s.place k)) := by
  obtain ⟨hlo, hsize⟩ := branch_lt_length hscope hk
  have hcasing : tally rule code
        ((s'.bodyAt scope settings.indent).casingFindings branch (s'.place k))
      ≤ tally rule code ((s.bodyAt scope settings.indent).casingFindings branch (s.place k)) :=
    casingFindings_le hc hsize branch
  have hcolumn : tally rule code ((s'.bodyAt scope settings.indent).reportIf
        (s'.columnAt (s'.place k) != (s'.bodyAt scope settings.indent).caseColumn)
        (.branchIndent branch settings.indent) (s'.place k))
      ≤ tally rule code ((s.bodyAt scope settings.indent).reportIf
        (s.columnAt (s.place k) != (s.bodyAt scope settings.indent).caseColumn)
        (.branchIndent branch settings.indent) (s.place k)) := by
    apply reportIf_le rfl
    intro hcode hfound
    subst hcode
    rw [bne_iff_ne] at hfound ⊢
    intro hdepth
    rw [s.thins_bare.kindAt_place] at hkind
    have hkept := hs.column _ _ (.branch hscope hk hkind hdepth)
    apply hfound
    show s'.columnAt (s'.place k) = s'.columnAt (s'.place scope.condition) + settings.indent
    change s.columnAt (s.place k) = s.columnAt (s.place scope.condition) + settings.indent at hdepth
    omega
  have hspacing : tally rule code (if branch = .caseLabel
        then (s'.bodyAt scope settings.indent).caseSpacingFindings (s'.place k) else [])
      ≤ tally rule code (if branch = .caseLabel
        then (s.bodyAt scope settings.indent).caseSpacingFindings (s.place k) else []) := by
    cases branch with
    | caseLabel => exact caseSpacingFindings_le hc hsize hkind
    | defaultLabel => exact Nat.le_refl _
  unfold SwitchBody.labelFindings
  rw [tally_append, tally_append, tally_append, tally_append]
  exact Nat.add_le_add (Nat.add_le_add hcasing hcolumn) hspacing

/-- The scope of a branch, by the numbers of its code. -/
theorem label_facts (hlabel : s.bare.scopeTable.scopeOf? k = some label) :
    label.condition = k ∧ k < label.opener ∧ label.opener < label.closer
      ∧ label.closer < s.code.length ∧ label.move s.place ∈ s.detectedScopes := by
  obtain ⟨hmem, rfl⟩ := scopeOf?_scopeTable_iff.mp hlabel
  obtain ⟨hco, hoc, hsize, _⟩ := ordered_of_mem_detectedScopes hmem
  rw [size_bare] at hsize
  refine ⟨rfl, hco, hoc, hsize, ?_⟩
  rw [s.thins_bare.detectedScopes_place]
  exact List.mem_map_of_mem hmem

/-- Whitespace in front of the code number `j + 1` at fault, in terms of what stands between. -/
theorem spaceBefore_iff {branch : Branch} {j : Nat} (hkj : k ≤ j) (hj : j + 1 < s.code.length) :
    (SwitchBody.firstSpaceless branch (s.place k) ≤ s.place (j + 1) - 1
        ∧ s.kindAt (s.place (j + 1) - 1) = .whitespace)
      ↔ if j = k ∧ branch = .caseLabel then s.place k + 2 < s.place (k + 1)
        else s.place j + 1 < s.place (j + 1) := by
  have hlt : s.place j < s.place (j + 1) := s.place_lt (Nat.lt_succ_self j)
  have hle : s.place k ≤ s.place j := s.thins_bare.le_iff.mpr hkj
  -- the token in front is whitespace exactly if it is not the code in front
  have hspace : s.kindAt (s.place (j + 1) - 1) = .whitespace ↔ s.place j + 1 < s.place (j + 1) := by
    constructor
    · intro hwhite
      by_contra hge
      have heq : s.place (j + 1) - 1 = s.place j := by omega
      rw [heq] at hwhite
      exact kindAt_place_ne (by omega) hwhite
    · intro hless
      exact whitespace_between (k := j) (by omega) (by omega) (by omega)
  rw [hspace]
  by_cases hown : j = k
  · subst hown
    cases branch with
    | caseLabel =>
        rw [if_pos ⟨rfl, rfl⟩]
        show s.place j + 2 ≤ s.place (j + 1) - 1 ∧ _ ↔ _
        omega
    | defaultLabel =>
        rw [if_neg (fun h => Branch.noConfusion h.2)]
        show s.place j + 1 ≤ s.place (j + 1) - 1 ∧ _ ↔ _
        omega
  · rw [if_neg (fun h => hown h.1)]
    have hless : s.place k < s.place j := s.place_lt (by omega)
    cases branch with
    | caseLabel =>
        show s.place k + 2 ≤ s.place (j + 1) - 1 ∧ _ ↔ _
        omega
    | defaultLabel =>
        show s.place k + 1 ≤ s.place (j + 1) - 1 ∧ _ ↔ _
        omega

/-- A colon without whitespace at fault in front of it stays so. -/
theorem Calmed.spaceBefore (hc : Calmed settings.tabWidth s s') {branch : Branch}
    (hkind : s.kindAt (s.place k) = branchKind branch)
    (hlabel : s.bare.scopeTable.scopeOf? k = some label)
    (hcolon : s.kindAt (s.place label.opener) = .colon)
    (hspace : SwitchBody.firstSpaceless branch (s'.place k) ≤ s'.place label.opener - 1
        ∧ s'.kindAt (s'.place label.opener - 1) = .whitespace) :
    SwitchBody.firstSpaceless branch (s.place k) ≤ s.place label.opener - 1
        ∧ s.kindAt (s.place label.opener - 1) = .whitespace := by
  obtain ⟨hcond, hko, hoc, hsize, hmem⟩ := label_facts hlabel
  obtain ⟨j, hj⟩ : ∃ j, label.opener = j + 1 := ⟨label.opener - 1, by omega⟩
  rw [hj] at hcolon hspace ⊢
  have hlt : s.place j < s.place (j + 1) := s.place_lt (Nat.lt_succ_self j)
  rw [spaceBefore_iff (by omega) (by rw [hc.length_code]; omega)] at hspace
  rw [spaceBefore_iff (by omega) (by omega)]
  by_cases hown : j = k ∧ branch = .caseLabel
  · rw [if_pos hown] at hspace ⊢
    obtain ⟨rfl, rfl⟩ := hown
    by_contra hnear
    have hnear' := hc.calms.near j (by omega) hcolon hkind (by omega)
    omega
  · rw [if_neg hown] at hspace ⊢
    by_contra hdirect
    -- a `case` in front of the colon would be the keyword of the label
    have hcase : s.kindAt (s.place j) ≠ .caseKw := by
      intro hcase
      have hkeyword : s.place j = (label.move s.place).condition := by
        apply eq_condition_of_isBranch hmem
        · show s.kindAt (s.place label.opener) = .colon
          rw [hj]
          exact hcolon
        · show s.place j < s.place label.opener
          rw [hj]
          exact hlt
        · rw [hcase]
          rfl
        · intro i hlo hhi
          change i < s.place label.opener at hhi
          rw [hj] at hhi
          exact whitespace_between (by omega) hlo hhi
      change s.place j = s.place label.condition at hkeyword
      rw [hcond] at hkeyword
      obtain rfl := s.thins_bare.inj hkeyword
      apply hown
      rw [hcase] at hkind
      cases branch with
      | caseLabel => exact ⟨rfl, rfl⟩
      | defaultLabel => cases hkind
    have hdirect' := hc.calms.direct j (by omega) hcolon hcase (by omega)
    omega

/-- The end of a label. -/
theorem openerFindings_le (hc : Calmed settings.tabWidth s s') {branch : Branch}
    (hkind : s.kindAt (s.place k) = branchKind branch)
    (hlabel : s.bare.scopeTable.scopeOf? k = some label) :
    tally rule code ((s'.bodyAt scope settings.indent).openerFindings branch (s'.place k)
        (label.move s'.place))
      ≤ tally rule code ((s.bodyAt scope settings.indent).openerFindings branch (s.place k)
        (label.move s.place)) := by
  have hopener := hc.calms.program.kindAt_place label.opener
  change (s'.tokenAt (s'.place label.opener)).kind = (s.tokenAt (s.place label.opener)).kind
    at hopener
  unfold SwitchBody.openerFindings
  show tally rule code
      (if (s'.tokenAt (s'.place label.opener)).kind = .colon then _
        else if (s'.tokenAt (s'.place label.opener)).kind = .openBrace then _ else _)
    ≤ tally rule code
      (if (s.tokenAt (s.place label.opener)).kind = .colon then _
        else if (s.tokenAt (s.place label.opener)).kind = .openBrace then _ else _)
  rw [hopener]
  split
  · rename_i hcolon
    exact tally_ite_le rfl rfl fun _ hspace => hc.spaceBefore hkind hlabel hcolon hspace
  · split
    · exact tally_singleton_le rfl rfl
    · exact tally_singleton_le rfl rfl

end Labels

/-! ## §4. Ends of branches, side by side. -/

section Ends

variable {settings : Settings} {s s' : Script} {k indent : Nat} {scope label : Scope}
  {rule : String} {code : Code}

theorem defaultEndFindings_le (hc : Calmed settings.tabWidth s s') :
    tally rule code ((s'.bodyAt scope settings.indent).defaultEndFindings (s'.place k)
        (label.move s'.place))
      ≤ tally rule code ((s.bodyAt scope settings.indent).defaultEndFindings (s.place k)
        (label.move s.place)) := by
  have hcloser := hc.calms.program.kindAt_place label.closer
  unfold SwitchBody.defaultEndFindings
  show tally rule code (if s'.kindAt (s'.place label.closer) = .breakKw then _ else _)
    ≤ tally rule code (if s.kindAt (s.place label.closer) = .breakKw then _ else _)
  rw [hcloser]
  split
  · exact tally_singleton_le rfl rfl
  · apply reportIf_le rfl
    intro _ hfound
    rw [Bool.and_eq_true, Bool.and_eq_true, bne_iff_ne] at hfound ⊢
    refine ⟨⟨?_, ?_⟩, ?_⟩
    · show s.place label.closer ≠ s.place scope.closer
      intro heq
      apply hfound.1.1
      show s'.place label.closer = s'.place scope.closer
      rw [s.thins_bare.inj heq]
    · show (!(s.kindAt (s.place label.closer)).isTerminator) = true
      rw [← hcloser]
      exact hfound.1.2
    · show (s.kindAt (s.place label.closer) != .exitKw) = true
      rw [← hcloser]
      exact hfound.2

/-- A case that owns the statement that ends it. -/
theorem endsCase_of_label (hscope : s.bare.IsSwitch scope)
    (hk : k ∈ (s.bare.body indent scope).branches) (hcase : s.kindAt (s.place k) = .caseKw)
    (hlabel : s.bare.scopeTable.scopeOf? k = some label)
    (hterm : (s.kindAt (s.place label.closer)).isTerminator = true)
    (howner : s.scopeTable.isOwner (s.place k) (s.place label.closer) = true) :
    s.bare.EndsCase indent scope label := by
  obtain ⟨hmem, rfl⟩ := scopeOf?_scopeTable_iff.mp hlabel
  rw [s.thins_bare.kindAt_place] at hcase hterm
  rw [s.thins_bare.isOwner_place] at howner
  exact ⟨hscope, hk, hcase, hmem, hterm, howner⟩

/-- The column of the statement that ends a case. -/
theorem breakIndentFindings_le (hs : s.Spared s' settings.indent code)
    (hends : s.bare.EndsCase settings.indent scope label) :
    tally rule code ((s'.bodyAt scope settings.indent).breakIndentFindings (s'.place label.closer))
      ≤ tally rule code
        ((s.bodyAt scope settings.indent).breakIndentFindings (s.place label.closer)) := by
  unfold SwitchBody.breakIndentFindings
  refine tally_ite_not_le rfl rfl fun hcode hcolumn => ?_
  subst hcode
  change s.columnAt (s.place label.closer)
    = s.columnAt (s.place scope.condition) + settings.indent + settings.indent at hcolumn
  show s'.columnAt (s'.place label.closer)
    = s'.columnAt (s'.place scope.condition) + settings.indent + settings.indent
  rw [Nat.add_assoc] at hcolumn ⊢
  have hkept := hs.column _ _ (.ending hends hcolumn)
  omega

/-- The line above the statement that ends a case. -/
theorem spacingBeforeBreak_le (hc : Calmed settings.tabWidth s s') (hscope : scope.condition < k)
    (hlabel : s.bare.scopeTable.scopeOf? k = some label)
    (hterm : (s.kindAt (s.place label.closer)).isTerminator = true) :
    tally rule code ((s'.bodyAt scope settings.indent).reportIf
        ((s'.bodyAt scope settings.indent).contentLineBefore (s'.place label.closer) + 1
          != s'.lineAt (s'.place label.closer)) .spacingBeforeBreak (s'.place label.closer))
      ≤ tally rule code ((s.bodyAt scope settings.indent).reportIf
        ((s.bodyAt scope settings.indent).contentLineBefore (s.place label.closer) + 1
          != s.lineAt (s.place label.closer)) .spacingBeforeBreak (s.place label.closer)) := by
  obtain ⟨_, hko, hoc, hsize, _⟩ := label_facts hlabel
  obtain ⟨j, hj⟩ : ∃ j, label.closer = j + 1 := ⟨label.closer - 1, by omega⟩
  -- in front of the closer the line breaks stay
  have hmem := (scopeOf?_scopeTable_iff.mp hlabel).1
  have hplain := not_endsLabel_closer s.thins_bare hmem
  have hstay : s'.breaksBehind j = s.breaksBehind j := by
    rw [s.thins_bare.kindAt_place] at hterm
    rw [hj] at hplain
    exact hc.calms.lines j (by omega) (not_case_before_closer s.thins_bare hmem hj
      (TokenKind.ne_of_isTerminator hterm rfl)) hplain
  apply reportIf_le rfl
  intro _ hfound
  rw [hj] at hfound ⊢
  rw [contentLineBefore_eq (by omega) (by rw [hc.length_code]; omega),
    bne_iff_ne] at hfound
  rw [contentLineBefore_eq (by omega) (by omega), bne_iff_ne]
  intro hline
  have hkept := hc.endLine_distance (k := j) (by omega) hstay
  omega

/-- A second `break` behind the end of a case. -/
theorem multipleBreaks_le (hc : Calmed settings.tabWidth s s') (closer : Nat) :
    tally rule code (((s'.bodyAt scope settings.indent).secondBreak? (s'.place closer)).toList.map
        ((s'.bodyAt scope settings.indent).report .multipleBreaks · none))
      ≤ tally rule code (((s.bodyAt scope settings.indent).secondBreak? (s.place closer)).toList.map
        ((s.bodyAt scope settings.indent).report .multipleBreaks · none)) := by
  rw [secondBreak?_eq s.thins_bare, secondBreak?_eq hc.thins]
  cases (s.bare.body settings.indent scope).secondBreak? closer with
  | none => exact Nat.le_refl _
  | some next => exact tally_singleton_le rfl rfl

/-- The content of a case stands behind its keyword, as far as its closer. -/
theorem firstContent_mem {b : SwitchBody} (hlabel : label.condition < label.opener)
    (hbody : label.opener < label.closer) :
    label.condition < b.firstContent label ∧ b.firstContent label ≤ label.closer := by
  unfold SwitchBody.firstContent
  cases hnext : b.script.next? (· ≠ .whitespace) (label.opener + 1) label.closer with
  | none => exact ⟨Nat.lt_trans hlabel hbody, Nat.le_refl _⟩
  | some i =>
      obtain ⟨hlo, hhi, _⟩ := next?_eq_some_iff.mp hnext
      show label.condition < i ∧ i ≤ label.closer
      omega

/-- The line below a label. -/
theorem blankLineAfterCase_le (hc : Calmed settings.tabWidth s s')
    (hs : s.Spared s' settings.indent code)
    (hends : s.bare.EndsCase settings.indent scope label) :
    tally rule code ((s'.bodyAt scope settings.indent).reportIf
        (s'.lineAt ((s'.bodyAt scope settings.indent).firstContent (label.move s'.place))
          != s'.lineAt (s'.place label.condition) + 1) .blankLineAfterCase
        (s'.place label.condition))
      ≤ tally rule code ((s.bodyAt scope settings.indent).reportIf
        (s.lineAt ((s.bodyAt scope settings.indent).firstContent (label.move s.place))
          != s.lineAt (s.place label.condition) + 1) .blankLineAfterCase
        (s.place label.condition)) := by
  obtain ⟨hco, hoc, _⟩ := ordered_of_mem_detectedScopes hends.detected
  have hsize := (lt_length_of_mem s.thins_bare hends.detected).2
  obtain ⟨hbehind, hcontent⟩ :=
    firstContent_mem (b := s.bare.body settings.indent scope) hco hoc
  apply reportIf_le rfl
  intro hcode hfound
  subst hcode
  rw [firstContent_eq hc.thins, bne_iff_ne] at hfound
  rw [firstContent_eq s.thins_bare, bne_iff_ne]
  intro hline
  -- no line comes in between the two, and they stay on different ones
  have hnear := hc.distance_le (k := (s.bare.body settings.indent scope).firstContent label)
    (m := label.condition) (by omega) (Nat.le_of_lt hbehind)
  have hparted := hs.line _ _ (.content hends hline)
  rw [endLineAt_eq] at hparted
  omega

/-- The statement that ends a case, the lines around it and that it is the only one. -/
theorem caseEndFindings_le (hc : Calmed settings.tabWidth s s')
    (hs : s.Spared s' settings.indent code)
    (hscope : s.bare.IsSwitch scope) (hk : k ∈ (s.bare.body settings.indent scope).branches)
    (hcase : s.kindAt (s.place k) = .caseKw)
    (hlabel : s.bare.scopeTable.scopeOf? k = some label) :
    tally rule code
        ((s'.bodyAt scope settings.indent).caseEndFindings (s'.place k) (label.move s'.place))
      ≤ tally rule code ((s.bodyAt scope settings.indent).caseEndFindings (s.place k)
        (label.move s.place)) := by
  have hcloser := hc.calms.program.kindAt_place label.closer
  have howner : s'.scopeTable.isOwner (s'.place k) (s'.place label.closer)
      = s.scopeTable.isOwner (s.place k) (s.place label.closer) := by
    rw [s.thins_bare.isOwner_place, hc.thins.isOwner_place]
  unfold SwitchBody.caseEndFindings
  show tally rule code (if ((s'.kindAt (s'.place label.closer)).isTerminator
        && s'.scopeTable.isOwner (s'.place k) (s'.place label.closer)) = true then _ else _)
    ≤ tally rule code (if ((s.kindAt (s.place label.closer)).isTerminator
        && s.scopeTable.isOwner (s.place k) (s.place label.closer)) = true then _ else _)
  rw [hcloser, howner]
  split
  · rename_i hboth
    obtain ⟨hterm, hown⟩ := Bool.and_eq_true_iff.mp hboth
    have hends := endsCase_of_label hscope hk hcase hlabel hterm hown
    rw [tally_append, tally_append, tally_append, tally_append, tally_append, tally_append]
    refine Nat.add_le_add (Nat.add_le_add (Nat.add_le_add ?_ ?_) ?_) ?_
    · exact breakIndentFindings_le hs hends
    · exact spacingBeforeBreak_le hc (branch_lt_length hscope hk).1 hlabel hterm
    · exact multipleBreaks_le hc label.closer
    · obtain ⟨_, rfl⟩ := scopeOf?_scopeTable_iff.mp hlabel
      exact blankLineAfterCase_le hc hs hends
  · exact Nat.le_refl _

/-! ## §5. Fallthrough, side by side. -/

/-- The comment that a fallthrough needs. -/
theorem fallthroughFindings_le (hc : Calmed settings.tabWidth s s')
    (hs : s.Spared s' settings.indent code) (hcase : s.bare.IsCase settings.indent scope label)
    {next : Option Nat}
    (hnext : ∀ n ∈ next,
      IsLeast {i | s.bare.CaseBehind settings.indent scope label.condition i} n) :
    tally rule code ((s'.bodyAt scope settings.indent).fallthroughFindings
        (s'.place label.condition) (label.move s'.place) (next.map s'.place))
      ≤ tally rule code ((s.bodyAt scope settings.indent).fallthroughFindings
        (s.place label.condition) (label.move s.place) (next.map s.place)) := by
  cases next with
  | none => exact Nat.le_refl _
  | some n =>
      have hleast := hnext n rfl
      have hbehind : label.condition < n := hleast.1.2.2
      have hn := (branch_lt_length hcase.switch hleast.1.1).2
      have ht := s.thins_bare
      have ht' := hc.thins
      have hsize : n < s.bare.size := by
        rw [size_bare]
        exact hn
      apply reportIf_le rfl
      intro hcode hfound
      subst hcode
      rw [sharesCloser_eq ht', isAnnounced_eq ht' hbehind hsize, Bool.and_eq_true,
        Bool.not_eq_true'] at hfound
      rw [sharesCloser_eq ht, isAnnounced_eq ht hbehind hsize, Bool.and_eq_true, Bool.not_eq_true']
      refine ⟨hfound.1, ?_⟩
      have hsilent := hfound.2
      cases hcomment : s.bare.previous? (· = .comment) (n - 1) (label.condition + 1) with
      | none => rfl
      | some comment =>
          rw [hcomment] at hsilent
          dsimp only at hsilent ⊢
          rw [beq_eq_false_iff_ne] at hsilent ⊢
          intro hline
          -- the two cases have one closer, and the comment stays on the line above the second
          obtain ⟨other, hother, hshared⟩ := Option.map_eq_some_iff.mp (beq_iff_eq.mp hfound.1)
          obtain ⟨hmem, rfl⟩ := scopeOf?_scopeTable_iff.mp hother
          have hlt : comment < other.condition := by
            unfold previous? at hcomment
            obtain ⟨_, hhi, _⟩ := (lastIn?_eq_some_iff _ _ _ _).mp hcomment
            omega
          have hnear := hc.distance_le hn (Nat.le_of_lt hlt)
          have hparted := hs.line _ _ (.announced ⟨hcase, hmem, hleast, hshared⟩ hcomment hline)
          apply hsilent
          rw [endLineAt_eq] at hline hparted ⊢
          rw [hc.innerBreaks_eq (by omega)] at hparted ⊢
          omega

end Ends

/-! ## §6. Switches, side by side. -/

section Switches

variable {settings : Settings} {s s' : Script} {k : Nat} {scope : Scope} {rule : String}
  {code : Code}

/-- The rule sees the scopes of the bare script. -/
theorem scopeOf?_bodyAt {e s : Script} (ht : Thins e s s.place) (k : Nat) :
    (s.bodyAt scope settings.indent).table.scopeOf? (s.place k)
      = (e.scopeTable.scopeOf? k).map (Scope.move s.place) :=
  ht.scopeOf?_place k

theorem defaultFindings_le (hc : Calmed settings.tabWidth s s')
    (hs : s.Spared s' settings.indent code)
    (hscope : s.bare.IsSwitch scope) (hk : k ∈ (s.bare.body settings.indent scope).branches)
    (hdefault : s.kindAt (s.place k) = .defaultKw) :
    tally rule code ((s'.bodyAt scope settings.indent).defaultFindings (s'.place k))
      ≤ tally rule code ((s.bodyAt scope settings.indent).defaultFindings (s.place k)) := by
  have hkind : s.kindAt (s.place k) = branchKind .defaultLabel := hdefault
  unfold SwitchBody.defaultFindings
  rw [tally_append, tally_append]
  refine Nat.add_le_add (labelFindings_le hc hs hscope hk hkind) ?_
  rw [scopeOf?_bodyAt hc.thins, scopeOf?_bodyAt s.thins_bare]
  cases hlabel : s.bare.scopeTable.scopeOf? k with
  | none => exact Nat.le_refl _
  | some label =>
      show tally rule code (_ ++ _) ≤ tally rule code (_ ++ _)
      rw [tally_append, tally_append]
      exact Nat.add_le_add (openerFindings_le hc hkind hlabel)
        (defaultEndFindings_le hc)

theorem caseFindings_le (hc : Calmed settings.tabWidth s s')
    (hs : s.Spared s' settings.indent code)
    (hscope : s.bare.IsSwitch scope) (hk : k ∈ (s.bare.body settings.indent scope).branches)
    (hcase : s.kindAt (s.place k) = .caseKw) {next : Option Nat}
    (hnext : ∀ n ∈ next, IsLeast {i | s.bare.CaseBehind settings.indent scope k i} n) :
    tally rule code
        ((s'.bodyAt scope settings.indent).caseFindings (s'.place k) (next.map s'.place))
      ≤ tally rule code
        ((s.bodyAt scope settings.indent).caseFindings (s.place k) (next.map s.place)) := by
  have hkind : s.kindAt (s.place k) = branchKind .caseLabel := hcase
  unfold SwitchBody.caseFindings
  rw [tally_append, tally_append]
  refine Nat.add_le_add (labelFindings_le hc hs hscope hk hkind) ?_
  rw [scopeOf?_bodyAt hc.thins, scopeOf?_bodyAt s.thins_bare]
  cases hlabel : s.bare.scopeTable.scopeOf? k with
  | none => exact Nat.le_refl _
  | some label =>
      show tally rule code (_ ++ _ ++ _) ≤ tally rule code (_ ++ _ ++ _)
      rw [tally_append, tally_append, tally_append, tally_append]
      refine Nat.add_le_add (Nat.add_le_add ?_ ?_) ?_
      · exact openerFindings_le hc hkind hlabel
      · exact caseEndFindings_le hc hs hscope hk hcase hlabel
      · obtain ⟨hmem, rfl⟩ := scopeOf?_scopeTable_iff.mp hlabel
        rw [s.thins_bare.kindAt_place] at hcase
        exact fallthroughFindings_le hc hs ⟨hscope, hmem, hk, hcase⟩ hnext

/-- The next case in a list of branches that goes on to the end of the switch. -/
theorem isLeast_of_find? {below : List Nat} {n : Nat}
    (hsuffix : k :: below <:+ (s.bare.body settings.indent scope).branches)
    (hfind : below.find? (s.bare.kindAt · == .caseKw) = some n) :
    IsLeast {i | s.bare.CaseBehind settings.indent scope k i} n := by
  have hsorted : (s.bare.body settings.indent scope).branches.Pairwise (· < ·) :=
    (SwitchBody.branchesFrom_spec _ _).1
  obtain ⟨hless, hbelow⟩ := List.pairwise_cons.mp (hsorted.sublist hsuffix.sublist)
  have hmem := List.mem_of_find?_eq_some hfind
  refine ⟨⟨hsuffix.subset (List.mem_cons_of_mem k hmem), ?_, hless n hmem⟩, fun i hi => ?_⟩
  · have hkind := List.find?_some hfind
    exact beq_iff_eq.mp hkind
  · obtain ⟨hi, hcase, hki⟩ := hi
    -- what stands in front of the list stands in front of its head
    have hin : i ∈ below := by
      obtain ⟨front, hfront⟩ := hsuffix
      rw [← hfront] at hi hsorted
      rcases List.mem_append.mp hi with hi | hi
      · have hlt := (List.pairwise_append.mp hsorted).2.2 i hi k List.mem_cons_self
        omega
      · rcases List.mem_cons.mp hi with rfl | hi
        · exact absurd hki (Nat.lt_irrefl _)
        · exact hi
    exact le_of_find?_eq_some hbelow hfind hin (beq_iff_eq.mpr hcase)

/-- **The branches of a switch**, one behind the other. -/
theorem branchFindings_le (hc : Calmed settings.tabWidth s s')
    (hs : s.Spared s' settings.indent code) (hscope : s.bare.IsSwitch scope) {is : List Nat}
    (hsuffix : is <:+ (s.bare.body settings.indent scope).branches) (seen : Bool) :
    tally rule code ((s'.bodyAt scope settings.indent).branchFindings seen (is.map s'.place))
      ≤ tally rule code
        ((s.bodyAt scope settings.indent).branchFindings seen (is.map s.place)) := by
  induction is generalizing seen with
  | nil => exact Nat.le_refl _
  | cons k below ih =>
      have hk := hsuffix.subset List.mem_cons_self
      have hrest := ih ((List.suffix_cons k below).trans hsuffix)
      have hkind : s'.kindAt (s'.place k) = s.kindAt (s.place k) :=
        hc.calms.program.kindAt_place k
      rw [List.map_cons, List.map_cons, SwitchBody.branchFindings, SwitchBody.branchFindings]
      show tally rule code (if (s'.kindAt (s'.place k) == .defaultKw) = true then _ else _)
        ≤ tally rule code (if (s.kindAt (s.place k) == .defaultKw) = true then _ else _)
      rw [hkind]
      split
      · rename_i hdefault
        rw [tally_append, tally_append, tally_append, tally_append]
        refine Nat.add_le_add (Nat.add_le_add ?_ ?_) (hrest true)
        · exact reportIf_le rfl fun _ hseen => hseen
        · exact defaultFindings_le hc hs hscope hk (beq_iff_eq.mp hdefault)
      · rename_i hdefault
        -- a branch keyword that is no `default` is a `case`
        have hcase : s.kindAt (s.place k) = .caseKw := by
          have hbranch : (s.bare.kindAt k).isBranch = true :=
            ((SwitchBody.branchesFrom_spec _ _).2 k hk).2.2.2
          rw [← s.thins_bare.kindAt_place] at hbranch
          generalize s.kindAt (s.place k) = kind at hbranch hdefault
          cases kind <;> first | rfl | exact absurd hbranch (by decide) | exact absurd rfl hdefault
        -- the next case has the same number
        have hnext : ∀ {t : Script}, Thins s.bare t t.place →
            (below.map t.place).find? (t.kindAt · == .caseKw)
              = (below.find? (s.bare.kindAt · == .caseKw)).map t.place := by
          intro t ht
          rw [List.find?_map]
          refine congrArg (Option.map t.place) (congrFun (congrArg List.find? ?_) below)
          funext n
          show (t.kindAt (t.place n) == .caseKw) = _
          rw [ht.kindAt_place]
        rw [tally_append, tally_append]
        refine Nat.add_le_add ?_ (hrest seen)
        show tally rule code ((s'.bodyAt scope settings.indent).caseFindings (s'.place k)
            ((below.map s'.place).find? (s'.kindAt · == .caseKw)))
          ≤ tally rule code ((s.bodyAt scope settings.indent).caseFindings (s.place k)
            ((below.map s.place).find? (s.kindAt · == .caseKw)))
        rw [hnext hc.thins, hnext s.thins_bare]
        exact caseFindings_le hc hs hscope hk hcase fun n hn => isLeast_of_find? hsuffix hn

/-- **A switch.** -/
theorem findings_le (hc : Calmed settings.tabWidth s s')
    (hs : s.Spared s' settings.indent code)
    (hscope : s.bare.IsSwitch scope) :
    tally rule code (s'.bodyAt scope settings.indent).findings
      ≤ tally rule code (s.bodyAt scope settings.indent).findings := by
  have hcloser := (ordered_of_mem_detectedScopes hscope.1).2.2.1
  have hbranches : ∀ {t : Script}, Thins s.bare t t.place →
      (t.bodyAt scope settings.indent).branches
        = (s.bare.body settings.indent scope).branches.map t.place :=
    fun ht => ht.branches_place hcloser settings.indent
  have hdefault : ∀ {t : Script}, Thins s.bare t t.place →
      (t.bodyAt scope settings.indent).isDefault ∘ t.place = (s.bare.kindAt · == .defaultKw) := by
    intro t ht
    funext k
    show (t.kindAt (t.place k) == .defaultKw) = _
    rw [ht.kindAt_place]
  unfold SwitchBody.findings
  dsimp only
  rw [hbranches hc.thins, hbranches s.thins_bare, List.any_map, List.any_map, List.all_map,
    List.all_map, hdefault hc.thins, hdefault s.thins_bare, tally_append, tally_append,
    tally_append, tally_append, tally_append, tally_append]
  refine Nat.add_le_add (Nat.add_le_add (Nat.add_le_add ?_ ?_) ?_) ?_
  · exact branchFindings_le hc hs hscope List.suffix_rfl false
  · exact reportIf_le rfl fun _ hmissing => hmissing
  · apply reportIf_le rfl
    intro hcode hfound
    subst hcode
    rw [bne_iff_ne] at hfound ⊢
    intro halign
    have hkept := hs.column _ _ (.brace hscope halign)
    apply hfound
    show s'.columnAt (s'.place scope.closer) = s'.columnAt (s'.place scope.condition)
    change s.columnAt (s.place scope.closer) = s.columnAt (s.place scope.condition) at halign
    omega
  · exact reportIf_le rfl fun _ hmissing => hmissing

theorem switchCheck_le (hc : Calmed settings.tabWidth s s')
    (hs : s.Spared s' settings.indent code) (hswitch : s.bare.kindAt k = .switchKw) :
    tally rule code (SwitchBody.check s' s'.scopeTable settings (s'.place k))
      ≤ tally rule code (SwitchBody.check s s.scopeTable settings (s.place k)) := by
  unfold SwitchBody.check
  rw [hc.thins.scopeOf?_place, s.thins_bare.scopeOf?_place]
  cases hlabel : s.bare.scopeTable.scopeOf? k with
  | none => exact Nat.le_refl _
  | some scope =>
      obtain ⟨hmem, rfl⟩ := scopeOf?_scopeTable_iff.mp hlabel
      exact findings_le hc hs ⟨hmem, hswitch⟩

end Switches

/-! ## §7. Closers, side by side. -/

section Closers

variable {settings : Settings} {s s' : Script} {k : Nat} {scope : Scope} {rule : String}
  {code : Code}

/-- **What is wrong with a closer was wrong with it before.** -/
theorem violation?_le (hc : Calmed settings.tabWidth s s')
    (hscope : s.bare.IsOwned scope) {v' : Violation}
    (hs : s.Spared s' settings.indent v'.code)
    (hv' : ScopeEnd.violation? s' settings.indent (scope.move s'.place) = some v') :
    ∃ v, ScopeEnd.violation? s settings.indent (scope.move s.place) = some v
      ∧ v.code = v'.code := by
  have ht := s.thins_bare
  obtain ⟨hco, hsize⟩ := lt_length_of_mem ht hscope.1
  obtain ⟨j, hj⟩ : ∃ j, scope.closer = j + 1 := ⟨scope.closer - 1, by omega⟩
  by_cases hshares' : s'.SharesLine scope.closer
  · -- a closer that stood on a line of its own would stay on one
    rw [violation?_place hc.thins hscope.1] at hv'
    dsimp only at hv'
    rw [if_pos hshares'] at hv'
    obtain rfl := Option.some.inj hv'
    have hshares : s.SharesLine scope.closer := by
      by_contra hown
      have hparted := hs.line _ _ (.closer hscope hown)
      exact Nat.ne_of_lt hparted hshares'
    rw [violation?_place ht hscope.1]
    dsimp only
    rw [if_pos hshares]
    exact ⟨_, rfl, rfl⟩
  · -- a closer that shares its line still does
    have hshares : ¬ s.SharesLine scope.closer := by
      intro hshares
      rw [hj] at hshares hshares' hsize
      exact hshares' (hc.endLine_eq hsize hshares)
    have hcode' := code_of_violation? hc.thins hscope.1 hshares' hv'
    cases hv : ScopeEnd.violation? s settings.indent (scope.move s.place) with
    | none =>
        -- what was in its column is still
        have hkept := hs.closer scope hscope hcode'.symm hv hshares'
        have hcolumn := ((violation?_eq_none_iff ht hscope.1).mp hv).2
        have hcolumn' : s'.columnAt (s'.place scope.closer)
            = ScopeEnd.startColumn s' (s'.place scope.condition)
              + closerDepth settings.indent (s.bare.kindAt scope.condition) := by
          omega
        have hnone := (violation?_eq_none_iff hc.thins hscope.1).mpr ⟨hshares', hcolumn'⟩
        rw [hnone] at hv'
        cases hv'
    | some v => exact ⟨v, rfl, (code_of_violation? ht hscope.1 hshares hv).trans hcode'.symm⟩

theorem closerCheck_le (hc : Calmed settings.tabWidth s s')
    (hs : s.Spared s' settings.indent code) :
    tally rule code (ScopeEnd.check s' s'.scopeTable settings (s'.place k))
      ≤ tally rule code (ScopeEnd.check s s.scopeTable settings (s.place k)) := by
  unfold ScopeEnd.check
  rw [hc.thins.scopeOf?_place, s.thins_bare.scopeOf?_place]
  cases hlabel : s.bare.scopeTable.scopeOf? k with
  | none => exact Nat.le_refl _
  | some scope =>
      obtain ⟨hmem, rfl⟩ := scopeOf?_scopeTable_iff.mp hlabel
      show tally rule code
          (if s'.scopeTable.isOwner (s'.place scope.condition) (s'.place scope.closer) = true
            then _ else _)
        ≤ tally rule code
          (if s.scopeTable.isOwner (s.place scope.condition) (s.place scope.closer) = true
            then _ else _)
      rw [hc.thins.isOwner_place, s.thins_bare.isOwner_place]
      split
      · rename_i howner
        cases hv' : ScopeEnd.violation? s' settings.indent (scope.move s'.place) with
        | none => exact Nat.zero_le _
        | some v' =>
            by_cases hcode : v'.code = code
            · rw [← hcode] at hs
              obtain ⟨v, hv, hsame⟩ := violation?_le hc ⟨hmem, howner⟩ hs hv'
              rw [hv]
              exact tally_singleton_le rfl hsame.symm
            · show tally rule code [v'.finding _ _ _] ≤ _
              rw [tally_singleton_of_ne hcode]
              exact Nat.zero_le _
      · exact Nat.le_refl _

end Closers

/-! ## §8. Scripts, side by side. -/

section Scripts

variable {settings : Settings} {s s' : Script} {rule : String} {code : Code}

/-- A rule that looks at keywords, one after the other. -/
theorem ruleFindings_le {r : Rule} (hc : Calmed settings.tabWidth s s')
    (hkinds : ∀ {kind : TokenKind}, r.kinds.contains kind = true → kind.isTrivia = false)
    (hcheck : ∀ k, r.kinds.contains (s.bare.kindAt k) = true →
      tally rule code (r.check s' s'.scopeTable settings (s'.place k))
        ≤ tally rule code (r.check s s.scopeTable settings (s.place k))) :
    tally rule code (r.findings s' s'.scopeTable settings)
      ≤ tally rule code (r.findings s s.scopeTable settings) := by
  unfold Rule.findings
  rw [hc.thins.filter_range_place hkinds, s.thins_bare.filter_range_place hkinds,
    List.flatMap_map, List.flatMap_map]
  exact tally_flatMap_le fun k hk => hcheck k (List.mem_filter.mp hk).2

/-- **A script.**  No finding comes in with a code that is silenced, or by which all that was in
order is spared. -/
theorem flaws_le (hc : Calmed settings.tabWidth s s')
    (hspared : settings.silences rule code = true ∨ s.Spared s' settings.indent code) :
    tally rule code (s'.flaws settings) ≤ tally rule code (s.flaws settings) := by
  unfold flaws
  rw [tally_sortByPosition, tally_sortByPosition, tally_filter, tally_filter]
  split
  · exact Nat.le_refl _
  · rename_i hloud
    have hs := hspared.resolve_left hloud
    have hswitch : tally rule code (SwitchBody.rule.findings s' s'.scopeTable settings)
        ≤ tally rule code (SwitchBody.rule.findings s s.scopeTable settings) := by
      apply ruleFindings_le hc
      · intro kind hkind
        revert hkind
        cases kind <;> decide
      · intro k hk
        exact switchCheck_le hc hs (by simpa [SwitchBody.rule] using hk)
    have hcloser : tally rule code (ScopeEnd.rule.findings s' s'.scopeTable settings)
        ≤ tally rule code (ScopeEnd.rule.findings s s.scopeTable settings) := by
      apply ruleFindings_le hc
      · intro kind hkind
        revert hkind
        cases kind <;> decide
      · intro k _
        exact closerCheck_le hc hs
    have hfindings : ∀ t : Script, Ruleset.standard.findings t t.scopeTable settings
        = SwitchBody.rule.findings t t.scopeTable settings
          ++ ScopeEnd.rule.findings t t.scopeTable settings := by
      intro t
      unfold Ruleset.findings Ruleset.standard
      simp
    rw [hfindings, hfindings, tally_append, tally_append]
    exact Nat.add_le_add hswitch hcloser

end Scripts

end Script

/-! ## §9. Repairs. -/

section Repairs

variable {settings : Settings} {text : String} {s s' : Script} {before : List Finding} {r : Report}

/-- **What a repair that keeps the program can add to.**  By rule and code, it adds no finding with
a code that is silenced, or by which what is in order in the text is spared.  Code that no round
reaches keeps its column, and code keeps its distance in lines to the code in front of it, if no
round takes a line break away between the two. -/
theorem repair_tally_le (hcheck : checkText text settings = .ok before)
    (hrepair : repair text settings = .ok r) (h : Script.read settings.tabWidth text = .ok s)
    (h' : Script.read settings.tabWidth r.source = .ok s') (hsame : s.SameProgram s') :
    (∀ rule code, settings.silences rule code = true ∨ s.Spared s' settings.indent code →
        tally rule code r.remaining ≤ tally rule code before)
      ∧ (∀ k < s.code.length, ¬ Reached settings text k →
        s'.columnAt (s'.place k) = s.columnAt (s.place k))
      ∧ ∀ k, k + 1 < s.code.length → ¬ Taken settings text k →
        s'.lineAt (s'.place (k + 1)) + s.endLineAt (s.place k)
          = s.lineAt (s.place (k + 1)) + s'.endLineAt (s'.place k) := by
  have hu := repair_undisturbed hrepair h h' hsame
  refine ⟨fun rule code hspared => ?_, hu.column, fun k hk hnot => ?_⟩
  · obtain ⟨hindent, _⟩ := read_of_repairWithin hrepair
    have hremaining := (repairWithin_report maxPasses hrepair).remaining
    rw [checkText_of_read hindent h'] at hremaining
    rw [checkText_of_read hindent h] at hcheck
    rw [← Except.ok.inj hremaining, ← Except.ok.inj hcheck]
    exact Script.flaws_le hu.calmed hspared
  · exact hu.calmed.endLine_distance hk (hu.breaks k hk hnot)

/-- The first case is in order, and no round reaches it.  In the second the space behind the
keyword, the one in front of the colon and the place of the statement are repaired. -/
theorem repair_tally_le_two_cases :
    let text := "switch ($x) \x7b\n    case 1:\n        break;\n    case  2 :\n      break;\n"
      ++ "    default:\n        a();\n\x7d\n"
    let r : Report :=
      { source := "switch ($x) \x7b\n    case 1:\n        break;\n    case 2:\n        break;\n"
          ++ "    default:\n        a();\n\x7d\n"
        passes := 1
        applied := 3
        remaining := [] }
    let s := Script.ofText 4 text
    let s' := Script.ofText 4 r.source
    (checkText text .standard = .ok (s.flaws .standard) ∧ repair text .standard = .ok r
        ∧ Script.read 4 text = .ok s ∧ Script.read 4 r.source = .ok s' ∧ s.SameProgram s'
        ∧ s.Spared s' 4 .caseCloserIndent ∧ 8 < s.code.length ∧ ¬ Reached .standard text 8)
      ∧ tally ScopeEnd.ruleName .caseCloserIndent (s.flaws .standard) = 1
      ∧ tally ScopeEnd.ruleName .caseCloserIndent r.remaining
          ≤ tally ScopeEnd.ruleName .caseCloserIndent (s.flaws .standard)
      ∧ s'.columnAt (s'.place 8) = s.columnAt (s.place 8) := by
  intro text r s s'
  have h : Script.read 4 text = .ok s := Script.read_ofText (by decide +kernel)
  have h' : Script.read 4 r.source = .ok s' := Script.read_ofText (by decide +kernel)
  have hcheck : checkText text .standard = .ok (s.flaws .standard) :=
    checkText_of_read (by decide) h
  have hrepair : repair text .standard = .ok r := by decide +kernel
  have hsame : s.SameProgram s' := by decide +kernel
  have hclosers : ∀ scope ∈ s.bare.detectedScopes,
      ScopeEnd.violation? s 4 (scope.move s.place) = none → ¬ s'.SharesLine scope.closer →
        s'.columnAt (s'.place scope.closer) + ScopeEnd.startColumn s (s.place scope.condition)
          = s.columnAt (s.place scope.closer)
            + ScopeEnd.startColumn s' (s'.place scope.condition) := by
    decide +kernel
  have hspared : s.Spared s' 4 .caseCloserIndent := by
    refine ⟨fun a b hin => ?_, fun scope hscope _ => hclosers scope hscope.1, fun a b hin => ?_⟩
    · cases hin
    · cases hin
  -- one round repairs all
  have hround : Script.read 4 (s.repaired .standard) = .ok s' := by
    rw [show s.repaired .standard = r.source by decide +kernel]
    exact h'
  have hnot : ¬ Reached .standard text 8 := fun hreached =>
    absurd ((reached_of_one_round h hround (by decide +kernel)).1 8 hreached) (by decide +kernel)
  obtain ⟨htally, hcolumn, _⟩ := repair_tally_le hcheck hrepair h h' hsame
  have hsize : 8 < s.code.length := by decide +kernel
  exact ⟨⟨hcheck, hrepair, h, h', hsame, hspared, hsize, hnot⟩, by decide +kernel,
    htally _ _ (.inr hspared), hcolumn 8 hsize hnot⟩

/-- The repair of the text keeps the program, or not, as `kept` says, and adds to the findings of
the rule with the code. -/
def RepairAdds (kept : Bool) (rule : String) (code : Code) (text : String) : Prop :=
  ∃ before r, checkText text .standard = .ok before ∧ repair text .standard = .ok r
    ∧ decide ((Script.ofText 4 text).SameProgram (Script.ofText 4 r.source)) = kept
    ∧ tally rule code before < tally rule code r.remaining

instance (kept : Bool) (rule : String) (code : Code) (text : String) :
    Decidable (RepairAdds kept rule code text) :=
  match hcheck : checkText text .standard, hrepair : repair text .standard with
  | .ok before, .ok r => decidable_of_iff
      (decide ((Script.ofText 4 text).SameProgram (Script.ofText 4 r.source)) = kept
        ∧ tally rule code before < tally rule code r.remaining)
      (by simp [RepairAdds, hcheck, hrepair])
  | .error _, _ => .isFalse (by simp [RepairAdds, hcheck])
  | .ok _, .error _ => .isFalse (by simp [RepairAdds, hrepair])

/-- In the first text the comment takes in the colon.  The others keep the program, one for each
code by which something is in order there and does not stay so.  The rule on switches moves the
`break` of the last one to where a case of this switch belongs; the rule on closers goes by where
the case stands, and finds it out of place.  In the rest something that is in order stands behind an
edit on its line, or a line break goes. -/
theorem repair_adds_findings :
    RepairAdds false SwitchBody.ruleName (.wrongOpener .defaultLabel)
        "switch ($x) \x7b\n    default // c\n:\n        a();\n\x7d\n"
      ∧ RepairAdds true SwitchBody.ruleName (.branchIndent .caseLabel)
        "switch ($x) \x7b\n    case 1\n  : case 2:\n\x7d\n"
      ∧ RepairAdds true SwitchBody.ruleName (.branchIndent .defaultLabel)
        "switch ($x) \x7b\n    case 1\n  : default:\n\x7d\n"
      ∧ RepairAdds true SwitchBody.ruleName .breakIndent
        "switch ($x) \x7b\ncase  1:break;\n\x7d\n"
      ∧ RepairAdds true SwitchBody.ruleName .closeBraceAlign
        "switch ($x) \x7b\ncase  1:switch ($y) \x7b\n        \x7d\n\x7d\n"
      ∧ RepairAdds true SwitchBody.ruleName .blankLineAfterCase
        "switch ($x) \x7b\n    case 1\n:a();\n        break;\n\x7d\n"
      ∧ RepairAdds true SwitchBody.ruleName .silentFallthrough
        "switch ($x) \x7b\n    case 1 /* c */\n: case 2:\n        break;\n\x7d\n"
      ∧ RepairAdds true ScopeEnd.ruleName .closeBraceLine
        "switch ($x) \x7b\n    case\n\x7d\n"
      ∧ RepairAdds true ScopeEnd.ruleName .closeBraceIndent
        "switch ($x) \x7b\n    case 1:\n      break; if ($a) \x7b\n      \x7d\n\x7d\n"
      ∧ RepairAdds true ScopeEnd.ruleName .caseCloserIndent
        "switch ($x) \x7b\n  case 1:\n      break;\n\x7d\n" := by
  decide +kernel

end Repairs

end SwitchLayout
