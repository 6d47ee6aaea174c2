/-
  SwitchLayout.Proofs.SecondBreak
  ───────────────────────────────
  **When a reported second `break` is one.**

  The rule looks for the end of the statement that leaves a case, and reports a `break` behind it.
  It takes the first semicolon for that end, wherever it stands.  So the `break` need not be one of
  the case: the semicolon may stand in a function that the statement returns, or behind a later
  label if the statement has none of its own.

    • `FollowsEnd` — a token behind the end of a case, in the same branch,
    • `Reaches` — what the search of the rule finds,
    • `reaches_of_flaws` — every finding comes from such a search,
    • `Reaches.closer_le` — no other end of a case lies between the end that the search starts from
      and the semicolon, if that is on the level of the cases.

  The whole check: `checkText_secondBreak_iff`.
-/
import SwitchLayout.Proofs.Casing
import SwitchLayout.Proofs.Ownership

namespace SwitchLayout

namespace Script

/-! ## §1. Behind the end of a case. -/

/-- The token at `x` stands on the top level of a switch, behind a statement on that level that
ends the case with the scope `label`, and no branch of the switch stands in between. -/
structure FollowsEnd (s : Script) (scope label : Scope) (x : Nat) : Prop where
  switch : s.IsSwitch scope
  keyword : s.kindAt label.condition = .caseKw
  detected : s.scopeTable.scopeOf? label.condition = some label
  leaves : (s.kindAt label.closer).isTerminator = true
  inside : label.closer ∈ s.brackets.topLevel (scope.opener + 1) scope.closer
  place : x ∈ s.brackets.topLevel (scope.opener + 1) scope.closer
  behind : label.closer < x
  between : ∀ b ∈ s.branchesIn s.brackets scope.opener scope.closer,
    ¬ (label.closer < b ∧ b < x)

/-- The token at `x` is a second `break` of a case. -/
def IsSecondBreak (s : Script) (x : Nat) : Prop :=
  s.kindAt x = .breakKw ∧ ∃ scope label, s.FollowsEnd scope label x

/-- The first semicolon behind the statement that ends the case with the scope `label` stands at
`q`, and the code behind it starts at `x`, still in the switch. -/
structure Reaches (s : Script) (scope label : Scope) (q x : Nat) : Prop where
  switch : s.IsSwitch scope
  branch : label ∈ s.branchScopesOf scope
  keyword : s.kindAt label.condition = .caseKw
  leaves : (s.kindAt label.closer).isTerminator = true
  semicolon : s.kindAt q = .semicolon
  behind : label.closer < q
  first : ∀ k, label.closer < k → k < q → s.kindAt k ≠ .semicolon
  space : ∀ k, q < k → k < x → s.kindAt k = .whitespace
  next : q < x
  inside : x < scope.closer

section Ends

variable {s : Script} {scope scope' label label' : Scope} {q x : Nat}

/-- What follows a semicolon directly is in the branch of the semicolon. -/
theorem FollowsEnd.over_space (h : s.FollowsEnd scope label q) (hq : s.kindAt q = .semicolon)
    (hqx : q < x) (hspace : ∀ k, q < k → k < x → s.kindAt k = .whitespace)
    (hx : x < scope.closer) : s.FollowsEnd scope label x := by
  obtain ⟨hlo, _, hout⟩ := (mem_topLevel_iff (wellNested_brackets s) _ _ _).mp h.place
  have hbehind := h.behind
  -- neither the semicolon nor whitespace opens a group or a branch
  have hplain : ∀ k, q ≤ k → k < x → (s.kindAt k).opens? = none
      ∧ (s.kindAt k).isBranch = false := by
    intro k hqk hkx
    rcases Nat.eq_or_lt_of_le hqk with rfl | hlt
    · rw [hq]
      exact ⟨rfl, rfl⟩
    · rw [hspace k hlt hkx]
      exact ⟨rfl, rfl⟩
  refine ⟨h.switch, h.keyword, h.detected, h.leaves, h.inside, ?_, by omega, fun b hb hbx => ?_⟩
  · refine (mem_topLevel_iff (wellNested_brackets s) _ _ _).mpr ⟨by omega, hx, ?_⟩
    refine hout.trans (fun j k hqj hjx hjk => ?_) (Nat.le_of_lt hqx)
    exact absurd hjk (groupEnd?_of_opens (hplain j hqj hjx).1)
  · by_cases hbq : b < q
    · exact h.between b hb ⟨hbx.1, hbq⟩
    · have hkind := (mem_branchesIn_iff.mp hb).2.2.2
      rw [(hplain b (by omega) hbx.2).2] at hkind
      cases hkind

/-- A semicolon that directly precedes a token of a branch is in this branch. -/
theorem FollowsEnd.before_space (h : s.FollowsEnd scope label x) (hq : s.kindAt q = .semicolon)
    (hqx : q < x) (hspace : ∀ k, q < k → k < x → s.kindAt k = .whitespace) :
    s.FollowsEnd scope label q := by
  obtain ⟨hlo, hhi, hout⟩ := (mem_topLevel_iff (wellNested_brackets s) _ _ _).mp h.place
  obtain ⟨hclo, _, _⟩ := (mem_topLevel_iff (wellNested_brackets s) _ _ _).mp h.inside
  have hbehind := h.behind
  -- the statement is neither the semicolon nor whitespace
  have hlt : label.closer < q := by
    by_contra hge
    rcases Nat.eq_or_lt_of_le (Nat.le_of_not_lt hge) with heq | hgt
    · rw [heq] at hq
      exact TokenKind.ne_of_isTerminator h.leaves rfl hq
    · exact TokenKind.ne_of_isTerminator h.leaves rfl (hspace _ hgt hbehind)
  refine ⟨h.switch, h.keyword, h.detected, h.leaves, h.inside, ?_, hlt, fun b hb hbq => ?_⟩
  · refine (mem_topLevel_iff (wellNested_brackets s) _ _ _).mpr ⟨by omega, by omega, ?_⟩
    exact isOutside_of_adjacent hout hqx (by rw [hq]; rfl) hspace
  · exact h.between b hb ⟨hbq.1, by omega⟩

theorem FollowsEnd.branch (h : s.FollowsEnd scope label x) : label ∈ s.branchScopesOf scope :=
  branch_of_closer h.switch.2 h.switch.bodyScope? h.inside
    (TokenKind.ne_of_isTerminator h.leaves rfl) h.detected rfl

/-- **Between the ends of two branches stands a branch.**  Of the branches that end at the later
one, the last stands behind the earlier one. -/
theorem exists_branch_between (h : s.IsSwitch scope) (hlabel : label ∈ s.branchScopesOf scope)
    (hlabel' : label' ∈ s.branchScopesOf scope)
    (hleaves : (s.kindAt label.closer).isTerminator = true)
    (hleaves' : (s.kindAt label'.closer).isTerminator = true)
    (hlt : label'.closer < label.closer) :
    ∃ b ∈ s.branchesIn s.brackets scope.opener scope.closer,
      label'.closer < b ∧ b < label.closer := by
  have hbody := h.bodyScope?
  obtain ⟨last, hlast⟩ := exists_recordedFirst hlabel rfl
  obtain ⟨last', hlast'⟩ := exists_recordedFirst hlabel' rfl
  have hnone := (hlast.nearest hbody (TokenKind.ne_of_isTerminator hleaves rfl)).2
  have hnone' := (hlast'.nearest hbody (TokenKind.ne_of_isTerminator hleaves' rfl)).2
  have hin := ((branchScopes_of_body hbody).1 last hlast.mem).2.2
  have hin' := ((branchScopes_of_body hbody).1 last' hlast'.mem).2.2
  obtain ⟨hco, hoc, _⟩ := ((branchStretch_of_body hbody).1 last hlast.mem).ordered
  obtain ⟨hco', hoc', _⟩ := ((branchStretch_of_body hbody).1 last' hlast'.mem).ordered
  have hcloser := hlast.closer_eq
  have hcloser' := hlast'.closer_eq
  refine ⟨last.condition, hin, ?_, by omega⟩
  by_contra hnot
  -- otherwise both ends belong to one branch
  have hne : last.condition ≠ label'.closer := by
    intro heq
    have hkind := (mem_branchesIn_iff.mp hin).2.2.2
    rw [heq] at hkind
    revert hkind hleaves'
    cases s.kindAt label'.closer <;> decide
  have hleft := hnone last'.condition hin'
  have hright := hnone' last.condition hin
  have hunique := (branchStretch_of_mem (bodyScope?_eq_some hbody).2.2 _
    (branchesIn_sorted s scope.opener scope.closer) (fun _ hb => hb)).2.2
  have hsame : last = last' := hunique last hlast.mem last' hlast'.mem (by omega)
  rw [hsame] at hcloser
  omega

/-- **No end of a case in between.**  If the semicolon is behind the end of a case and in the same
branch, the search did not start behind that end. -/
theorem Reaches.closer_le (h : s.Reaches scope label q x) (h' : s.FollowsEnd scope' label' q) :
    label.closer ≤ label'.closer := by
  by_contra hlt
  rw [Nat.not_le] at hlt
  have hgroup := (bodyScope?_eq_some h.switch.bodyScope?).2.2
  have hgroup' := (bodyScope?_eq_some h'.switch.bodyScope?).2.2
  obtain ⟨last, hlast⟩ := exists_recordedFirst h.branch rfl
  obtain ⟨htlo, _, htout⟩ := (mem_topLevel_iff (wellNested_brackets s) _ _ _).mp
    (hlast.nearest h.switch.bodyScope? (TokenKind.ne_of_isTerminator h.leaves rfl)).1
  obtain ⟨hqlo, hqhi, hqout⟩ := (mem_topLevel_iff (wellNested_brackets s) _ _ _).mp h'.place
  obtain ⟨htlo', _, _⟩ := (mem_topLevel_iff (wellNested_brackets s) _ _ _).mp h'.inside
  have htq := h.behind
  have hqx := h.next
  have hxc := h.inside
  rcases Nat.lt_trichotomy scope.opener scope'.opener with hless | heq | hgreater
  · -- the statement would stand in a group of its switch
    have hend := htout scope'.opener scope'.closer hless (by omega) hgroup'
    omega
  · -- in one switch a branch would stand between the two ends
    have hcond := switch_eq_of_opener_eq h.switch.2 h'.switch.2 h.switch.bodyScope?
      h'.switch.bodyScope? heq
    have hscope := h.switch.scopeOf?
    rw [hcond, h'.switch.scopeOf?] at hscope
    obtain rfl := Option.some.inj hscope
    obtain ⟨b, hb, hbetween⟩ := exists_branch_between h.switch h.branch h'.branch h.leaves h'.leaves
      hlt
    exact h'.between b hb ⟨hbetween.1, by omega⟩
  · -- the semicolon would stand in a group of the other switch
    have hend := hqout scope.opener scope.closer hgreater (by omega) hgroup
    omega

/-- **A second `break` is one** exactly when it is reached over a semicolon in the same branch. -/
theorem Reaches.followsEnd_iff (h : s.Reaches scope label q x) :
    (∃ scope label, s.FollowsEnd scope label x) ↔
      ∃ scope label q, s.Reaches scope label q x ∧ s.FollowsEnd scope label q := by
  constructor
  · rintro ⟨scope', label', h'⟩
    have hq := h'.before_space h.semicolon h.next h.space
    have hle := h.closer_le hq
    obtain ⟨_, hhi, _⟩ := (mem_topLevel_iff (wellNested_brackets s) _ _ _).mp h'.place
    refine ⟨scope', label', q, ⟨h'.switch, h'.branch, h'.keyword, h'.leaves, h.semicolon, hq.behind,
      fun k hlo hhi => ?_, h.space, h.next, hhi⟩, hq⟩
    exact h.first k (by omega) hhi
  · rintro ⟨scope', label', q', hreach, hends⟩
    exact ⟨scope', label', hends.over_space hreach.semicolon hreach.next hreach.space hreach.inside⟩

end Ends

end Script

/-! ## §2. The search of the rule. -/

namespace SwitchBody

variable {b : SwitchBody} {i x : Nat} {f : Finding} {label : Scope}

/-- What the search behind the statement at `i` finds. -/
theorem secondBreak?_eq_some (h : b.secondBreak? i = some x) :
    ∃ q, (i ≤ q ∧ b.script.kindAt q = .semicolon
        ∧ ∀ k, i ≤ k → k < q → b.script.kindAt k ≠ .semicolon)
      ∧ (q < x ∧ x < b.scope.closer ∧ ∀ k, q < k → k < x → b.script.kindAt k = .whitespace)
      ∧ x < b.script.size ∧ b.script.kindAt x = .breakKw := by
  unfold secondBreak? at h
  obtain ⟨q, hq, hrest⟩ := Option.bind_eq_some_iff.mp h
  obtain ⟨y, hy, hif⟩ := Option.bind_eq_some_iff.mp hrest
  obtain ⟨hiq, _, _, hsemi, hfirst⟩ := Script.next?_eq_some_iff.mp hq
  obtain ⟨hqy, hyc, hsize, _, hspace⟩ := Script.next?_eq_some_iff.mp hy
  split at hif
  · rename_i hbreak
    obtain rfl := Option.some.inj hif
    refine ⟨q, ⟨hiq, by simpa using hsemi, fun k hik hkq => ?_⟩,
      ⟨hqy, hyc, fun k hqk hky => ?_⟩, hsize, hbreak⟩
    · simpa using hfirst k hik hkq
    · simpa using hspace k hqk hky
  · cases hif

/-- What is found on the column of the statement that ends a case, or behind it. -/
theorem caseEnd_of_caseFindings {next : Option Nat}
    (hcode : f.code = .multipleBreaks ∨ f.code = .breakIndent) (hf : f ∈ b.caseFindings i next) :
    ∃ label, b.table.scopeOf? i = some label
      ∧ (b.script.kindAt label.closer).isTerminator = true
      ∧ b.table.isOwner i label.closer = true
      ∧ (f ∈ b.breakIndentFindings label.closer
        ∨ ∃ x, b.secondBreak? label.closer = some x ∧ f = b.report .multipleBreaks x none) := by
  -- no other finding on a case has one of the two codes
  have hother : ∀ {codes : List Code} {fs : List Finding}, (fs.map Finding.code).Sublist codes →
      .multipleBreaks ∉ codes → .breakIndent ∉ codes → f ∉ fs := by
    intro codes fs hcodes hbreaks hindent
    rcases hcode with hcode | hcode
    · exact not_mem_of_codes hcodes (hcode ▸ hbreaks)
    · exact not_mem_of_codes hcodes (hcode ▸ hindent)
  have hreport : ∀ {v : Violation} {j : Nat}, f = b.report v j none →
      v.code ≠ .multipleBreaks → v.code ≠ .breakIndent → False := by
    intro v j heq hbreaks hindent
    rw [heq] at hcode
    exact hcode.elim hbreaks hindent
  unfold caseFindings at hf
  rcases List.mem_append.mp hf with hf | hf
  · exact absurd hf (hother (codes_labelFindings b _ i) (by decide) (by decide))
  · split at hf
    · cases hf
    · rename_i label hlabel
      rw [List.mem_append, List.mem_append] at hf
      rcases hf with (hf | hf) | hf
      · exact absurd hf (hother (codes_openerFindings b _ i label) (by decide) (by decide))
      · unfold caseEndFindings at hf
        dsimp only at hf
        split at hf
        · rename_i hend
          obtain ⟨hleaves, howner⟩ := Bool.and_eq_true_iff.mp hend
          refine ⟨label, hlabel, hleaves, howner, ?_⟩
          rw [List.mem_append, List.mem_append, List.mem_append] at hf
          rcases hf with ((hf | hf) | hf) | hf
          · exact .inl hf
          · exact (hreport (eq_report_of_mem hf) nofun nofun).elim
          · obtain ⟨x, hx, rfl⟩ := List.mem_map.mp hf
            exact .inr ⟨x, Option.mem_toList.mp hx, rfl⟩
          · exact (hreport (eq_report_of_mem hf) nofun nofun).elim
        · cases hf
      · exact absurd hf (hother (codes_fallthroughFindings b i label next) (by decide) (by decide))

/-- Where the findings on the ends of cases of a switch come from. -/
theorem caseEnd_of_findings (hcode : f.code = .multipleBreaks ∨ f.code = .breakIndent)
    (hf : f ∈ b.findings) :
    ∃ i ∈ b.branches, b.script.kindAt i = .caseKw ∧ ∃ label, b.table.scopeOf? i = some label
      ∧ (b.script.kindAt label.closer).isTerminator = true
      ∧ b.table.isOwner i label.closer = true
      ∧ (f ∈ b.breakIndentFindings label.closer
        ∨ ∃ x, b.secondBreak? label.closer = some x ∧ f = b.report .multipleBreaks x none) := by
  rw [findings_eq, List.mem_append] at hf
  rcases hf with hf | hf
  · obtain ⟨i, hi, ⟨_, seen, hf⟩ | ⟨hdefault, next, hf⟩⟩ := exists_of_mem_branchFindings hf
    · refine absurd hf (not_mem_of_codes (codes_defaultFindings b seen i) ?_)
      rcases hcode with hcode | hcode <;> (rw [hcode]; decide)
    · have hbranch := ((branchesFrom_spec b _).2 i hi).2.2.2
      exact ⟨i, hi, TokenKind.eq_caseKw hbranch hdefault, caseEnd_of_caseFindings hcode hf⟩
  · rcases hcode with hcode | hcode <;> rcases (belongs_of_frame hf).2 with hsite | hsite <;>
      (rw [hcode] at hsite; cases hsite)

theorem code_of_breakIndentFindings (hf : f ∈ b.breakIndentFindings i) : f.code = .breakIndent := by
  unfold breakIndentFindings at hf
  split at hf
  · cases hf
  · rw [List.mem_singleton.mp hf]
    rfl

/-- Where the finding of a second `break` in a switch comes from. -/
theorem secondBreak_of_findings (hcode : f.code = .multipleBreaks) (hf : f ∈ b.findings) :
    ∃ i ∈ b.branches, b.script.kindAt i = .caseKw ∧ ∃ label, b.table.scopeOf? i = some label
      ∧ (b.script.kindAt label.closer).isTerminator = true
      ∧ ∃ x, b.secondBreak? label.closer = some x ∧ f.position = (b.script.tokenAt x).position := by
  obtain ⟨i, hi, hcase, label, hlabel, hleaves, _, hf⟩ := caseEnd_of_findings (.inl hcode) hf
  refine ⟨i, hi, hcase, label, hlabel, hleaves, ?_⟩
  rcases hf with hf | ⟨x, hx, rfl⟩
  · rw [code_of_breakIndentFindings hf] at hcode
    cases hcode
  · exact ⟨x, hx, rfl⟩

end SwitchBody

namespace Script

variable {s : Script} {settings : Settings}

/-- **Every finding of a second `break` comes from the search behind the end of a case.** -/
theorem reaches_of_flaws {f : Finding} (hf : f ∈ s.flaws settings)
    (hcode : f.code = .multipleBreaks) :
    s.kindAt f.position = .breakKw ∧ ∃ scope label q, s.Reaches scope label q f.position := by
  obtain ⟨scope, hswitch, hmem⟩ :=
    (mem_standard_iff_switch (by rw [hcode]; nofun)).mp (mem_flaws_iff.mp hf).1
  obtain ⟨i, hi, hcase, label, hlabel, hleaves, x, hx, hposition⟩ :=
    SwitchBody.secondBreak_of_findings hcode hmem
  obtain ⟨q, ⟨hcloser, hsemi, hfirst⟩, ⟨hqx, hxc, hspace⟩, hsize, hbreak⟩ :=
    SwitchBody.secondBreak?_eq_some hx
  obtain ⟨hdetected, rfl⟩ := scopeOf?_scopeTable_iff.mp hlabel
  have hplace : f.position = x := hposition.trans (position_tokenAt_of_lt hsize)
  rw [hplace]
  -- the statement itself is no semicolon
  have hlt : label.closer < q := by
    refine Nat.lt_of_le_of_ne hcloser fun heq => ?_
    rw [heq] at hleaves
    exact TokenKind.ne_of_isTerminator hleaves rfl hsemi
  exact ⟨hbreak, scope, label, q, hswitch,
    mem_branchScopesOf_of_mem_branches hswitch hdetected hi, hcase, hleaves, hsemi, hlt,
    fun k hlo hhi => hfirst k (Nat.le_of_lt hlo) hhi, hspace, hqx, hxc⟩

end Script

/-! ## §3. The check. -/

/-- **When a reported second `break` is one.**  Every such finding points at a `break` that comes
directly behind the first semicolon after the end of a case.  It is a second `break` of a case
exactly when such a semicolon stands on the top level of the switch and in front of the next
branch. -/
theorem checkText_secondBreak_iff {settings : Settings} {text : String} {fs : List Finding}
    (h : checkText text settings = .ok fs) :
    ∃ s, Script.read settings.tabWidth text = .ok s
      ∧ ∀ f ∈ fs, f.code = .multipleBreaks →
          (s.kindAt f.position = .breakKw
              ∧ ∃ scope label q, s.Reaches scope label q f.position)
            ∧ (s.IsSecondBreak f.position ↔
                ∃ scope label q, s.Reaches scope label q f.position
                  ∧ s.FollowsEnd scope label q) := by
  obtain ⟨s, hread, rfl⟩ := eq_flaws_of_checkText h
  refine ⟨s, hread, fun f hf hcode => ?_⟩
  obtain ⟨hbreak, hreaches⟩ := Script.reaches_of_flaws hf hcode
  refine ⟨⟨hbreak, hreaches⟩, ?_⟩
  obtain ⟨scope, label, q, hreach⟩ := hreaches
  unfold Script.IsSecondBreak
  rw [← hreach.followsEnd_iff]
  exact and_iff_right hbreak

/-- The `break` of a loop in a function that a case returns.  It is reported as a second `break` of
the case, and is none. -/
theorem checkText_secondBreak_iff_closure :
    let settings : Settings := ⟨1, 4, []⟩
    let text := "switch ($x) \x7b\n case 1:\n  return function ($y) \x7b\n   while ($y) \x7b\n"
      ++ "    a();\n    break;\n   \x7d\n  \x7d;\n default:\n  b();\n\x7d\n"
    let s := Script.ofText 4 text
    let fs := s.flaws settings
    (checkText text settings = .ok fs
        ∧ fs.map (fun f => (f.rule, f.code, f.position))
          = [(SwitchBody.ruleName, .multipleBreaks, 41)])
      ∧ ¬ s.IsSecondBreak 41
      ∧ ∃ s', Script.read settings.tabWidth text = .ok s'
          ∧ ∀ f ∈ fs, f.code = .multipleBreaks →
              (s'.kindAt f.position = .breakKw
                  ∧ ∃ scope label q, s'.Reaches scope label q f.position)
                ∧ (s'.IsSecondBreak f.position ↔
                    ∃ scope label q, s'.Reaches scope label q f.position
                      ∧ s'.FollowsEnd scope label q) := by
  intro settings text s fs
  -- the `break` is on the top level of no switch
  obtain ⟨hread, hfound, hgroup⟩ : (Script.read settings.tabWidth text).isOk = true
      ∧ fs.map (fun f => (f.rule, f.code, f.position))
          = [(SwitchBody.ruleName, .multipleBreaks, 41)]
      ∧ ∀ scope ∈ s.detectedScopes, s.kindAt scope.condition = .switchKw →
          41 ∉ s.brackets.topLevel (scope.opener + 1) scope.closer := by
    decide +kernel
  have h : checkText text settings = .ok fs :=
    checkText_of_read (by decide) (Script.read_ofText hread)
  refine ⟨⟨h, hfound⟩, ?_, checkText_secondBreak_iff h⟩
  rintro ⟨_, scope, _, hfollows⟩
  exact hgroup scope hfollows.switch.1 hfollows.switch.2 hfollows.place

end SwitchLayout
