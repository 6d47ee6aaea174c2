/-
  SwitchLayout.Proofs.Collisions
  ──────────────────────────────
  **Edits that are proposed together never collide.**

  A round makes one edit to a token and leaves out the others.  It never has to: every edit fits
  its token, and no two take the same one, whatever the branches and however the switches nest.

    • `Selection.foldl_add_of_apart` — edits of different tokens that fit are all made,
    • `remedy_of_proposes` — what stands at a token and beside it tells which of the four kinds of
      edits it can get,
    • `branch_eq_of_proposes` — and for which branch it gets it,
    • `flaws_apart` — two findings that edit one token would be the same finding, and nothing is
      reported twice.

  The whole round: `applyFixes_makes_all`.
-/
import SwitchLayout.Proofs.Casing

namespace SwitchLayout

/-! ## §1. A round without collisions. -/

/-- **Edits of different tokens are all made**, if they fit and the tokens have none yet. -/
theorem Selection.foldl_add_of_apart {s : Script} {edits : List Edit}
    (hfits : ∀ e ∈ edits, fits s e = true)
    (hapart : edits.Pairwise fun e e' => e.position ≠ e'.position) (sel : Selection)
    (hfree : ∀ e ∈ edits, sel.chosen.contains e.position = false) :
    (edits.foldl (add s) sel).skipped = sel.skipped
      ∧ (edits.foldl (add s) sel).chosen.size = sel.chosen.size + edits.length := by
  induction edits generalizing sel with
  | nil => exact ⟨rfl, rfl⟩
  | cons e edits ih =>
      obtain ⟨hhead, htail⟩ := List.pairwise_cons.mp hapart
      have hnew := hfree e List.mem_cons_self
      have hadd : add s sel e = ⟨sel.chosen.insert e.position e, sel.skipped⟩ := by
        unfold add
        rw [hfits e List.mem_cons_self, hnew]
        rfl
      -- the tokens of the other edits stay free
      have hfree' : ∀ e' ∈ edits,
          (sel.chosen.insert e.position e).contains e'.position = false := by
        intro e' he'
        rw [Std.ExtTreeMap.contains_insert, hfree e' (List.mem_cons_of_mem e he'), Bool.or_false]
        simpa using hhead e' he'
      obtain ⟨hskipped, hsize⟩ := ih (fun e' he' => hfits e' (List.mem_cons_of_mem e he')) htail
        ⟨sel.chosen.insert e.position e, sel.skipped⟩ hfree'
      rw [List.foldl_cons, hadd]
      refine ⟨hskipped, ?_⟩
      rw [hsize, Std.ExtTreeMap.size_insert, if_neg (by simp [hnew]), List.length_cons]
      omega

/-! ## §2. Where the edits go. -/

/-- The kinds of edits. -/
inductive Remedy where
  /-- A keyword goes to lower case. -/
  | lower
  /-- One space is left behind a `case`. -/
  | space
  /-- Whitespace in front of a colon goes. -/
  | unspace
  /-- A statement moves to its column. -/
  | indent
deriving DecidableEq

/-- The kind of edit that comes with a code. -/
def Code.remedy? : Code → Option Remedy
  | notLower _ => some .lower
  | spacingAfterCase => some .space
  | spaceBeforeColon _ => some .unspace
  | breakIndent => some .indent
  | _ => none

/-- The statement that is moved stands behind the whitespace that is edited, or is edited itself. -/
theorem SwitchBody.closer_of_indent {b : SwitchBody} {closer expected : Nat} {e : Edit}
    (hleaves : (b.script.kindAt closer).isTerminator = true)
    (he : b.indentFix? closer expected = some e) :
    closer = if b.script.kindAt e.position = .whitespace then e.position + 1 else e.position := by
  rcases place_of_indent he with hp | ⟨hp, hspace⟩
  · rw [hp, if_neg (TokenKind.ne_of_isTerminator hleaves rfl)]
  · rw [if_pos hspace, hp]

namespace Script

/-- The kind of edit that the token at `p` can get: a keyword is lowered, what follows a `case` is
spaced, whitespace in front of a colon goes, and all else is moved. -/
def remedyAt (s : Script) (p : Nat) : Remedy :=
  if (s.kindAt p).isBranch then .lower
  else if s.kindAt (p - 1) = .caseKw then .space
  else if s.kindAt p = .whitespace ∧ s.kindAt (p + 1) = .colon then .unspace
  else .indent

variable {s : Script} {text : String} {tabWidth indent i j : Nat} {scope scope' : Scope}
  {code code' : Code} {e e' : Edit}

theorem position_of_space {p : Nat} (h : s.kindAt p = .whitespace) : (s.tokenAt p).position = p := by
  obtain ⟨_, _, htoken, _, hposition⟩ := get?_of_kindAt h (by decide)
  rw [htoken, hposition]

theorem remedyAt_of_indent {label : Scope} (hlabel : label ∈ s.detectedScopes)
    (hleaves : (s.kindAt label.closer).isTerminator = true) {p : Nat}
    (hp : p = label.closer ∨ (p + 1 = label.closer ∧ s.kindAt p = .whitespace)) :
    s.remedyAt p = .indent := by
  obtain ⟨hco, hoc, _⟩ := ordered_of_mem_detectedScopes hlabel
  have hkind : ∀ {kind : TokenKind}, kind.isTerminator = false → s.kindAt label.closer ≠ kind :=
    TokenKind.ne_of_isTerminator hleaves
  -- in front of the statement there is no `case`
  have hcase : s.kindAt (p - 1) ≠ .caseKw := by
    intro heq
    have hbranch := not_isBranch_before_closer hlabel (hkind rfl) (x := p - 1)
      (by rcases hp with hp | ⟨hp, _⟩ <;> omega) (fun k hlo hhi => by
        rcases hp with hp | ⟨hp, hspace⟩
        · omega
        · obtain rfl : k = p := by omega
          exact hspace)
    rw [heq] at hbranch
    cases hbranch
  unfold remedyAt
  rcases hp with rfl | ⟨hp, hspace⟩
  · have hbranch : (s.kindAt label.closer).isBranch = false := by
      revert hleaves
      cases s.kindAt label.closer <;> decide
    rw [if_neg (by simp [hbranch]), if_neg hcase, if_neg fun hspace => hkind rfl hspace.1]
  · rw [hspace, if_neg (by decide), if_neg hcase, hp, if_neg fun hcolon => hkind rfl hcolon.2]

/-- **The neighbours tell the edit.** -/
theorem remedy_of_proposes (h : read tabWidth text = .ok s)
    (hi : i ∈ (s.body indent scope).branches) (he : (s.body indent scope).Proposes i code e) :
    code.remedy? = some (s.remedyAt e.position) := by
  obtain ⟨hlo, _, hsize, hbranch⟩ := (SwitchBody.branchesFrom_spec _ _).2 i hi
  change (s.kindAt i).isBranch = true at hbranch
  cases he with
  | lower =>
      have hposition : (s.tokenAt i).position = i := position_tokenAt_of_lt hsize
      show some Remedy.lower = some (s.remedyAt (s.tokenAt i).position)
      rw [hposition, remedyAt, if_pos hbranch]
  | spacing hcase hfix =>
      obtain ⟨k, rfl⟩ : ∃ k, i = k + 1 := ⟨i - 1, by omega⟩
      change s.kindAt (k + 1) = .caseKw at hcase
      rw [(SwitchBody.place_of_spacing hfix).1, remedyAt, not_isBranch_behind_case h hcase,
        if_neg (by decide), Nat.add_sub_cancel, if_pos hcase]
      rfl
  | @unspace _ label hscope hcolon hbehind hcase hspace =>
      obtain ⟨hmem, rfl⟩ := scopeOf?_scopeTable_iff.mp hscope
      change s.kindAt label.opener = .colon at hcolon
      change s.kindAt (label.opener - 1) = .whitespace at hspace
      -- a `case` in front of the whitespace would be that of the label
      have hfront : s.kindAt (label.opener - 1 - 1) ≠ .caseKw := by
        intro heq
        have hown := eq_condition_of_isBranch hmem hcolon (x := label.opener - 1 - 1) (by omega)
          (by rw [heq]; rfl) (fun k hlo hhi => by
            obtain rfl : k = label.opener - 1 := by omega
            exact hspace)
        rw [hown] at heq
        have hlt := hcase heq
        omega
      show some Remedy.unspace = some (s.remedyAt (s.tokenAt (label.opener - 1)).position)
      rw [position_of_space hspace, remedyAt, hspace, if_neg (by decide), if_neg hfront,
        Nat.sub_add_cancel (by omega), if_pos ⟨rfl, hcolon⟩]
  | @indent label _ hcase hscope hleaves howner hfix =>
      obtain ⟨hmem, rfl⟩ := scopeOf?_scopeTable_iff.mp hscope
      rw [remedyAt_of_indent hmem hleaves (SwitchBody.place_of_indent hfix)]
      rfl

/-- The label of a branch ends on the top level of its switch. -/
theorem opener_mem_topLevel {q : Nat} {body label : Scope}
    (hbody : s.bodyScope? s.brackets q = some body)
    (hlabel : label ∈ s.branchScopes s.brackets body.closer
      (s.branchesIn s.brackets body.opener body.closer)) :
    label.opener ∈ s.brackets.topLevel (body.opener + 1) body.closer := by
  have hstretch := (branchStretch_of_body hbody).1 label hlabel
  obtain ⟨hco, hoc, hle⟩ := hstretch.ordered
  have hinside := hstretch.inside
  exact (mem_topLevel_iff (wellNested_brackets s) _ _ _).mpr ⟨by omega, by omega, hstretch.outside⟩

/-- The colon of a label belongs to one branch. -/
theorem condition_eq_of_opener_eq {a b : Scope} (ha : a ∈ s.detectedScopes)
    (hb : b ∈ s.detectedScopes) (hcolon : s.kindAt a.opener = .colon)
    (heq : a.opener = b.opener) : a.condition = b.condition := by
  have hplain : (s.kindAt a.opener).opens? = none := by
    rw [hcolon]
    rfl
  rcases group_or_branch ha with hgroup | ⟨q, body, hkind, hbody, hmem⟩
  · exact absurd hgroup (groupEnd?_of_opens hplain)
  rcases group_or_branch hb with hgroup | ⟨q', body', hkind', hbody', hmem'⟩
  · rw [heq] at hplain
    exact absurd hgroup (groupEnd?_of_opens hplain)
  -- the colon is on the top level of both switches, so they are one
  have htop := opener_mem_topLevel hbody' hmem'
  rw [← heq] at htop
  obtain rfl := switch_eq_of_topLevel hkind hkind' hbody hbody'
    (opener_mem_topLevel hbody hmem) htop
  obtain rfl : body = body' := Option.some.inj (hbody.symm.trans hbody')
  -- the label of the earlier branch ends in front of the later one
  obtain ⟨hin, hbelow⟩ := opener_lt_of_mem_branchScopes (branchesIn_sorted s _ _) hmem
  obtain ⟨hin', hbelow'⟩ := opener_lt_of_mem_branchScopes (branchesIn_sorted s _ _) hmem'
  have hco := (ordered_of_mem_detectedScopes ha).1
  have hco' := (ordered_of_mem_detectedScopes hb).1
  rcases Nat.lt_trichotomy a.condition b.condition with hlt | hcond | hgt
  · have hless := hbelow _ hin' hlt
    omega
  · exact hcond
  · have hless := hbelow' _ hin hgt
    omega

/-- **Edits of one token are proposed for one branch.** -/
theorem branch_eq_of_proposes (h : read tabWidth text = .ok s)
    (hi : i ∈ (s.body indent scope).branches) (hj : j ∈ (s.body indent scope').branches)
    (he : (s.body indent scope).Proposes i code e)
    (he' : (s.body indent scope').Proposes j code' e') (hplace : e.position = e'.position) :
    i = j := by
  have hisize := ((SwitchBody.branchesFrom_spec _ _).2 i hi).2.2.1
  have hjsize := ((SwitchBody.branchesFrom_spec _ _).2 j hj).2.2.1
  have hremedy : code.remedy? = code'.remedy? := by
    rw [remedy_of_proposes h hi he, remedy_of_proposes h hj he', hplace]
  cases he with
  | lower =>
      cases he' with
      | lower =>
          have hi' : (s.tokenAt i).position = i := position_tokenAt_of_lt hisize
          have hj' : (s.tokenAt j).position = j := position_tokenAt_of_lt hjsize
          exact hi'.symm.trans (hplace.trans hj')
      | spacing | unspace | indent => cases hremedy
  | spacing _ hfix =>
      cases he' with
      | spacing _ hfix' =>
          have hi' := (SwitchBody.place_of_spacing hfix).1
          have hj' := (SwitchBody.place_of_spacing hfix').1
          omega
      | lower | unspace | indent => cases hremedy
  | @unspace _ label hscope hcolon hbehind _ hspace =>
      cases he' with
      | @unspace _ label' hscope' hcolon' hbehind' _ hspace' =>
          obtain ⟨hmem, rfl⟩ := scopeOf?_scopeTable_iff.mp hscope
          obtain ⟨hmem', rfl⟩ := scopeOf?_scopeTable_iff.mp hscope'
          have heq : label.opener - 1 = label'.opener - 1 :=
            (position_of_space hspace).symm.trans (hplace.trans (position_of_space hspace'))
          exact condition_eq_of_opener_eq hmem hmem' hcolon (by omega)
      | lower | spacing | indent => cases hremedy
  | @indent label _ _ hscope hleaves howner hfix =>
      cases he' with
      | @indent label' _ _ hscope' hleaves' howner' hfix' =>
          -- the place of the edit tells the statement that is moved
          have hcloser : label.closer = label'.closer := by
            refine (SwitchBody.closer_of_indent hleaves hfix).trans ?_
            rw [hplace]
            exact (SwitchBody.closer_of_indent hleaves' hfix').symm
          rw [hcloser] at howner
          exact eq_of_isOwner howner howner'
      | lower | spacing | unspace => cases hremedy

end Script

/-! ## §3. Findings with edits. -/

namespace SwitchBody

/-- The codes of the findings on the branch at `i`. -/
def codesAt (b : SwitchBody) (i : Nat) : List Code :=
  if b.script.kindAt i = .defaultKw then defaultCodes else caseCodes

/-- On one branch a kind of edit comes with one code. -/
theorem code_eq_of_remedy? (b : SwitchBody) (i : Nat) {code code' : Code}
    (hcode : code ∈ b.codesAt i) (hcode' : code' ∈ b.codesAt i)
    (hremedy : code.remedy? = code'.remedy?) (hsome : code.remedy? ≠ none) : code = code' := by
  have hdefault : ∀ c ∈ defaultCodes, ∀ c' ∈ defaultCodes,
      c.remedy? = c'.remedy? → c.remedy? ≠ none → c = c' := by decide
  have hcase : ∀ c ∈ caseCodes, ∀ c' ∈ caseCodes,
      c.remedy? = c'.remedy? → c.remedy? ≠ none → c = c' := by decide
  unfold codesAt at hcode hcode'
  split at hcode
  · rename_i hkind
    rw [if_pos hkind] at hcode'
    exact hdefault code hcode code' hcode' hremedy hsome
  · rename_i hkind
    rw [if_neg hkind] at hcode'
    exact hcase code hcode code' hcode' hremedy hsome

variable {b : SwitchBody} {i : Nat} {f g : Finding} {e : Edit}

/-- **What a finding with an edit tells of its branch.** -/
theorem proposes_of_findings (hf : f ∈ b.findings) (he : f.fix = some e) :
    ∃ i ∈ b.branches, b.Proposes i f.code e ∧ b.Concerns i f ∧ f.code ∈ b.codesAt i := by
  have hbranches := (branchesFrom_spec b (b.scope.opener + 1)).2
  rw [findings_eq, List.mem_append] at hf
  rcases hf with hf | hf
  · obtain ⟨i, hi, ⟨hkind, seen, hf⟩ | ⟨hkind, next, hf⟩⟩ := exists_of_mem_branchFindings hf
    · have hcode : f.code ∈ b.codesAt i := by
        unfold codesAt
        rw [if_pos hkind]
        exact (codes_defaultFindings b seen i).subset (List.mem_map_of_mem hf)
      rcases List.mem_append.mp hf with hf | hf
      · rw [reportIf_fix hf] at he
        cases he
      · exact ⟨i, hi, defaultFindings_fix hkind hf he, concerns_of_defaultFindings hf, hcode⟩
    · have hcode : f.code ∈ b.codesAt i := by
        unfold codesAt
        rw [if_neg hkind]
        exact (codes_caseFindings b i next).subset (List.mem_map_of_mem hf)
      have hcase := TokenKind.eq_caseKw (hbranches i hi).2.2.2 hkind
      exact ⟨i, hi, caseFindings_fix hcase hf he, concerns_of_caseFindings hf, hcode⟩
  · -- what is found on the switch itself comes without an edit
    rw [List.mem_append, List.mem_append] at hf
    rcases hf with (hf | hf) | hf
    all_goals
      rw [reportIf_fix hf] at he
      cases he

/-- Findings on one branch with one code point at one token, a second `break` apart. -/
theorem Concerns.position_eq (hf : b.Concerns i f) (hg : b.Concerns i g) (hcode : f.code = g.code)
    (hbreak : f.code ≠ .multipleBreaks) : f.position = g.position := by
  have hsites : f.code.site = g.code.site := congrArg Code.site hcode
  cases hf with
  | second _ hsite => exact absurd (Code.eq_of_secondBreak hsite) hbreak
  | keyword _ hsite hposition =>
      cases hg with
      | keyword _ _ hposition' => rw [hposition, hposition']
      | closer _ _ _ hsite' | second _ hsite' =>
          rw [hsite, hsite'] at hsites
          cases hsites
  | closer hscope _ _ hsite hposition =>
      cases hg with
      | closer hscope' _ _ _ hposition' =>
          rw [hscope] at hscope'
          rw [hposition, hposition', Option.some.inj hscope']
      | keyword _ hsite' | second _ hsite' =>
          rw [hsite, hsite'] at hsites
          cases hsites

end SwitchBody

namespace Script

variable {s : Script} {settings : Settings} {text : String}

/-- The edit of a finding on a script belongs to a branch of a switch. -/
theorem proposes_of_flaws {f : Finding} {e : Edit} (hf : f ∈ s.flaws settings)
    (he : f.fix = some e) :
    ∃ scope, s.IsSwitch scope ∧ ∃ i ∈ (s.body settings.indent scope).branches,
      (s.body settings.indent scope).Proposes i f.code e
        ∧ (s.body settings.indent scope).Concerns i f
        ∧ f.code ∈ (s.body settings.indent scope).codesAt i := by
  obtain ⟨hf, _⟩ := mem_flaws_iff.mp hf
  have hsite : f.code.site ≠ .scopeEnd := by
    obtain ⟨_, _, _, _, _, _, hprop⟩ := standard_fix hf he
    generalize f.code = code at hprop
    cases hprop <;> nofun
  obtain ⟨scope, hswitch, hmem⟩ := (mem_standard_iff_switch hsite).mp hf
  exact ⟨scope, hswitch, SwitchBody.proposes_of_findings hmem he⟩

/-- **No two findings edit one token.**  They would be the same finding. -/
theorem flaws_apart (h : read settings.tabWidth text = .ok s) :
    (s.flaws settings).Pairwise fun f g =>
      ∀ e, f.fix = some e → ∀ e', g.fix = some e' → e.position ≠ e'.position := by
  refine (s.flaws_distinct settings).imp_of_mem fun {f g} hf hg hdistinct e he e' he' hplace => ?_
  obtain ⟨scope, hswitch, i, hi, hprop, hconcerns, hcode⟩ := proposes_of_flaws hf he
  obtain ⟨scope', hswitch', j, hj, hprop', hconcerns', hcode'⟩ := proposes_of_flaws hg he'
  obtain rfl := branch_eq_of_proposes h hi hj hprop hprop' hplace
  obtain rfl := scope_eq_of_mem_branches hswitch hswitch' hi hj
  have hremedy := remedy_of_proposes h hi hprop
  have hremedy' := remedy_of_proposes h hj hprop'
  have heq : f.code = g.code := by
    refine SwitchBody.code_eq_of_remedy? _ i hcode hcode' ?_ ?_
    · rw [hremedy, hremedy', hplace]
    · rw [hremedy]
      exact Option.some_ne_none _
  have hbreak : f.code ≠ .multipleBreaks := by
    intro hbreak
    rw [hbreak] at hremedy
    cases hremedy
  exact hbreak (hdistinct.content (hconcerns.rule_eq.trans hconcerns'.rule_eq.symm) heq
    (hconcerns.position_eq hconcerns' heq hbreak))

end Script

/-! ## §4. The round. -/

/-- **A round leaves no edit out.**  Every text that can be read is checked to the end, and all
edits that the check proposes are made. -/
theorem applyFixes_makes_all {settings : Settings} {text : String} {s : Script}
    (hindent : 1 ≤ settings.indent) (h : Script.read settings.tabWidth text = .ok s) :
    ∃ fs, s.check s.scopeTable settings = .ok fs
      ∧ (s.applyFixes fs).skipped = 0
      ∧ (s.applyFixes fs).applied = (fs.filter Finding.isFixable).length := by
  refine ⟨s.flaws settings, s.check_scopeTable hindent, ?_⟩
  have hfits : ∀ e ∈ (s.flaws settings).filterMap Finding.fix, Selection.fits s e = true := by
    intro e he
    obtain ⟨f, hf, hfix⟩ := List.mem_filterMap.mp he
    exact Script.fits_of_mem_flaws hf hfix
  have hapart : ((s.flaws settings).filterMap Finding.fix).Pairwise
      fun e e' => e.position ≠ e'.position :=
    List.pairwise_filterMap.mpr (Script.flaws_apart h)
  obtain ⟨hskipped, hsize⟩ := Selection.foldl_add_of_apart hfits hapart .start fun e _ =>
    Std.ExtTreeMap.contains_empty
  refine ⟨hskipped, ?_⟩
  show (((s.flaws settings).filterMap Finding.fix).foldl (Selection.add s) .start).chosen.size = _
  rw [hsize, List.length_filterMap_eq_countP, List.countP_eq_length_filter]
  show (∅ : Std.ExtTreeMap Nat Edit).size + _ = _
  rw [Std.ExtTreeMap.size_empty, Nat.zero_add]
  rfl

/-- Four kinds of edits on two lines: of the keyword, of the tab behind it, of the blank in front
of the colon, and of the statement below. -/
theorem applyFixes_makes_all_four :
    let settings : Settings := ⟨4, 4, []⟩
    let text := "switch ($a) \x7b\n    CASE\t1 :\n    break;\n    default:\n\x7d\n"
    let s := Script.ofText 4 text
    (1 ≤ settings.indent ∧ Script.read settings.tabWidth text = .ok s
        ∧ (s.flaws settings).filterMap (fun f => f.fix.map Edit.position) = [9, 10, 12, 16])
      ∧ ∃ fs, s.check s.scopeTable settings = .ok fs
          ∧ (s.applyFixes fs).skipped = 0
          ∧ (s.applyFixes fs).applied = (fs.filter Finding.isFixable).length := by
  intro settings text s
  have hread : Script.read settings.tabWidth text = .ok s :=
    Script.read_ofText (by decide +kernel)
  exact ⟨⟨by decide, hread, by decide +kernel⟩, applyFixes_makes_all (by decide) hread⟩

end SwitchLayout
