/-
  SwitchLayout.Proofs.Casing
  ──────────────────────────
  **One round is enough for the letter case of the keywords.**

  Edits of one token compete, and a round makes the first of them.  For a branch keyword there is
  no competition: the only edit of it is to lower it.  The lemmas:

    • `mem_standard_iff` — which keywords are found to be not in lower case,
    • `textOf_of_notLower` — a round lowers each of them,
    • `chars_repaired` — what a round gives to a piece of code is read back,
    • `Round.lowered` — so that no such finding is left.
-/
import SwitchLayout.Proofs.Tallies
import SwitchLayout.Proofs.Uniqueness

namespace SwitchLayout

open Text

/-! ## §1. Keywords that are not in lower case. -/

theorem not_mem_of_codes {fs : List Finding} {codes : List Code} {f : Finding}
    (hcodes : (fs.map Finding.code).Sublist codes) (hcode : f.code ∉ codes) : f ∉ fs :=
  fun hf => hcode (hcodes.subset (List.mem_map_of_mem hf))

namespace SwitchBody

variable {b : SwitchBody} {i : Nat} {f : Finding} {branch : Branch}

theorem mem_casingFindings {branch' : Branch} :
    f ∈ b.casingFindings branch' i ↔
      (b.script.tokenAt i).text ≠ String.ofList (lowercase (b.script.tokenAt i).chars)
        ∧ f = b.report (.notLower branch'
            (String.ofList (lowercase (b.script.tokenAt i).chars)) (b.script.tokenAt i).text) i
          (some (.replace (b.script.tokenAt i)
            (String.ofList (lowercase (b.script.tokenAt i).chars)))) := by
  unfold casingFindings
  dsimp only
  split
  · rename_i hlower
    exact ⟨nofun, fun h => absurd hlower h.1⟩
  · rename_i hlower
    rw [List.mem_singleton]
    exact ⟨fun h => ⟨hlower, h⟩, fun h => h.2⟩

theorem mem_labelFindings_iff (hcode : f.code = .notLower branch) {branch' : Branch} :
    f ∈ b.labelFindings branch' i ↔ f ∈ b.casingFindings branch' i := by
  unfold labelFindings
  rw [List.mem_append, List.mem_append, or_assoc]
  refine or_iff_left ?_
  rintro (h | h)
  · exact not_mem_of_codes (codes_reportIf b _ _ i) (by rw [hcode]; simp [Violation.code]) h
  · split at h
    · unfold caseSpacingFindings at h
      split at h
      · cases h
      · rw [List.mem_singleton.mp h] at hcode
        cases hcode
    · cases h

theorem mem_caseFindings_iff (hcode : f.code = .notLower branch) {next : Option Nat} :
    f ∈ b.caseFindings i next ↔ f ∈ b.casingFindings .caseLabel i := by
  unfold caseFindings
  rw [List.mem_append, mem_labelFindings_iff hcode]
  refine or_iff_left fun h => ?_
  split at h
  · cases h
  · rename_i scope _
    rw [List.mem_append, List.mem_append] at h
    rcases h with (h | h) | h
    · exact not_mem_of_codes (codes_openerFindings b _ i scope) (by rw [hcode]; simp) h
    · exact not_mem_of_codes (codes_caseEndFindings b i scope) (by rw [hcode]; simp) h
    · exact not_mem_of_codes (codes_fallthroughFindings b i scope next) (by rw [hcode]; simp) h

theorem mem_defaultFindings_iff (hcode : f.code = .notLower branch) :
    f ∈ b.defaultFindings i ↔ f ∈ b.casingFindings .defaultLabel i := by
  unfold defaultFindings
  rw [List.mem_append, mem_labelFindings_iff hcode]
  refine or_iff_left fun h => ?_
  split at h
  · cases h
  · rename_i scope _
    rcases List.mem_append.mp h with h | h
    · exact not_mem_of_codes (codes_openerFindings b _ i scope) (by rw [hcode]; simp) h
    · exact not_mem_of_codes (codes_defaultEndFindings b i scope) (by rw [hcode]; simp) h

/-- A finding on the letter case names the kind of the branch. -/
theorem branch_of_casingFindings (hcode : f.code = .notLower branch) {branch' : Branch}
    (h : f ∈ b.casingFindings branch' i) : branch' = branch := by
  rw [(mem_casingFindings.mp h).2] at hcode
  exact Code.notLower.inj hcode

theorem mem_branchFindings_iff (hcode : f.code = .notLower branch) {is : List Nat}
    (his : ∀ j ∈ is, (b.script.kindAt j).isBranch = true) (seen : Bool) :
    f ∈ b.branchFindings seen is ↔
      ∃ i ∈ is, b.script.kindAt i = Script.branchKind branch ∧ f ∈ b.casingFindings branch i := by
  induction is generalizing seen with
  | nil => exact ⟨nofun, fun ⟨_, hi, _⟩ => nomatch hi⟩
  | cons i is ih =>
      have hbelow := fun seen => ih (fun j hj => his j (List.mem_cons_of_mem i hj)) seen
      -- what the first branch adds, by its kind
      have hhead : ∀ {branch' : Branch}, b.script.kindAt i = Script.branchKind branch' →
          (f ∈ b.casingFindings branch' i
            ↔ b.script.kindAt i = Script.branchKind branch ∧ f ∈ b.casingFindings branch i) := by
        intro branch' hkind
        constructor
        · intro h
          obtain rfl := branch_of_casingFindings hcode h
          exact ⟨hkind, h⟩
        · rintro ⟨hkind', h⟩
          obtain rfl : branch' = branch := by
            rw [hkind] at hkind'
            cases branch' <;> cases branch <;> first | rfl | cases hkind'
          exact h
      rw [List.exists_mem_cons_iff]
      unfold branchFindings
      split
      · rename_i hdefault
        have hkind : b.script.kindAt i = Script.branchKind .defaultLabel := beq_iff_eq.mp hdefault
        rw [List.mem_append, List.mem_append, mem_defaultFindings_iff hcode, hbelow, hhead hkind]
        refine or_congr_left (or_iff_right fun h => ?_)
        exact not_mem_of_codes (codes_reportIf b _ _ i) (by rw [hcode]; simp [Violation.code]) h
      · rename_i hdefault
        have hkind : b.script.kindAt i = Script.branchKind .caseLabel :=
          TokenKind.eq_caseKw (his i List.mem_cons_self) fun heq => hdefault (beq_iff_eq.mpr heq)
        rw [List.mem_append, mem_caseFindings_iff hcode, hbelow, hhead hkind]

theorem mem_findings_iff (hcode : f.code = .notLower branch) :
    f ∈ b.findings ↔
      ∃ i ∈ b.branches, b.script.kindAt i = Script.branchKind branch
        ∧ f ∈ b.casingFindings branch i := by
  rw [findings_eq, List.mem_append, mem_branchFindings_iff hcode]
  · refine or_iff_left fun h => ?_
    rcases (belongs_of_frame h).2 with hsite | hsite
    · rw [hcode] at hsite
      cases hsite
    · rw [hcode] at hsite
      cases hsite
  · intro j hj
    exact ((branchesFrom_spec b _).2 j hj).2.2.2

end SwitchBody

namespace Script

variable {s : Script} {settings : Settings} {f : Finding} {branch : Branch}

/-- **The keywords that are found to be not in lower case.** -/
theorem mem_standard_iff (hcode : f.code = .notLower branch) :
    f ∈ Ruleset.standard.findings s s.scopeTable settings ↔
      ∃ scope, s.IsSwitch scope ∧ ∃ i ∈ (s.body settings.indent scope).branches,
        s.kindAt i = branchKind branch
          ∧ f ∈ (s.body settings.indent scope).casingFindings branch i := by
  rw [mem_standard_iff_switch (by rw [hcode]; nofun)]
  refine exists_congr fun scope => and_congr_right fun _ => ?_
  exact SwitchBody.mem_findings_iff hcode

end Script

/-! ## §2. The edits of a branch keyword. -/

namespace SwitchBody

variable {b : SwitchBody} {i : Nat} {e : Edit}

/-- The spacing of a `case` puts one space behind it. -/
theorem place_of_spacing (he : b.caseSpacingFix? i = some e) :
    e.position = i + 1 ∧ e.inserted = " " := by
  unfold caseSpacingFix? at he
  split at he
  · cases he
  · rename_i next hnext
    have hposition := Script.position_of_get? hnext
    split at he
    · split at he
      · cases he
      · obtain rfl := Option.some.inj he
        exact ⟨hposition, rfl⟩
    · obtain rfl := Option.some.inj he
      exact ⟨hposition, rfl⟩

/-- A statement is moved by an edit of itself or of the whitespace in front of it. -/
theorem place_of_indent {closer expected : Nat} (he : b.indentFix? closer expected = some e) :
    e.position = closer
      ∨ (e.position + 1 = closer ∧ b.script.kindAt e.position = .whitespace) := by
  cases moves_of_indent he with
  | ahead => exact .inl rfl
  | back _ _ hspace => exact .inr ⟨rfl, hspace⟩

end SwitchBody

namespace Script

variable {s s₁ : Script} {settings : Settings} {text : String} {tabWidth p : Nat}

/-- A `case` is not directly followed by another keyword of a branch: the two would be one
word. -/
theorem not_isBranch_behind_case (h : read tabWidth text = .ok s)
    (hcase : s.kindAt (p + 1) = .caseKw) : (s.kindAt (p + 2)).isBranch = false := by
  by_contra hbranch
  rw [Bool.not_eq_false] at hbranch
  have hlt : ∀ {i : Nat}, (s.kindAt i).isBranch = true → i < s.size := by
    intro i hi
    obtain ⟨t, ht, _⟩ := get?_of_kindAt (i := i) rfl (fun heq => by rw [heq] at hi; cases hi)
    exact (Array.getElem?_eq_some_iff.mp ht).1
  have hcase' : (s.kindAt (p + 1)).isBranch = true := by rw [hcase]; rfl
  obtain ⟨member, c, t, _, hextent, hform⟩ := token_form h (hlt hcase')
  obtain ⟨_, d, u, hchars, _, hform'⟩ := token_form (p := p + 1) h (hlt hbranch)
  have hword := (hform.of_isBranch hcase').2.2
  have hword' := (hform'.of_isBranch hbranch).2.2
  rw [List.all_cons, Bool.and_eq_true] at hword hword'
  have hend := ((extent_append_word hword.1 _ _ _ _).mp hextent).2 d (by
    rw [textFrom_eq (hlt hbranch), hchars]
    rfl)
  rw [hword'.1] at hend
  cases hend

/-- **The only edit of a branch keyword is to lower it.** -/
theorem eq_lower_of_proposes {scope : Scope} {indent i : Nat} {code : Code} {e : Edit}
    (h : read tabWidth text = .ok s) (hi : i ∈ (s.body indent scope).branches)
    (he : (s.body indent scope).Proposes i code e)
    (hkind : (s.kindAt e.position).isBranch = true) :
    e = .replace (s.tokenAt e.position)
      (String.ofList (lowercase (s.tokenAt e.position).chars)) := by
  obtain ⟨hlo, _, hsize, hbranch⟩ := (SwitchBody.branchesFrom_spec _ _).2 i hi
  cases he with
  | lower =>
      have hposition : (Edit.replace (s.tokenAt i)
          (String.ofList (lowercase (s.tokenAt i).chars))).position = i :=
        position_tokenAt_of_lt hsize
      rw [show (s.body indent scope).script = s from rfl, hposition]
  | spacing hcase hfix =>
      obtain ⟨j, rfl⟩ : ∃ j, i = j + 1 := ⟨i - 1, by omega⟩
      rw [(SwitchBody.place_of_spacing hfix).1, not_isBranch_behind_case h hcase] at hkind
      cases hkind
  | @unspace _ label _ _ _ _ hspace =>
      obtain ⟨space, _, htoken, _, hposition⟩ := get?_of_kindAt hspace (by decide)
      change (s.kindAt ((s.body indent scope).script.tokenAt (label.opener - 1)).position).isBranch
        = true at hkind
      rw [htoken, hposition] at hkind
      change s.kindAt (label.opener - 1) = .whitespace at hspace
      rw [hspace] at hkind
      cases hkind
  | @indent label _ _ _ hleaves _ hfix =>
      change (s.kindAt label.closer).isTerminator = true at hleaves
      rcases SwitchBody.place_of_indent hfix with hposition | ⟨_, hspace⟩
      · rw [hposition] at hkind
        generalize s.kindAt label.closer = kind at *
        cases kind <;> first | exact absurd hkind (by decide) | exact absurd hleaves (by decide)
      · change s.kindAt e.position = .whitespace at hspace
        rw [hspace] at hkind
        cases hkind

/-- **A round lowers every keyword that is found to be not in lower case.** -/
theorem textOf_of_notLower {f : Finding} {branch : Branch} (h : read settings.tabWidth text = .ok s)
    (hf : f ∈ s.flaws settings) (hcode : f.code = .notLower branch) :
    (s.selection settings).textOf (s.tokenAt f.position)
      = lowercase (s.tokenAt f.position).chars := by
  obtain ⟨scope, hswitch, i, hi, hkind, hcasing⟩ :=
    (mem_standard_iff hcode).mp (mem_flaws_iff.mp hf).1
  have hsize : i < s.size := ((SwitchBody.branchesFrom_spec _ _).2 i hi).2.2.1
  have hbranch : (s.kindAt i).isBranch = true := ((SwitchBody.branchesFrom_spec _ _).2 i hi).2.2.2
  have hreport := (SwitchBody.mem_casingFindings.mp hcasing).2
  have hposition : f.position = i := by
    rw [hreport]
    exact position_tokenAt_of_lt hsize
  -- the edit of the finding fits, so that the token is edited
  obtain ⟨e, he⟩ : ∃ e, (s.selection settings).chosen[i]? = some e := by
    unfold selection
    rw [Selection.getElem?_chosen, ← Option.isSome_iff_exists, List.find?_isSome]
    have hfix : f.fix = some (.replace (s.tokenAt i)
        (String.ofList (lowercase (s.tokenAt i).chars))) := by
      rw [hreport]
      rfl
    refine ⟨_, List.mem_filterMap.mpr ⟨f, hf, hfix⟩, ?_⟩
    unfold Selection.Suits
    rw [fits_of_mem_flaws hf hfix, Bool.and_true, beq_iff_eq]
    exact position_tokenAt_of_lt hsize
  obtain ⟨rfl, _, g, hg, hgfix⟩ := selection_eq_some he
  obtain ⟨q, scope', _, _, j, hj, hprop⟩ := standard_fix (mem_flaws_iff.mp hg).1 hgfix
  have hlower := eq_lower_of_proposes h hj hprop hbranch
  rw [hposition, textOf_eq (get?_of_lt hsize), he]
  show e.apply (s.tokenAt e.position) = _
  generalize s.tokenAt e.position = t at hlower ⊢
  rw [hlower]
  simp [Edit.apply, Edit.replace]

/-! ## §3. What a round leaves. -/

theorem textFrom_suffix (s : Script) {p q : Nat} (hpq : p ≤ q) : s.textFrom q <:+ s.textFrom p := by
  refine ⟨((s.lexemes.drop p).take (q - p)).flatMap Lexeme.chars, ?_⟩
  unfold textFrom
  rw [← List.flatMap_append, show q = p + (q - p) by omega, ← List.drop_drop,
    Nat.add_sub_cancel_left, List.take_append_drop]

theorem repairedFrom_suffix (s : Script) (settings : Settings) {p q : Nat} (hpq : p ≤ q) :
    s.repairedFrom settings q <:+ s.repairedFrom settings p := by
  refine ⟨(((s.tokens.toList.map (s.selection settings).textOf).drop p).take (q - p)).flatten, ?_⟩
  unfold repairedFrom
  rw [← List.flatten_append, show q = p + (q - p) by omega, ← List.drop_drop,
    Nat.add_sub_cancel_left, List.take_append_drop]

/-- **What a round gives to a piece of code is read back**, if it has the length of the piece.
The text behind the piece in front and the text behind this one leave no room. -/
theorem Round.chars_place (hr : Round settings s s₁) {k : Nat} (hk : k + 1 < s.code.length)
    (hlength : ((s.selection settings).textOf (s.tokenAt (s.place (k + 1)))).length
      = (s.tokenAt (s.place (k + 1))).chars.length) :
    (s₁.tokenAt (s₁.place (k + 1))).chars
      = (s.selection settings).textOf (s.tokenAt (s.place (k + 1))) := by
  have hsame := (hr.calms.program.same_place hk).length_chars
  have hk₁ : k + 1 < s₁.code.length := by
    rw [hr.calms.program.length_code]
    exact hk
  have hfront := textFrom_repaired hr.before hr.free hr.behind (Nat.lt_of_succ_lt hk)
  have hbehind := textFrom_repaired hr.before hr.free hr.behind hk
  have hleft := s₁.textFrom_suffix (s₁.place_lt (Nat.lt_succ_self k))
  have hright := s.repairedFrom_suffix settings (s.place_lt (Nat.lt_succ_self k))
  rw [hfront, textFrom_eq (place_lt_size hk₁), hbehind] at hleft
  rw [repairedFrom_eq (place_lt_size hk)] at hright
  have hlengths : ((s₁.tokenAt (s₁.place (k + 1))).chars
        ++ s.repairedFrom settings (s.place (k + 1) + 1)).length
      = ((s.selection settings).textOf (s.tokenAt (s.place (k + 1)))
        ++ s.repairedFrom settings (s.place (k + 1) + 1)).length := by
    rw [List.length_append, List.length_append, hlength]
    exact congrArg (· + _) hsame
  exact List.append_cancel_right ((List.suffix_of_suffix_length_le hleft hright
    (Nat.le_of_eq hlengths)).eq_of_length hlengths)

/-- A keyword that is not in lower case is found, unless such findings are dropped. -/
theorem exists_notLower {scope : Scope} {i : Nat} {branch : Branch} (hswitch : s.IsSwitch scope)
    (hi : i ∈ (s.body settings.indent scope).branches) (hkind : s.kindAt i = branchKind branch)
    (hupper : (s.tokenAt i).text ≠ String.ofList (Text.lowercase (s.tokenAt i).chars))
    (hkept : ∀ g : Finding, g.rule = SwitchBody.ruleName → g.code = .notLower branch →
      settings.suppresses g = false) :
    ∃ g ∈ s.flaws settings, g.code = .notLower branch ∧ g.position = i := by
  have hsize : i < s.size := ((SwitchBody.branchesFrom_spec _ _).2 i hi).2.2.1
  refine ⟨_, mem_flaws_iff.mpr ⟨(mem_standard_iff rfl).mpr ⟨scope, hswitch, i, hi, hkind,
    SwitchBody.mem_casingFindings.mpr ⟨hupper, rfl⟩⟩, hkept _ rfl rfl⟩, rfl, ?_⟩
  exact position_tokenAt_of_lt hsize

/-- **One round is enough.**  No keyword of a branch is left that is found to be not in lower
case. -/
theorem Round.lowered (hr : Round settings s s₁) {f : Finding} (hf : f ∈ s₁.flaws settings)
    (branch : Branch) : f.code ≠ .notLower branch := by
  intro hcode
  obtain ⟨hfinding, hkept⟩ := mem_flaws_iff.mp hf
  obtain ⟨scope₁, hswitch₁, i, hi, hkind, hcasing⟩ := (mem_standard_iff hcode).mp hfinding
  obtain ⟨hupper₁, hreport⟩ := SwitchBody.mem_casingFindings.mp hcasing
  -- the same keyword in front of the round
  obtain ⟨scope, hswitch, rfl⟩ := hr.thins.isSwitch_place.mp hswitch₁
  obtain ⟨k, hk, rfl⟩ := (hr.thins.mem_branches_place hswitch).mp hi
  obtain ⟨hlo, hlength⟩ := branch_lt_length hswitch hk
  obtain ⟨k, rfl⟩ : ∃ k', k = k' + 1 := ⟨k - 1, by omega⟩
  have hlength₁ : k + 1 < s₁.code.length := by
    rw [hr.calms.program.length_code]
    exact hlength
  have hbranch : (s.kindAt (s.place (k + 1))).isBranch = true := by
    rw [← hr.calms.program.kindAt_place, hkind]
    cases branch <;> rfl
  -- it was found there too, and lowered
  obtain ⟨g, hg, hgcode, hposition⟩ : ∃ g ∈ s.flaws settings,
      g.code = .notLower branch ∧ g.position = s.place (k + 1) := by
    refine exists_notLower (s.thins_bare.isSwitch_place.mpr ⟨scope, hswitch, rfl⟩)
      ((s.thins_bare.mem_branches_place hswitch).mpr ⟨k + 1, hk, rfl⟩) ?_
      (fun hlower => hupper₁ (hr.calmed.lowercase hlength hlower)) fun g hrule hgcode => ?_
    · rw [← hr.calms.program.kindAt_place, hkind]
    · rw [← hkept, suppresses_eq_silences, suppresses_eq_silences, hrule, hgcode, hcode, hreport]
      rfl
  have htext := textOf_of_notLower hr.before hg hgcode
  rw [hposition, lowercase_of_branch hr.before (get?_of_lt (place_lt_size hlength)) hbranch]
    at htext
  have hchars := hr.chars_place hlength (by rw [htext, length_lowerAscii])
  rw [htext] at hchars
  have hbranch₁ : (s₁.kindAt (s₁.place (k + 1))).isBranch = true := by
    rw [hr.calms.program.kindAt_place]
    exact hbranch
  exact hupper₁ (text_of_lowerAscii hr.behind (place_lt_size hlength₁) hbranch₁ hchars)

end Script

end SwitchLayout
