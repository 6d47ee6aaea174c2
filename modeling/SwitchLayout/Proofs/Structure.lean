/-
  SwitchLayout.Proofs.Structure
  ─────────────────────────────
  **A repair that leaves the colons alone keeps the structure.**

  The one edit that can spoil a program is to take away the whitespace in front of the colon of a
  label.  With its findings silenced no round glues anything, and then:

    • `not_glues_of_colons` — no round glues,
    • `SameProgram.scopeTable_eq` — the scope table of the new text is that of the old one, its
      positions renumbered,
    • `repairWithin_lowered` — no keyword of a branch is left that is not in lower case.

  The whole repair: `repair_keeps_structure`.
-/
import SwitchLayout.Proofs.Casing
import SwitchLayout.Proofs.Renumbering

namespace SwitchLayout

/-! ## §1. Renumbering the code. -/

/-- The number of lexemes of code in front of a position; behind the end it goes on from there. -/
def codeRank (ls : List Lexeme) (p : Nat) : Nat := (codeOf (ls.take p)).length + (p - ls.length)

theorem codeRank_codePlace (ls : List Lexeme) (k : Nat) : codeRank ls (codePlace ls k) = k := by
  induction ls generalizing k with
  | nil => simp [codeRank, codePlace, codeOf]
  | cons l ls ih =>
      have hnext : ∀ p, codeRank (l :: ls) (p + 1)
          = (codeOf (l :: ls.take p)).length + (p - ls.length) := by
        intro p
        unfold codeRank
        rw [List.take_succ_cons, List.length_cons, Nat.add_sub_add_right]
      by_cases hl : l.kind = .whitespace
      · rw [codePlace_space hl, hnext, codeOf_space hl]
        exact ih k
      · cases k with
        | zero =>
            rw [codePlace_zero hl]
            simp [codeRank, codeOf]
        | succ k =>
            rw [codePlace_succ hl, hnext, codeOf_code hl, List.length_cons, Nat.add_right_comm]
            exact congrArg (· + 1) (ih k)

namespace Script

variable {s s' : Script}

/-- The position in `s'` of the code that stands at a position of `s`: both have the same number
of code in front. -/
def renumber (s s' : Script) (p : Nat) : Nat := s'.place (codeRank s.lexemes p)

/-- The code number `k` goes to the code number `k`. -/
theorem renumber_place (s s' : Script) (k : Nat) : s.renumber s' (s.place k) = s'.place k :=
  congrArg s'.place (codeRank_codePlace s.lexemes k)

/-- **Scripts with one program have one scope table**, up to the renumbering of their code. -/
theorem SameProgram.scopeTable_eq (h : s.SameProgram s') :
    s'.scopeTable = s.scopeTable.move (s.renumber s') := by
  have hplace : s.renumber s' ∘ s.place = s'.place := funext (s.renumber_place s')
  have hthins := thins_of_sameProgram h
  have hmove : (s.bare.scopeTable.move s.place).move (s.renumber s')
      = s.bare.scopeTable.move (s.renumber s' ∘ s.place) :=
    ScopeTable.move_move (fun _ _ => s.thins_bare.inj) (hplace ▸ fun _ _ => hthins.inj) _
  rw [s.thins_bare.scopeTable_eq_move, hmove, hplace]
  exact hthins.scopeTable_eq_move

end Script

/-! ## §2. Rounds that leave the colons alone. -/

/-- A code whose name is on the list is silenced. -/
theorem Settings.suppresses_of_mem {settings : Settings} {f : Finding}
    (h : f.code.name ∈ settings.suppressed) : settings.suppresses f = true := by
  unfold suppresses
  rw [List.any_eq_true]
  exact ⟨_, h, by simp⟩

section Rounds

variable {settings : Settings} {text : String} {s : Script} {r : Report}

/-- **Without the edits of colons no round glues.** -/
theorem Script.not_glues_of_colons
    (hcolons : ∀ branch, (Code.spaceBeforeColon branch).name ∈ settings.suppressed)
    (h : Script.read settings.tabWidth text = .ok s) : ¬ s.Glues (s.selection settings) := by
  rintro ⟨i, _, _, hspace, hcolon, hgone⟩
  obtain ⟨t, ht, htoken, _⟩ := get?_of_kindAt hspace (by decide)
  rw [htoken, textOf_eq ht] at hgone
  cases he : (s.selection settings).chosen[i + 1]? with
  | none =>
      rw [he] at hgone
      exact chars_ne_nil h ht hgone
  | some e =>
      rw [he] at hgone
      change e.apply t = [] at hgone
      obtain ⟨hposition, _, f, hf, hfix⟩ := selection_eq_some he
      obtain ⟨hfinding, hkept⟩ := mem_flaws_iff.mp hf
      obtain ⟨q, scope, _, _, j, hj, hprop⟩ := standard_fix hfinding hfix
      obtain ⟨_, _, hsize, hbranch⟩ := (SwitchBody.branchesFrom_spec _ _).2 j hj
      generalize hcode : f.code = code at hprop
      cases hprop with
      | lower =>
          -- a keyword is no whitespace
          have hj' : j = i + 1 := (position_tokenAt_of_lt hsize).symm.trans hposition
          change (s.kindAt j).isBranch = true at hbranch
          rw [hj', hspace] at hbranch
          cases hbranch
      | spacing _ hspacing =>
          -- a space comes in
          unfold Edit.apply at hgone
          rw [(SwitchBody.place_of_spacing hspacing).2] at hgone
          cases hgone
      | @unspace branch _ _ _ _ _ _ =>
          -- such findings are silenced
          rw [Settings.suppresses_of_mem (hcode ▸ hcolons branch)] at hkept
          cases hkept
      | @indent label _ _ _ hleaves _ hindent =>
          -- a colon is no statement that ends a case
          change (s.kindAt label.closer).isTerminator = true at hleaves
          rcases SwitchBody.place_of_indent hindent with heq | ⟨heq, _⟩
          · rw [← heq, hposition, hspace] at hleaves
            cases hleaves
          · rw [← heq, hposition, hcolon] at hleaves
            cases hleaves

theorem not_roundGlues_of_colons
    (hcolons : ∀ branch, (Code.spaceBeforeColon branch).name ∈ settings.suppressed)
    (text : String) : ¬ RoundGlues settings text := by
  cases hread : Script.read settings.tabWidth text with
  | error e =>
      unfold RoundGlues
      rw [hread]
      exact id
  | ok s =>
      rw [roundGlues_of_read hread]
      exact Script.not_glues_of_colons hcolons hread

/-! ## §3. The whole repair. -/

/-- A keyword that is not in lower case can be cured. -/
theorem isFixable_of_notLower {f : Finding} {branch : Branch} (hf : f ∈ s.flaws settings)
    (hcode : f.code = .notLower branch) : f.isFixable = true := by
  obtain ⟨scope, _, i, _, _, hcasing⟩ :=
    (Script.mem_standard_iff hcode).mp (Script.mem_flaws_iff.mp hf).1
  rw [(SwitchBody.mem_casingFindings.mp hcasing).2]
  rfl

/-- **All rounds**, by induction over those that are left: the last text had a round in front of
it, or nothing to cure. -/
theorem repairWithin_lowered (hindent : 1 ≤ settings.indent)
    (hfree : ∀ text, ¬ RoundGlues settings text) (passes : Nat) :
    ∀ {text : String} {s : Script} {r : Report}, Script.read settings.tabWidth text = .ok s →
      (passes = 0 → ∀ f ∈ s.flaws settings, ∀ branch, f.code ≠ .notLower branch) →
      repairWithin settings passes text = .ok r →
      ∀ f ∈ r.remaining, ∀ branch, f.code ≠ .notLower branch := by
  induction passes with
  | zero =>
      intro text s r h hlowered hrepair
      rw [repairWithin_zero hindent h] at hrepair
      rw [← Except.ok.inj hrepair]
      exact hlowered rfl
  | succ passes ih =>
      intro text s r h _ hrepair
      rw [repairWithin_succ hindent h] at hrepair
      split at hrepair
      · rename_i hnone
        rw [← Except.ok.inj hrepair]
        intro f hf branch hcode
        have hfixable := isFixable_of_notLower hf hcode
        rw [Script.isFixable_of_applied_eq_zero hnone f hf] at hfixable
        cases hfixable
      · have hfirst := hfree text
        rw [roundGlues_of_read h] at hfirst
        obtain ⟨s₁, h₁, _⟩ := Script.code_repaired h hfirst
        have hround : Script.Round settings s s₁ := by
          refine ⟨?_, hfirst, h₁⟩
          rw [Script.source_read h]
          exact h
        cases hrest : repairWithin settings passes (s.repaired settings) with
        | error e =>
            rw [hrest] at hrepair
            cases hrepair
        | ok rest =>
            rw [hrest] at hrepair
            rw [← Except.ok.inj hrepair]
            have hlater : ∀ f ∈ rest.remaining, ∀ branch, f.code ≠ .notLower branch :=
              ih h₁ (fun _ f hf => hround.lowered hf) hrest
            exact hlater

/-- **A repair without the edits of colons keeps the structure.**  With settings that can be used
and that silence the findings on whitespace in front of a colon, the repair of a text that can be
read gives a report; its text has the same code, up to branch keywords that went to lower case,
and the same scope table, up to the renumbering of the code; and no finding is left that such a
keyword is not in lower case. -/
theorem repair_keeps_structure (hindent : 1 ≤ settings.indent)
    (hcase : "SpaceBeforeColonCASE" ∈ settings.suppressed)
    (hdefault : "SpaceBeforeColonDEFAULT" ∈ settings.suppressed)
    (h : Script.read settings.tabWidth text = .ok s) :
    ∃ r s', repair text settings = .ok r ∧ Script.read settings.tabWidth r.source = .ok s'
      ∧ s.SameProgram s' ∧ s'.scopeTable = s.scopeTable.move (s.renumber s')
      ∧ ∀ f ∈ r.remaining, ∀ branch, f.code ≠ .notLower branch := by
  have hcolons : ∀ branch, (Code.spaceBeforeColon branch).name ∈ settings.suppressed := by
    intro branch
    cases branch
    · exact hcase
    · exact hdefault
  have hfree := not_roundGlues_of_colons hcolons
  obtain ⟨r, s', hrepair, h', hsame⟩ :=
    repairWithin_keeps hindent maxPasses h fun k _ => hfree (sourceAfter settings k text)
  exact ⟨r, s', hrepair, h', hsame, hsame.scopeTable_eq,
    repairWithin_lowered hindent hfree maxPasses h nofun hrepair⟩

/-- A comment in front of a colon on the line below, which the repair must leave there, in a switch
whose other flaws it cures. -/
theorem repair_keeps_structure_comment :
    let settings : Settings := ⟨4, 4, ["SpaceBeforeColonCASE", "SpaceBeforeColonDEFAULT"]⟩
    let text := "switch ($x) \x7b\nCASE  1 // one\n:\nbreak;\n\x7d\n"
    let s := Script.ofText 4 text
    (1 ≤ settings.indent ∧ "SpaceBeforeColonCASE" ∈ settings.suppressed
        ∧ "SpaceBeforeColonDEFAULT" ∈ settings.suppressed ∧ Script.read 4 text = .ok s)
      ∧ ∃ r s', repair text settings = .ok r ∧ Script.read 4 r.source = .ok s'
        ∧ s.SameProgram s' ∧ s'.scopeTable = s.scopeTable.move (s.renumber s')
        ∧ ∀ f ∈ r.remaining, ∀ branch, f.code ≠ .notLower branch := by
  intro settings text s
  have hindent : 1 ≤ settings.indent := by decide
  have hcase : "SpaceBeforeColonCASE" ∈ settings.suppressed := by decide
  have hdefault : "SpaceBeforeColonDEFAULT" ∈ settings.suppressed := by decide
  have h : Script.read settings.tabWidth text = .ok s := Script.read_ofText (by decide +kernel)
  exact ⟨⟨hindent, hcase, hdefault, h⟩, repair_keeps_structure hindent hcase hdefault h⟩

end Rounds

end SwitchLayout
