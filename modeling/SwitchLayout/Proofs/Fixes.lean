/-
  SwitchLayout.Proofs.Fixes
  ─────────────────────────
  **Which edits the rules propose, and which of them a round makes.**

  Four kinds of edits are proposed, all for the branches of a switch: a keyword goes to lower
  case, the space behind a `case` is put right, whitespace in front of a colon goes, and the
  statement that ends a case moves to its column (`Proposes`).  The lemmas:

    • `getElem?_chosen` — of the edits of a token the first that fits is made,
    • `findings_fix`, `standard_fix` — every edit that comes with a finding is one of the four,
    • `laidOut_of_proposes` — in a script that was read from a text, each of the four leaves the
      token in one of the layouts that `LaidOut` allows.
-/
import SwitchLayout.Repair
import SwitchLayout.Proofs.Branches
import SwitchLayout.Proofs.Reading

namespace SwitchLayout

open Text

/-! ## §1. The edits of a round. -/

namespace Selection

/-- The edit takes a token of the script at the position `p` and fits it. -/
def Suits (s : Script) (p : Nat) (e : Edit) : Bool := e.position == p && fits s e

theorem getElem?_add (s : Script) (sel : Selection) (e : Edit) (p : Nat) :
    (sel.add s e).chosen[p]?
      = sel.chosen[p]?.or (if Suits s p e = true then some e else none) := by
  unfold add Suits
  by_cases hfits : fits s e = true
  · by_cases hnew : sel.chosen.contains e.position = true
    · -- the token has its edit already
      rw [if_neg (by simp [hnew])]
      by_cases hp : e.position = p
      · obtain ⟨e', he'⟩ : ∃ e', sel.chosen[p]? = some e' := by
          rw [← Option.isSome_iff_exists, ← hp, Std.ExtTreeMap.isSome_getElem?_eq_contains]
          exact hnew
        simp [he']
      · simp [hp]
    · rw [if_pos (by simp [hfits, hnew])]
      by_cases hp : e.position = p
      · have hnone : sel.chosen[p]? = none := by
          rw [← hp]
          exact Std.ExtTreeMap.getElem?_eq_none_of_contains_eq_false 
            (Bool.eq_false_of_not_eq_true hnew)
        simp [hp, hfits, hnone]
      · simp [hp, Std.ExtTreeMap.getElem?_insert]
  · rw [if_neg (by simp [hfits])]
    simp [hfits]

theorem getElem?_foldl_add (s : Script) (edits : List Edit) (sel : Selection) (p : Nat) :
    (edits.foldl (add s) sel).chosen[p]? = sel.chosen[p]?.or (edits.find? (Suits s p)) := by
  induction edits generalizing sel with
  | nil => simp
  | cons e edits ih =>
      rw [List.foldl_cons, ih, getElem?_add, Option.or_assoc, List.find?_cons]
      cases Suits s p e <;> simp

/-- **The first edit that fits is made.** -/
theorem getElem?_chosen (s : Script) (edits : List Edit) (p : Nat) :
    (edits.foldl (add s) .start).chosen[p]? = edits.find? (Suits s p) := by
  rw [getElem?_foldl_add]
  show (∅ : Std.ExtTreeMap Nat Edit)[p]?.or _ = _
  rw [Std.ExtTreeMap.getElem?_empty, Option.none_or]

end Selection

/-! ## §2. What is proposed. -/

/-- A branch keyword that is no `default` is a `case`. -/
theorem TokenKind.eq_caseKw {kind : TokenKind} (hbranch : kind.isBranch = true)
    (hdefault : kind ≠ .defaultKw) : kind = .caseKw := by
  revert hbranch hdefault
  cases kind <;> decide

namespace SwitchBody

/-- An edit proposed for the branch at `i` by a finding with a code. -/
inductive Proposes (b : SwitchBody) (i : Nat) : Code → Edit → Prop
  /-- The keyword goes to lower case. -/
  | lower {branch : Branch} : Proposes b i (.notLower branch)
      (.replace (b.script.tokenAt i) (String.ofList (Text.lowercase (b.script.tokenAt i).chars)))
  /-- One space is left behind a `case`. -/
  | spacing {e : Edit} (hkind : b.script.kindAt i = .caseKw) (h : b.caseSpacingFix? i = some e) :
      Proposes b i .spacingAfterCase e
  /-- Whitespace in front of the colon goes; what directly follows a `case` is left to its
  spacing. -/
  | unspace {branch : Branch} {scope : Scope} (hscope : b.table.scopeOf? i = some scope)
      (hcolon : b.script.kindAt scope.opener = .colon) (hbehind : i < scope.opener - 1)
      (hcase : b.script.kindAt i = .caseKw → i + 1 < scope.opener - 1)
      (hspace : b.script.kindAt (scope.opener - 1) = .whitespace) :
      Proposes b i (.spaceBeforeColon branch)
        (.replace (b.script.tokenAt (scope.opener - 1)) "")
  /-- The statement that ends a case moves to its column. -/
  | indent {scope : Scope} {e : Edit} (hcase : b.script.kindAt i = .caseKw)
      (hscope : b.table.scopeOf? i = some scope)
      (hkind : (b.script.kindAt scope.closer).isTerminator = true)
      (howner : b.table.isOwner i scope.closer = true)
      (h : b.indentFix? scope.closer b.breakColumn = some e) : Proposes b i .breakIndent e

variable {b : SwitchBody} {i : Nat} {f : Finding} {e : Edit}

theorem reportIf_fix {found : Bool} {v : Violation} {j : Nat} (hf : f ∈ b.reportIf found v j) :
    f.fix = none := by
  unfold reportIf at hf
  split at hf
  · rw [List.mem_singleton.mp hf]
    rfl
  · cases hf

theorem labelFindings_fix {branch : Branch}
    (hkind : branch = .caseLabel → b.script.kindAt i = .caseKw)
    (hf : f ∈ b.labelFindings branch i) (he : f.fix = some e) : b.Proposes i f.code e := by
  unfold labelFindings at hf
  rw [List.mem_append, List.mem_append] at hf
  rcases hf with (hf | hf) | hf
  · unfold casingFindings at hf
    dsimp only at hf
    split at hf
    · cases hf
    · obtain rfl := List.mem_singleton.mp hf
      obtain rfl := Option.some.inj he
      exact .lower
  · rw [reportIf_fix hf] at he
    cases he
  · split at hf
    · rename_i hbranch
      unfold caseSpacingFindings at hf
      split at hf
      · cases hf
      · rename_i fix hfix
        obtain rfl := List.mem_singleton.mp hf
        obtain rfl := Option.some.inj he
        exact .spacing (hkind hbranch) hfix
    · cases hf

theorem openerFindings_fix {branch : Branch} {scope : Scope}
    (hscope : b.table.scopeOf? i = some scope)
    (hkind : b.script.kindAt i = .caseKw → branch = .caseLabel)
    (hf : f ∈ b.openerFindings branch i scope) (he : f.fix = some e) : b.Proposes i f.code e := by
  unfold openerFindings at hf
  dsimp only at hf
  split at hf
  · rename_i hcolon
    split at hf
    · rename_i hspace
      obtain rfl := List.mem_singleton.mp hf
      obtain rfl := Option.some.inj he
      have hfirst := hspace.1
      unfold firstSpaceless at hfirst
      refine .unspace hscope hcolon ?_ (fun hcase => ?_) hspace.2
      · cases branch
        · exact Nat.lt_of_succ_lt hfirst
        · exact hfirst
      · rw [hkind hcase] at hfirst
        exact hfirst
    · cases hf
  · split at hf
    · rw [List.mem_singleton.mp hf] at he
      cases he
    · rw [List.mem_singleton.mp hf] at he
      cases he

theorem caseEndFindings_fix {scope : Scope} (hcase : b.script.kindAt i = .caseKw)
    (hscope : b.table.scopeOf? i = some scope) (hf : f ∈ b.caseEndFindings i scope)
    (he : f.fix = some e) : b.Proposes i f.code e := by
  unfold caseEndFindings at hf
  dsimp only at hf
  split at hf
  · rename_i hend
    rw [Bool.and_eq_true] at hend
    rw [List.mem_append, List.mem_append, List.mem_append] at hf
    rcases hf with ((hf | hf) | hf) | hf
    · unfold breakIndentFindings at hf
      split at hf
      · cases hf
      · obtain rfl := List.mem_singleton.mp hf
        exact .indent hcase hscope hend.1 hend.2 he
    · rw [reportIf_fix hf] at he
      cases he
    · obtain ⟨j, _, rfl⟩ := List.mem_map.mp hf
      cases he
    · rw [reportIf_fix hf] at he
      cases he
  · cases hf

theorem defaultFindings_fix (hkind : b.script.kindAt i = .defaultKw) (hf : f ∈ b.defaultFindings i)
    (he : f.fix = some e) : b.Proposes i f.code e := by
  unfold defaultFindings at hf
  rcases List.mem_append.mp hf with hf | hf
  · exact labelFindings_fix (fun h => Branch.noConfusion h) hf he
  · split at hf
    · cases hf
    · rename_i scope hscope
      rcases List.mem_append.mp hf with hf | hf
      · refine openerFindings_fix hscope (fun hcase => ?_) hf he
        rw [hkind] at hcase
        cases hcase
      · unfold defaultEndFindings at hf
        dsimp only at hf
        split at hf
        · rw [List.mem_singleton.mp hf] at he
          cases he
        · rw [reportIf_fix hf] at he
          cases he

theorem caseFindings_fix {next : Option Nat} (hkind : b.script.kindAt i = .caseKw)
    (hf : f ∈ b.caseFindings i next) (he : f.fix = some e) : b.Proposes i f.code e := by
  unfold caseFindings at hf
  rcases List.mem_append.mp hf with hf | hf
  · exact labelFindings_fix (fun _ => hkind) hf he
  · split at hf
    · cases hf
    · rename_i scope hscope
      rw [List.mem_append, List.mem_append] at hf
      rcases hf with (hf | hf) | hf
      · exact openerFindings_fix hscope (fun _ => rfl) hf he
      · exact caseEndFindings_fix hkind hscope hf he
      · unfold fallthroughFindings at hf
        split at hf
        · cases hf
        · rw [reportIf_fix hf] at he
          cases he

/-- What is found on a list of branches is found on one of them. -/
theorem exists_of_mem_branchFindings {seen : Bool} {is : List Nat}
    (hf : f ∈ b.branchFindings seen is) :
    ∃ j ∈ is,
      (b.script.kindAt j = .defaultKw
          ∧ ∃ seen, f ∈ b.reportIf seen .duplicateDefault j ++ b.defaultFindings j)
        ∨ (b.script.kindAt j ≠ .defaultKw ∧ ∃ next, f ∈ b.caseFindings j next) := by
  induction is generalizing seen with
  | nil => cases hf
  | cons j is ih =>
      unfold branchFindings at hf
      split at hf
      · rename_i hdefault
        rcases List.mem_append.mp hf with hf | hf
        · exact ⟨j, List.mem_cons_self, .inl ⟨beq_iff_eq.mp hdefault, seen, hf⟩⟩
        · obtain ⟨k, hk, hfound⟩ := ih hf
          exact ⟨k, List.mem_cons_of_mem j hk, hfound⟩
      · rename_i hdefault
        rcases List.mem_append.mp hf with hf | hf
        · exact ⟨j, List.mem_cons_self, .inr ⟨fun heq => hdefault (beq_iff_eq.mpr heq), _, hf⟩⟩
        · obtain ⟨k, hk, hfound⟩ := ih hf
          exact ⟨k, List.mem_cons_of_mem j hk, hfound⟩

theorem branchFindings_fix {seen : Bool} {is : List Nat}
    (his : ∀ j ∈ is, (b.script.kindAt j).isBranch = true) (hf : f ∈ b.branchFindings seen is)
    (he : f.fix = some e) : ∃ j ∈ is, b.Proposes j f.code e := by
  obtain ⟨j, hj, ⟨hdefault, _, hf⟩ | ⟨hdefault, next, hf⟩⟩ := exists_of_mem_branchFindings hf
  · rcases List.mem_append.mp hf with hf | hf
    · rw [reportIf_fix hf] at he
      cases he
    · exact ⟨j, hj, defaultFindings_fix hdefault hf he⟩
  · exact ⟨j, hj, caseFindings_fix (TokenKind.eq_caseKw (his j hj) hdefault) hf he⟩

/-- **Every edit is proposed for a branch.** -/
theorem findings_fix (hf : f ∈ b.findings) (he : f.fix = some e) :
    ∃ j ∈ b.branches, b.Proposes j f.code e := by
  unfold findings at hf
  dsimp only at hf
  rw [List.mem_append, List.mem_append, List.mem_append] at hf
  rcases hf with ((hf | hf) | hf) | hf
  · refine branchFindings_fix (fun j hj => ?_) hf he
    exact ((branchesFrom_spec b _).2 j hj).2.2.2
  · rw [reportIf_fix hf] at he
    cases he
  · rw [reportIf_fix hf] at he
    cases he
  · rw [reportIf_fix hf] at he
    cases he

end SwitchBody

/-- The rule on closers proposes nothing. -/
theorem scopeEnd_fix {s : Script} {table : ScopeTable} {settings : Settings} {f : Finding}
    (hf : f ∈ ScopeEnd.rule.findings s table settings) : f.fix = none := by
  obtain ⟨q, _, hf⟩ := List.mem_flatMap.mp hf
  change f ∈ ScopeEnd.check s table settings q at hf
  unfold ScopeEnd.check at hf
  split at hf
  · cases hf
  · split at hf
    · obtain ⟨v, _, rfl⟩ := List.mem_map.mp hf
      rfl
    · cases hf

/-- **Every edit of a run is proposed for a branch of a switch.** -/
theorem standard_fix {s : Script} {table : ScopeTable} {settings : Settings} {f : Finding}
    {e : Edit} (hf : f ∈ Ruleset.standard.findings s table settings) (he : f.fix = some e) :
    ∃ q scope, s.kindAt q = .switchKw ∧ table.scopeOf? q = some scope
      ∧ ∃ i ∈ (SwitchBody.mk s table scope settings.indent).branches,
        (SwitchBody.mk s table scope settings.indent).Proposes i f.code e := by
  unfold Ruleset.findings Ruleset.standard at hf
  simp only [List.flatMap_cons, List.flatMap_nil, List.append_nil, List.mem_append] at hf
  rcases hf with hf | hf
  · obtain ⟨q, hq, hf⟩ := List.mem_flatMap.mp hf
    have hkind : s.kindAt q = .switchKw := by
      simpa [SwitchBody.rule] using (List.mem_filter.mp hq).2
    change f ∈ SwitchBody.check s table settings q at hf
    unfold SwitchBody.check at hf
    split at hf
    · cases hf
    · rename_i scope hscope
      exact ⟨q, scope, hkind, hscope, SwitchBody.findings_fix hf he⟩
  · rw [scopeEnd_fix hf] at he
    cases he

/-! ## §3. The layout that an edit leaves. -/

namespace Script

theorem get?_of_kindAt {s : Script} {i : Nat} {kind : TokenKind} (h : s.kindAt i = kind)
    (hkind : kind ≠ .other) : ∃ t, s.get? i = some t ∧ s.tokenAt i = t ∧ t.kind = kind
      ∧ t.position = i := by
  unfold kindAt tokenAt at h
  cases ht : s.get? i with
  | none =>
      rw [ht] at h
      exact absurd h.symm hkind
  | some t =>
      rw [ht] at h
      exact ⟨t, rfl, by rw [tokenAt, ht]; rfl, h, position_of_get? ht⟩

/-- What stands in front of an indentation is closed: layout, a string or a block comment. -/
theorem isClosed_before_indentation {tabWidth : Nat} {text : String} {s : Script}
    (h : read tabWidth text = .ok s) {i : Nat} {t space prev : Token}
    (ht : s.get? (i + 2) = some t) (hspace : s.get? (i + 1) = some space)
    (hprev : s.get? i = some prev) (hblank : space.chars.all (!isLineBreak ·) = true)
    (hstart : s.lineStart? (i + 2) = some (i + 2)) : prev.lexeme.isClosed = true := by
  have hline : s.lineAt (i + 1) = s.lineAt (i + 2) := by
    have hnext := lineAt_succ h hspace ht hblank
    simpa [lineAt, tokenAt, ht, hspace] using hnext.symm
  -- on the line of the token only whitespace stands in front of it
  have hfirst : ∀ j, s.rowStart (s.lineAt (i + 2)) (i + 2) ≤ j → j < i + 2 →
      s.kindAt j = .whitespace := by
    intro j hlo hhi
    unfold lineStart? at hstart
    split at hstart
    · have hleast := (next?_eq_some_iff.mp hstart).2.2.2.2 j hlo hhi
      simpa using hleast
    · cases hstart
  have hrow : s.rowStart (s.lineAt (i + 2)) (i + 2)
      = if s.lineAt i = s.lineAt (i + 2) then s.rowStart (s.lineAt (i + 2)) i else i + 1 := by
    rw [rowStart, if_pos hline, rowStart]
  by_cases hsame : s.lineAt i = s.lineAt (i + 2)
  · have hkind : s.kindAt i = .whitespace := by
      refine hfirst i ?_ (by omega)
      rw [hrow, if_pos hsame]
      exact rowStart_le s _ i
    have hkind' : prev.kind = .whitespace := by simpa [kindAt, tokenAt, hprev] using hkind
    simp [Lexeme.isClosed, Token.lexeme, hkind']
  · -- the token in front reaches over a line break
    refine isClosed_of_lineBreak h hprev ?_
    intro hall
    have hnext := lineAt_succ h hprev hspace hall
    refine hsame ?_
    rw [← hline]
    simpa [lineAt, tokenAt, hprev, hspace] using hnext.symm

/-- The edit moves a token that starts its line to the column `expected`. -/
inductive Moves (s : Script) (expected : Nat) : Nat → Edit → Prop
  /-- Spaces come in front of it. -/
  | ahead {i : Nat} (count : Nat) (hstart : s.lineStart? i = some i) (hpos : 0 < count)
      (hcolumn : s.columnAt i + count = expected) :
      Moves s expected i (.insertBefore i (String.ofList (List.replicate count ' ')))
  /-- Spaces go from in front of it. -/
  | back {i : Nat} (count : Nat) (hstart : s.lineStart? (i + 1) = some (i + 1))
      (hspace : s.kindAt i = .whitespace) (hblanks : ∀ c ∈ (s.tokenAt i).chars, c = ' ')
      (hcount : count ≤ (s.tokenAt i).chars.length)
      (hcolumn : expected + count = s.columnAt (i + 1)) :
      Moves s expected (i + 1) (.trimStart i count)

/-- The lexeme in front of a position. -/
def lexemeBefore? (s : Script) : Nat → Option Lexeme
  | 0 => none
  | i + 1 => (s.get? i).map Token.lexeme

/-- A branch keyword is lowered letter by letter. -/
theorem lowercase_of_branch {tabWidth : Nat} {text : String} {s : Script}
    (h : read tabWidth text = .ok s) {i : Nat} {t : Token} (ht : s.get? i = some t)
    (hbranch : t.kind.isBranch = true) : Text.lowercase t.chars = lowerAscii t.chars := by
  refine lowercase_eq_map_toLower _ fun c hc => ?_
  -- a character above ASCII would stay as it is
  have hmem : c.toLower ∈ lowerAscii t.chars := List.mem_map_of_mem hc
  have hlow : c.toLower.toNat < 128 := by
    rcases lowerAscii_of_branch h ht hbranch with heq | heq
    · rw [heq] at hmem
      have hletters : ∀ d ∈ ['c', 'a', 's', 'e'], d.toNat < 128 := by simp
      exact hletters _ hmem
    · rw [heq] at hmem
      have hletters : ∀ d ∈ ['d', 'e', 'f', 'a', 'u', 'l', 't'], d.toNat < 128 := by simp
      exact hletters _ hmem
  unfold Char.toLower at hlow
  split at hlow
  · rename_i hupper
    have hle : c.val.toNat ≤ 'Z'.val.toNat := hupper.2
    have hz : 'Z'.val.toNat = 90 := rfl
    show c.val.toNat < 128
    omega
  · exact hlow

/-- A closed lexeme is no line comment. -/
theorem isLineComment_of_isClosed {l : Lexeme} (h : l.isClosed = true) :
    l.isLineComment = false := by
  cases hline : l.isLineComment with
  | false => rfl
  | true =>
      unfold Lexeme.isClosed at h
      have hkind : l.kind = .comment := by
        unfold Lexeme.isLineComment at hline
        rw [Bool.and_eq_true] at hline
        simpa using hline.1
      simp [hline, hkind] at h

/-- Blanks may go from the indentation of a line. -/
theorem laidOut_of_trim {tabWidth : Nat} {text : String} {s : Script}
    (h : read tabWidth text = .ok s) {i : Nat} {space word : Token}
    (hspace : s.get? i = some space) (hword : s.get? (i + 1) = some word)
    (hkind : space.kind = .whitespace) (hblanks : space.chars.all (· == ' ') = true)
    (hstart : s.lineStart? (i + 1) = some (i + 1)) (count : Nat) :
    LaidOut (s.lexemeBefore? i) space.lexeme ((s.get? (i + 1)).map Token.lexeme)
      ((Edit.trimStart space.position count).apply space) := by
  have hblank : ∀ c ∈ space.chars, c = ' ' := by
    rw [List.all_eq_true] at hblanks
    intro c hc
    simpa using hblanks c hc
  have hprev : ∀ p ∈ s.lexemeBefore? i, p.isClosed = true := by
    intro p hp
    cases i with
    | zero => cases hp
    | succ i =>
        obtain ⟨prev, hget, rfl⟩ := Option.map_eq_some_iff.mp hp
        refine isClosed_before_indentation h hword hspace hget ?_ hstart
        rw [List.all_eq_true]
        intro c hc
        rw [hblank c hc]
        rfl
  have happly : (Edit.trimStart space.position count).apply space = space.chars.drop count := by
    simp [Edit.apply, Edit.trimStart]
  rw [happly]
  by_cases hgone : space.chars.drop count = []
  · rw [hgone]
    exact .behindClosed hkind hprev
  · refine .layout hkind ?_ hgone ?_
    · rw [List.all_eq_true]
      intro c hc
      rw [hblank c (List.mem_of_mem_drop hc)]
      rfl
    · intro p hp hline
      rw [isLineComment_of_isClosed (hprev p hp)] at hline
      cases hline

/-- The indentation of the statement that ends a branch. -/
theorem laidOut_of_moves {tabWidth : Nat} {text : String} {s : Script}
    (h : read tabWidth text = .ok s) {closer expected : Nat} {e : Edit} {t : Token}
    (hkind : (s.kindAt closer).isTerminator = true) (he : s.Moves expected closer e)
    (ht : s.get? e.position = some t) :
    closer ≤ e.position + 1 ∧
      LaidOut (s.lexemeBefore? e.position) t.lexeme ((s.get? (e.position + 1)).map Token.lexeme)
        (e.apply t) := by
  have hplain : s.kindAt closer ≠ .whitespace ∧ s.kindAt closer ≠ .colon
      ∧ s.kindAt closer ≠ .other := by
    generalize s.kindAt closer = kind at hkind
    cases kind <;> first | exact absurd hkind (by decide) | decide
  obtain ⟨word, hword, _, hwordKind, _⟩ := get?_of_kindAt rfl hplain.2.2
  rw [← hwordKind] at hplain
  cases he with
  | ahead count _ _ _ =>
      change s.get? closer = some t at ht
      obtain rfl : word = t := Option.some.inj (hword.symm.trans ht)
      refine ⟨Nat.le_succ _, ?_⟩
      have happly : ∀ blanks : List Char,
          (Edit.insertBefore closer (String.ofList blanks)).apply word
            = blanks ++ word.lexeme.chars := by
        intro blanks
        simp [Edit.apply, Edit.insertBefore, Token.lexeme]
      rw [happly]
      refine .spaced hplain.1 ?_ (fun hcolon => absurd hcolon hplain.2.1)
      rw [List.all_eq_true]
      intro c hc
      rw [List.eq_of_mem_replicate hc]
      rfl
  | @back j count hstart hspace hblanks _ _ =>
      refine ⟨Nat.le_refl _, ?_⟩
      change s.get? j = some t at ht
      obtain ⟨space, hget, htoken, hkind, hposition⟩ := get?_of_kindAt hspace (by decide)
      obtain rfl : space = t := Option.some.inj (hget.symm.trans ht)
      rw [htoken] at hblanks
      have hlaid := laidOut_of_trim h hget hword hkind
        (List.all_eq_true.mpr fun c hc => by simpa using hblanks c hc) hstart count
      rw [hposition] at hlaid
      exact hlaid

end Script

namespace SwitchBody

variable {tabWidth : Nat} {text : String} {b : SwitchBody} {i : Nat} {e : Edit} {t : Token}

/-- The space behind a `case`. -/
theorem laidOut_of_spacing (hkind : b.script.kindAt i = .caseKw)
    (he : b.caseSpacingFix? i = some e) (ht : b.script.get? e.position = some t) :
    e.position = i + 1 ∧
      LaidOut (b.script.lexemeBefore? (i + 1)) t.lexeme ((b.script.get? (i + 2)).map Token.lexeme)
        (e.apply t) := by
  obtain ⟨word, hword, _, hwordKind, _⟩ := Script.get?_of_kindAt hkind (by decide)
  have hprev : b.script.lexemeBefore? (i + 1) = some word.lexeme := by
    rw [Script.lexemeBefore?, hword]
    rfl
  unfold caseSpacingFix? at he
  split at he
  · cases he
  · rename_i next hnext
    have hposition := Script.position_of_get? hnext
    split at he
    · rename_i hspace
      split at he
      · cases he
      · obtain rfl := Option.some.inj he
        have hp : (Edit.replace next " ").position = i + 1 := hposition
        rw [hp, hnext] at ht
        obtain rfl := Option.some.inj ht
        refine ⟨hp, ?_⟩
        rw [hprev]
        have happly : (Edit.replace next " ").apply next = [' '] := by
          simp [Edit.apply, Edit.replace]
        rw [happly]
        refine .layout hspace rfl (by simp) ?_
        intro p hp hcomment
        obtain rfl := Option.some.inj hp
        simp [Lexeme.isLineComment, Token.lexeme, hwordKind] at hcomment
    · rename_i hcode
      obtain rfl := Option.some.inj he
      have hp : (Edit.insertBefore next.position " ").position = i + 1 := hposition
      rw [hp, hnext] at ht
      obtain rfl := Option.some.inj ht
      refine ⟨hp, ?_⟩
      rw [hprev]
      have happly : (Edit.insertBefore next.position " ").apply next = [' '] ++ next.lexeme.chars := by
        simp [Edit.apply, Edit.insertBefore, Token.lexeme]
      rw [happly]
      refine .spaced hcode rfl ?_
      intro _ p hp
      obtain rfl := Option.some.inj hp
      simp [Token.lexeme, hwordKind]

/-- **How a statement is moved.** -/
theorem moves_of_indent {closer expected : Nat} (he : b.indentFix? closer expected = some e) :
    b.script.Moves expected closer e := by
  unfold indentFix? at he
  split at he
  · cases he
  rename_i hstart
  rw [ne_eq, not_not] at hstart
  dsimp only at he
  split at he
  · obtain rfl := Option.some.inj he
    exact .ahead _ hstart (by omega) (by omega)
  · split at he
    · cases he
    · rename_i hpos
      split at he
      · rename_i hbefore
        obtain ⟨hspace, hcount, hblanks⟩ := hbefore
        obtain ⟨j, rfl⟩ : ∃ j, closer = j + 1 := ⟨closer - 1, by omega⟩
        rw [Nat.add_sub_cancel] at he hspace hcount hblanks
        obtain ⟨space, _, htoken, _, hposition⟩ := Script.get?_of_kindAt hspace (by decide)
        rw [htoken, hposition] at he
        obtain rfl := Option.some.inj he
        refine .back _ hstart hspace (fun c hc => ?_) hcount (by omega)
        simpa using List.all_eq_true.mp hblanks c hc
      · cases he

/-- The edits that are proposed for the branch at `i` take tokens behind the first one and leave
them in a layout that is allowed. -/
theorem laidOut_of_proposes (h : Script.read tabWidth text = .ok b.script) (hi : 0 < i)
    (hbranch : (b.script.kindAt i).isBranch = true)
    (hordered : ∀ scope, b.table.scopeOf? i = some scope →
      i < scope.opener ∧ scope.opener < scope.closer)
    {code : Code} (he : b.Proposes i code e) (ht : b.script.get? e.position = some t) :
    0 < e.position ∧
      LaidOut (b.script.lexemeBefore? e.position) t.lexeme
        ((b.script.get? (e.position + 1)).map Token.lexeme) (e.apply t) := by
  cases he with
  | lower =>
      have hother : b.script.kindAt i ≠ .other := by
        intro heq
        rw [heq] at hbranch
        cases hbranch
      obtain ⟨word, hword, htoken, hkind, hposition⟩ := Script.get?_of_kindAt rfl hother
      rw [htoken] at ht ⊢
      have hp : ∀ str, (Edit.replace word str).position = i := fun _ => hposition
      rw [hp, hword] at ht
      obtain rfl := Option.some.inj ht
      rw [← hkind] at hbranch
      rw [hp]
      refine ⟨hi, ?_⟩
      have happly : (Edit.replace word (String.ofList (Text.lowercase word.chars))).apply word
          = lowerAscii word.lexeme.chars := by
        rw [Script.lowercase_of_branch h hword hbranch]
        simp [Edit.apply, Edit.replace, Token.lexeme]
      rw [happly]
      exact .lowered hbranch
  | spacing hkind hfix =>
      obtain ⟨hp, hlaid⟩ := laidOut_of_spacing hkind hfix ht
      rw [hp]
      exact ⟨Nat.succ_pos i, hlaid⟩
  | @unspace _ scope hscope hcolon hbehind _ hspace =>
      obtain ⟨space, hget, htoken, hkind, hposition⟩ := Script.get?_of_kindAt hspace (by decide)
      obtain ⟨colon, hget', _, hkind', _⟩ := Script.get?_of_kindAt hcolon (by decide)
      rw [htoken] at ht ⊢
      have hp : (Edit.replace space "").position = scope.opener - 1 := hposition
      rw [hp, hget] at ht
      obtain rfl := Option.some.inj ht
      have hnext : scope.opener - 1 + 1 = scope.opener := by omega
      rw [hp, hnext, hget']
      refine ⟨by omega, ?_⟩
      have happly : (Edit.replace space "").apply space = [] := by
        simp [Edit.apply, Edit.replace]
      rw [happly]
      exact .beforeColon hkind (congrArg some hkind')
  | @indent scope e _ hscope hkind _ hfix =>
      obtain ⟨hopener, hcloser⟩ := hordered scope hscope
      obtain ⟨hp, hlaid⟩ := Script.laidOut_of_moves h hkind (moves_of_indent hfix) ht
      exact ⟨by omega, hlaid⟩

end SwitchBody

end SwitchLayout
