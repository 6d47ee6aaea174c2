/-
  SwitchLayout.Proofs.ClosingLines
  ────────────────────────────────
  **A closer shares its line exactly if the text says so.**

  Whether the closer of a scope stands on a line of its own is decided by two lines: the one on
  which the last piece of code in front of it ends, and its own.  In the text it is decided by what
  stands between the last line feed and the closer (`behindFeed`).  Where every carriage return has
  its line feed, the two agree:

    • `behindFeed_append` — what comes behind the last line feed of two texts,
    • `lineAt_eq_count`, `endLineAt_eq_count` — lines are counted by line feeds,
    • `exists_last_of_feed`, `exists_behindFeed_chars` — a piece of code ends in a line that is not
      blank, be it a literal that runs over many lines,
    • `endLineAt_eq_lineAt_iff` — of two neighbouring pieces of code, on one line or not.

  The main statement is `closeBraceLine_iff`.
-/
import Mathlib.Data.List.DropRight
import SwitchLayout.Proofs.EndLines
import SwitchLayout.Proofs.Literals
import SwitchLayout.Proofs.Realigning

namespace SwitchLayout

open Text

/-! ## §1. The text behind the last line feed. -/

/-- The part of a text behind its last line feed, or all of it. -/
def behindFeed (cs : List Char) : List Char := cs.rtakeWhile (· != '\n')

theorem notMem_behindFeed (cs : List Char) : '\n' ∉ behindFeed cs := by
  intro hmem
  have hne := List.mem_rtakeWhile_imp hmem
  simp at hne

theorem behindFeed_of_notMem {cs : List Char} (h : '\n' ∉ cs) : behindFeed cs = cs := by
  unfold behindFeed
  rw [List.rtakeWhile_eq_self_iff]
  intro c hc
  have hne : c ≠ '\n' := fun heq => h (heq ▸ hc)
  simpa using hne

/-- The last line feed of two texts is in the second or, if that has none, in the first. -/
theorem behindFeed_append (u w : List Char) :
    behindFeed (u ++ w) = if '\n' ∈ w then behindFeed w else behindFeed u ++ w := by
  unfold behindFeed List.rtakeWhile
  rw [List.reverse_append]
  split
  · rename_i hmem
    have hfeed : ¬ ∀ c ∈ w.reverse, (c != '\n') = true := by
      intro hall
      have hne := hall '\n' (List.mem_reverse.mpr hmem)
      simp at hne
    rw [List.takeWhile_append, if_neg]
    intro hlength
    exact hfeed fun c hc => all_of_runLength hlength c hc
  · rename_i hmem
    have hall : ∀ c ∈ w.reverse, (c != '\n') = true := by
      intro c hc
      have hne : c ≠ '\n' := fun heq => hmem (heq ▸ List.mem_reverse.mp hc)
      simpa using hne
    rw [List.takeWhile_append_of_pos hall, List.reverse_append, List.reverse_reverse]

/-- What stands behind the last line feed of the second text stands there in the whole. -/
theorem mem_behindFeed_append {c : Char} {w : List Char} (u : List Char) (h : c ∈ behindFeed w) :
    c ∈ behindFeed (u ++ w) := by
  rw [behindFeed_append]
  split
  · exact h
  · exact List.mem_append_right _ ((List.rtakeWhile_suffix _ _).mem h)

/-- Behind the last line feed no carriage return has its line feed. -/
theorem return_notMem_behindFeed {cs : List Char} (h : ReturnsPaired cs) :
    '\r' ∉ behindFeed cs := by
  intro hmem
  -- a line feed behind it would be behind the last one
  obtain ⟨x, y, hxy⟩ := List.append_of_mem hmem
  obtain ⟨front, hfront⟩ := List.rtakeWhile_suffix (· != '\n') cs
  have hfeed := h (front ++ x) y (by
    rw [← hfront, List.append_assoc, ← hxy]
    rfl)
  refine notMem_behindFeed cs ?_
  rw [hxy]
  exact List.mem_append_right _ (List.mem_cons_of_mem _ (List.mem_of_mem_head? hfeed))

/-- The front of a text in which every return has its line feed, if it does not part the two. -/
theorem ReturnsPaired.left {u w : List Char} (h : ReturnsPaired (u ++ w))
    (hw : w.head? ≠ some '\n') : ReturnsPaired u := by
  rintro before behind rfl
  have hfeed := h before (behind ++ w) (by simp)
  cases behind with
  | nil => exact absurd hfeed hw
  | cons d behind => exact hfeed

theorem isBlank_eq_false_iff {c : Char} : isBlank c = false ↔ c ≠ ' ' ∧ c ≠ '\t' := by
  simp [isBlank]

namespace Script

variable {tabWidth : Nat} {text : String} {s : Script} {p j : Nat}

/-! ## §2. Pieces of code. -/

/-- The form of a piece of code, and the text behind it. -/
theorem code_form (h : read tabWidth text = .ok s) (hp : p < s.size)
    (hcode : s.kindAt p ≠ .whitespace) :
    ∃ c t, (s.tokenAt p).chars = c :: t ∧ isLayout c = false
      ∧ ∃ rest, (s.tokenAt p).lexeme.ClosedBefore rest := by
  rcases mem_of_read h (get?_of_lt hp) with hmark | ⟨ls, cs, hls, hmem⟩
  · exact absurd (congrArg Lexeme.kind hmark) hcode
  · obtain ⟨member, c, t, rest, hchars, hextent⟩ := extent_of_mem hls hmem
    have hform := (extent_form hextent).2
    rw [List.take_left] at hform
    refine ⟨c, t, hchars, isLayout_head hform hcode, rest, ?_⟩
    have hclosed := closed_of_extent hextent
    rw [← hchars] at hclosed
    exact hclosed

theorem isNewline_of_code (hcode : s.kindAt p ≠ .whitespace) :
    (s.tokenAt p).isNewline = false := by
  have hkind : ((s.tokenAt p).kind == .whitespace) = false := by simpa [kindAt] using hcode
  rw [Token.isNewline, hkind, Bool.false_and]

/-- Code with a line feed in it is a literal, and its last character is a quote or a slash. -/
theorem exists_last_of_feed (h : read tabWidth text = .ok s) (hp : p < s.size)
    (hcode : s.kindAt p ≠ .whitespace) (hfeed : '\n' ∈ (s.tokenAt p).chars) :
    ∃ front d, (s.tokenAt p).chars = front ++ [d] ∧ d ≠ '\n' ∧ isBlank d = false := by
  obtain ⟨_, _, _, _, rest, hstring, hcomment⟩ := code_form h hp hcode
  have hbreak : ¬ (s.tokenAt p).chars.all (!isLineBreak ·) = true := by
    intro hall
    have hnot := List.all_eq_true.mp hall '\n' hfeed
    simp [isLineBreak] at hnot
  rcases kind_of_lineBreak h (get?_of_lt hp) (isNewline_of_code hcode) hbreak with hkind | hkind
  · obtain ⟨quote, body, hquote, hbody, _⟩ := hstring hkind
    refine ⟨quote :: body, quote, hbody, ?_⟩
    rcases isQuote_cases hquote with rfl | rfl | rfl <;> decide
  · rcases hcomment hkind with ⟨_, hline, _⟩ | ⟨body, hbody, _⟩
    · exact absurd (hline '\n' hfeed) (by decide)
    · exact ⟨'/' :: '*' :: (body ++ ['*']), '/', hbody.trans (by simp), by decide⟩

/-- **Code ends in a line that is not blank.**  Without a line feed it starts on that line. -/
theorem exists_behindFeed_chars (h : read tabWidth text = .ok s) (hp : p < s.size)
    (hcode : s.kindAt p ≠ .whitespace) :
    ∃ c ∈ behindFeed (s.tokenAt p).chars, isBlank c = false := by
  by_cases hfeed : '\n' ∈ (s.tokenAt p).chars
  · obtain ⟨front, d, hfront, hd, hblank⟩ := exists_last_of_feed h hp hcode hfeed
    refine ⟨d, ?_, hblank⟩
    rw [hfront]
    refine mem_behindFeed_append front ?_
    rw [behindFeed_of_notMem (by simpa using hd.symm)]
    exact List.mem_singleton_self d
  · obtain ⟨c, t, hchars, hc, _⟩ := code_form h hp hcode
    rw [behindFeed_of_notMem hfeed, hchars]
    exact ⟨c, List.mem_cons_self, isBlank_of_isLayout hc⟩

/-! ## §3. Lines. -/

theorem textBefore_succ (hp : p < s.size) :
    s.textBefore (p + 1) = s.textBefore p ++ (s.tokenAt p).chars := by
  rw [← flatMap_take, ← flatMap_take, flatMap_take_succ Token.chars hp]

/-- In front of a piece of code every return has its line feed, and the line feeds count the
lines. -/
theorem lineAt_eq_count (h : read tabWidth text = .ok s) (hpaired : ReturnsPaired text.toList)
    (hp : p < s.size) (hcode : s.kindAt p ≠ .whitespace) :
    ReturnsPaired (s.textBefore p) ∧ s.lineAt p = 1 + (s.textBefore p).count '\n' := by
  have hfront : ReturnsPaired (s.textBefore p) := by
    rw [← textBefore_append h hp] at hpaired
    -- code does not start with a line feed
    refine hpaired.left ?_
    obtain ⟨c, t, hchars, hc, _⟩ := code_form h hp hcode
    rw [hchars]
    intro hfeed
    obtain rfl : c = '\n' := by simpa using hfeed
    cases hc
  refine ⟨hfront, ?_⟩
  have hlocation := location_eq_shownBehind h (get?_of_lt hp)
  have hline : s.lineAt p = 1 + lineBreaks (s.textBefore p) := congrArg Location.line hlocation
  rw [hline, lineBreaks_eq_count, (loneReturns_eq_zero_iff _).mpr hfront, Nat.add_zero]

theorem endLineAt_eq_count (h : read tabWidth text = .ok s) (hpaired : ReturnsPaired text.toList)
    (hp : p < s.size) (hcode : s.kindAt p ≠ .whitespace) :
    s.endLineAt p = 1 + (s.textBefore (p + 1)).count '\n' := by
  have hend : s.endLineAt p = s.lineAt p + (s.tokenAt p).chars.count '\n' :=
    endLine_eq_count h (get?_of_lt hp) (isNewline_of_code hcode)
  rw [hend, (lineAt_eq_count h hpaired hp hcode).2, textBefore_succ hp, List.count_append,
    Nat.add_assoc]

/-- Between two pieces of code with only whitespace between them stands layout. -/
theorem exists_layout_between (h : read tabWidth text = .ok s) (hp : p ≤ s.size) (hjp : j < p)
    (hspace : ∀ i, j < i → i < p → s.kindAt i = .whitespace) :
    ∃ gap, s.textBefore p = s.textBefore (j + 1) ++ gap ∧ ∀ c ∈ gap, isLayout c = true := by
  induction p with
  | zero => cases hjp
  | succ p ih =>
      rcases Nat.eq_or_lt_of_le (Nat.le_of_lt_succ hjp) with rfl | hlt
      · exact ⟨[], by simp, by simp⟩
      · obtain ⟨gap, hgap, hlayout⟩ := ih (by omega) hlt fun i hji hip => hspace i hji (by omega)
        have hkind := hspace p hlt (Nat.lt_succ_self p)
        obtain ⟨i, rfl⟩ : ∃ i, p = i + 1 := ⟨p - 1, by omega⟩
        obtain ⟨member, c, t, hchars, _, hform⟩ := token_form h hp
        refine ⟨gap ++ (s.tokenAt (i + 1)).chars, ?_, ?_⟩
        · rw [textBefore_succ hp, hgap, List.append_assoc]
        · intro d hd
          rcases List.mem_append.mp hd with hd | hd
          · exact hlayout d hd
          · rw [hchars] at hd
            exact List.all_eq_true.mp (hform.all_isLayout hkind) d hd

/-- **Two neighbouring pieces of code** are on one line exactly if the text in front of the second
has something but blanks behind its last line feed. -/
theorem endLineAt_eq_lineAt_iff (h : read tabWidth text = .ok s)
    (hpaired : ReturnsPaired text.toList) (hp : p < s.size) (hcode : s.kindAt p ≠ .whitespace)
    (hjp : j < p) (hjcode : s.kindAt j ≠ .whitespace)
    (hspace : ∀ i, j < i → i < p → s.kindAt i = .whitespace) :
    s.endLineAt j = s.lineAt p ↔ ∃ c ∈ behindFeed (s.textBefore p), c ≠ ' ' ∧ c ≠ '\t' := by
  have hj : j < s.size := by omega
  obtain ⟨gap, hgap, hlayout⟩ := exists_layout_between h (Nat.le_of_lt hp) hjp hspace
  obtain ⟨hfront, hline⟩ := lineAt_eq_count h hpaired hp hcode
  rw [endLineAt_eq_count h hpaired hj hjcode, hline, hgap, List.count_append]
  by_cases hfeed : '\n' ∈ gap
  · -- behind the last line feed stands layout that is no line break
    have hcount := List.count_pos_iff.mpr hfeed
    refine iff_of_false (by omega) ?_
    rintro ⟨c, hc, hnot⟩
    rw [← hgap] at hc
    have hreturn : c ≠ '\r' := fun heq => return_notMem_behindFeed hfront (heq ▸ hc)
    have hnewline : c ≠ '\n' := fun heq => notMem_behindFeed _ (heq ▸ hc)
    rw [hgap, behindFeed_append, if_pos hfeed] at hc
    rcases isLayout_cases (hlayout c ((List.rtakeWhile_suffix _ _).mem hc)) with
      rfl | rfl | rfl | rfl
    · exact hnot.1 rfl
    · exact hnot.2 rfl
    · exact hnewline rfl
    · exact hreturn rfl
  · -- the end of the first piece is on the line
    rw [List.count_eq_zero_of_not_mem hfeed]
    refine iff_of_true rfl ?_
    obtain ⟨c, hc, hcblank⟩ := exists_behindFeed_chars h hj hjcode
    refine ⟨c, ?_, isBlank_eq_false_iff.mp hcblank⟩
    rw [behindFeed_append, if_neg hfeed, textBefore_succ hj]
    exact List.mem_append_left _ (mem_behindFeed_append _ hc)

end Script

/-! ## §4. Closers. -/

namespace ScopeEnd

variable {s : Script} {table : ScopeTable} {settings : Settings} {scope : Scope}

/-- The last piece of code in front of a closer, in a scope that opens with one. -/
theorem lastContent_spec (horder : scope.opener < scope.closer) (hsize : scope.closer ≤ s.size)
    (hopener : s.kindAt scope.opener ≠ .whitespace) :
    lastContent s scope < scope.closer ∧ s.kindAt (lastContent s scope) ≠ .whitespace
      ∧ ∀ i, lastContent s scope < i → i < scope.closer → s.kindAt i = .whitespace := by
  have hstop : min (scope.closer - 1 + 1) s.size = scope.closer := by omega
  unfold lastContent Script.previous?
  rw [hstop]
  cases hlast : lastIn? (fun i => decide (s.kindAt i ≠ .whitespace)) scope.opener scope.closer with
  | none =>
      have hnone := (lastIn?_eq_none_iff _ _ _).mp hlast scope.opener (Nat.le_refl _) horder
      exact absurd hopener (by simpa using hnone)
  | some j =>
      obtain ⟨_, hlt, hcode, hlater⟩ := (lastIn?_eq_some_iff _ _ _ _).mp hlast
      refine ⟨hlt, by simpa using hcode, fun i hji hi => ?_⟩
      simpa using hlater i hji hi

/-- The findings on the scope of an owner. -/
theorem check_of_isOwner {k : Nat} (hscope : table.scopeOf? k = some scope)
    (howner : table.isOwner k scope.closer = true) :
    check s table settings k = (violation? s settings.indent scope).toList.map fun v =>
      v.finding ruleName (s.tokenAt scope.closer) none := by
  unfold check
  rw [hscope]
  exact if_pos howner

/-- What is found at the closer, by its code. -/
theorem exists_mem_check_iff {k : Nat} (hscope : table.scopeOf? k = some scope)
    (howner : table.isOwner k scope.closer = true) {code : Code} :
    (∃ f ∈ check s table settings k, f.code = code)
      ↔ (violation? s settings.indent scope).map Violation.code = some code := by
  rw [check_of_isOwner hscope howner]
  cases violation? s settings.indent scope with
  | none => simp
  | some v => simp [Violation.finding, Finding.pointingAt]

/-- A shared line is looked at first, and then the column: that of a branch or of the keyword. -/
theorem code_violation? (indent : Nat) :
    (violation? s indent scope).map Violation.code =
      if s.endLineAt (lastContent s scope) = s.lineAt scope.closer then some .closeBraceLine
      else if (s.kindAt scope.condition).isBranch then
        if s.columnAt scope.closer = startColumn s scope.condition + indent then none
        else some .caseCloserIndent
      else if s.columnAt scope.closer = startColumn s scope.condition then none
      else some .closeBraceIndent := by
  unfold violation?
  dsimp only
  repeat' split
  all_goals rfl

theorem code_violation?_eq_closeBraceLine_iff {indent : Nat} :
    (violation? s indent scope).map Violation.code = some .closeBraceLine
      ↔ s.endLineAt (lastContent s scope) = s.lineAt scope.closer := by
  rw [code_violation?]
  repeat' split
  all_goals simp_all

end ScopeEnd

/-- **A closer is reported for sharing its line exactly if the text says so.**  Where every carriage
return of a text has its line feed, the closer of a scope is reported, for its owner, if and only
if something other than spaces and tabs stands between the last line feed in front of it, or the
start of the text, and the closer; and then nothing else is reported of the scope. -/
theorem closeBraceLine_iff {settings : Settings} {text : String} {s : Script} {scope : Scope}
    (h : Script.read settings.tabWidth text = .ok s) (hpaired : ReturnsPaired text.toList)
    (hscope : s.scopeTable.scopeOf? scope.condition = some scope)
    (howner : s.scopeTable.isOwner scope.condition scope.closer = true) :
    text.toList
        = s.textBefore scope.closer
          ++ ((s.tokenAt scope.closer).chars ++ s.textFrom (scope.closer + 1))
      ∧ ((∃ f ∈ ScopeEnd.check s s.scopeTable settings scope.condition, f.code = .closeBraceLine)
          ↔ ∃ c ∈ behindFeed (s.textBefore scope.closer), c ≠ ' ' ∧ c ≠ '\t')
      ∧ ((∃ f ∈ ScopeEnd.check s s.scopeTable settings scope.condition, f.code = .closeBraceLine)
          → ScopeEnd.check s s.scopeTable settings scope.condition
            = [Violation.closeBraceLine.finding ScopeEnd.ruleName (s.tokenAt scope.closer) none]) := by
  -- a detected scope opens and closes with code
  obtain ⟨hmem, _⟩ := Script.scopeOf?_scopeTable_iff.mp hscope
  obtain ⟨_, horder, hsize, hlabel⟩ := Script.ordered_of_mem_detectedScopes hmem
  have hopener : s.kindAt scope.opener ≠ .whitespace := by
    intro hkind
    rw [hkind] at hlabel
    cases hlabel
  have hcloser : s.kindAt scope.closer ≠ .whitespace := by
    intro hkind
    have hends := (Script.isCloser_of_mem_detectedScopes hmem).1
    rw [hkind] at hends
    cases hends
  obtain ⟨hlast, hcode, hspace⟩ :=
    ScopeEnd.lastContent_spec horder (Nat.le_of_lt hsize) hopener
  rw [ScopeEnd.exists_mem_check_iff hscope howner, ScopeEnd.code_violation?_eq_closeBraceLine_iff]
  refine ⟨(Script.textBefore_append h hsize).symm,
    Script.endLineAt_eq_lineAt_iff h hpaired hsize hcloser hlast hcode hspace, fun hline => ?_⟩
  have hviolation : ScopeEnd.violation? s settings.indent scope = some .closeBraceLine :=
    if_pos hline
  rw [ScopeEnd.check_of_isOwner hscope howner, hviolation]
  rfl

/-- A brace on the last line of a comment, which starts on the line above. -/
theorem closeBraceLine_iff_comment :
    let settings := Settings.standard
    let text := "if ($x) \x7b\r\n    a(); /* one\r\n  two */ \x7d\r\n"
    let s := Script.ofText 4 text
    let scope : Scope := ⟨0, 6, 16⟩
    (Script.read settings.tabWidth text = .ok s ∧ ReturnsPaired text.toList
        ∧ s.scopeTable.scopeOf? scope.condition = some scope
        ∧ s.scopeTable.isOwner scope.condition scope.closer = true)
      ∧ behindFeed (s.textBefore scope.closer) = "  two */ ".toList
      ∧ ScopeEnd.check s s.scopeTable settings scope.condition
          = [Violation.closeBraceLine.finding ScopeEnd.ruleName (s.tokenAt 16) none] := by
  intro settings text s scope
  have hread : Script.read settings.tabWidth text = .ok s := Script.read_ofText (by decide +kernel)
  have hpaired : ReturnsPaired text.toList := (loneReturns_eq_zero_iff _).mp (by decide +kernel)
  obtain ⟨hscope, howner, hline⟩ : s.scopeTable.scopeOf? scope.condition = some scope
      ∧ s.scopeTable.isOwner scope.condition scope.closer = true
      ∧ behindFeed (s.textBefore scope.closer) = "  two */ ".toList := by
    decide +kernel
  obtain ⟨_, hiff, halone⟩ := closeBraceLine_iff hread hpaired hscope howner
  refine ⟨⟨hread, hpaired, hscope, howner⟩, hline, halone (hiff.mpr ?_)⟩
  rw [hline]
  exact ⟨'t', by decide, by decide⟩

end SwitchLayout
