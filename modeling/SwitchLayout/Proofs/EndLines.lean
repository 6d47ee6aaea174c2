/-
  SwitchLayout.Proofs.EndLines
  ────────────────────────────
  **The line on which a token ends, counted twice.**

  While a text is read, lines are counted character by character, and a carriage return that no
  line feed follows starts a line like any other break.  The last line of a token (`endLine`) is
  counted a second time, from its text, and there by the line feeds alone.  The two counts differ
  by the carriage returns that stand alone (`loneReturns`):

    • `lineBreaks_eq_count` — the breaks of a text are its line feeds and its lone returns,
    • `isLineBreak_getLast?` — a token that is no line break does not end in one,
    • `endLine_eq_count` — so nothing is cut off its text before the line feeds are counted.

  `line_next_eq_endLine_iff` compares the last line of a token with the line of the token behind it.
-/
import SwitchLayout.Proofs.Seams

namespace SwitchLayout

open Text

/-! ## §1. Carriage returns that stand alone. -/

/-- The number of carriage returns in a text that no line feed follows. -/
def loneReturns : List Char → Nat
  | [] => 0
  | c :: cs =>
    if c = '\r' ∧ cs.head? ≠ some '\n' then loneReturns cs + 1 else loneReturns cs

/-- Every carriage return of the text is followed by a line feed. -/
def ReturnsPaired (cs : List Char) : Prop :=
  ∀ before behind, cs = before ++ '\r' :: behind → behind.head? = some '\n'

theorem lineBreaks_eq_count (cs : List Char) :
    lineBreaks cs = cs.count '\n' + loneReturns cs := by
  induction cs with
  | nil => rfl
  | cons c cs ih =>
      rw [lineBreaks, loneReturns, ih]
      by_cases hfeed : c = '\n'
      · subst hfeed
        rw [if_pos (.inl rfl), if_neg (by simp), List.count_cons_self]
        omega
      · rw [List.count_cons_of_ne hfeed]
        simp only [hfeed, false_or]
        split <;> omega

theorem returnsPaired_cons_iff {c : Char} {cs : List Char} :
    ReturnsPaired (c :: cs) ↔ (c = '\r' → cs.head? = some '\n') ∧ ReturnsPaired cs := by
  constructor
  · intro hpaired
    refine ⟨fun hc => hpaired [] cs (by rw [hc]; rfl), fun before behind heq => ?_⟩
    exact hpaired (c :: before) behind (by rw [heq]; rfl)
  · intro hpaired before behind heq
    cases before with
    | nil =>
        obtain ⟨rfl, rfl⟩ := List.cons.inj heq
        exact hpaired.1 rfl
    | cons d before => exact hpaired.2 before behind (List.cons.inj heq).2

theorem loneReturns_eq_zero_iff (cs : List Char) : loneReturns cs = 0 ↔ ReturnsPaired cs := by
  induction cs with
  | nil =>
      refine ⟨fun _ before behind heq => ?_, fun _ => rfl⟩
      exact absurd heq.symm (by simp)
  | cons c cs ih =>
      rw [returnsPaired_cons_iff, ← ih, loneReturns]
      by_cases hlone : c = '\r' ∧ cs.head? ≠ some '\n'
      · rw [if_pos hlone]
        simp [hlone]
      · rw [if_neg hlone]
        simp_all

theorem loneReturns_eq_zero {cs : List Char} (h : cs.all (!isLineBreak ·) = true) :
    loneReturns cs = 0 := by
  have hbreaks := lineBreaks_eq_count cs
  rw [lineBreaks_eq_zero h] at hbreaks
  omega

/-! ## §2. The end of a token. -/

section Tokens

variable {tabWidth : Nat} {text : String} {s : Script} {i : Nat} {t : Token}

/-- **A token that is no line break does not end in one.** -/
theorem isLineBreak_getLast? (h : Script.read tabWidth text = .ok s) (ht : s.get? i = some t)
    (hnewline : t.isNewline = false) {d : Char} (hd : t.chars.getLast? = some d) :
    isLineBreak d = false := by
  rcases Script.mem_of_read h ht with hmark | ⟨ls, cs, hls, hmem⟩
  · have hchars : t.chars = [byteOrderMark] := congrArg Lexeme.chars hmark
    rw [hchars] at hd
    cases hd
    decide
  obtain ⟨member, c, w, rest, hchars, hextent⟩ := Script.extent_of_mem hls hmem
  have hform := (extent_form hextent).2
  rw [List.take_left] at hform
  change t.chars = c :: w at hchars
  change extent member c (w ++ rest) = .ok (t.kind, w.length) at hextent
  cases hlayout : isLayout c with
  | true =>
      -- layout that is no line break has none in it
      have hkind : t.kind = .whitespace := hform.whitespace_iff.mpr hlayout
      have hnone : ∀ e ∈ t.chars, isLineBreak e = false := by
        simpa [Token.isNewline, hkind] using hnewline
      exact hnone d (List.mem_of_getLast? hd)
  | false =>
      rw [hchars] at hd
      exact getLast?_of_extent hlayout ((extent_append_iff hlayout member w rest t.kind).mp hextent).1
        hd

/-- The last line of a token that is no line break, by all of its line feeds. -/
theorem endLine_eq_count (h : Script.read tabWidth text = .ok s) (ht : s.get? i = some t)
    (hnewline : t.isNewline = false) : t.endLine = t.line + t.chars.count '\n' := by
  have hkept : t.chars.reverse.dropWhile isLineBreak = t.chars.reverse := by
    cases hreverse : t.chars.reverse with
    | nil => rfl
    | cons d ds =>
        have hd : t.chars.getLast? = some d := by
          rw [← List.head?_reverse, hreverse]
          rfl
        rw [List.dropWhile_cons_of_neg]
        rw [isLineBreak_getLast? h ht hnewline hd]
        exact Bool.false_ne_true
  unfold Token.endLine
  rw [hkept, List.count_reverse]

/-- Where a token has a line break in it and is none, it is a string or a comment. -/
theorem kind_of_lineBreak (h : Script.read tabWidth text = .ok s) (ht : s.get? i = some t)
    (hnewline : t.isNewline = false) (hbreak : ¬ t.chars.all (!isLineBreak ·) = true) :
    t.kind = .string ∨ t.kind = .comment := by
  have hclosed := Script.isClosed_of_lineBreak h ht hbreak
  have hspace : t.kind ≠ .whitespace := by
    intro hkind
    refine hbreak ?_
    have hnone : ∀ e ∈ t.chars, isLineBreak e = false := by
      simpa [Token.isNewline, hkind] using hnewline
    simpa using hnone
  unfold Lexeme.isClosed at hclosed
  simp only [Bool.or_eq_true, beq_iff_eq, Bool.and_eq_true] at hclosed
  rcases hclosed with (hkind | hkind) | ⟨hkind, _⟩
  · exact absurd hkind hspace
  · exact .inl hkind
  · exact .inr hkind

/-- **The line behind a token.**  A token behind one that is no line break stands as many lines
below the last line of that one as it has carriage returns without a line feed.  So it stands on
that line exactly if each carriage return of the token in front has its line feed, and the two
lines differ behind strings and comments only. -/
theorem line_next_eq_endLine_iff {u : Token} (h : Script.read tabWidth text = .ok s)
    (ht : s.get? i = some t) (hu : s.get? (i + 1) = some u) (hnewline : t.isNewline = false) :
    u.line = t.endLine + loneReturns t.chars
      ∧ (u.line = t.endLine ↔ ReturnsPaired t.chars)
      ∧ (u.line ≠ t.endLine → t.kind = .string ∨ t.kind = .comment) := by
  have hline : u.line = t.endLine + loneReturns t.chars := by
    rw [Script.line_next h ht hu, endLine_eq_count h ht hnewline, lineBreaks_eq_count]
    omega
  refine ⟨hline, ?_, fun hne => ?_⟩
  · rw [← loneReturns_eq_zero_iff, hline]
    omega
  · refine kind_of_lineBreak h ht hnewline fun hall => hne ?_
    rw [hline, loneReturns_eq_zero hall, Nat.add_zero]

/-- A string with a carriage return in it that stands alone: the semicolon behind it is on the
second line, and the string is said to end on the first. -/
theorem line_next_eq_endLine_iff_string :
    let s := Script.ofText 4 "\x27a\rb\x27;"
    ((s.get? 0).map Token.isNewline = some false ∧ (s.get? 1).isSome)
      ∧ (s.tokenAt 1).line = (s.tokenAt 0).endLine + loneReturns (s.tokenAt 0).chars
      ∧ ¬ ReturnsPaired (s.tokenAt 0).chars
      ∧ (s.tokenAt 0).endLine = 1 ∧ (s.tokenAt 1).line = 2 := by
  intro s
  have hread : Script.read 4 "\x27a\rb\x27;" = .ok s := Script.read_ofText (by decide +kernel)
  have hends : (s.tokenAt 0).endLine = 1 ∧ (s.tokenAt 1).line = 2 := by decide +kernel
  have hcompare := line_next_eq_endLine_iff hread (i := 0) (t := s.tokenAt 0) (u := s.tokenAt 1)
    (by decide +kernel) (by decide +kernel) (by decide +kernel)
  refine ⟨by decide +kernel, hcompare.1, fun hpaired => ?_, hends⟩
  have heq := hcompare.2.1.mpr hpaired
  omega

end Tokens

end SwitchLayout
