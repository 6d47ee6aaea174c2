/-
  SwitchLayout.Proofs.Locations
  ─────────────────────────────
  **Tokens stand where an editor shows them.**

  The location of a token is kept up from one token to the next while a text is read.  What an
  editor shows is said of the text alone (`shownBehind`): the line is the number of line breaks in
  front, and the column comes from the characters of the last line, the tabs among them leading
  from stop to stop.  The two are the same because no token parts a line break:

    • `isLeast_tabStop` — a tab leads to the next stop,
    • `column_after_eq`, `shownBehind_eq` — the location behind a text is the one shown,
    • `placed_turn` — every turn of the loop keeps it so,
    • `Location.before_after` — text leads forward.

  The main statement is `read_shows_tokens`.
-/
import Mathlib.Data.List.DropRight
import Mathlib.Order.Bounds.Basic
import SwitchLayout.Proofs.Outcomes
import SwitchLayout.Proofs.Seams
import SwitchLayout.Proofs.Turns

namespace SwitchLayout

open Text

/-! ## §1. What an editor shows. -/

/-- The part of a text behind its last line break. -/
def lastLine (cs : List Char) : List Char := cs.rtakeWhile (!isLineBreak ·)

/-- The column to which a character leads. -/
def shownNext (tabWidth column : Nat) (c : Char) : Nat :=
  if c = '\t' then Location.tabStop tabWidth column else column + 1

/-- Where an editor shows what comes behind a text.  A byte order mark in front of the text takes
no column. -/
def shownBehind (tabWidth : Nat) (text : List Char) : Location :=
  ⟨1 + lineBreaks text, (lastLine (Script.splitMark text).2).foldl (shownNext tabWidth) 1⟩

/-- The text of a script in front of the token at `i`. -/
def Script.textBefore (s : Script) (i : Nat) : List Char :=
  (s.lexemes.take i).flatMap Lexeme.chars

/-- **A tab leads to the next stop**: the least column behind it of the form `m * width + 1`. -/
theorem isLeast_tabStop {width column : Nat} (hwidth : 0 < width) (hcolumn : 1 ≤ column) :
    IsLeast {stop | column < stop ∧ ∃ m, stop = m * width + 1}
      (Location.tabStop width column) := by
  unfold Location.tabStop
  rw [if_neg (Nat.ne_of_gt hwidth)]
  constructor
  · refine ⟨?_, (column - 1) / width + 1, rfl⟩
    have hlt := Nat.lt_mul_div_succ (column - 1) hwidth
    rw [Nat.mul_comm] at hlt
    omega
  · rintro stop ⟨hlt, m, rfl⟩
    have hm : (column - 1) / width < m := by
      rw [Nat.div_lt_iff_lt_mul hwidth]
      omega
    exact Nat.add_le_add_right (Nat.mul_le_mul_right width hm) 1

/-! ## §2. The location behind a text. -/

/-- The column behind a text comes from its last line alone. -/
theorem column_after_eq (tabWidth : Nat) (cs : List Char) :
    (Location.origin.after tabWidth cs).column = (lastLine cs).foldl (shownNext tabWidth) 1 := by
  -- from the end: a line break starts afresh, any other character leads on
  induction cs using List.reverseRecOn with
  | nil => rfl
  | append_singleton cs c ih =>
      unfold lastLine at ih ⊢
      by_cases hnewline : c = '\n'
      · subst hnewline
        rw [Location.column_after_newline _ _ List.getLast?_concat,
          List.rtakeWhile_concat_neg _ _ _ (by decide)]
        rfl
      · rw [Location.after_append _ _ fun _ => by simpa using hnewline, Location.after_cons]
        by_cases hreturn : c = '\r'
        · subst hreturn
          rw [List.rtakeWhile_concat_neg _ _ _ (by decide)]
          rfl
        · have hline : (!isLineBreak c) = true := by simp [isLineBreak, hnewline, hreturn]
          rw [List.rtakeWhile_concat_pos (!isLineBreak ·) cs c hline, List.foldl_concat, ← ih,
            Location.after_nil]
          unfold Location.step shownNext
          rw [if_neg (by simp [hnewline, hreturn])]
          split <;> rfl

/-- **The location behind a text** is the one shown. -/
theorem shownBehind_eq (tabWidth : Nat) (cs : List Char) :
    shownBehind tabWidth cs = Location.origin.after tabWidth (Script.splitMark cs).2 := by
  have hline := Location.line_after_eq tabWidth .origin (Script.splitMark cs).2
  rw [Script.lineBreaks_splitMark] at hline
  unfold shownBehind
  rw [← column_after_eq]
  exact congrArg (fun line => Location.mk line _) hline.symm

/-- A text in two parts, of which the second starts neither inside of a line break nor with the
mark of the whole. -/
theorem shownBehind_append (tabWidth : Nat) {u w : List Char}
    (hfront : u = [] → w.head? ≠ some byteOrderMark)
    (hseam : u.getLast? = some '\r' → w.head? ≠ some '\n') :
    shownBehind tabWidth (u ++ w) = (shownBehind tabWidth u).after tabWidth w := by
  rw [shownBehind_eq, shownBehind_eq]
  by_cases hu : u = []
  · subst hu
    rw [List.nil_append, Script.splitMark_of_head? (hfront rfl)]
    rfl
  · rw [Script.splitMark_append hu]
    refine Location.after_append tabWidth _ fun hlast => hseam ?_
    rw [← Script.append_splitMark u, List.getLast?_append, hlast]
    rfl

/-! ## §3. Turns. -/

/-- The cursor and all tokens made stand where an editor shows them. -/
structure Cursor.Placed (tabWidth : Nat) (k : Cursor) : Prop where
  /-- The mark of the whole text is behind. -/
  front : k.behind = [] → k.ahead.head? ≠ some byteOrderMark
  /-- The cursor does not stand inside of a line break. -/
  seam : k.behind.getLast? = some '\r' → k.ahead.head? ≠ some '\n'
  location : k.location = shownBehind tabWidth k.behind
  tokens : ∀ i t, k.made[i]? = some t →
    t.location = shownBehind tabWidth ((k.made.take i).flatMap Token.chars)

/-- A text that has no mark in front does not start with one. -/
theorem head?_splitMark {text : List Char} (h : (Script.splitMark text).1 = []) :
    (Script.splitMark text).2.head? ≠ some byteOrderMark := by
  cases text with
  | nil => simp [Script.splitMark]
  | cons c cs =>
      by_cases hc : c = byteOrderMark
      · simp [Script.splitMark, hc] at h
      · simp [Script.splitMark, hc]

theorem placed_start (tabWidth : Nat) (text : List Char) :
    (Cursor.start text).Placed tabWidth := by
  have hbehind : (Cursor.start text).behind = (Script.splitMark text).1 :=
    Script.chars_markToken _
  refine ⟨fun hnil => head?_splitMark (hbehind ▸ hnil), fun hlast => ?_, ?_, fun i t ht => ?_⟩
  · rw [hbehind] at hlast
    have hmark := Script.mem_splitMark (List.mem_of_getLast? hlast)
    exact absurd hmark (by decide)
  · rw [hbehind]
    rcases Script.splitMark_cases text with hmark | hmark
    · rw [hmark]
      rfl
    · rw [hmark]
      rfl
  · -- the mark itself stands at the origin
    change ((Script.splitMark text).1.map Script.markToken)[i]? = some t at ht
    rcases Script.splitMark_cases text with hmark | hmark
    · rw [hmark] at ht
      cases ht
    · rw [hmark] at ht
      cases i with
      | zero =>
          obtain rfl := Option.some.inj ht
          rfl
      | succ i => cases ht

/-- **A turn puts its token where an editor shows it.** -/
theorem placed_turn {tabWidth : Nat} {k k' : Cursor} (h : k.turn tabWidth = .ok (some k'))
    (hk : k.Placed tabWidth) : k'.Placed tabWidth := by
  obtain ⟨c, t, rest, kind, hahead, hextent, rfl⟩ := turn_cases h
  have hhead : (c :: t).head? = k.ahead.head? := by
    rw [hahead]
    rfl
  refine ⟨fun hnil => ?_, fun hlast => ?_, ?_, fun i made hmade => ?_⟩
  · rw [behind_push] at hnil
    simp at hnil
  · rw [behind_push, List.getLast?_append] at hlast
    refine extent_parts_no_break hextent ?_
    rw [List.getLast?_cons] at hlast ⊢
    exact hlast
  · rw [behind_push, shownBehind_append tabWidth (by rw [hhead]; exact hk.front)
      (by rw [hhead]; exact hk.seam), ← hk.location]
    rfl
  · show made.location = shownBehind tabWidth (((k.made ++ [_]).take i).flatMap Token.chars)
    rcases getElem?_push_cases hmade with ⟨hlt, hold⟩ | ⟨rfl, rfl⟩
    · rw [List.take_append_of_le_length (Nat.le_of_lt hlt)]
      exact hk.tokens i made hold
    · rw [List.take_left]
      exact hk.location

/-! ## §4. Order. -/

namespace Location

/-- The one location comes before the other, line by line and column by column. -/
def Before (l l' : Location) : Prop :=
  l.line < l'.line ∨ (l.line = l'.line ∧ l.column < l'.column)

theorem Before.trans {l l' l'' : Location} (h : l.Before l') (h' : l'.Before l'') :
    l.Before l'' := by
  unfold Before at h h' ⊢
  omega

theorem before_step (width : Nat) (l : Location) (c : Char) (next : Option Char) :
    l.Before (l.step width c next) := by
  unfold step
  split
  · exact .inl (Nat.lt_succ_self l.line)
  · split
    · refine .inr ⟨rfl, ?_⟩
      show l.column < tabStop width l.column
      rcases Nat.eq_zero_or_pos width with rfl | hwidth
      · exact Nat.lt_succ_self l.column
      · rcases Nat.eq_zero_or_pos l.column with hzero | hcolumn
        · rw [hzero, tabStop, if_neg (Nat.ne_of_gt hwidth)]
          omega
        · exact (isLeast_tabStop hwidth hcolumn).1.1
    · exact .inr ⟨rfl, Nat.lt_succ_self l.column⟩

/-- **Text leads forward.** -/
theorem before_after (width : Nat) (l : Location) {cs : List Char} (hcs : cs ≠ []) :
    l.Before (l.after width cs) := by
  induction cs generalizing l with
  | nil => exact absurd rfl hcs
  | cons c cs ih =>
      rw [after_cons]
      have hstep := before_step width l c cs.head?
      by_cases hnil : cs = []
      · subst hnil
        exact hstep
      · exact hstep.trans (ih _ hnil)

end Location

/-! ## §5. Tokens. -/

theorem textBefore_ofTokens (ts : List Token) (i : Nat) :
    (Script.ofTokens ts).textBefore i = (ts.take i).flatMap Token.chars := by
  unfold Script.textBefore
  rw [Script.lexemes_ofTokens, ← List.map_take, List.flatMap_map]
  rfl

/-- Each token of a script stands where an editor shows what comes behind the text in front of
it. -/
theorem location_eq_shownBehind {tabWidth : Nat} {text : String} {s : Script}
    (h : Script.read tabWidth text = .ok s) {i : Nat} {t : Token} (ht : s.get? i = some t) :
    t.location = shownBehind tabWidth (s.textBefore i) := by
  obtain ⟨n, k, hturns, hstop⟩ := exists_stop tabWidth text
  have hplaced := hturns.preserves placed_turn (placed_start tabWidth text.toList)
  rw [h] at hstop
  obtain ⟨_, rfl⟩ := hstop
  rw [Script.get?_ofTokens] at ht
  obtain ⟨made, hmade, rfl⟩ := Option.map_eq_some_iff.mp ht
  rw [textBefore_ofTokens]
  exact hplaced.tokens i made hmade

/-- **Every token stands where an editor shows it.**  Its line is one more than the line breaks in
the text in front of it, and its column comes from the characters behind the last of them; a tab
among these leads to the next stop.  Lines and columns count from one, and a token stands behind
the one in front of it, if that is not the byte order mark. -/
theorem read_shows_tokens {tabWidth : Nat} {text : String} {s : Script}
    (h : Script.read tabWidth text = .ok s) :
    (∀ i t, s.get? i = some t →
        t.line = 1 + lineBreaks (s.textBefore i)
          ∧ t.column
            = (lastLine (Script.splitMark (s.textBefore i)).2).foldl (shownNext tabWidth) 1
          ∧ 1 ≤ t.line ∧ 1 ≤ t.column)
      ∧ (∀ i t t', s.get? i = some t → s.get? (i + 1) = some t' →
          t.location.Before t'.location
            ∨ (i = 0 ∧ t.chars = [byteOrderMark] ∧ t'.location = t.location))
      ∧ ∀ column, 1 ≤ column →
          (tabWidth = 0 → shownNext tabWidth column '\t' = column + 1)
            ∧ (0 < tabWidth → IsLeast {stop | column < stop ∧ ∃ m, stop = m * tabWidth + 1}
                (shownNext tabWidth column '\t')) := by
  refine ⟨fun i t ht => ?_, fun i t t' ht ht' => ?_, fun column hcolumn => ⟨?_, fun hwidth => ?_⟩⟩
  · have hlocation := location_eq_shownBehind h ht
    refine ⟨congrArg Location.line hlocation, congrArg Location.column hlocation, ?_, ?_⟩
    · show 1 ≤ t.location.line
      rw [hlocation]
      exact Nat.le_add_right 1 _
    · show 1 ≤ t.location.column
      rw [hlocation, shownBehind_eq]
      exact Location.one_le_column_after tabWidth .origin _ (Nat.le_refl 1)
  · rcases Script.location_next h ht ht' with hnext | ⟨hzero, hmark, hsame⟩
    · left
      rw [hnext]
      exact Location.before_after tabWidth _ (Script.chars_ne_nil h ht)
    · exact .inr ⟨hzero, congrArg Lexeme.chars hmark, hsame⟩
  · rintro rfl
    rfl
  · exact isLeast_tabStop hwidth hcolumn

/-- Behind a byte order mark, a string with a line break in it and a tab, a variable stands on the
second line in the fifth column. -/
theorem read_shows_tokens_mark :
    let s := Script.ofText 4 "\uFEFF\x27a\r\nb\x27\t$x"
    let t := s.tokenAt 3
    (Script.read 4 "\uFEFF\x27a\r\nb\x27\t$x" = .ok s ∧ s.get? 3 = some t)
      ∧ t.location = ⟨2, 5⟩
      ∧ t.line = 1 + lineBreaks (s.textBefore 3)
      ∧ t.column = (lastLine (Script.splitMark (s.textBefore 3)).2).foldl (shownNext 4) 1 := by
  intro s t
  have hread : Script.read 4 "\uFEFF\x27a\r\nb\x27\t$x" = .ok s :=
    Script.read_ofText (by decide +kernel)
  have hget : s.get? 3 = some t := by decide +kernel
  obtain ⟨hline, hcolumn, _⟩ := (read_shows_tokens hread).1 3 t hget
  exact ⟨⟨hread, hget⟩, by decide +kernel, hline, hcolumn⟩

end SwitchLayout
