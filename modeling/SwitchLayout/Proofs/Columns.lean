/-
  SwitchLayout.Proofs.Columns
  ───────────────────────────
  **Lines and columns through a round.**

  A round shifts what stands behind an edit of the layout on its line, and takes line breaks away
  only where it edits the layout.

    • `front_repaired` — the layout in front of all code stays,
    • `Calmed.distance_le`, `Calmed.endLine_distance` — lines,
    • `Round.columnAt_succ` — the column of a piece of code, from the piece in front of it.
-/
import SwitchLayout.Proofs.Calming
import SwitchLayout.Proofs.Lines

namespace SwitchLayout

open Text

namespace Script

/-! ## §1. The first piece of code. -/

section Front

variable {s : Script} {indent : Nat}

theorem place_zero_lt_opener {label : Scope} (hlabel : label ∈ s.detectedScopes) :
    s.place 0 < label.opener ∧ s.place 0 < label.closer := by
  rw [s.thins_bare.detectedScopes_place] at hlabel
  obtain ⟨moved, hmoved, rfl⟩ := List.mem_map.mp hlabel
  obtain ⟨hco, hoc, _⟩ := ordered_of_mem_detectedScopes hmoved
  exact ⟨s.place_lt (by omega), s.place_lt (by omega)⟩

theorem EndsLabel.place_zero_lt {i : Nat} (h : s.EndsLabel i) : s.place 0 < i := by
  obtain ⟨_, label, hmem, rfl⟩ := h
  exact (place_zero_lt_opener hmem).1

theorem Due.place_zero_lt {i column : Nat} (h : s.Due indent i column) : s.place 0 < i := by
  obtain ⟨scope, label, hends, rfl, _⟩ := h
  exact (place_zero_lt_opener hends.detected).2

/-- No edit of the layout is made in front of all code. -/
theorem not_editsLayout_front {settings : Settings} {text : String}
    (h : read settings.tabWidth text = .ok s) (hcode : 0 < s.code.length) {j : Nat} (hj : 0 < j)
    (hfirst : j ≤ s.place 0) : ¬ s.EditsLayout settings j := by
  have hplace := place_lt_size hcode
  obtain ⟨i, rfl⟩ : ∃ i, j = i + 1 := ⟨j - 1, by omega⟩
  intro hedit
  rcases hedit.place h (by omega) with hcase | ⟨_, hdue⟩ | ⟨hspace, hbehind⟩
  · -- in front of the first code there is no `case`
    change s.kindAt i = .caseKw at hcase
    have hkind : s.kindAt i = .whitespace := by
      apply whitespace_of_ne_place (by omega)
      intro k _ heq
      have hle := s.thins_bare.le_iff.mpr (Nat.zero_le k)
      omega
    rw [hcase] at hkind
    cases hkind
  · have hlt := hdue.place_zero_lt
    omega
  · -- the whitespace is in front of the first code, which ends neither a label nor a case
    have hlt : s.place 0 < i + 2 := by
      rcases hbehind with hlabel | ⟨_, hdue⟩
      · exact hlabel.place_zero_lt
      · exact hdue.place_zero_lt
    have heq : i + 1 = s.place 0 := by omega
    rw [heq] at hspace
    exact kindAt_place_ne hcode hspace

end Front

section Round

variable {settings : Settings} {text : String} {s s₁ : Script} {k : Nat}

/-- **The layout in front of all code stays.** -/
theorem front_repaired (h : read settings.tabWidth text = .ok s) (hcode : 0 < s.code.length) :
    (splitMark (s.repaired settings).toList).2.takeWhile isLayout
      = (splitMark text.toList).2.takeWhile isLayout := by
  have hplace := place_lt_size hcode
  have hsize : 0 < s.size := by omega
  -- the two texts, from the first token on, which stays
  have htext : (splitMark text.toList).1 ++ (splitMark text.toList).2
      = (s.tokenAt 0).chars ++ s.textFrom 1 := by
    rw [append_splitMark, ← textFrom_eq hsize, ← source_read h]
    unfold source textFrom lexemes
    rw [String.toList_ofList, List.drop_zero, List.flatMap_map]
    rfl
  have htext₁ : (splitMark text.toList).1 ++ (splitMark (s.repaired settings).toList).2
      = (s.tokenAt 0).chars ++ s.repairedFrom settings 1 := by
    rw [← mark_repaired h, append_splitMark, ← (relays_selection h).first (get?_of_lt hsize),
      toList_repaired]
    exact repairedFrom_eq hsize
  -- the whitespace behind it stays as well
  have hbehind : s.kindAt 0 = .whitespace →
      (s.repairedFrom settings 1).takeWhile isLayout = (s.textFrom 1).takeWhile isLayout := by
    intro hspace
    have hpos : 0 < s.place 0 := by
      by_contra hzero
      have hne := kindAt_place_ne hcode
      rw [show s.place 0 = 0 by omega] at hne
      exact hne hspace
    have hfront : ∀ j, 0 < j → j < s.place 0 → s.kindAt j = .whitespace := by
      intro j _ hj
      apply whitespace_of_ne_place (by omega)
      intro i _ heq
      have hle := s.thins_bare.le_iff.mpr (Nat.zero_le i)
      omega
    refine relaidFrom_eq h hpos hplace (kindAt_place_ne hcode) hfront fun j hlo hhi hedit => ?_
    exact not_editsLayout_front h hcode hlo hhi hedit
  obtain ⟨ls, hls, hlexemes⟩ := lexemes_of_read h
  have hfirst := getElem?_lexemes_tokenAt hsize
  rw [hlexemes] at hfirst
  rcases splitMark_cases text.toList with hmark | hmark
  · rw [hmark, List.nil_append] at htext htext₁
    rw [hmark] at hfirst
    obtain ⟨member, c, t, hchars, hform⟩ := form_of_mem hls (List.mem_of_getElem? hfirst)
    change (s.tokenAt 0).chars = c :: t at hchars
    rw [htext, htext₁]
    by_cases hspace : s.kindAt 0 = .whitespace
    · have hlayout : ∀ d ∈ (s.tokenAt 0).chars, isLayout d = true := by
        rw [hchars]
        exact List.all_eq_true.mp (hform.all_isLayout hspace)
      rw [takeWhile_layout_append hlayout, takeWhile_layout_append hlayout, hbehind hspace]
    · have hc := isLayout_head hform hspace
      rw [hchars, List.cons_append, List.cons_append, takeWhile_layout_code hc,
        takeWhile_layout_code hc]
  · -- the first token is the byte order mark
    rw [hmark] at hfirst htext htext₁
    have hlexeme : markLexeme byteOrderMark = (s.tokenAt 0).lexeme := Option.some.inj hfirst
    have hchars : (s.tokenAt 0).chars = [byteOrderMark] := (congrArg Lexeme.chars hlexeme).symm
    rw [hchars] at htext htext₁
    rw [List.append_cancel_left htext, List.append_cancel_left htext₁]
    exact hbehind (congrArg Lexeme.kind hlexeme).symm

/-- The first piece of code keeps its location. -/
theorem location_place_zero_repaired (h : read settings.tabWidth text = .ok s)
    (h₁ : read settings.tabWidth (s.repaired settings) = .ok s₁) (hcode : 0 < s.code.length)
    (hcode₁ : 0 < s₁.code.length) :
    (s₁.tokenAt (s₁.place 0)).location = (s.tokenAt (s.place 0)).location := by
  rw [location_place_zero h hcode, location_place_zero h₁ hcode₁, front_repaired h hcode]

end Round

/-! ## §2. Lines. -/

/-- The line breaks of a text that are counted for the line it ends on. -/
def innerBreaks (cs : List Char) : Nat := (cs.reverse.dropWhile isLineBreak).count '\n'

theorem innerBreaks_eq_zero {cs : List Char} (h : cs.all (!isLineBreak ·) = true) :
    innerBreaks cs = 0 := by
  unfold innerBreaks
  rw [List.count_eq_zero]
  intro hmem
  have hin : '\n' ∈ cs := List.mem_reverse.mp ((List.dropWhile_sublist _).subset hmem)
  exact absurd (List.all_eq_true.mp h _ hin) (by decide)

theorem innerBreaks_le (cs : List Char) : innerBreaks cs ≤ lineBreaks cs := by
  have hcount : ∀ ds : List Char, ds.count '\n' ≤ lineBreaks ds := by
    intro ds
    induction ds with
    | nil => exact Nat.le_refl _
    | cons d ds ih =>
        by_cases hd : d = '\n'
        · rw [hd, List.count_cons_self, lineBreaks, if_pos (.inl rfl)]
          omega
        · rw [List.count_cons_of_ne hd, lineBreaks]
          split <;> omega
  calc innerBreaks cs ≤ cs.reverse.count '\n' := (List.dropWhile_sublist _).count_le _
    _ = cs.count '\n' := List.count_reverse
    _ ≤ lineBreaks cs := hcount cs

/-- The line breaks of a text that are not counted for the line it ends on. -/
def outerBreaks (cs : List Char) : Nat := lineBreaks cs - innerBreaks cs

theorem endLineAt_eq (s : Script) (i : Nat) :
    s.endLineAt i = s.lineAt i + innerBreaks (s.tokenAt i).chars := rfl

/-- The line of a piece of code, from the line on which the code in front of it ends. -/
theorem lineAt_of_endLineAt {tabWidth : Nat} {text : String} {s : Script} {k : Nat}
    (h : read tabWidth text = .ok s) (hk : k + 1 < s.code.length) :
    s.lineAt (s.place (k + 1)) = s.endLineAt (s.place k)
      + (outerBreaks (s.tokenAt (s.place k)).chars + s.breaksBehind k) := by
  have hle := innerBreaks_le (s.tokenAt (s.place k)).chars
  unfold outerBreaks
  rw [endLineAt_eq, lineAt_place_succ h hk]
  omega

namespace Calmed

variable {tabWidth : Nat} {s s' : Script} {k m : Nat}

theorem lineBreaks_eq (hc : Calmed tabWidth s s') (hk : k < s.code.length) :
    lineBreaks (s'.tokenAt (s'.place k)).chars = lineBreaks (s.tokenAt (s.place k)).chars :=
  hc.calms.program.congr_inline hc.before hc.behind hk fun _ hcs => lineBreaks_eq_zero hcs

theorem innerBreaks_eq (hc : Calmed tabWidth s s') (hk : k < s.code.length) :
    innerBreaks (s'.tokenAt (s'.place k)).chars = innerBreaks (s.tokenAt (s.place k)).chars :=
  hc.calms.program.congr_inline hc.before hc.behind hk fun _ hcs => innerBreaks_eq_zero hcs

theorem outerBreaks_eq (hc : Calmed tabWidth s s') (hk : k < s.code.length) :
    outerBreaks (s'.tokenAt (s'.place k)).chars = outerBreaks (s.tokenAt (s.place k)).chars := by
  unfold outerBreaks
  rw [hc.lineBreaks_eq hk, hc.innerBreaks_eq hk]

/-- **Code comes no further away** in lines from the code in front of it. -/
theorem distance_le (hc : Calmed tabWidth s s') (hk : k < s.code.length) (hmk : m ≤ k) :
    s'.lineAt (s'.place k) + s.lineAt (s.place m)
      ≤ s.lineAt (s.place k) + s'.lineAt (s'.place m) := by
  have hlength := hc.length_code
  induction k with
  | zero =>
      obtain rfl : m = 0 := by omega
      omega
  | succ k ih =>
      rcases Nat.eq_or_lt_of_le hmk with rfl | hlt
      · omega
      · have hfront := ih (by omega) (by omega)
        have hgap := hc.calms.fewer k hk
        rw [lineAt_place_succ hc.before hk, lineAt_place_succ hc.behind (by omega),
          hc.lineBreaks_eq (by omega)]
        omega

/-- Code keeps its distance to the line on which the code in front of it ends, if the line breaks
between the two stay. -/
theorem endLine_distance (hc : Calmed tabWidth s s') (hk : k + 1 < s.code.length)
    (hstay : s'.breaksBehind k = s.breaksBehind k) :
    s'.lineAt (s'.place (k + 1)) + s.endLineAt (s.place k)
      = s.lineAt (s.place (k + 1)) + s'.endLineAt (s'.place k) := by
  rw [lineAt_of_endLineAt hc.before hk,
    lineAt_of_endLineAt hc.behind (by rw [hc.length_code]; exact hk),
    hc.outerBreaks_eq (by omega), hstay]
  omega

/-- Code on the line on which the code in front of it ends stays there. -/
theorem endLine_eq (hc : Calmed tabWidth s s') (hk : k + 1 < s.code.length)
    (hline : s.endLineAt (s.place k) = s.lineAt (s.place (k + 1))) :
    s'.endLineAt (s'.place k) = s'.lineAt (s'.place (k + 1)) := by
  rw [lineAt_of_endLineAt hc.before hk] at hline
  have hgap := hc.calms.fewer k hk
  rw [lineAt_of_endLineAt hc.behind (by rw [hc.length_code]; exact hk),
    hc.outerBreaks_eq (by omega)]
  omega

end Calmed

/-! ## §3. Columns. -/

/-- The column behind a word. -/
theorem column_after_word {cs : List Char} (h : cs.all isWordChar = true) (width : Nat)
    (l : Location) : (l.after width cs).column = l.column + cs.length := by
  induction cs generalizing l with
  | nil => rfl
  | cons c cs ih =>
      rw [List.all_cons, Bool.and_eq_true] at h
      have hplain : c ≠ '\n' ∧ c ≠ '\r' ∧ c ≠ '\t' := by
        refine ⟨?_, ?_, ?_⟩ <;> rintro rfl <;> exact absurd h.1 (by decide)
      have hstep : l.step width c cs.head? = ⟨l.line, l.column + 1⟩ := by
        unfold Location.step
        rw [if_neg (by simp [hplain]), if_neg hplain.2.2]
      rw [Location.after_cons, hstep, ih h.2, List.length_cons]
      show l.column + 1 + cs.length = _
      omega

section Columns

variable {settings : Settings} {tabWidth : Nat} {text : String} {s s' s₁ : Script} {k : Nat}

theorem isWordChar_of_isBranch (h : read tabWidth text = .ok s) {i : Nat} (hi : i < s.size)
    (hbranch : (s.kindAt i).isBranch = true) : (s.tokenAt i).chars.all isWordChar = true := by
  rcases form_of_read h (get?_of_lt hi) with hmark | ⟨member, c, cs, hchars, hform⟩
  · have hkind : s.kindAt i = .whitespace := congrArg Lexeme.kind hmark
    rw [hkind] at hbranch
    cases hbranch
  · rw [hchars]
    exact (hform.of_isBranch hbranch).2.2

/-- The column behind a piece of code goes with the column in which it starts. -/
theorem Calmed.column_after (hc : Calmed tabWidth s s') (hk : k < s.code.length) {l l' : Location}
    (hl : l'.column = l.column) :
    (l'.after tabWidth (s'.tokenAt (s'.place k)).chars).column
      = (l.after tabWidth (s.tokenAt (s.place k)).chars).column := by
  have hsame := hc.calms.program.same_place hk
  rcases hsame.2 with heq | ⟨hbranch, _⟩
  · change (s'.tokenAt (s'.place k)).chars = (s.tokenAt (s.place k)).chars at heq
    rw [heq]
    exact Location.column_after_congr _ hl _
  · -- a keyword is as wide in lower case
    have hlength : (s'.tokenAt (s'.place k)).chars.length = (s.tokenAt (s.place k)).chars.length :=
      hsame.length_chars
    have hk' : k < s'.code.length := by
      rw [hc.length_code]
      exact hk
    have hbranch' : (s'.kindAt (s'.place k)).isBranch = true := by
      rw [hc.calms.program.kindAt_place]
      exact hbranch
    rw [column_after_word (isWordChar_of_isBranch hc.before (place_lt_size hk) hbranch),
      column_after_word (isWordChar_of_isBranch hc.behind (place_lt_size hk') hbranch'), hlength,
      hl]

/-- **One piece of code further.**  Code keeps its column, if no edit is made between it and the
last line break in front of it, and if the code in front of it keeps its column or stands on another
line. -/
theorem Round.columnAt_succ (hr : Round settings s s₁) (hk : k + 1 < s.code.length)
    (hstay : ¬ s.EditsLayout settings (s.place (k + 1)))
    (hbreak : ∀ j, s.place k < j → j < s.place (k + 1) → s.EditsLayout settings j →
      0 < lineBreaks (s.layoutFrom (j + 1)))
    (hfront : s.lineAt (s.place k) = s.lineAt (s.place (k + 1)) →
      s₁.columnAt (s₁.place k) = s.columnAt (s.place k)) :
    s₁.columnAt (s₁.place (k + 1)) = s.columnAt (s.place (k + 1)) := by
  have hc := hr.calmed
  have hk₁ : k + 1 < s₁.code.length := by
    rw [hc.length_code]
    exact hk
  show (s₁.tokenAt (s₁.place (k + 1))).location.column
    = (s.tokenAt (s.place (k + 1))).location.column
  rw [location_place_succ hr.before hk, location_place_succ hr.behind hk₁,
    gap_eq_relaidFrom hr.before hr.free hr.behind (Nat.lt_of_succ_lt hk)]
  rcases column_after_relaidFrom hr.before (s.place_lt (Nat.lt_succ_self k)) (place_lt_size hk)
      (kindAt_place_ne hk) (fun j hlo hhi => whitespace_between (by omega) hlo hhi) hstay
      hbreak with
    heq | ⟨_, hcolumn⟩
  · rw [heq]
    change (Location.after _ _ (s.gap k)).column = (Location.after _ _ (s.gap k)).column
    by_cases hline : s.lineAt (s.place k) = s.lineAt (s.place (k + 1))
    · apply Location.column_after_congr
      exact hc.column_after (by omega) (hfront hline)
    · -- a line break is in the layout or in the code in front of it
      have hstep := lineAt_place_succ hr.before hk
      by_cases hgap : 0 < lineBreaks (s.gap k)
      · exact Location.column_after_of_lineBreaks _ _ _ hgap
      · change s.lineAt _ = s.lineAt _ + _ + lineBreaks (s.gap k) at hstep
        have hchars : 0 < lineBreaks (s.tokenAt (s.place k)).chars := by omega
        -- which is then no branch keyword, and stays
        have hsame : (s₁.tokenAt (s₁.place k)).chars = (s.tokenAt (s.place k)).chars := by
          rcases (hc.calms.program.same_place (k := k) (by omega)).2 with heq | ⟨hbranch, _⟩
          · exact heq
          · have hnone := lineBreaks_eq_zero
              (isInline_of_isBranch hr.before (place_lt_size (k := k) (by omega)) hbranch)
            omega
        rw [hsame]
        apply Location.column_after_congr
        exact Location.column_after_of_lineBreaks _ _ _ hchars
  · exact hcolumn _ _

end Columns

end Script

end SwitchLayout
