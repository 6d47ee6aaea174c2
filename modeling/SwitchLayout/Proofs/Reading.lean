/-
  SwitchLayout.Proofs.Reading
  ───────────────────────────
  **What a script that was read from a text looks like.**

  Its tokens are the byte order mark, if there is one, and the lexemes of the text behind it,
  each with the location behind the lexemes in front of it (`read_eq_ok_iff`,
  `getElem?_locate`).  From there:

    • `code_read`, `read_of_codeLexemes` — the code of the script, which is its tokens without
      whitespace, is the code of the text,
    • `lexemes_read` — the tokens are read again as they stand,
    • `location_next`, `line_next` — where the next token stands.
-/
import SwitchLayout.Script.Read
import SwitchLayout.Proofs.Relayout

namespace SwitchLayout

open Text

/-! ## §1. Locations. -/

/-- The number of line breaks in a text; a carriage return in front of a line feed is part of
its break. -/
def lineBreaks : List Char → Nat
  | [] => 0
  | c :: cs =>
    if c = '\n' ∨ (c = '\r' ∧ cs.head? ≠ some '\n') then lineBreaks cs + 1 else lineBreaks cs

theorem lineBreaks_eq_zero {cs : List Char} (hcs : cs.all (!isLineBreak ·) = true) :
    lineBreaks cs = 0 := by
  induction cs with
  | nil => rfl
  | cons c cs ih =>
      rw [List.all_cons, Bool.and_eq_true] at hcs
      have hc : ¬ c = '\n' ∧ ¬ c = '\r' := by simpa [isLineBreak] using hcs.1
      rw [lineBreaks, if_neg (by simp [hc]), ih hcs.2]

namespace Location

/-- The line behind a text. -/
theorem line_after_eq (width : Nat) (l : Location) (cs : List Char) :
    (l.after width cs).line = l.line + lineBreaks cs := by
  induction cs generalizing l with
  | nil => rfl
  | cons c cs ih =>
      rw [after_cons, ih, lineBreaks]
      unfold step
      split
      · show l.line + 1 + lineBreaks cs = _
        omega
      · split <;> rfl

/-- A text without a line break stays on its line. -/
theorem line_after {width : Nat} {cs : List Char} (hcs : cs.all (!isLineBreak ·) = true)
    (l : Location) : (l.after width cs).line = l.line := by
  rw [line_after_eq, lineBreaks_eq_zero hcs, Nat.add_zero]

/-- A text in two parts, which do not part a line break. -/
theorem after_append (width : Nat) (l : Location) {u w : List Char}
    (h : u.getLast? = some '\r' → w.head? ≠ some '\n') :
    l.after width (u ++ w) = (l.after width u).after width w := by
  induction u generalizing l with
  | nil => rfl
  | cons c u ih =>
      have hstep : l.step width c (u ++ w).head? = l.step width c u.head? := by
        cases u with
        | nil =>
            unfold step
            by_cases hc : c = '\r'
            · simp [hc, h (by simp [hc])]
            · simp [hc]
        | cons d u => rfl
      have hrest : ∀ l : Location, l.after width (u ++ w) = (l.after width u).after width w := by
        intro l
        apply ih
        intro hlast
        apply h
        cases u with
        | nil => cases hlast
        | cons d u =>
            rw [List.getLast?_cons_cons]
            exact hlast
      rw [List.cons_append, after_cons, after_cons, hstep, hrest]

/-- The column behind a text does not hang on the line. -/
theorem column_after_congr (width : Nat) {l l' : Location} (h : l.column = l'.column)
    (cs : List Char) : (l.after width cs).column = (l'.after width cs).column := by
  induction cs generalizing l l' with
  | nil => exact h
  | cons c cs ih =>
      rw [after_cons, after_cons]
      apply ih
      unfold step
      split
      · rfl
      · split
        · exact congrArg (tabStop width) h
        · exact congrArg (· + 1) h

/-- Behind a line break the column does not hang on where the text started. -/
theorem column_after_of_lineBreaks (width : Nat) (l l' : Location) {cs : List Char}
    (h : 0 < lineBreaks cs) : (l.after width cs).column = (l'.after width cs).column := by
  induction cs generalizing l l' with
  | nil => exact absurd h (Nat.lt_irrefl 0)
  | cons c cs ih =>
      rw [after_cons, after_cons]
      rw [lineBreaks] at h
      split at h
      · rename_i hbreak
        apply column_after_congr
        unfold step
        rw [if_pos hbreak, if_pos hbreak]
        rfl
      · exact ih _ _ h

end Location

theorem locationBehind_append_singleton (tabWidth : Nat) (loc : Location) (ls : List Lexeme)
    (l : Lexeme) :
    locationBehind tabWidth loc (ls ++ [l])
      = (locationBehind tabWidth loc ls).after tabWidth l.chars := by
  unfold locationBehind
  rw [List.foldl_append]
  rfl

/-- The token of each lexeme stands behind the lexemes in front of it. -/
theorem getElem?_locate (tabWidth : Nat) (loc : Location) (ls : List Lexeme) (i : Nat) :
    (locate tabWidth loc ls)[i]? = ls[i]?.map fun l =>
      ⟨l.kind, String.ofList l.chars, locationBehind tabWidth loc (ls.take i), 0⟩ := by
  induction ls generalizing loc i with
  | nil => rfl
  | cons l ls ih =>
      cases i with
      | zero => rfl
      | succ i =>
          rw [locate, List.getElem?_cons_succ, List.getElem?_cons_succ, ih]
          rfl

/-! ## §2. The code of a script. -/

/-- A token without its place. -/
def Token.lexeme (t : Token) : Lexeme := ⟨t.kind, t.chars⟩

namespace Script

/-- The tokens of a script without their places. -/
def lexemes (s : Script) : List Lexeme := s.tokens.toList.map Token.lexeme

/-- The code of a script: all that is not whitespace, without its place. -/
def code (s : Script) : List Lexeme := s.lexemes.filter (·.kind ≠ .whitespace)

theorem lexemes_ofTokens (ts : List Token) : (ofTokens ts).lexemes = ts.map Token.lexeme := by
  unfold lexemes ofTokens
  refine List.ext_getElem? fun i => ?_
  rw [List.toList_toArray, List.getElem?_map, List.getElem?_map, List.getElem?_mapIdx,
    Option.map_map]
  rfl

theorem getElem?_lexemes (s : Script) (i : Nat) : s.lexemes[i]? = (s.get? i).map Token.lexeme := by
  unfold lexemes get?
  rw [List.getElem?_map, Array.getElem?_toList]

theorem map_lexeme_locate (tabWidth : Nat) (loc : Location) (ls : List Lexeme) :
    (locate tabWidth loc ls).map Token.lexeme = ls := by
  induction ls generalizing loc with
  | nil => rfl
  | cons l ls ih =>
      rw [locate, List.map_cons, ih]
      simp [Token.lexeme, Token.chars]

/-! ## §3. Reading. -/

theorem read_eq_ok_iff {tabWidth : Nat} {text : String} {s : Script} :
    read tabWidth text = .ok s ↔
      ∃ ls, SwitchLayout.lexemes false (splitMark text.toList).2 = (ls, none)
        ∧ s = ofTokens ((splitMark text.toList).1.map markToken ++ locate tabWidth .origin ls) := by
  unfold read
  dsimp only
  cases h : SwitchLayout.lexemes false (splitMark text.toList).2 with
  | mk ls o =>
      cases o with
      | none =>
          simp only [Except.ok.injEq, Prod.mk.injEq, and_true]
          constructor
          · intro hs
            exact ⟨ls, rfl, hs.symm⟩
          · rintro ⟨ls', rfl, hs⟩
            exact hs.symm
      | some literal => simp

/-- The byte order mark as a lexeme. -/
def markLexeme (mark : Char) : Lexeme := ⟨.whitespace, [mark]⟩

theorem mem_splitMark {cs : List Char} {c : Char} (h : c ∈ (splitMark cs).1) :
    c = byteOrderMark := by
  unfold splitMark at h
  split at h
  · cases h
  · split at h
    · rename_i hc
      rw [List.mem_singleton.mp h, hc]
    · cases h

theorem splitMark_cases (cs : List Char) :
    (splitMark cs).1 = [] ∨ (splitMark cs).1 = [byteOrderMark] := by
  unfold splitMark
  repeat' split
  · exact .inl rfl
  · rename_i hc
    exact .inr (by rw [hc])
  · exact .inl rfl

theorem lexemes_of_read {tabWidth : Nat} {text : String} {s : Script}
    (h : read tabWidth text = .ok s) :
    ∃ ls, SwitchLayout.lexemes false (splitMark text.toList).2 = (ls, none)
      ∧ s.lexemes = (splitMark text.toList).1.map markLexeme ++ ls := by
  obtain ⟨ls, hls, rfl⟩ := read_eq_ok_iff.mp h
  refine ⟨ls, hls, ?_⟩
  rw [lexemes_ofTokens, List.map_append, map_lexeme_locate, List.map_map]
  congr 1
  refine List.map_congr_left fun c _ => ?_
  simp [markToken, markLexeme, Token.lexeme, Token.chars]

/-- **The code of a script is the code of its text.** -/
theorem code_read {tabWidth : Nat} {text : String} {s : Script} (h : read tabWidth text = .ok s) :
    codeLexemes false (splitMark text.toList).2 = (s.code, none) := by
  obtain ⟨ls, hls, hlexemes⟩ := lexemes_of_read h
  have hmark : ((splitMark text.toList).1.map markLexeme).filter (·.kind ≠ .whitespace) = [] := by
    rw [List.filter_eq_nil_iff]
    intro l hl
    obtain ⟨c, _, rfl⟩ := List.mem_map.mp hl
    simp [markLexeme]
  unfold codeLexemes code
  rw [hls, hlexemes, List.filter_append, hmark, List.nil_append]

/-- A text whose literals are all closed can be read, and its code is that of the script. -/
theorem read_of_codeLexemes {text : String} {ls : List Lexeme}
    (h : codeLexemes false (splitMark text.toList).2 = (ls, none)) (tabWidth : Nat) :
    ∃ s, read tabWidth text = .ok s ∧ s.code = ls := by
  have hclosed : SwitchLayout.lexemes false (splitMark text.toList).2
      = ((SwitchLayout.lexemes false (splitMark text.toList).2).1, none) := by
    rw [← (Prod.mk.inj h).2]
  have hread : read tabWidth text = .ok _ := read_eq_ok_iff.mpr ⟨_, hclosed, rfl⟩
  refine ⟨_, hread, ?_⟩
  have hcode := code_read hread
  rw [h] at hcode
  exact (Prod.mk.inj hcode).1.symm

/-! ## §4. Tokens. -/

/-- Every lexeme of a text is read in front of what is left. -/
theorem extent_of_mem {member : Bool} {cs : List Char} {ls : List Lexeme} {o : Option OpenLiteral}
    (h : SwitchLayout.lexemes member cs = (ls, o)) {l : Lexeme} (hl : l ∈ ls) :
    ∃ member c t rest, l.chars = c :: t ∧ extent member c (t ++ rest) = .ok (l.kind, t.length) := by
  induction ls generalizing member cs with
  | nil => cases hl
  | cons n ls ih =>
      obtain ⟨c, t, rest, _, hchars, hextent, hrest⟩ := lexemes_eq_cons h
      rcases List.mem_cons.mp hl with rfl | hl
      · exact ⟨member, c, t, rest, hchars, hextent⟩
      · exact ih hrest hl

/-- Every lexeme of a text has one of the forms. -/
theorem form_of_mem {member : Bool} {cs : List Char} {ls : List Lexeme} {o : Option OpenLiteral}
    (h : SwitchLayout.lexemes member cs = (ls, o)) {l : Lexeme} (hl : l ∈ ls) :
    ∃ member c t, l.chars = c :: t ∧ LexemeForm member c t l.kind := by
  obtain ⟨member, c, t, rest, hchars, hextent⟩ := extent_of_mem h hl
  have hform := (extent_form hextent).2
  rw [List.take_left] at hform
  exact ⟨member, c, t, hchars, hform⟩

/-- Every token is the byte order mark or a lexeme of the text behind it. -/
theorem mem_of_read {tabWidth : Nat} {text : String} {s : Script}
    (h : read tabWidth text = .ok s) {i : Nat} {t : Token} (ht : s.get? i = some t) :
    t.lexeme = markLexeme byteOrderMark
      ∨ ∃ ls cs, SwitchLayout.lexemes false cs = (ls, none) ∧ t.lexeme ∈ ls := by
  obtain ⟨ls, hls, hlexemes⟩ := lexemes_of_read h
  have hmem : t.lexeme ∈ s.lexemes := by
    refine List.mem_of_getElem? (i := i) ?_
    rw [getElem?_lexemes, ht]
    rfl
  rw [hlexemes, List.mem_append] at hmem
  rcases hmem with hmark | hmem
  · left
    obtain ⟨c, hc, heq⟩ := List.mem_map.mp hmark
    rw [← heq, mem_splitMark hc]
  · exact .inr ⟨ls, _, hls, hmem⟩

/-- Every token is the byte order mark or has one of the forms of lexemes. -/
theorem form_of_read {tabWidth : Nat} {text : String} {s : Script}
    (h : read tabWidth text = .ok s) {i : Nat} {t : Token} (ht : s.get? i = some t) :
    t.lexeme = markLexeme byteOrderMark
      ∨ ∃ member c cs, t.chars = c :: cs ∧ LexemeForm member c cs t.kind := by
  rcases mem_of_read h ht with hmark | ⟨ls, cs, hls, hmem⟩
  · exact .inl hmark
  · exact .inr (form_of_mem hls hmem)

/-- No token is empty. -/
theorem chars_ne_nil {tabWidth : Nat} {text : String} {s : Script}
    (h : read tabWidth text = .ok s) {i : Nat} {t : Token} (ht : s.get? i = some t) :
    t.chars ≠ [] := by
  rcases form_of_read h ht with hmark | ⟨_, c, cs, hchars, _⟩
  · have hchars : t.chars = [byteOrderMark] := congrArg Lexeme.chars hmark
    simp [hchars]
  · simp [hchars]

/-- A token with a line break in it is closed. -/
theorem isClosed_of_lineBreak {tabWidth : Nat} {text : String} {s : Script}
    (h : read tabWidth text = .ok s) {i : Nat} {t : Token} (ht : s.get? i = some t)
    (hbreak : ¬ t.chars.all (!isLineBreak ·) = true) : t.lexeme.isClosed = true := by
  rcases form_of_read h ht with hmark | ⟨member, c, cs, hchars, hform⟩
  · rw [hmark]
    rfl
  · rw [hchars] at hbreak
    exact LexemeForm.isClosed_of_lineBreak (l := t.lexeme) hform hchars hbreak

/-- A branch keyword is one of two words. -/
theorem lowerAscii_of_branch {tabWidth : Nat} {text : String} {s : Script}
    (h : read tabWidth text = .ok s) {i : Nat} {t : Token} (ht : s.get? i = some t)
    (hbranch : t.kind.isBranch = true) :
    lowerAscii t.chars = ['c', 'a', 's', 'e']
      ∨ lowerAscii t.chars = ['d', 'e', 'f', 'a', 'u', 'l', 't'] := by
  rcases form_of_read h ht with hmark | ⟨member, c, cs, hchars, hform⟩
  · have hkind : t.kind = .whitespace := congrArg Lexeme.kind hmark
    rw [hkind] at hbranch
    cases hbranch
  · obtain ⟨_, hkind, _⟩ := hform.of_isBranch hbranch
    rw [hchars]
    rw [hkind] at hbranch
    exact lowerAscii_of_isBranch hbranch

/-! ## §5. Lines. -/

/-- **A token stands where the one in front of it ends.**  Only the byte order mark, which takes
no column, stands where the token behind it does. -/
theorem location_next {tabWidth : Nat} {text : String} {s : Script}
    (h : read tabWidth text = .ok s) {i : Nat} {t t' : Token} (ht : s.get? i = some t)
    (ht' : s.get? (i + 1) = some t') :
    t'.location = t.location.after tabWidth t.chars
      ∨ (i = 0 ∧ t.lexeme = markLexeme byteOrderMark ∧ t'.location = t.location) := by
  obtain ⟨ls, _, rfl⟩ := read_eq_ok_iff.mp h
  rw [get?_ofTokens] at ht ht'
  obtain ⟨a, ha, rfl⟩ := Option.map_eq_some_iff.mp ht
  obtain ⟨a', ha', rfl⟩ := Option.map_eq_some_iff.mp ht'
  show a'.location = a.location.after tabWidth a.chars
    ∨ (i = 0 ∧ a.lexeme = markLexeme byteOrderMark ∧ a'.location = a.location)
  -- two lexemes in a row
  have hnext : ∀ {j : Nat}, (locate tabWidth .origin ls)[j]? = some a →
      (locate tabWidth .origin ls)[j + 1]? = some a' →
      a'.location = a.location.after tabWidth a.chars := by
    intro j hj hj'
    rw [getElem?_locate] at hj hj'
    obtain ⟨l, hl, rfl⟩ := Option.map_eq_some_iff.mp hj
    obtain ⟨l', _, rfl⟩ := Option.map_eq_some_iff.mp hj'
    show locationBehind _ _ _ = (locationBehind _ _ _).after tabWidth (String.ofList _).toList
    rw [List.take_add_one, hl, Option.toList_some, locationBehind_append_singleton,
      String.toList_ofList]
  rcases splitMark_cases text.toList with hmark | hmark
  · rw [hmark] at ha ha'
    exact .inl (hnext ha ha')
  · rw [hmark] at ha ha'
    cases i with
    | zero =>
        -- the mark and the first lexeme both stand at the origin
        right
        obtain rfl : markToken byteOrderMark = a := by simpa using ha
        rw [List.map_cons, List.map_nil, List.cons_append, List.nil_append,
          List.getElem?_cons_succ, getElem?_locate] at ha'
        obtain ⟨l', _, rfl⟩ := Option.map_eq_some_iff.mp ha'
        exact ⟨rfl, by simp [Token.lexeme, Token.chars, markToken, markLexeme], rfl⟩
    | succ j => exact .inl (hnext (by simpa using ha) (by simpa using ha'))

/-- A token stands as many lines below the one in front of it as that one has breaks. -/
theorem line_next {tabWidth : Nat} {text : String} {s : Script} (h : read tabWidth text = .ok s)
    {i : Nat} {t t' : Token} (ht : s.get? i = some t) (ht' : s.get? (i + 1) = some t') :
    t'.line = t.line + lineBreaks t.chars := by
  show t'.location.line = t.location.line + _
  rcases location_next h ht ht' with hnext | ⟨_, hmark, heq⟩
  · rw [hnext, Location.line_after_eq]
  · have hchars : t.chars = [byteOrderMark] := congrArg Lexeme.chars hmark
    rw [heq, hchars]
    rfl

/-- A token without a line break is followed on its own line. -/
theorem lineAt_succ {tabWidth : Nat} {text : String} {s : Script} (h : read tabWidth text = .ok s)
    {i : Nat} {t t' : Token} (ht : s.get? i = some t) (ht' : s.get? (i + 1) = some t')
    (hline : t.chars.all (!isLineBreak ·) = true) : t'.line = t.line := by
  rw [line_next h ht ht', lineBreaks_eq_zero hline, Nat.add_zero]

/-- The row of a line does not start behind the token asked about. -/
theorem rowStart_le (s : Script) (line i : Nat) : s.rowStart line i ≤ i := by
  induction i with
  | zero => exact Nat.le_refl 0
  | succ i ih =>
      unfold rowStart
      split
      · exact Nat.le_succ_of_le ih
      · exact Nat.le_refl _

end Script

end SwitchLayout
