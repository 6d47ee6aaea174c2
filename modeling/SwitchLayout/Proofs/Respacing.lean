/-
  SwitchLayout.Proofs.Respacing
  ─────────────────────────────
  **How much layout stands between two lexemes does not matter.**

  The gaps of a script are its whitespace tokens, the byte order mark apart.  Each may be filled
  with any blanks and line breaks, so a run of blanks may become several lines and several lines
  one blank: the tokens of whitespace come apart or run together, and the code stays.  One thing
  has to be kept: the gap behind a line comment starts with a line break, or the comment would go
  on.

    • `Script.Respaces` — what the gaps may be filled with,
    • `codeLexemes_kept`, `codeLexemes_respaced` — lexemes that keep their text are read again,
      whatever fills the gaps between them,
    • `splitMark_respaced` — a byte order mark stays one, and none comes about,
    • `read_respaced` — so the new text can be read, and its code is the old one.
-/
import SwitchLayout.Proofs.Calming
import SwitchLayout.Proofs.Seams

namespace SwitchLayout

open Text

/-! ## §1. Filling the gaps. -/

/-- The token is whitespace and no byte order mark. -/
def Token.isGap (t : Token) : Bool := t.kind == .whitespace && t.chars != [byteOrderMark]

/-- The text of a token, or what fills the gap it is. -/
def Token.respaced (layout : Nat → String) (t : Token) : List Char :=
  if t.isGap then (layout t.position).toList else t.chars

namespace Script

/-- The text of a script with its gaps filled anew, by their positions. -/
def respaced (s : Script) (layout : Nat → String) : String :=
  String.ofList (s.tokens.toList.map (Token.respaced layout)).flatten

/-- What the gaps of a script may be filled with. -/
structure Respaces (s : Script) (layout : Nat → String) : Prop where
  /-- A gap stays a gap. -/
  nonempty : ∀ i < s.size, (s.tokenAt i).isGap = true → layout i ≠ ""
  /-- It is filled with spaces, tabs, line feeds and carriage returns. -/
  filled : ∀ i < s.size, (s.tokenAt i).isGap = true →
    ∀ c ∈ (layout i).toList, c = ' ' ∨ c = '\t' ∨ c = '\n' ∨ c = '\r'
  /-- Behind a line comment it starts with a line break. -/
  breaks : ∀ i < s.size, (s.tokenAt i).isGap = true → 0 < i →
    (s.tokenAt (i - 1)).lexeme.isLineComment = true →
    (layout i).toList.head? = some '\n' ∨ (layout i).toList.head? = some '\r'

end Script

theorem Token.kind_of_isGap {t : Token} (h : t.isGap = true) : t.kind = .whitespace := by
  unfold Token.isGap at h
  rw [Bool.and_eq_true, beq_iff_eq] at h
  exact h.1

/-- Code keeps its text. -/
theorem Token.respaced_of_code {layout : Nat → String} {t : Token} (h : t.kind ≠ .whitespace) :
    t.respaced layout = t.chars := by
  unfold Token.respaced
  rw [if_neg]
  exact fun hgap => h (Token.kind_of_isGap hgap)

/-! ## §2. Reading the code again. -/

/-- A lexeme of code that keeps its text is read as it was, in front of a text at which it still
ends. -/
theorem codeLexemes_kept {member : Bool} {l : Lexeme} {ls : List Lexeme} {rest : List Char}
    (hread : lexemes member ((l :: ls).flatMap Lexeme.chars) = (l :: ls, none))
    (hcode : l.kind ≠ .whitespace) (hend : EndsAt l.chars rest) :
    codeLexemes member (l.chars ++ rest) =
      (l :: (codeLexemes (l.memberNext member) rest).1,
        (codeLexemes (l.memberNext member) rest).2) := by
  obtain ⟨c, t, hchars, hextent, hform, _⟩ := lexemes_flatMap_cons hread
  have hc : isLayout c = false := Script.isLayout_head hform hcode
  have halone := ((extent_append_iff hc member t _ l.kind).mp hextent).1
  rw [hchars] at hend
  have hnew := (extent_append_iff hc member t rest l.kind).mpr ⟨halone, hend⟩
  have hlexeme : l = ⟨l.kind, c :: t⟩ := by rw [← hchars]
  rw [hchars, List.cons_append, codeLexemes_cons hnew hcode, List.take_left, List.drop_left,
    ← hlexeme]

/-- **Code that keeps its text is read again.**  The texts `f t` are a new layout in which nothing
goes and code stays as it is. -/
theorem codeLexemes_respaced {f : Token → List Char} {ts : List Token} :
    ∀ {member : Bool} {prev : Option Lexeme},
      lexemes member ((ts.map Token.lexeme).flatMap Lexeme.chars) = (ts.map Token.lexeme, none) →
      Relaid prev (ts.map Token.lexeme) (ts.map f) → (∀ t ∈ ts, f t ≠ []) →
      (∀ t ∈ ts, t.kind ≠ .whitespace → f t = t.chars) →
      codeLexemes member (ts.map f).flatten
        = ((ts.map Token.lexeme).filter (·.kind ≠ .whitespace), none) := by
  induction ts with
  | nil =>
      intro member prev _ _ _ _
      simp [codeLexemes, lexemes]
  | cons t ts ih =>
      intro member prev hread hrel hne hkept
      rw [List.map_cons] at hread
      obtain ⟨_, _, _, _, _, hrest⟩ := lexemes_flatMap_cons hread
      cases hrel with
      | cons hhead htail =>
          have hlater := ih hrest htail (fun u hu => hne u (List.mem_cons_of_mem _ hu))
            fun u hu => hkept u (List.mem_cons_of_mem _ hu)
          rw [List.map_cons, List.map_cons, List.flatten_cons]
          by_cases hspace : t.lexeme.kind = .whitespace
          · rw [codeLexemes_whitespace hread hspace hhead, hlater,
              List.filter_cons_of_neg (by simpa using hspace)]
          · -- the next text is not empty, so nothing is glued and the lexeme ends where it did
            have hfree : ¬ Glued t.lexeme (ts.map f) := by
              rintro ⟨_, hgone⟩
              rw [List.head?_map, Option.map_eq_some_iff] at hgone
              obtain ⟨u, hu, hgone⟩ := hgone
              exact hne u (List.mem_cons_of_mem _ (List.mem_of_mem_head? hu)) hgone
            have htext : f t = t.lexeme.chars := hkept t List.mem_cons_self hspace
            rw [htext, codeLexemes_kept hread hspace (endsAt_relaid hread hspace htail hfree), hlater,
              List.filter_cons_of_pos (by simpa using hspace)]

namespace Script

variable {tabWidth : Nat} {text : String} {s : Script} {layout : Nat → String}

/-- What fills a gap is layout, and not nothing. -/
theorem Respaces.layout_of_isGap (hlayout : s.Respaces layout) {i : Nat} {t : Token}
    (ht : s.get? i = some t) (hgap : t.isGap = true) :
    (layout i).toList ≠ [] ∧ (layout i).toList.all isLayout = true := by
  have hi : i < s.size := (Array.getElem?_eq_some_iff.mp ht).1
  have htoken : s.tokenAt i = t := by rw [tokenAt, ht]; rfl
  rw [← htoken] at hgap
  refine ⟨fun hnil => hlayout.nonempty i hi hgap (String.toList_eq_nil_iff.mp hnil), ?_⟩
  rw [List.all_eq_true]
  intro c hc
  rcases hlayout.filled i hi hgap c hc with rfl | rfl | rfl | rfl <;> rfl

/-- A token may become what it becomes. -/
theorem Respaces.laidOut (hlayout : s.Respaces layout) {i : Nat} {t : Token}
    (ht : s.get? i = some t) (next : Option Lexeme) :
    LaidOut (s.lexemeBefore? i) t.lexeme next (t.respaced layout) := by
  unfold Token.respaced
  split
  · rename_i hgap
    rw [position_of_get? ht]
    obtain ⟨hne, hall⟩ := hlayout.layout_of_isGap ht hgap
    refine .layout (Token.kind_of_isGap hgap) hall hne ?_
    intro p hp hcomment d hd
    have hi : i < s.size := (Array.getElem?_eq_some_iff.mp ht).1
    have htoken : s.tokenAt i = t := by rw [tokenAt, ht]; rfl
    cases i with
    | zero => cases hp
    | succ i =>
        obtain ⟨u, hu, rfl⟩ := Option.map_eq_some_iff.mp hp
        have hbefore : s.tokenAt i = u := by rw [tokenAt, hu]; rfl
        -- the comment in front asks for a line break
        have hbreak := hlayout.breaks (i + 1) hi (by rw [htoken]; exact hgap) (Nat.succ_pos i)
          (by rw [Nat.add_sub_cancel, hbefore]; exact hcomment)
        rcases hbreak with hbreak | hbreak <;>
          · rw [hbreak] at hd
            obtain rfl := Option.some.inj hd
            rfl
  · exact .kept

theorem Respaces.relaid (hlayout : s.Respaces layout) :
    Relaid none s.lexemes (s.tokens.toList.map (Token.respaced layout)) :=
  relaid_of_laidOut fun ht => hlayout.laidOut ht _

/-- No token vanishes. -/
theorem Respaces.respaced_ne_nil (hlayout : s.Respaces layout) (h : read tabWidth text = .ok s) :
    ∀ t ∈ s.tokens.toList, t.respaced layout ≠ [] := by
  intro t ht
  obtain ⟨i, hi⟩ := List.mem_iff_getElem?.mp ht
  rw [Array.getElem?_toList] at hi
  unfold Token.respaced
  split
  · rename_i hgap
    rw [position_of_get? hi]
    exact (hlayout.layout_of_isGap hi hgap).1
  · exact chars_ne_nil h hi

/-! ## §3. The byte order mark. -/

/-- A text without a byte order mark does not get one. -/
theorem Respaces.head_respaced (hlayout : s.Respaces layout) (h : read tabWidth text = .ok s)
    (hmark : (splitMark text.toList).1 = []) :
    (s.respaced layout).toList.head? ≠ some byteOrderMark := by
  have hsource : s.tokens.toList.flatMap Token.chars = text.toList := by
    rw [← source_read h, source, String.toList_ofList]
  rw [respaced, String.toList_ofList]
  cases htokens : s.tokens.toList with
  | nil => simp
  | cons t ts =>
      have ht : s.get? 0 = some t := by
        rw [get?, ← Array.getElem?_toList, htokens]
        rfl
      rw [List.map_cons, List.flatten_cons]
      unfold Token.respaced
      split
      · -- a gap starts with layout, and a mark is none
        rename_i hgap
        rw [position_of_get? ht]
        obtain ⟨hne, hall⟩ := hlayout.layout_of_isGap ht hgap
        obtain ⟨c, w, hcw⟩ := List.exists_cons_of_ne_nil hne
        rw [hcw, List.all_cons, Bool.and_eq_true] at hall
        rw [hcw, List.cons_append, List.head?_cons]
        intro hc
        rw [Option.some.inj hc] at hall
        exact absurd hall.1 (by decide)
      · -- all else starts as the text did
        obtain ⟨c, w, hcw⟩ := List.exists_cons_of_ne_nil (chars_ne_nil h ht)
        rw [htokens, List.flatMap_cons, hcw, List.cons_append] at hsource
        rw [hcw, List.cons_append, List.head?_cons]
        intro hc
        rw [← hsource, Option.some.inj hc, splitMark, if_pos rfl] at hmark
        cases hmark

/-- **A byte order mark stays one, and none comes about.**  The tokens `ts` behind it are read from
the old text, and the new text behind it is theirs. -/
theorem Respaces.splitMark_respaced (hlayout : s.Respaces layout) (h : read tabWidth text = .ok s) :
    ∃ mark ts, s.tokens.toList = mark ++ ts ∧ (∀ t ∈ mark, t.kind = .whitespace)
      ∧ SwitchLayout.lexemes false ((ts.map Token.lexeme).flatMap Lexeme.chars)
          = (ts.map Token.lexeme, none)
      ∧ (∃ prev, Relaid prev (ts.map Token.lexeme) (ts.map (Token.respaced layout)))
      ∧ (splitMark (s.respaced layout).toList).2 = (ts.map (Token.respaced layout)).flatten := by
  obtain ⟨ls, hls, hlexemes⟩ := lexemes_of_read h
  rw [← flatMap_chars_of_lexemes hls] at hls
  have hrel := hlayout.relaid
  rcases splitMark_cases text.toList with hmark | hmark
  · rw [hmark, List.map_nil, List.nil_append] at hlexemes
    rw [← hlexemes] at hls
    refine ⟨[], s.tokens.toList, rfl, by simp, hls, ⟨none, hrel⟩, ?_⟩
    rw [splitMark_of_head? (hlayout.head_respaced h hmark), respaced, String.toList_ofList]
  · rw [hmark, lexemes] at hlexemes
    rw [lexemes] at hrel
    obtain ⟨m, ts, htokens, hm, hts⟩ := List.map_eq_cons_iff.mp hlexemes
    -- the mark is no gap and keeps its text, so the new text starts with it
    have hspace : m.kind = .whitespace := congrArg Lexeme.kind hm
    have hchars : m.respaced layout = [byteOrderMark] := by
      have hchars : m.chars = [byteOrderMark] := congrArg Lexeme.chars hm
      simp [Token.respaced, Token.isGap, hchars]
    rw [htokens, List.map_cons, List.map_cons] at hrel
    cases hrel with
    | cons _ htail =>
        refine ⟨[m], ts, htokens, by simpa using hspace, ?_, ⟨_, htail⟩, ?_⟩
        · rw [hts]
          exact hls
        · rw [respaced, String.toList_ofList, htokens, List.map_cons, List.flatten_cons, hchars]
          rfl

/-! ## §4. Reading the new text. -/

/-- **The amount of layout does not matter.**  Fill each gap of a text that can be read with spaces,
tabs and line breaks, at least one of them, and with a line break first behind a line comment: the
new text can be read, with any tab width, and it has the same code. -/
theorem read_respaced (h : read tabWidth text = .ok s) (hlayout : s.Respaces layout)
    (tabWidth' : Nat) :
    ∃ s', read tabWidth' (s.respaced layout) = .ok s' ∧ s'.code = s.code := by
  obtain ⟨mark, ts, htokens, hmark, hls, ⟨prev, hrel⟩, hsplit⟩ := hlayout.splitMark_respaced h
  have hne : ∀ t ∈ ts, t.respaced layout ≠ [] := fun t ht =>
    hlayout.respaced_ne_nil h t (by rw [htokens]; exact List.mem_append_right _ ht)
  have hcode := codeLexemes_respaced hls hrel hne fun t _ => Token.respaced_of_code
  rw [← hsplit] at hcode
  obtain ⟨s', hread', hcode'⟩ := read_of_codeLexemes hcode tabWidth'
  refine ⟨s', hread', hcode'.trans ?_⟩
  have hnone : (mark.map Token.lexeme).filter (·.kind ≠ .whitespace) = [] := by
    rw [List.filter_eq_nil_iff]
    intro l hl
    obtain ⟨t, ht, rfl⟩ := List.mem_map.mp hl
    have hspace : t.lexeme.kind = .whitespace := hmark t ht
    simp [hspace]
  rw [code, lexemes, htokens, List.map_append, List.filter_append, hnone, List.nil_append]

/-- A byte order mark, a member that is named like a keyword, and a line comment.  One gap becomes
two lines, and the line break behind the comment two line breaks with a blank in between. -/
theorem read_respaced_member :
    let text := "\uFEFF<?php\n$a -> case // one\n: b"
    let s := Script.ofText 4 text
    let layout := fun i => if i = 4 then " \n\t" else if i = 10 then "\r \n" else "\t"
    (Script.read 4 text = .ok s ∧ s.Respaces layout)
      ∧ s.respaced layout = "\uFEFF<?php\t$a \n\t->\tcase\t// one\r \n:\tb"
      ∧ ∃ s', Script.read 8 (s.respaced layout) = .ok s' ∧ s'.code = s.code := by
  intro text s layout
  have hread : Script.read 4 text = .ok s := Script.read_ofText (by decide +kernel)
  have hall : ∀ i < s.size, (layout i).toList.all isLayout = true := by decide +kernel
  have hlayout : s.Respaces layout :=
    ⟨by decide +kernel, fun i hi _ c hc => isLayout_cases (List.all_eq_true.mp (hall i hi) c hc),
      by decide +kernel⟩
  exact ⟨⟨hread, hlayout⟩, by decide +kernel, read_respaced hread hlayout 8⟩

end Script

end SwitchLayout
