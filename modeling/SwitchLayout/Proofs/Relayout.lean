/-
  SwitchLayout.Proofs.Relayout
  ────────────────────────────
  **Changing the layout of a text and reading it again.**

  `Relaid` says which changes of layout are looked at: whitespace may become other whitespace,
  it may go where a colon or the end of a closed literal makes it superfluous, blanks may come
  in front of code, and a branch keyword may change to lower case.  What the lexer makes of the
  new text is settled by one walk from left to right:

    • `endsAt_relaid` — a lexeme still ends where it ended, unless the change has taken away
      all that stood between a line comment or a colon and the colon behind it (`Glued`),
    • `codeLexemes_relaid` — where nothing is glued, the code of the text stays what it was,
    • `codeLexemes_glued` — where something is glued, the first lexeme that is differs from
      the old one by being longer, and everything in front of it is as long as it was.
-/
import SwitchLayout.Proofs.Lexing
import Mathlib.Data.List.Forall2

namespace SwitchLayout

open Text

/-! ## §1. Letter case. -/

theorem toLower_toLower (c : Char) : c.toLower.toLower = c.toLower := by
  unfold Char.toLower
  grind

/-- Lowering twice is lowering once. -/
theorem lowerAscii_lowerAscii (cs : List Char) : lowerAscii (lowerAscii cs) = lowerAscii cs := by
  unfold lowerAscii
  rw [List.map_map]
  exact List.map_congr_left fun c _ => toLower_toLower c

/-- The letter case of a word does not bear on its kind. -/
theorem wordKind_lowerAscii (w : List Char) : wordKind (lowerAscii w) = wordKind w := by
  unfold wordKind
  rw [lowerAscii_lowerAscii]

theorem isWordChar_of_toLower {c : Char} (h : c.toLower.isLower = true) : isWordChar c = true := by
  have hletter : c.isUpper = true ∨ c.isLower = true := by
    by_cases hupper : c.val ≥ 'A'.val ∧ c.val ≤ 'Z'.val
    · exact .inl (decide_eq_true hupper)
    · right
      unfold Char.toLower at h
      rw [dif_neg hupper] at h
      exact h
  unfold isWordChar Char.isAlphanum Char.isAlpha
  rcases hletter with hletter | hletter <;> simp [hletter]

/-! ## §2. Kinds. -/

/-- The kinds that a word can have. -/
def TokenKind.isWord : TokenKind → Bool
  | .switchKw | .caseKw | .defaultKw | .breakKw | .returnKw | .continueKw | .throwKw | .exitKw
  | .scopeKw | .word => true
  | _ => false

/-- The kind of a word is that of a keyword of the list, or a plain one. -/
theorem wordKind_cases (w : List Char) :
    (String.ofList (lowerAscii w), wordKind w) ∈ branchingKeywords
      ∨ wordKind w = .scopeKw ∨ wordKind w = .word := by
  unfold wordKind
  dsimp only
  cases hlookup : branchingKeywords.lookup (String.ofList (lowerAscii w)) with
  | some kind =>
      obtain ⟨before, behind, hsplit, _⟩ := List.lookup_eq_some_iff.mp hlookup
      left
      rw [hsplit]
      simp
  | none =>
      right
      by_cases hbody : bodyKeywords.contains (String.ofList (lowerAscii w)) = true
      · left
        simp only [hbody, if_true]
      · right
        simp only [hbody, if_false, Bool.false_eq_true]

/-- A word with a character that is no letter is no keyword. -/
theorem wordKind_of_nonletter {w : List Char} {c : Char} (hc : c ∈ w)
    (hletter : c.toLower.isLower = false) : wordKind w = .word := by
  have hletters : ∀ keyword ∈ branchingKeywords.map Prod.fst ++ bodyKeywords,
      keyword.toList.all Char.isLower = true := by decide
  -- a keyword would hold the character, in lower case
  have hnot : String.ofList (lowerAscii w) ∉ branchingKeywords.map Prod.fst ++ bodyKeywords := by
    intro hmem
    have hall := hletters _ hmem
    rw [String.toList_ofList, List.all_eq_true] at hall
    have hlower := hall c.toLower (List.mem_map_of_mem hc)
    rw [hletter] at hlower
    cases hlower
  rw [List.mem_append] at hnot
  unfold wordKind
  dsimp only
  cases hlookup : branchingKeywords.lookup (String.ofList (lowerAscii w)) with
  | some kind =>
      obtain ⟨before, behind, hsplit, _⟩ := List.lookup_eq_some_iff.mp hlookup
      refine absurd (Or.inl ?_) hnot
      rw [hsplit]
      simp
  | none =>
      have hbody : bodyKeywords.contains (String.ofList (lowerAscii w)) = false := by
        rw [Bool.eq_false_iff]
        intro h
        exact hnot (Or.inr (List.contains_iff_mem.mp h))
      simp only [hbody, if_false, Bool.false_eq_true]

theorem isWord_wordKind (w : List Char) : (wordKind w).isWord = true := by
  have hlist : ∀ p ∈ branchingKeywords, p.2.isWord = true := by decide
  rcases wordKind_cases w with hmem | hkind | hkind
  · exact hlist _ hmem
  · rw [hkind]
    rfl
  · rw [hkind]
    rfl

theorem isWord_of_member (member : Bool) (w : List Char) :
    (if member = true then TokenKind.word else wordKind w).isWord = true := by
  cases member with
  | true => rfl
  | false => exact isWord_wordKind w

theorem ne_of_isWord {kind kind' : TokenKind} (h : kind.isWord = true)
    (h' : kind'.isWord = false) : kind ≠ kind' := by
  rintro rfl
  rw [h] at h'
  cases h'

/-- The two branch keywords, as they are written in lower case. -/
theorem lowerAscii_of_isBranch {w : List Char} (h : (wordKind w).isBranch = true) :
    lowerAscii w = ['c', 'a', 's', 'e'] ∨ lowerAscii w = ['d', 'e', 'f', 'a', 'u', 'l', 't'] := by
  have hlist : ∀ p ∈ branchingKeywords, p.2.isBranch = true → p.1 = "case" ∨ p.1 = "default" := by
    decide
  rcases wordKind_cases w with hmem | hkind | hkind
  · have hword : String.ofList (lowerAscii w) = "case" ∨ String.ofList (lowerAscii w) = "default" :=
      hlist _ hmem h
    rcases hword with hword | hword
    · left
      rw [← String.toList_ofList (l := lowerAscii w), hword]
      rfl
    · right
      rw [← String.toList_ofList (l := lowerAscii w), hword]
      rfl
  · rw [hkind] at h
    cases h
  · rw [hkind] at h
    cases h

/-- A branch keyword in lower case starts with one of two letters. -/
theorem exists_branch_letter {kind : TokenKind} {w : List Char} (hkind : kind = wordKind w)
    (hbranch : kind.isBranch = true) :
    ∃ e t, lowerAscii w = e :: t ∧ (e = 'c' ∨ e = 'd') := by
  rw [hkind] at hbranch
  rcases lowerAscii_of_isBranch hbranch with h | h
  · exact ⟨'c', ['a', 's', 'e'], h, .inl rfl⟩
  · exact ⟨'d', ['e', 'f', 'a', 'u', 'l', 't'], h, .inr rfl⟩

/-! ## §3. Lexemes that were read. -/

/-- A comment that runs to the end of the line. -/
def Lexeme.isLineComment (l : Lexeme) : Bool := l.kind == .comment && startsLineComment l.chars

/-- A lexeme whose end does not hang on what comes behind: layout, a string, or a comment with
a closing pair. -/
def Lexeme.isClosed (l : Lexeme) : Bool :=
  l.kind == .whitespace || l.kind == .string || (l.kind == .comment && !l.isLineComment)

/-- The first of the lexemes of a text with the form it has, in front of the text of the
others. -/
theorem lexemes_flatMap_cons {member : Bool} {l : Lexeme} {ls : List Lexeme}
    (h : lexemes member ((l :: ls).flatMap Lexeme.chars) = (l :: ls, none)) :
    ∃ c t, l.chars = c :: t
      ∧ extent member c (t ++ ls.flatMap Lexeme.chars) = .ok (l.kind, t.length)
      ∧ LexemeForm member c t l.kind
      ∧ lexemes (l.memberNext member) (ls.flatMap Lexeme.chars) = (ls, none) := by
  obtain ⟨c, t, rest, htext, hchars, hextent, hrest⟩ := lexemes_eq_cons h
  have hrest_eq : rest = ls.flatMap Lexeme.chars := by
    rw [List.flatMap_cons, hchars, List.cons_append] at htext
    exact (List.append_cancel_left (List.cons.inj htext).2).symm
  subst hrest_eq
  have hform := (extent_form hextent).2
  rw [List.take_left] at hform
  exact ⟨c, t, hchars, hextent, hform, hrest⟩

namespace LexemeForm

variable {member : Bool} {c : Char} {t : List Char} {kind : TokenKind}

/-- Whitespace is what starts with a blank or a line break. -/
theorem whitespace_iff (h : LexemeForm member c t kind) :
    kind = .whitespace ↔ isLayout c = true := by
  cases h with
  | layout h =>
      rw [List.all_cons, Bool.and_eq_true] at h
      simp [h.1]
  | lineComment hstart hline =>
      rcases startsLineComment_cases hstart with rfl | rfl <;>
        simp [isLayout, isBlank, isLineBreak]
  | blockComment => simp [isLayout, isBlank, isLineBreak]
  | string h =>
      rcases isQuote_cases h with rfl | rfl | rfl <;> simp [isLayout, isBlank, isLineBreak]
  | word h =>
      have hc : isLayout c = false := by
        rw [List.all_cons, Bool.and_eq_true] at h
        cases hl : isLayout c with
        | false => rfl
        | true =>
            rcases isLayout_cases hl with rfl | rfl | rfl | rfl <;> exact absurd h.1 (by decide)
      have hword : (if member = true then TokenKind.word else wordKind (c :: t)) ≠ .whitespace :=
        ne_of_isWord (isWord_of_member member _) (by decide)
      simp [hc, hword]
  | mark hkind hchars hword hquote hcolon =>
      rw [List.all_cons, Bool.and_eq_true] at hchars
      have hc : isLayout c = false := by simpa using hchars.1
      have hne : kind ≠ .whitespace := by
        rintro rfl
        cases hkind
      simp [hc, hne]

/-- Whitespace is layout throughout. -/
theorem all_isLayout (h : LexemeForm member c t kind) (hkind : kind = .whitespace) :
    (c :: t).all isLayout = true := by
  cases h with
  | layout h => exact h
  | lineComment => cases hkind
  | blockComment => cases hkind
  | string => cases hkind
  | word h => exact absurd hkind (ne_of_isWord (isWord_of_member member _) (by decide))
  | mark hmark =>
      rw [hkind] at hmark
      cases hmark

/-- A colon is the single character. -/
theorem colon_iff (h : LexemeForm member c t kind) : kind = .colon ↔ c = ':' ∧ t = [] := by
  cases h with
  | layout h =>
      rw [List.all_cons, Bool.and_eq_true] at h
      simp only [reduceCtorEq, false_iff]
      rintro ⟨rfl, _⟩
      exact absurd h.1 (by decide)
  | lineComment hstart hline =>
      simp only [reduceCtorEq, false_iff]
      rintro ⟨rfl, rfl⟩
      exact absurd hstart (by decide)
  | blockComment => simp
  | string h =>
      simp only [reduceCtorEq, false_iff]
      rintro ⟨rfl, _⟩
      exact absurd h (by decide)
  | word h =>
      have hword : (if member = true then TokenKind.word else wordKind (c :: t)) ≠ .colon :=
        ne_of_isWord (isWord_of_member member _) (by decide)
      simp only [hword, false_iff]
      rintro ⟨rfl, rfl⟩
      exact absurd h (by decide)
  | mark hkind hchars hword hquote hcolon => exact hcolon

/-- A branch keyword is a word, and no member name. -/
theorem of_isBranch (h : LexemeForm member c t kind) (hkind : kind.isBranch = true) :
    member = false ∧ kind = wordKind (c :: t) ∧ (c :: t).all isWordChar = true := by
  cases h with
  | word h =>
      cases member with
      | true => cases hkind
      | false => exact ⟨rfl, rfl, h⟩
  | mark hmark hchars hword hquote hcolon =>
      cases kind <;> first | exact absurd hmark (by decide) | exact absurd hkind (by decide)
  | layout h => cases hkind
  | lineComment hstart hline => cases hkind
  | blockComment => cases hkind
  | string h => cases hkind

/-- Only layout, strings and comments with a closing pair have line breaks in them. -/
theorem isClosed_of_lineBreak {l : Lexeme} (h : LexemeForm member c t l.kind)
    (hchars : l.chars = c :: t) (hbreak : ¬ (c :: t).all (!isLineBreak ·) = true) :
    l.isClosed = true := by
  unfold Lexeme.isClosed Lexeme.isLineComment
  rw [hchars]
  generalize l.kind = kind at *
  cases h with
  | layout h => rfl
  | lineComment hstart hline => exact absurd hline hbreak
  | blockComment => rfl
  | string h => rfl
  | word h =>
      refine absurd ?_ hbreak
      rw [List.all_eq_true] at h ⊢
      intro d hd
      have hword := h d hd
      cases hl : isLineBreak d with
      | false => rfl
      | true =>
          have hcases : d = '\n' ∨ d = '\r' := by simpa [isLineBreak] using hl
          rcases hcases with rfl | rfl <;> exact absurd hword (by decide)
  | mark hkind hmark hword hquote hcolon =>
      refine absurd ?_ hbreak
      rw [List.all_eq_true] at hmark ⊢
      intro d hd
      have hlayout := hmark d hd
      unfold isLayout at hlayout
      rw [Bool.not_or, Bool.and_eq_true] at hlayout
      exact hlayout.2

end LexemeForm

/-! ## §4. Where a lexeme ends. -/

/-- Any lexeme ends at the end of the text. -/
theorem endsAt_nil (text : List Char) : EndsAt text [] := by
  cases text with
  | nil => trivial
  | cons c t =>
      unfold EndsAt
      repeat' split
      all_goals simp [lowerAscii]

/-- Layout ends every lexeme but a line comment. -/
theorem endsAt_layout {text : List Char} (htext : startsLineComment text = false) {d : Char}
    (hd : isLayout d = true) (rest : List Char) : EndsAt text (d :: rest) := by
  cases text with
  | nil => trivial
  | cons c t =>
      have hne : d ≠ '/' ∧ d ≠ '*' ∧ d ≠ ':' ∧ d ≠ '?' ∧ d ≠ '-' ∧ d ≠ '>' ∧ d ≠ '='
          ∧ d.toLower ≠ 'p' ∧ isWordChar d = false := by
        rcases isLayout_cases hd with rfl | rfl | rfl | rfl <;> decide
      rw [EndsAt, if_neg (by simp [htext])]
      repeat' split
      all_goals simp_all [lowerAscii]

/-- A colon ends every lexeme but a line comment and another colon. -/
theorem endsAt_colon {text : List Char} (htext : startsLineComment text = false)
    (hcolon : text ≠ [':']) (rest : List Char) : EndsAt text (':' :: rest) := by
  cases text with
  | nil => trivial
  | cons c t =>
      rw [EndsAt, if_neg (by simp [htext])]
      repeat' split
      all_goals simp_all [lowerAscii, isWordChar]

/-- A word ends where no word character follows. -/
theorem endsAt_word_iff {c : Char} (hc : isWordChar c = true) (t rest : List Char) :
    EndsAt (c :: t) rest ↔ ∀ d ∈ rest.head?, isWordChar d = false := by
  have hne : ∀ {d : Char}, isWordChar d = false → c ≠ d := by
    rintro d hd rfl
    rw [hc] at hd
    cases hd
  have hstart : startsLineComment (c :: t) = false := by
    cases h : startsLineComment (c :: t) with
    | false => rfl
    | true => rcases startsLineComment_cases h with rfl | rfl <;> exact absurd hc (by decide)
  simp only [EndsAt, hstart, hne (d := '/') (by decide), hne (d := ':') (by decide),
    hne (d := '?') (by decide), hne (d := '<') (by decide), hne (d := '-') (by decide),
    hne (d := '=') (by decide), hc, or_self, if_false, if_true, Bool.false_eq_true]

/-- Strings and comments with a closing pair end where they do, whatever comes behind. -/
theorem endsAt_closed {member : Bool} {l : Lexeme} {c : Char} {t : List Char}
    (hchars : l.chars = c :: t) (hform : LexemeForm member c t l.kind)
    (hclosed : l.isClosed = true) (hcode : l.kind ≠ .whitespace) (rest : List Char) :
    EndsAt l.chars rest := by
  unfold Lexeme.isClosed Lexeme.isLineComment at hclosed
  rw [hchars] at hclosed ⊢
  generalize l.kind = kind at *
  cases hform with
  | layout h => exact absurd rfl hcode
  | lineComment hstart hline => simp [hstart] at hclosed
  | blockComment => simp [EndsAt, startsLineComment]
  | string h =>
      rcases isQuote_cases h with rfl | rfl | rfl <;>
        simp [EndsAt, startsLineComment, isWordChar]
  | word h =>
      have hword := isWord_of_member member (c :: t)
      have h1 : _ ≠ TokenKind.whitespace := ne_of_isWord hword rfl
      have h2 : _ ≠ TokenKind.string := ne_of_isWord hword rfl
      have h3 : _ ≠ TokenKind.comment := ne_of_isWord hword rfl
      simp [h1, h2, h3] at hclosed
  | mark hkind hmark hword hquote hcolon =>
      cases kind <;> first | exact absurd hkind (by decide) | simp at hclosed

/-- A lexeme that ends at a rest ends also at another one that starts in the same way.  A word
may have changed its letter case at the start of the rest, for no lexeme in front of a word
looks for a `c` or a `d`. -/
theorem endsAt_transfer {text rest rest' : List Char} (h : EndsAt text rest)
    (hhead : ∀ d ∈ rest'.head?, rest.head? = some d
      ∨ (d = 'c' ∨ d = 'd') ∧ ∃ e ∈ rest.head?, isWordChar e = true)
    (harrow : rest'.take 2 = ['-', '>'] → rest.take 2 = ['-', '>'])
    (htag : lowerAscii (rest'.take 3) = ['p', 'h', 'p'] →
      lowerAscii (rest.take 3) = ['p', 'h', 'p']) : EndsAt text rest' := by
  have hsame : ∀ d : Char, d ≠ 'c' → d ≠ 'd' → rest.head? ≠ some d → rest'.head? ≠ some d := by
    intro d hc hd hne heq
    rcases hhead d heq with h | ⟨h | h, _⟩
    · exact hne h
    · exact hc h
    · exact hd h
  cases text with
  | nil => trivial
  | cons c t =>
      rw [EndsAt] at h ⊢
      by_cases h1 : startsLineComment (c :: t) = true
      · -- no line break is a word character, so that the head is the old one
        rw [if_pos h1] at h ⊢
        intro d hd
        rcases hhead d hd with heq | ⟨_, e, he, hword⟩
        · exact h d heq
        · have hbreak := h e he
          have hcases : e = '\n' ∨ e = '\r' := by simpa [isLineBreak] using hbreak
          rcases hcases with rfl | rfl <;> exact absurd hword (by decide)
      rw [if_neg h1] at h ⊢
      by_cases h2 : c = '/'
      · rw [if_pos h2] at h ⊢
        exact fun ht => ⟨hsame _ (by decide) (by decide) (h ht).1,
          hsame _ (by decide) (by decide) (h ht).2⟩
      rw [if_neg h2] at h ⊢
      by_cases h3 : c = ':'
      · rw [if_pos h3] at h ⊢
        exact fun ht => hsame _ (by decide) (by decide) (h ht)
      rw [if_neg h3] at h ⊢
      by_cases h4 : c = '?'
      · rw [if_pos h4] at h ⊢
        exact fun ht => ⟨fun heq => (h ht).1 (harrow heq),
          hsame _ (by decide) (by decide) (h ht).2.1, hsame _ (by decide) (by decide) (h ht).2.2⟩
      rw [if_neg h4] at h ⊢
      by_cases h5 : c = '<'
      · rw [if_pos h5] at h ⊢
        exact ⟨fun ht => hsame _ (by decide) (by decide) (h.1 ht),
          fun ht => ⟨fun heq => (h.2 ht).1 (htag heq),
            hsame _ (by decide) (by decide) (h.2 ht).2⟩⟩
      rw [if_neg h5] at h ⊢
      by_cases h6 : c = '-' ∨ c = '='
      · rw [if_pos h6] at h ⊢
        exact fun ht => hsame _ (by decide) (by decide) (h ht)
      rw [if_neg h6] at h ⊢
      by_cases h7 : isWordChar c = true
      · rw [if_pos h7] at h ⊢
        intro d hd
        rcases hhead d hd with heq | ⟨_, e, he, hword⟩
        · exact h d heq
        · rw [h e he] at hword
          cases hword
      · rw [if_neg h7]
        trivial

/-- Two characters of an arrow that starts with a lexeme belong to it. -/
theorem take_arrow {d : Char} {s r r' : List Char} (hend : d = '-' → EndsAt (d :: s) r')
    (h : ((d :: s) ++ r').take 2 = ['-', '>']) : ((d :: s) ++ r).take 2 = ['-', '>'] := by
  cases s with
  | nil =>
      have hd : d = '-' := by simpa using congrArg List.head? h
      have hnext : r'.head? = some '>' := by
        cases r' with
        | nil => simp at h
        | cons e r' => simpa [hd] using h
      have hstop := hend hd
      rw [hd] at hstop
      simp [EndsAt, startsLineComment, hnext] at hstop
  | cons e s => simpa using h

/-- The letters of a tag that start with a lexeme belong to it. -/
theorem take_tag {d : Char} {s r r' : List Char}
    (hend : isWordChar d = true → ∀ e ∈ r'.head?, isWordChar e = false)
    (h : lowerAscii (((d :: s) ++ r').take 3) = ['p', 'h', 'p']) :
    lowerAscii (((d :: s) ++ r).take 3) = ['p', 'h', 'p'] := by
  have hd : isWordChar d = true := by
    refine isWordChar_of_toLower ?_
    have hlower : d.toLower = 'p' := by simpa [lowerAscii] using congrArg List.head? h
    rw [hlower]
    decide
  -- a letter of the tag behind the lexeme would be one that the lexeme had to take
  have hletter : ∀ e : Char, (e.toLower = 'p' ∨ e.toLower = 'h') → r'.head? ≠ some e := by
    intro e he hhead
    have hword : isWordChar e = true := by
      refine isWordChar_of_toLower ?_
      rcases he with he | he <;> rw [he] <;> decide
    rw [hend hd e hhead] at hword
    cases hword
  cases s with
  | nil =>
      cases r' with
      | nil => simp [lowerAscii] at h
      | cons e r' =>
          have he : e.toLower = 'h' := by
            have h2 := congrArg (·[1]?) h
            simpa [lowerAscii] using h2
          exact absurd rfl (hletter e (.inr he))
  | cons e s =>
      cases s with
      | nil =>
          cases r' with
          | nil => simp [lowerAscii] at h
          | cons f r' =>
              have hf : f.toLower = 'p' := by
                have h3 := congrArg (·[2]?) h
                simpa [lowerAscii] using h3
              exact absurd rfl (hletter f (.inl hf))
      | cons f s => simpa using h

/-! ## §5. New layout. -/

/-- What may become of the lexeme `l`, which stands behind `prev` and in front of `next`. -/
inductive LaidOut (prev : Option Lexeme) (l : Lexeme) (next : Option Lexeme) : List Char → Prop
  /-- It stays. -/
  | kept : LaidOut prev l next l.chars
  /-- Layout becomes other layout; behind a line comment it still starts with a line break. -/
  | layout {u : List Char} (hl : l.kind = .whitespace) (hu : u.all isLayout = true) (hne : u ≠ [])
      (hprev : ∀ p ∈ prev, p.isLineComment = true → ∀ d ∈ u.head?, isLineBreak d = true) :
      LaidOut prev l next u
  /-- Layout goes in front of a colon. -/
  | beforeColon (hl : l.kind = .whitespace) (hnext : next.map Lexeme.kind = some .colon) :
      LaidOut prev l next []
  /-- Layout goes behind a lexeme that ends by itself. -/
  | behindClosed (hl : l.kind = .whitespace) (hprev : ∀ p ∈ prev, p.isClosed = true) :
      LaidOut prev l next []
  /-- Blanks come in front of code, but not between layout and a colon. -/
  | spaced {blanks : List Char} (hl : l.kind ≠ .whitespace) (hblanks : blanks.all isBlank = true)
      (hcolon : l.kind = .colon → ∀ p ∈ prev, p.kind ≠ .whitespace) :
      LaidOut prev l next (blanks ++ l.chars)
  /-- A branch keyword changes to lower case. -/
  | lowered (hl : l.kind.isBranch = true) : LaidOut prev l next (lowerAscii l.chars)

/-- The texts `us` are the lexemes `ls`, which stand behind `prev`, in a new layout. -/
inductive Relaid : Option Lexeme → List Lexeme → List (List Char) → Prop
  | nil {prev : Option Lexeme} : Relaid prev [] []
  | cons {prev : Option Lexeme} {l : Lexeme} {ls : List Lexeme} {u : List Char}
      {us : List (List Char)} (head : LaidOut prev l ls.head? u) (tail : Relaid (some l) ls us) :
      Relaid prev (l :: ls) (u :: us)

/-- All that stood between `l`, a colon or a line comment, and what follows is gone. -/
def Glued (l : Lexeme) (us : List (List Char)) : Prop :=
  (l.kind = .colon ∨ l.isLineComment = true) ∧ us.head? = some []

/-- The new layout glues a colon or a line comment to what follows. -/
def GluesIn : List Lexeme → List (List Char) → Prop
  | l :: ls, _ :: us => Glued l us ∨ GluesIn ls us
  | _, _ => False

/-- A lexeme as it is or, if it is a branch keyword, in lower case. -/
def Lexeme.Same (l l' : Lexeme) : Prop :=
  l'.kind = l.kind ∧ (l'.chars = l.chars ∨ l.kind.isBranch = true ∧ l'.chars = lowerAscii l.chars)

instance (l l' : Lexeme) : Decidable (l.Same l') := inferInstanceAs (Decidable (_ ∧ _))

/-- The two have the same length. -/
theorem Lexeme.Same.length_chars {l l' : Lexeme} (h : l.Same l') :
    l'.chars.length = l.chars.length := by
  rcases h.2 with h | ⟨_, h⟩
  · rw [h]
  · rw [h, length_lowerAscii]

theorem Lexeme.Same.trans {l l' l'' : Lexeme} (h : l.Same l') (h' : l'.Same l'') : l.Same l'' := by
  obtain ⟨hkind, hchars⟩ := h
  obtain ⟨hkind', hchars'⟩ := h'
  refine ⟨hkind'.trans hkind, ?_⟩
  rw [hkind] at hchars'
  rcases hchars with h | ⟨hbranch, h⟩
  · rw [h] at hchars'
    exact hchars'
  · -- lowering once more changes nothing
    rw [h, lowerAscii_lowerAscii] at hchars'
    right
    rcases hchars' with h' | ⟨_, h'⟩ <;> exact ⟨hbranch, h'⟩

/-- A colon or a line comment is code, is no branch keyword, and does not end by itself. -/
theorem kind_facts_of_open {l : Lexeme} (h : l.kind = .colon ∨ l.isLineComment = true) :
    l.kind.isBranch = false ∧ l.kind ≠ .whitespace ∧ l.isClosed = false := by
  rcases h with h | h
  · simp [h, Lexeme.isClosed, TokenKind.isBranch]
  · have hkind : l.kind = .comment := by
      unfold Lexeme.isLineComment at h
      rw [Bool.and_eq_true] at h
      simpa using h.1
    simp [hkind, h, Lexeme.isClosed, TokenKind.isBranch]

namespace LaidOut

variable {prev next : Option Lexeme} {l : Lexeme} {u : List Char}

/-- Whitespace stays layout, whatever becomes of it. -/
theorem all_isLayout (h : LaidOut prev l next u) (hl : l.kind = .whitespace)
    (hchars : l.chars.all isLayout = true) : u.all isLayout = true := by
  cases h with
  | kept => exact hchars
  | layout _ hu => exact hu
  | beforeColon => rfl
  | behindClosed => rfl
  | spaced hcode => exact absurd hl hcode
  | lowered hbranch =>
      rw [hl] at hbranch
      cases hbranch

/-- Code stays what it was behind some blanks. -/
theorem code (h : LaidOut prev l next u) (hl : l.kind ≠ .whitespace) :
    ∃ blanks chars, u = blanks ++ chars ∧ blanks.all isLayout = true
      ∧ l.Same ⟨l.kind, chars⟩
      ∧ (l.kind = .colon → (∀ p ∈ prev, p.kind ≠ .whitespace) ∨ blanks = []) := by
  cases h with
  | kept => exact ⟨[], _, rfl, rfl, ⟨rfl, .inl rfl⟩, fun _ => .inr rfl⟩
  | layout hspace => exact absurd hspace hl
  | beforeColon hspace => exact absurd hspace hl
  | behindClosed hspace => exact absurd hspace hl
  | @spaced blanks hcode hblanks hcolon =>
      refine ⟨blanks, _, rfl, ?_, ⟨rfl, .inl rfl⟩, fun h => .inl (hcolon h)⟩
      rw [List.all_eq_true] at hblanks ⊢
      intro c hc
      simp [isLayout, hblanks c hc]
  | lowered hbranch => exact ⟨[], _, rfl, rfl, ⟨rfl, .inr ⟨hbranch, rfl⟩⟩, fun _ => .inr rfl⟩

/-- What goes behind a lexeme that is not closed goes in front of a colon. -/
theorem of_gone {p : Lexeme} (h : LaidOut (some p) l next []) (hne : l.chars ≠ [])
    (hopen : p.isClosed = false) :
    l.kind = .whitespace ∧ next.map Lexeme.kind = some .colon := by
  generalize hu : ([] : List Char) = u at h
  cases h with
  | kept => exact absurd hu.symm hne
  | layout _ _ hne' => exact absurd hu.symm hne'
  | beforeColon hl hnext => exact ⟨hl, hnext⟩
  | behindClosed _ hprev =>
      rw [hprev p rfl] at hopen
      cases hopen
  | @spaced blanks => exact absurd (List.append_eq_nil_iff.mp hu.symm).2 hne
  | lowered =>
      unfold lowerAscii at hu
      exact absurd (List.map_eq_nil_iff.mp hu.symm) hne

end LaidOut

/-! ## §6. Ends in the new layout. -/

/-- What starts like a line comment runs to the end of the line. -/
theorem extent_lineComment {c : Char} {t : List Char} (hstart : startsLineComment (c :: t) = true)
    (member : Bool) (rest : List Char) :
    extent member c (t ++ rest) = .ok (.comment, runLength (!isLineBreak ·) (t ++ rest)) := by
  rcases startsLineComment_cases hstart with rfl | rfl
  · rw [extent_hash]
  · have hslash : (t ++ rest).head? = some '/' := by
      cases t with
      | nil => simp [startsLineComment] at hstart
      | cons d t => simpa [startsLineComment] using hstart
    rw [extent_slash, if_pos hslash]

/-- What starts like a line comment was read as one. -/
theorem isLineComment_eq {member : Bool} {l : Lexeme} {c : Char} {t rest : List Char}
    (hchars : l.chars = c :: t)
    (hextent : extent member c (t ++ rest) = .ok (l.kind, t.length)) :
    l.isLineComment = startsLineComment l.chars := by
  unfold Lexeme.isLineComment
  cases hstart : startsLineComment l.chars with
  | false => exact Bool.and_false _
  | true =>
      rw [hchars] at hstart
      rw [extent_lineComment hstart] at hextent
      have hkind : l.kind = .comment := (Prod.mk.inj (Except.ok.inj hextent)).1.symm
      simp [hkind]

/-- A colon behind whitespace that goes keeps its place. -/
theorem flatten_colon {member : Bool} {n : Lexeme} {ls : List Lexeme} {us : List (List Char)}
    (hread : lexemes member (ls.flatMap Lexeme.chars) = (ls, none))
    (hspace : n.kind = .whitespace) (hrel : Relaid (some n) ls us)
    (hcolon : ls.head?.map Lexeme.kind = some .colon) :
    ∃ rest, us.flatten = ':' :: rest := by
  cases hrel with
  | nil => cases hcolon
  | @cons _ l ls u us hu hus =>
      have hkind : l.kind = .colon := by simpa using hcolon
      obtain ⟨c, t, hchars, _, hform, _⟩ := lexemes_flatMap_cons hread
      obtain ⟨rfl, rfl⟩ := hform.colon_iff.mp hkind
      obtain ⟨blanks, chars, rfl, _, ⟨_, hsame⟩, hblanks⟩ := hu.code (by rw [hkind]; decide)
      have hnone : blanks = [] := by
        rcases hblanks hkind with hprev | hnone
        · exact absurd hspace (hprev n rfl)
        · exact hnone
      have hkept : chars = [':'] := by
        rcases hsame with hsame | ⟨hbranch, _⟩
        · exact hsame.trans hchars
        · rw [hkind] at hbranch
          cases hbranch
      exact ⟨us.flatten, by rw [hnone, hkept]; rfl⟩

/-- Where a lexeme of code ended in the old layout. -/
theorem endsAt_of_read {member : Bool} {l : Lexeme} {ls : List Lexeme}
    (hread : lexemes member ((l :: ls).flatMap Lexeme.chars) = (l :: ls, none))
    (hcode : l.kind ≠ .whitespace) : EndsAt l.chars (ls.flatMap Lexeme.chars) := by
  obtain ⟨c, t, hchars, hextent, hform, _⟩ := lexemes_flatMap_cons hread
  have hc : isLayout c = false := by
    rw [← Bool.not_eq_true]
    exact fun hl => hcode (hform.whitespace_iff.mpr hl)
  rw [hchars]
  exact ((extent_append_iff hc member t _ l.kind).mp hextent).2

/-- Layout behind a lexeme may change and still end it, unless the lexeme is glued to what
follows. -/
theorem endsAt_before_layout {member : Bool} {l n : Lexeme} {ls : List Lexeme} {v : List Char}
    {vs : List (List Char)}
    (hread : lexemes member ((l :: n :: ls).flatMap Lexeme.chars) = (l :: n :: ls, none))
    (hcode : l.kind ≠ .whitespace) (hspace : n.kind = .whitespace)
    (hv : LaidOut (some l) n ls.head? v) (hvs : Relaid (some n) ls vs)
    (hglued : ¬ Glued l (v :: vs)) : EndsAt l.chars (v :: vs).flatten := by
  obtain ⟨c, t, hchars, hextent, hform, hrest⟩ := lexemes_flatMap_cons hread
  obtain ⟨d, s, hn, _, hnform, hnrest⟩ := lexemes_flatMap_cons hrest
  have hline := isLineComment_eq hchars hextent
  cases hv with
  | kept =>
      rw [List.flatten_cons, hn, List.cons_append]
      by_cases hstart : startsLineComment l.chars = true
      · have hold := endsAt_of_read hread hcode
        rw [List.flatMap_cons, hn, hchars] at hold
        rw [hchars] at hstart ⊢
        rw [EndsAt, if_pos hstart] at hold ⊢
        exact hold
      · exact endsAt_layout (by simpa using hstart) (hnform.whitespace_iff.mp hspace) _
  | layout _ hu hne hprev =>
      obtain ⟨e, w, rfl⟩ := List.exists_cons_of_ne_nil hne
      rw [List.all_cons, Bool.and_eq_true] at hu
      rw [List.flatten_cons, List.cons_append]
      by_cases hstart : startsLineComment l.chars = true
      · have hbreak := hprev l rfl (by rw [hline, hstart]) e rfl
        rw [hchars] at hstart ⊢
        rw [EndsAt, if_pos hstart]
        intro d' hd'
        obtain rfl : e = d' := by simpa using hd'
        exact hbreak
      · exact endsAt_layout (by simpa using hstart) hu.1 _
  | beforeColon _ hnext =>
      have hfree : ¬ (l.kind = .colon ∨ l.isLineComment = true) := fun h => hglued ⟨h, rfl⟩
      rw [not_or] at hfree
      obtain ⟨rest, hcolon⟩ := flatten_colon hnrest hspace hvs hnext
      rw [List.flatten_cons, List.nil_append, hcolon]
      refine endsAt_colon (by rw [← hline]; simpa using hfree.2) ?_ rest
      intro hsingle
      rw [hchars] at hsingle
      exact hfree.1 (hform.colon_iff.mpr (by simpa using hsingle))
  | behindClosed _ hprev => exact endsAt_closed hchars hform (hprev l rfl) hcode _
  | spaced hncode => exact absurd hspace hncode
  | lowered hbranch =>
      rw [hspace] at hbranch
      cases hbranch

/-- What ends in front of a word still does so in front of a branch keyword. -/
theorem endsAt_before_branch {text : List Char} {d e : Char} {s s' : List Char}
    (h : EndsAt text (d :: s)) (hd : isWordChar d = true) (he : e = 'c' ∨ e = 'd')
    (rest : List Char) : EndsAt text (e :: s' ++ rest) := by
  refine endsAt_transfer h ?_ ?_ ?_
  · intro e' he'
    obtain rfl : e = e' := by simpa using he'
    exact .inr ⟨he, d, rfl, hd⟩
  · intro harrow
    have hbad : e = '-' := by simpa using congrArg List.head? harrow
    rcases he with rfl | rfl <;> exact absurd hbad (by decide)
  · intro htag
    have hbad : e.toLower = 'p' := by simpa [lowerAscii] using congrArg List.head? htag
    rcases he with rfl | rfl <;> exact absurd hbad (by decide)

/-- Code behind a lexeme still ends it.  An arrow or a tag that the lexeme looks out for must
not come about further on, which the end of the code behind it sees to. -/
theorem endsAt_before_code {member : Bool} {l n : Lexeme} {ls : List Lexeme} {v : List Char}
    {vs : List (List Char)}
    (hread : lexemes member ((l :: n :: ls).flatMap Lexeme.chars) = (l :: n :: ls, none))
    (hcode : l.kind ≠ .whitespace) (hncode : n.kind ≠ .whitespace)
    (hv : LaidOut (some l) n ls.head? v)
    (hnend : ¬ (n.kind = .colon ∨ n.isLineComment = true) → EndsAt n.chars vs.flatten) :
    EndsAt l.chars (v :: vs).flatten := by
  obtain ⟨c, t, hchars, hextent, hform, hrest⟩ := lexemes_flatMap_cons hread
  obtain ⟨d, s, hn, hnextent, hnform, _⟩ := lexemes_flatMap_cons hrest
  have hold := endsAt_of_read hread hcode
  rw [List.flatMap_cons, hn] at hold
  obtain ⟨blanks, chars, rfl, hblanks, ⟨_, hsame⟩, _⟩ := hv.code hncode
  rw [List.flatten_cons]
  cases blanks with
  | cons e blanks =>
      rw [List.all_cons, Bool.and_eq_true] at hblanks
      refine endsAt_layout ?_ hblanks.1 _
      -- a line comment would be followed by layout
      rw [← Bool.not_eq_true]
      intro hstart
      rw [hchars] at hstart hold
      rw [EndsAt, if_pos hstart] at hold
      have hbreak : isLineBreak d = true := hold d rfl
      exact hncode (hnform.whitespace_iff.mpr (by simp [isLayout, hbreak]))
  | nil =>
      rw [List.nil_append]
      rcases hsame with hkept | ⟨hbranch, hlower⟩
      · -- the code behind is the old one
        have hstop : isWordChar d = true ∨ d = '-' → EndsAt (d :: s) vs.flatten := by
          intro hcases
          rw [← hn]
          refine hnend ?_
          rintro (hkind | hcomment)
          · obtain ⟨rfl, _⟩ := hnform.colon_iff.mp hkind
            rcases hcases with h | h <;> exact absurd h (by decide)
          · rw [isLineComment_eq hn hnextent, hn] at hcomment
            rcases startsLineComment_cases hcomment with rfl | rfl <;>
              rcases hcases with h | h <;> exact absurd h (by decide)
        rw [show chars = d :: s from hkept.trans hn]
        exact endsAt_transfer hold (fun e he => .inl he) (take_arrow fun h => hstop (.inr h))
          (take_tag fun hword => (endsAt_word_iff hword _ _).mp (hstop (.inl hword)))
      · -- the code behind is a branch keyword in lower case
        obtain ⟨_, hkind, hword⟩ := hnform.of_isBranch hbranch
        rw [List.all_cons, Bool.and_eq_true] at hword
        obtain ⟨e, s', hletters, he⟩ := exists_branch_letter hkind hbranch
        rw [show chars = e :: s' from hlower.trans (by rw [hn, hletters])]
        exact endsAt_before_branch hold hword.1 he _

/-- **A lexeme still ends where it ended.**  In the new layout a lexeme of code is cut at the
same place, unless it is glued to what follows. -/
theorem endsAt_relaid {member : Bool} {l : Lexeme} {ls : List Lexeme} {us : List (List Char)}
    (hread : lexemes member ((l :: ls).flatMap Lexeme.chars) = (l :: ls, none))
    (hcode : l.kind ≠ .whitespace) (hrel : Relaid (some l) ls us) (hglued : ¬ Glued l us) :
    EndsAt l.chars us.flatten := by
  induction ls generalizing member l us with
  | nil =>
      cases hrel
      exact endsAt_nil _
  | cons n ls ih =>
      cases hrel with
      | cons hv hvs =>
          by_cases hspace : n.kind = .whitespace
          · exact endsAt_before_layout hread hcode hspace hv hvs hglued
          · refine endsAt_before_code hread hcode hspace hv fun hfree => ?_
            obtain ⟨_, _, _, _, _, hrest⟩ := lexemes_flatMap_cons hread
            exact ih hrest hspace hvs fun h => hfree h.1

/-! ## §7. The code of the new text. -/

/-- A lexeme of code is taken off the front of a text. -/
theorem codeLexemes_cons {member : Bool} {c : Char} {cs : List Char} {kind : TokenKind} {n : Nat}
    (hextent : extent member c cs = .ok (kind, n)) (hcode : kind ≠ .whitespace) :
    codeLexemes member (c :: cs) =
      (⟨kind, c :: cs.take n⟩ ::
          (codeLexemes (Lexeme.memberNext member ⟨kind, c :: cs.take n⟩) (cs.drop n)).1,
        (codeLexemes (Lexeme.memberNext member ⟨kind, c :: cs.take n⟩) (cs.drop n)).2) := by
  unfold codeLexemes
  rw [lexemes, hextent]
  simp only [List.filter_cons]
  rw [if_pos (by simpa using hcode)]

/-- What a lexeme of code may become is read as the same lexeme. -/
theorem extent_same {member : Bool} {l : Lexeme} {c : Char} {t chars rest : List Char}
    (hchars : l.chars = c :: t) (hform : LexemeForm member c t l.kind)
    (hcode : l.kind ≠ .whitespace) (hextent : extent member c t = .ok (l.kind, t.length))
    (hsame : l.Same ⟨l.kind, chars⟩) (hend : EndsAt l.chars rest) :
    ∃ d s, chars = d :: s ∧ extent member d (s ++ rest) = .ok (l.kind, s.length)
      ∧ Lexeme.memberNext member ⟨l.kind, chars⟩ = l.memberNext member := by
  rcases hsame.2 with hkept | ⟨hbranch, hlower⟩
  · have hc : isLayout c = false := by
      rw [← Bool.not_eq_true]
      exact fun hl => hcode (hform.whitespace_iff.mpr hl)
    have hkept : chars = c :: t := hkept.trans hchars
    refine ⟨c, t, hkept, ?_, ?_⟩
    · rw [hchars] at hend
      exact (extent_append_iff hc member t rest l.kind).mpr ⟨hextent, hend⟩
    · rw [hkept, ← hchars]
  · obtain ⟨hmember, hkind, hword⟩ := hform.of_isBranch hbranch
    rw [List.all_cons, Bool.and_eq_true] at hword
    have hlower : chars = lowerAscii (c :: t) := hlower.trans (by rw [hchars])
    have hstop := hend
    rw [hchars, endsAt_word_iff hword.1] at hstop
    -- the two keywords in lower case are words
    have hread : ∃ d s, chars = d :: s ∧ isLayout d = false
        ∧ (isWordChar d = true ∧ runLength isWordChar s = s.length)
        ∧ Lexeme.isMemberAccess ⟨l.kind, chars⟩ = false := by
      rw [hkind] at hbranch
      rcases lowerAscii_of_isBranch hbranch with h | h
      · exact ⟨'c', ['a', 's', 'e'], hlower.trans h, by decide, by decide, by
          rw [hlower.trans h]; rfl⟩
      · exact ⟨'d', ['e', 'f', 'a', 'u', 'l', 't'], hlower.trans h, by decide, by decide, by
          rw [hlower.trans h]; rfl⟩
    obtain ⟨d, s, hds, hd, ⟨hdword, hrun⟩, haccess⟩ := hread
    refine ⟨d, s, hds, ?_, ?_⟩
    · rw [extent_append_iff hd, endsAt_word_iff hdword, extent_word hdword, hmember, hrun,
        List.take_length, ← hds, hlower, wordKind_lowerAscii, ← hkind]
      exact ⟨rfl, hstop⟩
    · have hold : l.isMemberAccess = false := by
        unfold Lexeme.isMemberAccess
        rw [hchars]
        have hne : ∀ {x : Char}, isWordChar x = false → c ≠ x := by
          rintro x hx rfl
          rw [hword.1] at hx
          cases hx
        simp [hne (x := '-') (by decide), hne (x := '?') (by decide), hne (x := ':') (by decide)]
      unfold Lexeme.memberNext
      rw [if_neg hcode, if_neg hcode, haccess, hold]

/-- One lexeme of code and its new layout, in front of a text at which it still ends. -/
theorem codeLexemes_laidOut {member : Bool} {prev : Option Lexeme} {l : Lexeme}
    {ls : List Lexeme} {u rest : List Char}
    (hread : lexemes member ((l :: ls).flatMap Lexeme.chars) = (l :: ls, none))
    (hcode : l.kind ≠ .whitespace) (hu : LaidOut prev l ls.head? u) (hend : EndsAt l.chars rest) :
    ∃ l', l.Same l' ∧ codeLexemes member (u ++ rest) =
      (l' :: (codeLexemes (l.memberNext member) rest).1,
        (codeLexemes (l.memberNext member) rest).2) := by
  obtain ⟨c, t, hchars, hextent, hform, _⟩ := lexemes_flatMap_cons hread
  have hc : isLayout c = false := by
    rw [← Bool.not_eq_true]
    exact fun hl => hcode (hform.whitespace_iff.mpr hl)
  obtain ⟨blanks, chars, rfl, hblanks, hsame, _⟩ := hu.code hcode
  obtain ⟨d, s, hds, hnew, hmember⟩ :=
    extent_same hchars hform hcode ((extent_append_iff hc _ _ _ _).mp hextent).1 hsame hend
  refine ⟨⟨l.kind, chars⟩, hsame, ?_⟩
  rw [List.append_assoc, codeLexemes_layout hblanks, ← hmember, hds, List.cons_append,
    codeLexemes_cons hnew hcode, List.take_left, List.drop_left]

/-- Whitespace and its new layout say nothing about the code. -/
theorem codeLexemes_whitespace {member : Bool} {prev : Option Lexeme} {l : Lexeme}
    {ls : List Lexeme} {u : List Char}
    (hread : lexemes member ((l :: ls).flatMap Lexeme.chars) = (l :: ls, none))
    (hspace : l.kind = .whitespace) (hu : LaidOut prev l ls.head? u) (rest : List Char) :
    codeLexemes member (u ++ rest) = codeLexemes (l.memberNext member) rest := by
  obtain ⟨c, t, hchars, _, hform, _⟩ := lexemes_flatMap_cons hread
  have hlayout : l.chars.all isLayout = true := by
    rw [hchars]
    exact hform.all_isLayout hspace
  have hmember : l.memberNext member = member := by
    unfold Lexeme.memberNext
    rw [if_pos hspace]
  rw [codeLexemes_layout (hu.all_isLayout hspace hlayout), hmember]

/-- **The code stays what it was** where nothing is glued. -/
theorem codeLexemes_relaid {member : Bool} {prev : Option Lexeme} {ls : List Lexeme}
    {us : List (List Char)} (hread : lexemes member (ls.flatMap Lexeme.chars) = (ls, none))
    (hrel : Relaid prev ls us) (hfree : ¬ GluesIn ls us) :
    ∃ ls', codeLexemes member us.flatten = (ls', none)
      ∧ List.Forall₂ Lexeme.Same (ls.filter (·.kind ≠ .whitespace)) ls' := by
  induction hrel generalizing member with
  | nil => exact ⟨[], by simp [codeLexemes, lexemes], .nil⟩
  | @cons prev l ls u us hu hus ih =>
      obtain ⟨_, _, _, _, _, hrest⟩ := lexemes_flatMap_cons hread
      have hsplit : ¬ Glued l us ∧ ¬ GluesIn ls us := not_or.mp hfree
      obtain ⟨ls', hcode', hsame⟩ := ih hrest hsplit.2
      rw [List.flatten_cons]
      by_cases hspace : l.kind = .whitespace
      · refine ⟨ls', ?_, ?_⟩
        · rw [codeLexemes_whitespace hread hspace hu, hcode']
        · rw [List.filter_cons_of_neg (by simpa using hspace)]
          exact hsame
      · have hend := endsAt_relaid hread hspace hus hsplit.1
        obtain ⟨l', hl', hcodes⟩ := codeLexemes_laidOut hread hspace hu hend
        refine ⟨l' :: ls', ?_, ?_⟩
        · rw [hcodes, hcode']
        · rw [List.filter_cons_of_pos (by simpa using hspace)]
          exact .cons hl' hsame

/-- What a lexeme is glued to is a colon. -/
theorem flatten_of_glued {member : Bool} {l : Lexeme} {ls : List Lexeme} {us : List (List Char)}
    (hread : lexemes member (ls.flatMap Lexeme.chars) = (ls, none)) (hus : Relaid (some l) ls us)
    (hglued : Glued l us) : ∃ rest, us.flatten = ':' :: rest := by
  cases hus with
  | nil => cases hglued.2
  | @cons _ n ls v vs hv hvs =>
      obtain ⟨d, s, hn, _, _, hrest⟩ := lexemes_flatMap_cons hread
      obtain rfl : v = [] := by simpa using hglued.2
      obtain ⟨hspace, hnext⟩ := hv.of_gone (by simp [hn]) (kind_facts_of_open hglued.1).2.2
      rw [List.flatten_cons, List.nil_append]
      exact flatten_colon hrest hspace hvs hnext

/-- A line comment runs on over a colon. -/
theorem lt_runLength_colon {t rest : List Char}
    (hline : runLength (!isLineBreak ·) t = t.length) :
    t.length < runLength (!isLineBreak ·) (t ++ ':' :: rest) := by
  unfold runLength at hline ⊢
  rw [List.takeWhile_append, if_pos hline, List.takeWhile_cons_of_pos (by decide)]
  simp

/-- A lexeme that is glued to what follows gets longer. -/
theorem codeLexemes_glued_head {member : Bool} {prev : Option Lexeme} {l : Lexeme}
    {ls : List Lexeme} {u : List Char} {us : List (List Char)}
    (hread : lexemes member ((l :: ls).flatMap Lexeme.chars) = (l :: ls, none))
    (hu : LaidOut prev l ls.head? u) (hus : Relaid (some l) ls us) (hglued : Glued l us) :
    ∃ l' ls', (codeLexemes member (u ++ us.flatten)).1 = l' :: ls'
      ∧ l.chars.length < l'.chars.length := by
  obtain ⟨c, t, hchars, hextent, hform, hrest⟩ := lexemes_flatMap_cons hread
  obtain ⟨hbranch, hcode, _⟩ := kind_facts_of_open hglued.1
  obtain ⟨rest, hcolon⟩ := flatten_of_glued hrest hus hglued
  obtain ⟨blanks, chars, rfl, hblanks, ⟨_, hsame⟩, _⟩ := hu.code hcode
  have hkept : chars = c :: t := by
    rcases hsame with hkept | ⟨h, _⟩
    · exact hkept.trans hchars
    · rw [hbranch] at h
      cases h
  -- in front of the colon the lexeme runs on
  have hlong : ∃ kind n, extent member c (t ++ ':' :: rest) = .ok (kind, n)
      ∧ kind ≠ .whitespace ∧ t.length < n := by
    rcases hglued.1 with h | h
    · obtain ⟨rfl, rfl⟩ := hform.colon_iff.mp h
      exact ⟨.other, 1, by rw [extent_colon]; rfl, by decide, by decide⟩
    · rw [isLineComment_eq hchars hextent, hchars] at h
      rw [extent_lineComment h] at hextent
      have hrun := (Prod.mk.inj (Except.ok.inj hextent)).2
      exact ⟨.comment, _, extent_lineComment h member _, by decide,
        lt_runLength_colon ((runLength_append_iff _ _ _).mp hrun).1⟩
  obtain ⟨kind, n, hnew, hkind, hn⟩ := hlong
  rw [hcolon, List.append_assoc, codeLexemes_layout hblanks, hkept, List.cons_append,
    codeLexemes_cons hnew hkind]
  refine ⟨_, _, rfl, ?_⟩
  have hle := (extent_form hnew).1
  rw [hchars, List.length_cons, List.length_cons, List.length_take]
  omega

/-- **Glueing shows for good.**  Where something is glued, the lengths of the lexemes of code
grow in the dictionary order: up to the first lexeme that is glued they stay, and that one gets
longer. -/
theorem codeLexemes_glued {member : Bool} {prev : Option Lexeme} {ls : List Lexeme}
    {us : List (List Char)} (hread : lexemes member (ls.flatMap Lexeme.chars) = (ls, none))
    (hrel : Relaid prev ls us) (hglues : GluesIn ls us) :
    (ls.filter (·.kind ≠ .whitespace)).map (·.chars.length)
      < (codeLexemes member us.flatten).1.map (·.chars.length) := by
  induction hrel generalizing member with
  | nil => exact hglues.elim
  | @cons prev l ls u us hu hus ih =>
      obtain ⟨_, _, _, _, _, hrest⟩ := lexemes_flatMap_cons hread
      rw [List.flatten_cons]
      by_cases hglued : Glued l us
      · have hcode : l.kind ≠ .whitespace := (kind_facts_of_open hglued.1).2.1
        obtain ⟨l', ls', hcodes, hlonger⟩ := codeLexemes_glued_head hread hu hus hglued
        rw [hcodes, List.filter_cons_of_pos (by simpa using hcode)]
        exact List.cons_lt_cons_iff.mpr (.inl hlonger)
      · have hlater := ih hrest (hglues.resolve_left hglued)
        by_cases hspace : l.kind = .whitespace
        · rw [codeLexemes_whitespace hread hspace hu,
            List.filter_cons_of_neg (by simpa using hspace)]
          exact hlater
        · have hend := endsAt_relaid hread hspace hus hglued
          obtain ⟨l', hl', hcodes⟩ := codeLexemes_laidOut hread hspace hu hend
          rw [hcodes, List.filter_cons_of_pos (by simpa using hspace)]
          exact List.cons_lt_cons_iff.mpr (.inr ⟨hl'.length_chars.symm, hlater⟩)

end SwitchLayout
