/-
  SwitchLayout.Proofs.LetterCase
  ──────────────────────────────
  **Letter case and tab stops take no part in the structure of a script.**

  Two readings go side by side: one of a text, and one of the text with its ASCII letters in lower
  case and with other tab stops.  Nothing that the lexer looks for is a capital, and where it looks
  at letters at all it lowers them first:

    • `extent_lowerAscii` — so a lexeme ends alike in both texts,
    • `lexemes_lowerAscii` — and both have the same lexemes, up to their letters,
    • `lowers_locate` — which stand on the same lines, and with the same tab stops in the same
      columns,
    • `LowersTo.scopeTable_eq` — and between which the same scopes are found.
-/
import SwitchLayout.Proofs.Reading
import SwitchLayout.Proofs.Thinning
import Mathlib

namespace SwitchLayout

open Text

/-! ## §1. Characters. -/

/-- A character keeps its letter case, or it is a capital and becomes a small letter. -/
theorem toLower_cases (c : Char) :
    c.toLower = c ∨ (c.isUpper = true ∧ c.toLower.isLower = true) := by
  by_cases hupper : c.isUpper = true
  · right
    rw [Char.isLower_toLower_eq_isAlpha, Char.isAlpha, hupper]
    exact ⟨rfl, rfl⟩
  · exact .inl (Char.toLower_eq_of_not_isUpper hupper)

/-- What is no letter is met in the lowered text where it is met in the text. -/
theorem toLower_eq_iff {c d : Char} (hd : d.isAlpha = false) : c.toLower = d ↔ c = d := by
  have hcase : d.isUpper = false ∧ d.isLower = false := by
    simpa [Char.isAlpha] using hd
  rcases toLower_cases c with hsame | ⟨hupper, hlower⟩
  · rw [hsame]
  · constructor
    · rintro rfl
      rw [hcase.2] at hlower
      cases hlower
    · rintro rfl
      rw [hcase.1] at hupper
      cases hupper

/-- Letters are no blanks, -/
theorem isBlank_toLower (c : Char) : isBlank c.toLower = isBlank c := by
  unfold isBlank
  rw [Bool.eq_iff_iff]
  simp (disch := decide) only [Bool.or_eq_true, beq_iff_eq, toLower_eq_iff]

/-- and no line breaks. -/
theorem isLineBreak_toLower (c : Char) : isLineBreak c.toLower = isLineBreak c := by
  unfold isLineBreak
  rw [Bool.eq_iff_iff]
  simp (disch := decide) only [Bool.or_eq_true, beq_iff_eq, toLower_eq_iff]

/-- A letter may stand in a word in either case. -/
theorem isWordChar_toLower (c : Char) : isWordChar c.toLower = isWordChar c := by
  rcases toLower_cases c with hsame | ⟨hupper, hlower⟩
  · rw [hsame]
  · have hletter : ∀ {d : Char}, d.isUpper = true ∨ d.isLower = true → isWordChar d = true := by
      rintro d (hd | hd) <;> simp [isWordChar, Char.isAlphanum, Char.isAlpha, hd]
    rw [hletter (.inl hupper), hletter (.inr hlower)]

theorem toLower_byteOrderMark {c : Char} : c.toLower = byteOrderMark ↔ c = byteOrderMark :=
  toLower_eq_iff (by decide)

/-! ## §2. One lexeme. -/

theorem lowerAscii_cons (c : Char) (cs : List Char) :
    lowerAscii (c :: cs) = c.toLower :: lowerAscii cs := rfl

/-- A lowered text starts with a character that is no letter where the text does. -/
theorem head?_lowerAscii {cs : List Char} {d : Char} (hd : d.isAlpha = false) :
    (lowerAscii cs).head? = some d ↔ cs.head? = some d := by
  cases cs with
  | nil => exact Iff.rfl
  | cons c cs => simp [lowerAscii_cons, toLower_eq_iff hd]

theorem tail_lowerAscii (cs : List Char) : (lowerAscii cs).tail = lowerAscii cs.tail := by
  cases cs <;> rfl

theorem take_lowerAscii (n : Nat) (cs : List Char) :
    (lowerAscii cs).take n = lowerAscii (cs.take n) := List.map_take.symm

theorem drop_lowerAscii (n : Nat) (cs : List Char) :
    (lowerAscii cs).drop n = lowerAscii (cs.drop n) := List.map_drop.symm

/-- A text without letters is met in the lowered text where it is met in the text. -/
theorem lowerAscii_eq_iff {cs ds : List Char} (hds : ds.all (!·.isAlpha) = true) :
    lowerAscii cs = ds ↔ cs = ds := by
  induction cs generalizing ds with
  | nil => exact Iff.rfl
  | cons c cs ih =>
      cases ds with
      | nil => simp [lowerAscii]
      | cons d ds =>
          rw [List.all_cons, Bool.and_eq_true, Bool.not_eq_true'] at hds
          rw [lowerAscii_cons, List.cons.injEq, List.cons.injEq, toLower_eq_iff hds.1, ih hds.2]

/-- Runs by what letter case has no part in are as long. -/
theorem runLength_lowerAscii {p : Char → Bool} (hp : ∀ c, p c.toLower = p c) (cs : List Char) :
    runLength p (lowerAscii cs) = runLength p cs := by
  unfold runLength lowerAscii
  rw [List.takeWhile_map, List.length_map]
  exact congrArg (fun q => (cs.takeWhile q).length) (funext hp)

/-- A string ends at the same quote. -/
theorem quoteEnd?_lowerAscii {quote : Char} (hquote : quote.isAlpha = false) (cs : List Char) :
    quoteEnd? quote (lowerAscii cs) = quoteEnd? quote cs := by
  fun_induction quoteEnd? quote cs with
  | case1 => rfl
  | case2 => rfl
  | case3 d cs ih =>
      have hback : Char.toLower '\\' = '\\' := by decide
      rw [lowerAscii_cons, lowerAscii_cons, hback, quoteEnd?, if_pos rfl, ih]
  | case4 cs hback =>
      have hlower : quote.toLower = quote := (toLower_eq_iff hquote).mpr rfl
      rw [lowerAscii_cons, hlower, quoteEnd?_cons _ hback, if_pos rfl]
  | case5 c cs hback hc ih =>
      rw [lowerAscii_cons, quoteEnd?_cons, if_neg, ih]
      · rwa [toLower_eq_iff hquote]
      · rwa [Ne, toLower_eq_iff (by decide)]

/-- A block comment ends at the same pair. -/
theorem commentEnd?_lowerAscii (cs : List Char) :
    commentEnd? (lowerAscii cs) = commentEnd? cs := by
  induction cs with
  | nil => rfl
  | cons c cs ih =>
      rw [lowerAscii_cons, commentEnd?, commentEnd?, ih]
      simp (disch := decide) only [toLower_eq_iff, head?_lowerAscii]

/-- A character that no word holds is no letter, and lowering keeps it. -/
theorem toLower_of_not_wordChar {c : Char} (hc : isWordChar c = false) : c.toLower = c := by
  rcases toLower_cases c with hsame | ⟨hupper, _⟩
  · exact hsame
  · simp [isWordChar, Char.isAlphanum, Char.isAlpha, hupper] at hc

theorem isAlpha_of_isQuote {c : Char} (hc : isQuote c = true) : c.isAlpha = false := by
  rcases isQuote_cases hc with rfl | rfl | rfl <;> decide

/-- A mark, an operator, a comment or a string ends alike in the lowered text. -/
theorem extent_lowerAscii_code {c : Char} (hlayout : isLayout c = false)
    (hword : isWordChar c = false) (member : Bool) (cs : List Char) :
    extent member c (lowerAscii cs) = extent member c cs := by
  have hbreak : runLength (!isLineBreak ·) (lowerAscii cs) = runLength (!isLineBreak ·) cs :=
    runLength_lowerAscii (fun d => congrArg (!·) (isLineBreak_toLower d)) cs
  by_cases h1 : c = '#'
  · rw [h1, extent_hash, extent_hash, hbreak]
  by_cases h2 : c = '/'
  · rw [h2, extent_slash, extent_slash, hbreak, tail_lowerAscii, commentEnd?_lowerAscii]
    simp (disch := decide) only [head?_lowerAscii]
  by_cases h3 : c = ':'
  · rw [h3, extent_colon, extent_colon]
    simp (disch := decide) only [head?_lowerAscii]
  by_cases h4 : c = '?'
  · rw [h4, extent_question, extent_question, take_lowerAscii]
    simp (disch := decide) only [head?_lowerAscii, lowerAscii_eq_iff]
  by_cases h5 : c = '<'
  · subst h5
    by_cases htag : cs.head? = some '?'
    · obtain ⟨rest, rfl⟩ := List.head?_eq_some_iff.mp htag
      show extent member '<' ('?' :: lowerAscii rest) = extent member '<' ('?' :: rest)
      rw [extent_tag, extent_tag, take_lowerAscii, lowerAscii_lowerAscii]
      simp (disch := decide) only [head?_lowerAscii]
    · rw [extent_less member htag, extent_less member]
      rwa [Ne, head?_lowerAscii (by decide)]
  by_cases h6 : c = '-' ∨ c = '='
  · rw [extent_arrow h6, extent_arrow h6]
    simp (disch := decide) only [head?_lowerAscii]
  by_cases h7 : isQuote c = true
  · rw [extent_quote h7, extent_quote h7, quoteEnd?_lowerAscii (isAlpha_of_isQuote h7)]
  · rw [not_or] at h6
    obtain ⟨kind, _, hlone⟩ := extent_lone hlayout (by simpa using h7) hword
      ⟨h1, h2, h3, h4, h5, h6.1, h6.2⟩ member
    rw [hlone, hlone]

/-- **A lexeme starts and ends alike in the lowered text.** -/
theorem extent_lowerAscii (member : Bool) (c : Char) (cs : List Char) :
    extent member c.toLower (lowerAscii cs) = extent member c cs := by
  by_cases hword : isWordChar c = true
  · have hrun := runLength_lowerAscii isWordChar_toLower cs
    have hkind := wordKind_lowerAscii (c :: cs.take (runLength isWordChar cs))
    rw [lowerAscii_cons] at hkind
    rw [extent_word (by rwa [isWordChar_toLower]), extent_word hword, hrun, take_lowerAscii, hkind]
  · rw [toLower_of_not_wordChar (by simpa using hword)]
    by_cases hlayout : isLayout c = true
    · rcases isLayout_cases hlayout with rfl | rfl | rfl | rfl
      · rw [extent_blank rfl, extent_blank rfl, runLength_lowerAscii isBlank_toLower]
      · rw [extent_blank rfl, extent_blank rfl, runLength_lowerAscii isBlank_toLower]
      · rw [extent_newline, extent_newline]
      · rw [extent_return, extent_return]
        simp (disch := decide) only [head?_lowerAscii]
    · exact extent_lowerAscii_code (by simpa using hlayout) (by simpa using hword) member cs

/-! ## §3. All lexemes. -/

/-- The lexeme with its text in lower case. -/
def Lexeme.lowered (l : Lexeme) : Lexeme := ⟨l.kind, lowerAscii l.chars⟩

/-- Operators have no letters, and so name members in either case. -/
theorem Lexeme.memberNext_lowered (member : Bool) (l : Lexeme) :
    l.lowered.memberNext member = l.memberNext member := by
  unfold memberNext lowered isMemberAccess
  rw [Bool.eq_iff_iff]
  simp (disch := decide) only [lowerAscii_eq_iff, beq_eq_decide]

/-- **The lowered text has the same lexemes, in lower case.**  Where one text leaves a literal
open, the other leaves open the same. -/
theorem lexemes_lowerAscii (member : Bool) (cs : List Char) :
    lexemes member (lowerAscii cs)
      = ((lexemes member cs).1.map Lexeme.lowered, (lexemes member cs).2) := by
  fun_induction lexemes member cs with
  | case1 => rw [lowerAscii, List.map_nil, lexemes]; rfl
  | case2 member c cs literal hread =>
      rw [lowerAscii_cons, lexemes, extent_lowerAscii, hread]
      rfl
  | case3 member c cs kind extra hread lexeme more ih =>
      rw [lowerAscii_cons, lexemes, extent_lowerAscii, hread]
      dsimp only
      have hlexeme : (⟨kind, c.toLower :: (lowerAscii cs).take extra⟩ : Lexeme)
          = lexeme.lowered := by
        rw [take_lowerAscii]
        rfl
      rw [hlexeme, Lexeme.memberNext_lowered, drop_lowerAscii, ih]
      rfl

/-! ## §4. Locations. -/

/-- A letter takes a column in either case. -/
theorem Location.step_toLower (width : Nat) (l : Location) (c : Char) (cs : List Char) :
    l.step width c.toLower (lowerAscii cs).head? = l.step width c cs.head? := by
  unfold Location.step
  simp (disch := decide) only [toLower_eq_iff, ne_eq, head?_lowerAscii]

/-- The lowered text leads to the same place. -/
theorem Location.after_lowerAscii (width : Nat) (l : Location) (cs : List Char) :
    l.after width (lowerAscii cs) = l.after width cs := by
  induction cs generalizing l with
  | nil => rfl
  | cons c cs ih => rw [lowerAscii_cons, after_cons, after_cons, step_toLower, ih]

/-- The text with its ASCII letters in lower case. -/
def loweredText (text : String) : String := String.ofList (lowerAscii text.toList)

/-- The second location is on the line of the first and, if the tab stops are the same, it is the
first. -/
def SameLine (width width' : Nat) (l l' : Location) : Prop :=
  l'.line = l.line ∧ (width = width' → l' = l)

/-- The second token is the first, with its text in lower case and with other tab stops in front
of it. -/
structure Lowers (width width' : Nat) (t t' : Token) : Prop where
  kind : t'.kind = t.kind
  text : t'.text = loweredText t.text
  location : SameLine width width' t.location t'.location

/-- Texts that differ in letter case go over as many lines, whatever the tab stops. -/
theorem SameLine.after {width width' : Nat} {l l' : Location} (h : SameLine width width' l l')
    (cs : List Char) :
    SameLine width width' (l.after width cs) (l'.after width' (lowerAscii cs)) := by
  rw [Location.after_lowerAscii]
  refine ⟨?_, fun hwidth => ?_⟩
  · rw [Location.line_after_eq, Location.line_after_eq, h.1]
  · rw [h.2 hwidth, hwidth]

/-- Tokens are located on the same lines, -/
theorem lowers_locate {width width' : Nat} {l l' : Location} (h : SameLine width width' l l')
    (ls : List Lexeme) :
    List.Forall₂ (Lowers width width') (locate width l ls)
      (locate width' l' (ls.map Lexeme.lowered)) := by
  induction ls generalizing l l' with
  | nil => exact .nil
  | cons lexeme ls ih =>
      refine .cons ⟨rfl, ?_, h⟩ (ih (h.after lexeme.chars))
      show String.ofList (lowerAscii lexeme.chars) = loweredText (String.ofList lexeme.chars)
      rw [loweredText, String.toList_ofList]

/-- and leave off on the same one. -/
theorem sameLine_locationBehind {width width' : Nat} {l l' : Location}
    (h : SameLine width width' l l') (ls : List Lexeme) :
    SameLine width width' (locationBehind width l ls)
      (locationBehind width' l' (ls.map Lexeme.lowered)) := by
  induction ls generalizing l l' with
  | nil => exact h
  | cons lexeme ls ih => exact ih (h.after lexeme.chars)

/-! ## §5. Scripts. -/

namespace Script

/-- The byte order mark is no letter. -/
theorem splitMark_lowerAscii (cs : List Char) :
    splitMark (lowerAscii cs) = ((splitMark cs).1, lowerAscii (splitMark cs).2) := by
  cases cs with
  | nil => rfl
  | cons c cs =>
      rw [lowerAscii_cons, splitMark, splitMark]
      by_cases hmark : c = byteOrderMark
      · rw [if_pos (toLower_byteOrderMark.mpr hmark), if_pos hmark,
          toLower_byteOrderMark.mpr hmark, hmark]
      · rw [if_neg (fun h => hmark (toLower_byteOrderMark.mp h)), if_neg hmark]
        rfl

theorem lowers_markToken {width width' : Nat} (cs : List Char) :
    List.Forall₂ (Lowers width width') ((splitMark cs).1.map markToken)
      ((splitMark cs).1.map markToken) := by
  rcases splitMark_cases cs with hmark | hmark
  · rw [hmark]
    exact .nil
  · rw [hmark]
    refine .cons ⟨rfl, ?_, rfl, fun _ => rfl⟩ .nil
    show String.singleton byteOrderMark = loweredText (String.singleton byteOrderMark)
    decide

/-- The second script has the tokens of the first, in lower case. -/
structure LowersTo (width width' : Nat) (s s' : Script) : Prop where
  size : s'.size = s.size
  token : ∀ i < s.size, Lowers width width' (s.tokenAt i) (s'.tokenAt i)

theorem lowersTo_ofTokens {width width' : Nat} {ts ts' : List Token}
    (h : List.Forall₂ (Lowers width width') ts ts') :
    LowersTo width width' (ofTokens ts) (ofTokens ts') := by
  have hlength : ts'.length = ts.length := h.length_eq.symm
  refine ⟨by rw [size_ofTokens, size_ofTokens, hlength], fun i hi => ?_⟩
  rw [size_ofTokens] at hi
  obtain ⟨hkind, htext, hlocation⟩ := h.get hi (by omega)
  unfold tokenAt
  rw [get?_ofTokens, get?_ofTokens, List.getElem?_eq_getElem hi,
    List.getElem?_eq_getElem (by omega)]
  exact ⟨hkind, htext, hlocation⟩

/-- Letter case takes no part in the scopes of a script. -/
theorem LowersTo.thins {width width' : Nat} {s s' : Script} (h : LowersTo width width' s s') :
    Thins s s' id where
  increasing := id
  behind := h.size.symm
  kind := fun hi => (h.token _ hi).kind
  form := by
    intro i hi _
    have hchars : (s'.tokenAt i).chars = lowerAscii (s.tokenAt i).chars := by
      unfold Token.chars
      rw [(h.token i hi).text, loweredText, String.toList_ofList]
    unfold Token.bodyForm
    rw [id, hchars, lowerAscii_lowerAscii, (h.token i hi).kind]
  assignment := by
    intro i hi _
    rw [id, (h.token i hi).text, loweredText, ← String.toList_inj, String.toList_ofList,
      ← String.toList_inj]
    exact lowerAscii_eq_iff (by decide)
  rest := fun {k} hk hne => absurd rfl (hne k (h.size ▸ hk))

/-- **The scopes are the same**, for they go by kinds. -/
theorem LowersTo.scopeTable_eq {width width' : Nat} {s s' : Script}
    (h : LowersTo width width' s s') : s'.scopeTable = s.scopeTable := by
  unfold scopeTable
  rw [h.thins.detectedScopes_place]
  exact congrArg _ (List.map_id _)

/-- **Letter case and tab stops take no part in the structure of a script.**  A text and the text in
lower case, read with any two distances of tab stops, can both be read or both not.  If they can,
the two scripts have as many tokens, of the same kinds, on the same lines and with the texts of
the first in lower case, and they have the same scope table; with the same tab stops the columns
are the same too.  If they cannot, the same literal stays open on the same line, and with the same
tab stops in the same place. -/
theorem read_loweredText (width width' : Nat) (text : String) :
    (∃ s s', read width text = .ok s ∧ read width' (loweredText text) = .ok s'
        ∧ s'.size = s.size
        ∧ (∀ i < s.size, s'.kindAt i = s.kindAt i ∧ s'.lineAt i = s.lineAt i
            ∧ (s'.tokenAt i).text = loweredText (s.tokenAt i).text
            ∧ (width = width' → s'.columnAt i = s.columnAt i))
        ∧ s'.scopeTable = s.scopeTable)
      ∨ ∃ e e', read width text = .error e ∧ read width' (loweredText text) = .error e'
          ∧ e'.literal = e.literal ∧ e'.location.line = e.location.line
          ∧ (width = width' → e' = e) := by
  have horigin : SameLine width width' .origin .origin := ⟨rfl, fun _ => rfl⟩
  unfold read
  dsimp only
  rw [loweredText, String.toList_ofList, splitMark_lowerAscii, lexemes_lowerAscii]
  cases SwitchLayout.lexemes false (splitMark text.toList).2 with
  | mk ls literal? =>
      cases literal? with
      | none =>
          have hscripts := lowersTo_ofTokens (List.rel_append (lowers_markToken text.toList)
            (lowers_locate horigin ls))
          refine .inl ⟨_, _, rfl, rfl, hscripts.size, fun i hi => ?_, hscripts.scopeTable_eq⟩
          obtain ⟨hkind, htext, hline, hcolumn⟩ := hscripts.token i hi
          exact ⟨hkind, hline, htext, fun hwidth => congrArg Location.column (hcolumn hwidth)⟩
      | some literal =>
          have hbehind := sameLine_locationBehind horigin ls
          refine .inr ⟨_, _, rfl, rfl, rfl, hbehind.1, fun hwidth => ?_⟩
          exact congrArg (LexError.mk literal) (hbehind.2 hwidth)

end Script

end SwitchLayout
