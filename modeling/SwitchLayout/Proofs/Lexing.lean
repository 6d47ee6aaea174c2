/-
  SwitchLayout.Proofs.Lexing
  ──────────────────────────
  **Where a lexeme ends.**

  Whether a piece of text is read as one lexeme depends on the piece and on the few characters
  behind it.  `EndsAt` says what those characters may be, and `extent_append_iff` splits the
  two: a piece in front of a rest is read as a lexeme exactly when it is one by itself and it
  ends at that rest.

  With it the lexemes of a text are taken apart from the left (`lexemes_append`,
  `lexemes_eq_cons`), and layout is seen to be transparent: blanks and line breaks in front of
  a text change nothing about the lexemes behind them (`codeLexemes_layout`).
-/
import SwitchLayout.Lexeme

namespace SwitchLayout

open Text

/-! ## §1. The characters behind a lexeme. -/

/-- A blank or a line break. -/
def isLayout (c : Char) : Bool := isBlank c || isLineBreak c

/-- The text starts a comment that runs to the end of the line. -/
def startsLineComment (text : List Char) : Bool :=
  text.head? == some '#' || text.take 2 == ['/', '/']

theorem isLayout_cases {c : Char} (h : isLayout c = true) :
    c = ' ' ∨ c = '\t' ∨ c = '\n' ∨ c = '\r' := by
  simpa [isLayout, isBlank, isLineBreak, or_assoc] using h

theorem isQuote_cases {c : Char} (h : isQuote c = true) :
    c = '\x22' ∨ c = '\x27' ∨ c = '\x60' := by
  simpa [isQuote, or_assoc] using h

theorem startsLineComment_cases {c : Char} {t : List Char}
    (h : startsLineComment (c :: t) = true) : c = '#' ∨ c = '/' := by
  unfold startsLineComment at h
  rw [Bool.or_eq_true, beq_iff_eq, beq_iff_eq] at h
  rcases h with h | h
  · exact .inl (by simpa using h)
  · exact .inr (by simpa using congrArg List.head? h)

/-- The lexeme with this text, read in front of `rest`, goes no further. -/
def EndsAt : List Char → List Char → Prop
  | [], _ => True
  | c :: t, rest =>
    if startsLineComment (c :: t) then ∀ d ∈ rest.head?, isLineBreak d = true
    else if c = '/' then t = [] → rest.head? ≠ some '/' ∧ rest.head? ≠ some '*'
    else if c = ':' then t = [] → rest.head? ≠ some ':'
    else if c = '?' then
      t = [] → rest.take 2 ≠ ['-', '>'] ∧ rest.head? ≠ some '?' ∧ rest.head? ≠ some '>'
    else if c = '<' then
      (t = [] → rest.head? ≠ some '?') ∧
        (t = ['?'] → lowerAscii (rest.take 3) ≠ ['p', 'h', 'p'] ∧ rest.head? ≠ some '=')
    else if c = '-' ∨ c = '=' then t = [] → rest.head? ≠ some '>'
    else if isWordChar c then ∀ d ∈ rest.head?, isWordChar d = false
    else True

/-! ## §2. Runs and literals. -/

/-- A run ends exactly with the piece in front when the piece is all of the run's kind and the
rest does not start with it. -/
theorem runLength_append_iff (p : Char → Bool) (t rest : List Char) :
    runLength p (t ++ rest) = t.length ↔
      runLength p t = t.length ∧ ∀ d ∈ rest.head?, p d = false := by
  induction t with
  | nil =>
      cases rest with
      | nil => simp [runLength]
      | cons d rest =>
          by_cases hd : p d
          · simp [runLength, hd]
          · simp [runLength, hd]
  | cons c t ih =>
      unfold runLength at ih ⊢
      by_cases hc : p c
      · simp only [List.cons_append, List.takeWhile_cons, hc, if_true, List.length_cons,
          Nat.add_right_cancel_iff]
        exact ih
      · simp [hc]

/-- A character that escapes nothing ends a string, or it is one more of it. -/
theorem quoteEnd?_cons {quote c : Char} (cs : List Char) (hc : c ≠ '\\') :
    quoteEnd? quote (c :: cs) = if c = quote then some 1 else (quoteEnd? quote cs).map (· + 1) := by
  rw [quoteEnd?.eq_def]
  simp only [if_neg hc]

/-- The quote that closes a string does not look behind itself. -/
theorem quoteEnd?_append_iff (quote : Char) (t rest : List Char) :
    quoteEnd? quote (t ++ rest) = some t.length ↔ quoteEnd? quote t = some t.length := by
  fun_induction quoteEnd? quote t with
  | case1 =>
      -- a closing quote takes at least one character
      have hpos : ∀ cs : List Char, quoteEnd? quote cs ≠ some 0 := by
        intro cs
        fun_cases quoteEnd? quote cs <;> simp_all
      simpa using hpos rest
  | case2 =>
      have hlong : quoteEnd? quote (['\\'] ++ rest) ≠ some 1 := by
        cases rest with
        | nil => simp [quoteEnd?]
        | cons d rest => simp [quoteEnd?]
      simpa using hlong
  | case3 d t ih =>
      simp only [List.cons_append, quoteEnd?, if_true, List.length_cons]
      simpa using ih
  | case4 t hq =>
      rw [List.cons_append, quoteEnd?_cons _ hq, if_pos rfl]
  | case5 c t hq hc ih =>
      rw [List.cons_append, quoteEnd?_cons _ hq, if_neg hc]
      simpa using ih

/-- The closing pair ends a comment, and any other character is one more of it. -/
theorem commentEnd?_cons_cons (c d : Char) (cs : List Char) :
    commentEnd? (c :: d :: cs)
      = if c = '*' ∧ d = '/' then some 2 else (commentEnd? (d :: cs)).map (· + 1) := by
  rw [commentEnd?]
  simp only [List.head?_cons, Option.some.injEq]

/-- The pair that closes a comment does not look behind itself. -/
theorem commentEnd?_append_iff (t rest : List Char) :
    commentEnd? (t ++ rest) = some t.length ↔ commentEnd? t = some t.length := by
  induction t with
  | nil =>
      cases rest with
      | nil => simp [commentEnd?]
      | cons d rest =>
          simp only [List.nil_append, commentEnd?, List.length_nil, reduceCtorEq, iff_false]
          split <;> simp
  | cons c t ih =>
      cases t with
      | nil =>
          -- a star at the very end closes nothing yet
          have hshort : commentEnd? [c] = none := by simp [commentEnd?]
          rw [hshort]
          cases rest with
          | nil => simp [commentEnd?]
          | cons d rest =>
              rw [List.cons_append, List.nil_append, commentEnd?_cons_cons]
              by_cases hclose : c = '*' ∧ d = '/'
              · rw [if_pos hclose]
                simp
              · rw [if_neg hclose]
                simpa [commentEnd?] using ih
      | cons d t =>
          rw [List.cons_append, List.cons_append, commentEnd?_cons_cons, commentEnd?_cons_cons]
          by_cases hclose : c = '*' ∧ d = '/'
          · rw [if_pos hclose, if_pos hclose]
          · rw [if_neg hclose, if_neg hclose]
            simpa using ih

/-! ## §3. One lexeme. -/

/-- Blanks are read as far as they go. -/
theorem extent_blank {c : Char} (hc : isBlank c = true) (member : Bool) (cs : List Char) :
    extent member c cs = .ok (.whitespace, runLength isBlank cs) := by
  have hcases : c = ' ' ∨ c = '\t' := by simpa [isBlank] using hc
  rcases hcases with rfl | rfl
  · rfl
  · rfl

/-- A carriage return takes the line feed behind it along. -/
theorem extent_return (member : Bool) (cs : List Char) :
    extent member '\r' cs = .ok (.whitespace, if cs.head? = some '\n' then 1 else 0) := by
  simp [extent]

theorem extent_newline (member : Bool) (cs : List Char) :
    extent member '\n' cs = .ok (.whitespace, 0) := by
  simp [extent]

/-- Behind a slash a comment may start, and its second character says of which form. -/
theorem extent_slash (member : Bool) (cs : List Char) :
    extent member '/' cs =
      if cs.head? = some '/' then .ok (.comment, runLength (!isLineBreak ·) cs)
      else if cs.head? = some '*' then
        match commentEnd? cs.tail with
        | some n => .ok (.comment, n + 1)
        | none => .error .comment
      else .ok (.other, 0) := by
  unfold extent
  rw [if_neg (by decide), if_neg (by decide), if_neg (by decide)]
  by_cases hslash : cs.head? = some '/'
  · rw [if_pos (.inr ⟨rfl, hslash⟩), if_pos hslash]
  · rw [if_neg (by simp [hslash]), if_neg hslash]
    by_cases hstar : cs.head? = some '*'
    · exact (if_pos ⟨rfl, hstar⟩).trans (if_pos hstar).symm
    · rw [if_neg (by simp [hstar]), if_neg hstar]
      rfl

theorem extent_hash (member : Bool) (cs : List Char) :
    extent member '#' cs = .ok (.comment, runLength (!isLineBreak ·) cs) := by
  simp [extent, isBlank]

theorem extent_colon (member : Bool) (cs : List Char) :
    extent member ':' cs =
      if cs.head? = some ':' then .ok (.other, 1) else .ok (.colon, 0) := by
  simp [extent, isBlank, isQuote]

theorem extent_question (member : Bool) (cs : List Char) :
    extent member '?' cs =
      if cs.take 2 = ['-', '>'] then .ok (.other, 2)
      else if cs.head? = some '?' ∨ cs.head? = some '>' then .ok (.other, 1)
      else .ok (.question, 0) := by
  simp [extent, isBlank, isQuote]

theorem extent_less (member : Bool) {cs : List Char} (hcs : cs.head? ≠ some '?') :
    extent member '<' cs = .ok (.other, 0) := by
  simp [extent, isBlank, isQuote, isWordChar, hcs]

/-- An opening tag, of the long form, of the short form for output, or of the bare one. -/
theorem extent_tag (member : Bool) (cs : List Char) :
    extent member '<' ('?' :: cs) =
      if lowerAscii (cs.take 3) = ['p', 'h', 'p'] then .ok (.other, 4)
      else if cs.head? = some '=' then .ok (.other, 2)
      else .ok (.other, 1) := by
  rfl

theorem extent_arrow {c : Char} (hc : c = '-' ∨ c = '=') (member : Bool) (cs : List Char) :
    extent member c cs = if cs.head? = some '>' then .ok (.other, 1) else .ok (.other, 0) := by
  rcases hc with rfl | rfl <;> simp [extent, isBlank, isQuote, isWordChar]

/-- A string, if it is closed. -/
theorem extent_quote {c : Char} (hc : isQuote c = true) (member : Bool) (cs : List Char) :
    extent member c cs =
      match quoteEnd? c cs with
      | some n => .ok (.string, n)
      | none => .error (.string c) := by
  rcases isQuote_cases hc with rfl | rfl | rfl
  · rfl
  · rfl
  · rfl

/-- A word runs as far as word characters go. -/
theorem extent_word {c : Char} (hc : isWordChar c = true) (member : Bool) (cs : List Char) :
    extent member c cs =
      .ok (if member then .word else wordKind (c :: cs.take (runLength isWordChar cs)),
        runLength isWordChar cs) := by
  -- no character in front of the words in the list of cases is a word character
  have hne : ∀ {d : Char}, isWordChar d = false → c ≠ d := by
    rintro d hd rfl
    rw [hc] at hd
    cases hd
  have hblank : isBlank c = false := by
    simp [isBlank, hne (d := ' ') (by decide), hne (d := '\t') (by decide)]
  have hquote : isQuote c = false := by
    simp [isQuote, hne (d := '\x22') (by decide), hne (d := '\x27') (by decide),
      hne (d := '\x60') (by decide)]
  unfold extent
  simp only [hne (d := '\n') (by decide), hne (d := '\r') (by decide), hblank,
    hne (d := '#') (by decide), hne (d := '/') (by decide), hquote,
    hne (d := '\x7b') (by decide), hne (d := '\x7d') (by decide), hne (d := '(') (by decide),
    hne (d := ')') (by decide), hne (d := '[') (by decide), hne (d := ']') (by decide),
    hne (d := ';') (by decide), hne (d := ':') (by decide), hne (d := '?') (by decide),
    hne (d := '<') (by decide), hne (d := '-') (by decide), hne (d := '=') (by decide), hc,
    false_and, or_self, if_false, if_true, Bool.false_eq_true]

/-- A mark: a bracket, a separator or an operator. -/
def TokenKind.isMark : TokenKind → Bool
  | .colon | .semicolon | .openBrace | .closeBrace | .openParen | .closeParen | .openBracket
  | .closeBracket | .question | .other => true
  | _ => false

/-- Any other character is a lexeme by itself. -/
theorem extent_lone {c : Char} (hlayout : isLayout c = false) (hquote : isQuote c = false)
    (hword : isWordChar c = false)
    (hc : c ≠ '#' ∧ c ≠ '/' ∧ c ≠ ':' ∧ c ≠ '?' ∧ c ≠ '<' ∧ c ≠ '-' ∧ c ≠ '=') (member : Bool) :
    ∃ kind, (kind.isMark = true ∧ kind ≠ .colon) ∧ ∀ cs, extent member c cs = .ok (kind, 0) := by
  obtain ⟨h1, h2, h3, h4, h5, h6, h7⟩ := hc
  simp only [isLayout, isLineBreak, Bool.or_eq_false_iff, beq_eq_false_iff_ne] at hlayout
  obtain ⟨hblank, h8, h9⟩ := hlayout
  unfold extent
  simp only [h1, h2, h3, h4, h5, h6, h7, h8, h9, hblank, hquote, hword, false_and, or_self,
    if_false, Bool.false_eq_true]
  repeat' split
  all_goals exact ⟨_, ⟨rfl, by decide⟩, fun _ => rfl⟩

/-! ## §4. A lexeme and its rest. -/

/-- A slash and what it starts, read up to a rest, where it does not go on. -/
theorem extent_append_slash (member : Bool) (t rest : List Char) (kind : TokenKind) :
    extent member '/' (t ++ rest) = .ok (kind, t.length) ↔
      extent member '/' t = .ok (kind, t.length) ∧ EndsAt ('/' :: t) rest := by
  rw [extent_slash, extent_slash]
  cases t with
  | nil =>
      have hrun : rest.head? = some '/' → runLength (!isLineBreak ·) rest ≠ 0 := by
        intro hhead
        obtain ⟨r, rfl⟩ : ∃ r, rest = '/' :: r := by
          cases rest with
          | nil => cases hhead
          | cons d r => exact ⟨r, by rw [Option.some.inj hhead]⟩
        simp [runLength, isLineBreak]
      simp only [List.nil_append, List.length_nil, EndsAt, startsLineComment, List.head?_cons,
        List.head?_nil]
      by_cases hslash : rest.head? = some '/'
      · simp [hslash, hrun hslash]
      · by_cases hstar : rest.head? = some '*'
        · cases commentEnd? rest.tail <;> simp [hstar]
        · simp [hslash, hstar]
  | cons x t =>
      by_cases hslash : x = '/'
      · subst hslash
        have h := runLength_append_iff (!isLineBreak ·) ('/' :: t) rest
        simp only [List.length_cons, List.cons_append, Bool.not_eq_false'] at h
        simp only [List.cons_append, List.head?_cons, if_true, Except.ok.injEq, Prod.mk.injEq,
          List.length_cons, h, and_assoc]
        rfl
      · by_cases hstar : x = '*'
        · subst hstar
          have h := commentEnd?_append_iff t rest
          simp only [List.cons_append, List.head?_cons, List.tail_cons, List.length_cons, EndsAt,
            startsLineComment]
          cases h1 : commentEnd? (t ++ rest) <;> cases h2 : commentEnd? t <;> simp_all
        · simp [hslash, hstar]

/-- The same for a question mark and the operators that it starts, -/
theorem extent_append_question (member : Bool) (t rest : List Char) (kind : TokenKind) :
    extent member '?' (t ++ rest) = .ok (kind, t.length) ↔
      extent member '?' t = .ok (kind, t.length) ∧ EndsAt ('?' :: t) rest := by
  rw [extent_question, extent_question]
  match t with
  | [] =>
      simp only [List.nil_append, List.length_nil, EndsAt, startsLineComment]
      by_cases harrow : rest.take 2 = ['-', '>']
      · simp [harrow]
      · by_cases hmark : rest.head? = some '?' ∨ rest.head? = some '>'
        · rcases hmark with hmark | hmark <;> simp [harrow, hmark]
        · rw [not_or] at hmark
          simp [harrow, hmark]
  | [x] =>
      -- a single character behind the mark must be a second mark or a closing angle
      have harrow : [x].take 2 ≠ ['-', '>'] := by simp
      rw [if_neg harrow]
      by_cases hmark : x = '?' ∨ x = '>'
      · have harrow' : ([x] ++ rest).take 2 ≠ ['-', '>'] := by
          rcases hmark with rfl | rfl <;> simp
        rw [if_neg harrow']
        rcases hmark with rfl | rfl <;> simp [EndsAt, startsLineComment]
      · have hmark' : ¬ (some x = some '?' ∨ some x = some '>') := by simpa using hmark
        show (if _ then _ else if some x = some '?' ∨ some x = some '>' then _ else _) = _ ↔
          (if some x = some '?' ∨ some x = some '>' then _ else _) = _ ∧ _
        rw [if_neg hmark']
        split <;> simp
  | x :: y :: t =>
      simp only [List.cons_append, List.take_succ_cons, List.take_zero, List.head?_cons, EndsAt,
        startsLineComment, List.length_cons]
      by_cases harrow : [x, y] = ['-', '>'] <;> simp [harrow]

/-- The tag behind an opening angle is complete inside the piece, or the piece is too short. -/
theorem extent_append_tag (member : Bool) (y : Char) (t rest : List Char) (kind : TokenKind) :
    extent member '<' ('?' :: y :: (t ++ rest)) = .ok (kind, t.length + 2) ↔
      extent member '<' ('?' :: y :: t) = .ok (kind, t.length + 2) := by
  rw [extent_tag, extent_tag, List.head?_cons, List.head?_cons]
  by_cases htag : lowerAscii ((y :: t).take 3) = ['p', 'h', 'p']
  · have hlen : 3 ≤ (y :: t).length := by
      have hlen := congrArg List.length htag
      simp only [length_lowerAscii, List.length_take, List.length_cons, List.length_nil] at hlen
      simp only [List.length_cons]
      omega
    have htake : (y :: (t ++ rest)).take 3 = (y :: t).take 3 := by
      rw [← List.cons_append, List.take_append_of_le_length hlen]
    rw [htake]
  · rw [if_neg htag]
    by_cases htag' : lowerAscii ((y :: (t ++ rest)).take 3) = ['p', 'h', 'p']
    · have hy : y.toLower = 'p' := by
        simpa [lowerAscii] using congrArg List.head? htag'
      have hecho : ¬ some y = some '=' := by
        rintro h
        rw [Option.some.inj h] at hy
        exact absurd hy (by decide)
      have hlen : t.length ≠ 2 := by
        intro hlen
        rw [← List.cons_append, List.take_append_of_le_length (by simp [hlen])] at htag'
        exact htag htag'
      rw [if_pos htag', if_neg hecho]
      simp only [Except.ok.injEq, Prod.mk.injEq]
      omega
    · rw [if_neg htag']

/-- for an opening tag, -/
theorem extent_append_less (member : Bool) (t rest : List Char) (kind : TokenKind) :
    extent member '<' (t ++ rest) = .ok (kind, t.length) ↔
      extent member '<' t = .ok (kind, t.length) ∧ EndsAt ('<' :: t) rest := by
  match t with
  | [] =>
      have halone : extent member '<' [] = .ok (.other, 0) := extent_less member (by simp)
      rw [halone]
      cases rest with
      | nil =>
          rw [List.append_nil, halone]
          simp [EndsAt, startsLineComment]
      | cons d rest =>
          by_cases hmark : d = '?'
          · subst hmark
            rw [List.nil_append, extent_tag]
            have hend : ¬ EndsAt ['<'] ('?' :: rest) := by simp [EndsAt, startsLineComment]
            simp only [hend, and_false, iff_false]
            repeat' split
            all_goals simp
          · rw [List.nil_append, extent_less member (by simpa using hmark)]
            simp [EndsAt, startsLineComment, hmark]
  | [x] =>
      by_cases hmark : x = '?'
      · subst hmark
        have halone : extent member '<' ['?'] = .ok (.other, 1) := by
          rw [extent_tag]
          rfl
        have hend : EndsAt ['<', '?'] rest ↔
            lowerAscii (rest.take 3) ≠ ['p', 'h', 'p'] ∧ rest.head? ≠ some '=' := by
          simp [EndsAt, startsLineComment]
        rw [List.cons_append, List.nil_append, halone, extent_tag, hend]
        by_cases htag : lowerAscii (rest.take 3) = ['p', 'h', 'p']
        · simp [htag]
        · rw [if_neg htag]
          by_cases hecho : rest.head? = some '=' <;> simp [htag, hecho]
      · rw [extent_less member (by simpa using hmark), extent_less member (by simpa using hmark)]
        simp
  | x :: y :: t =>
      by_cases hmark : x = '?'
      · subst hmark
        have hend : EndsAt ('<' :: '?' :: y :: t) rest := by simp [EndsAt, startsLineComment]
        rw [and_iff_left hend]
        exact extent_append_tag member y t rest kind
      · rw [extent_less member (by simpa using hmark), extent_less member (by simpa using hmark)]
        simp

/-- and for a word. -/
theorem extent_append_word {c : Char} (hc : isWordChar c = true) (member : Bool)
    (t rest : List Char) (kind : TokenKind) :
    extent member c (t ++ rest) = .ok (kind, t.length) ↔
      extent member c t = .ok (kind, t.length) ∧ ∀ d ∈ rest.head?, isWordChar d = false := by
  rw [extent_word hc, extent_word hc]
  simp only [Except.ok.injEq, Prod.mk.injEq]
  -- once the run is as long as the piece, the word is the piece
  constructor
  · rintro ⟨hkind, hlen⟩
    obtain ⟨hrun, hrest⟩ := (runLength_append_iff _ _ _).mp hlen
    rw [hlen, List.take_left] at hkind
    rw [hrun, List.take_length]
    exact ⟨⟨hkind, rfl⟩, hrest⟩
  · rintro ⟨⟨hkind, hrun⟩, hrest⟩
    have hlen := (runLength_append_iff _ _ _).mpr ⟨hrun, hrest⟩
    rw [hrun, List.take_length] at hkind
    rw [hlen, List.take_left]
    exact ⟨hkind, rfl⟩

/-- **A piece of text is read as a lexeme in front of a rest** exactly when it is a lexeme by
itself and ends at that rest. -/
theorem extent_append_iff {c : Char} (hc : isLayout c = false) (member : Bool)
    (t rest : List Char) (kind : TokenKind) :
    extent member c (t ++ rest) = .ok (kind, t.length) ↔
      extent member c t = .ok (kind, t.length) ∧ EndsAt (c :: t) rest := by
  by_cases h1 : c = '#'
  · subst h1
    rw [extent_hash, extent_hash]
    have h := runLength_append_iff (!isLineBreak ·) t rest
    simp only [Bool.not_eq_false'] at h
    simp only [Except.ok.injEq, Prod.mk.injEq, h, and_assoc]
    rfl
  by_cases h2 : c = '/'
  · subst h2
    exact extent_append_slash member t rest kind
  by_cases h3 : c = ':'
  · subst h3
    rw [extent_colon, extent_colon]
    cases t with
    | nil => by_cases hcolon : rest.head? = some ':' <;> simp [EndsAt, startsLineComment, hcolon]
    | cons x t => by_cases hcolon : x = ':' <;> simp [EndsAt, startsLineComment, hcolon]
  by_cases h4 : c = '?'
  · subst h4
    exact extent_append_question member t rest kind
  by_cases h5 : c = '<'
  · subst h5
    exact extent_append_less member t rest kind
  have hstart : startsLineComment (c :: t) = false := by
    simp [startsLineComment, h1, h2]
  by_cases h6 : c = '-' ∨ c = '='
  · rw [extent_arrow h6, extent_arrow h6]
    have hend : EndsAt (c :: t) rest ↔ (t = [] → rest.head? ≠ some '>') := by
      simp only [EndsAt, hstart, h2, h3, h4, h5, h6, if_true, if_false, Bool.false_eq_true]
    rw [hend]
    cases t with
    | nil => by_cases harrow : rest.head? = some '>' <;> simp [harrow]
    | cons x t => by_cases harrow : x = '>' <;> simp [harrow]
  by_cases h7 : isWordChar c = true
  · have hend : EndsAt (c :: t) rest ↔ ∀ d ∈ rest.head?, isWordChar d = false := by
      simp only [EndsAt, hstart, h2, h3, h4, h5, h6, h7, if_true, if_false, Bool.false_eq_true]
    rw [hend]
    exact extent_append_word h7 member t rest kind
  rw [not_or] at h6
  have hend : EndsAt (c :: t) rest := by
    simp only [EndsAt, hstart, h2, h3, h4, h5, h6.1, h6.2, or_self, h7, if_false,
      Bool.false_eq_true]
  rw [and_iff_left hend]
  by_cases h8 : isQuote c = true
  · rw [extent_quote h8, extent_quote h8]
    have h := quoteEnd?_append_iff c t rest
    cases hq : quoteEnd? c (t ++ rest) <;> cases hq' : quoteEnd? c t <;> simp_all
  · obtain ⟨k, _, hk⟩ := extent_lone hc (by simpa using h8) (by simpa using h7)
      ⟨h1, h2, h3, h4, h5, h6.1, h6.2⟩ member
    rw [hk, hk]

/-! ## §5. The lexemes of a text, from the left. -/

/-- **The end of a string lies inside the text**, also behind an escape at its end. -/
theorem quoteEnd?_le_length {quote : Char} {cs : List Char} {n : Nat}
    (h : quoteEnd? quote cs = some n) : n ≤ cs.length := by
  fun_induction quoteEnd? quote cs generalizing n with
  | case1 => cases h
  | case2 => cases h
  | case3 d cs ih =>
      obtain ⟨k, hk, rfl⟩ := Option.map_eq_some_iff.mp h
      have hle := ih hk
      simp only [List.length_cons]
      omega
  | case4 cs hq =>
      cases h
      simp
  | case5 c cs hq hc ih =>
      obtain ⟨k, hk, rfl⟩ := Option.map_eq_some_iff.mp h
      have hle := ih hk
      simp only [List.length_cons]
      omega

/-- **So does the end of a comment.** -/
theorem commentEnd?_le_length {cs : List Char} {n : Nat} (h : commentEnd? cs = some n) :
    n ≤ cs.length := by
  induction cs generalizing n with
  | nil => cases h
  | cons c cs ih =>
      rw [commentEnd?] at h
      split at h
      · rename_i hclose
        cases h
        cases cs with
        | nil => simp at hclose
        | cons d cs => simp
      · obtain ⟨k, hk, rfl⟩ := Option.map_eq_some_iff.mp h
        have hle := ih hk
        simp only [List.length_cons]
        omega

theorem runLength_le_length (p : Char → Bool) (cs : List Char) : runLength p cs ≤ cs.length :=
  (List.takeWhile_sublist p).length_le

/-- The text of a run. -/
theorem take_runLength (p : Char → Bool) (cs : List Char) :
    cs.take (runLength p cs) = cs.takeWhile p := by
  induction cs with
  | nil => rfl
  | cons c cs ih =>
      unfold runLength at ih ⊢
      by_cases hc : p c
      · simp [hc, ih]
      · simp [hc]

/-- A run that takes in the whole text. -/
theorem all_of_runLength {p : Char → Bool} {cs : List Char} (h : runLength p cs = cs.length) :
    ∀ c ∈ cs, p c = true := by
  have htake := take_runLength p cs
  rw [h, List.take_length] at htake
  rw [htake]
  exact List.all_eq_true.mp List.all_takeWhile

/-- What a lexeme can be. -/
inductive LexemeForm (member : Bool) : Char → List Char → TokenKind → Prop
  /-- Blanks or one line break. -/
  | layout {c : Char} {t : List Char} (h : (c :: t).all isLayout = true) :
      LexemeForm member c t .whitespace
  /-- A comment up to the end of the line. -/
  | lineComment {c : Char} {t : List Char} (hstart : startsLineComment (c :: t) = true)
      (hline : (c :: t).all (!isLineBreak ·) = true) : LexemeForm member c t .comment
  /-- A comment up to its closing pair. -/
  | blockComment {t : List Char} : LexemeForm member '/' ('*' :: t) .comment
  /-- A string with its quotes. -/
  | string {c : Char} {t : List Char} (h : isQuote c = true) : LexemeForm member c t .string
  /-- A word. -/
  | word {c : Char} {t : List Char} (h : (c :: t).all isWordChar = true) :
      LexemeForm member c t (if member then .word else wordKind (c :: t))
  /-- A mark; the only one that is a colon is a single colon. -/
  | mark {c : Char} {t : List Char} {kind : TokenKind} (hkind : kind.isMark = true)
      (hchars : (c :: t).all (!isLayout ·) = true) (hword : isWordChar c = false)
      (hquote : isQuote c = false)
      (hcolon : kind = .colon ↔ c = ':' ∧ t = []) : LexemeForm member c t kind

section Forms

variable {member : Bool} {c : Char} {cs : List Char} {kind : TokenKind} {n : Nat}

/-- A mark of one character. -/
theorem lone_form (hlayout : isLayout c = false) (hword : isWordChar c = false)
    (hquote : isQuote c = false) (hkind : kind.isMark = true) (hcolon : kind = .colon ↔ c = ':') :
    0 ≤ cs.length ∧ LexemeForm member c (cs.take 0) kind := by
  refine ⟨Nat.zero_le _, .mark hkind ?_ hword hquote ?_⟩
  · simp [hlayout]
  · simpa using hcolon

/-- A mark of two characters. -/
theorem pair_form {d : Char} (hlayout : isLayout c = false) (hlayout' : isLayout d = false)
    (hword : isWordChar c = false) (hquote : isQuote c = false) :
    1 ≤ (d :: cs).length ∧ LexemeForm member c ((d :: cs).take 1) .other := by
  refine ⟨Nat.le_add_left 1 _, .mark rfl ?_ hword hquote ?_⟩
  · simp [hlayout, hlayout']
  · simp

/-- Layout: blanks, or one line break. -/
theorem layout_form (hc : isLayout c = true) (h : extent member c cs = .ok (kind, n)) :
    n ≤ cs.length ∧ LexemeForm member c (cs.take n) kind := by
  have hcases : isBlank c = true ∨ c = '\n' ∨ c = '\r' := by
    simpa [isLayout, isLineBreak] using hc
  rcases hcases with hblank | rfl | rfl
  · rw [extent_blank hblank] at h
    cases h
    refine ⟨runLength_le_length _ _, .layout ?_⟩
    rw [take_runLength, List.all_cons, hc, Bool.true_and, List.all_eq_true]
    intro d hd
    have hblank : isBlank d = true := List.all_eq_true.mp List.all_takeWhile d hd
    simp [isLayout, hblank]
  · rw [extent_newline] at h
    cases h
    exact ⟨Nat.zero_le _, .layout (by simpa using hc)⟩
  · rw [extent_return] at h
    cases h
    split
    · rename_i hnl
      obtain ⟨ds, rfl⟩ := List.head?_eq_some_iff.mp hnl
      exact ⟨by simp, .layout (by simp [isLayout, isLineBreak])⟩
    · exact ⟨Nat.zero_le _, .layout (by simpa using hc)⟩

/-- A comment behind a number sign. -/
theorem hash_form (h : extent member '#' cs = .ok (kind, n)) :
    n ≤ cs.length ∧ LexemeForm member '#' (cs.take n) kind := by
  rw [extent_hash] at h
  cases h
  refine ⟨runLength_le_length _ _, .lineComment (by simp [startsLineComment]) ?_⟩
  rw [take_runLength, List.all_cons, List.all_takeWhile]
  rfl

/-- A slash starts a comment of either kind, or is a mark. -/
theorem slash_form (h : extent member '/' cs = .ok (kind, n)) :
    n ≤ cs.length ∧ LexemeForm member '/' (cs.take n) kind := by
  rw [extent_slash] at h
  split at h
  · rename_i hslash
    cases h
    obtain ⟨ds, rfl⟩ := List.head?_eq_some_iff.mp hslash
    refine ⟨runLength_le_length _ _, .lineComment ?_ ?_⟩
    · simp [take_runLength, startsLineComment, isLineBreak]
    · rw [take_runLength, List.all_cons, List.all_takeWhile]
      rfl
  · split at h
    · rename_i hstar
      obtain ⟨ds, rfl⟩ := List.head?_eq_some_iff.mp hstar
      split at h
      · rename_i k hk
        cases h
        have hlen := commentEnd?_le_length hk
        refine ⟨by simpa using hlen, ?_⟩
        rw [List.take_succ_cons]
        exact .blockComment
      · cases h
    · cases h
      exact lone_form (by decide) (by decide) (by decide) rfl (by decide)

theorem colon_form (h : extent member ':' cs = .ok (kind, n)) :
    n ≤ cs.length ∧ LexemeForm member ':' (cs.take n) kind := by
  rw [extent_colon] at h
  split at h
  · rename_i hcolon
    obtain ⟨ds, rfl⟩ := List.head?_eq_some_iff.mp hcolon
    cases h
    exact pair_form (by decide) (by decide) (by decide) (by decide)
  · cases h
    exact lone_form (by decide) (by decide) (by decide) rfl (by decide)

/-- A question mark, alone or in an operator. -/
theorem question_form (h : extent member '?' cs = .ok (kind, n)) :
    n ≤ cs.length ∧ LexemeForm member '?' (cs.take n) kind := by
  rw [extent_question] at h
  split at h
  · rename_i harrow
    cases h
    have hlen := congrArg List.length harrow
    simp only [List.length_take, List.length_cons, List.length_nil] at hlen
    rw [harrow]
    exact ⟨by omega, .mark rfl (by decide) (by decide) (by decide) (by simp)⟩
  · split at h
    · rename_i hnext
      cases h
      rcases hnext with hnext | hnext
      · obtain ⟨ds, rfl⟩ := List.head?_eq_some_iff.mp hnext
        exact pair_form (by decide) (by decide) (by decide) (by decide)
      · obtain ⟨ds, rfl⟩ := List.head?_eq_some_iff.mp hnext
        exact pair_form (by decide) (by decide) (by decide) (by decide)
    · cases h
      exact lone_form (by decide) (by decide) (by decide) rfl (by decide)

/-- Layout has no capitals, so the letters of a tag are none. -/
theorem isLayout_of_mem_tag {ds : List Char} (htag : lowerAscii ds = ['p', 'h', 'p']) :
    ∀ d ∈ ds, isLayout d = false := by
  intro d hd
  have hd' : d.toLower ∈ ['p', 'h', 'p'] := by
    rw [← htag]
    exact List.mem_map_of_mem hd
  cases hl : isLayout d with
  | false => rfl
  | true => rcases isLayout_cases hl with rfl | rfl | rfl | rfl <;> revert hd' <;> decide

/-- The tag that opens a script, in one of its three spellings. -/
theorem tag_form (h : extent member '<' ('?' :: cs) = .ok (kind, n)) :
    n ≤ ('?' :: cs).length ∧ LexemeForm member '<' (('?' :: cs).take n) kind := by
  rw [extent_tag] at h
  split at h
  · rename_i htag
    cases h
    have hlen := congrArg List.length htag
    simp only [length_lowerAscii, List.length_take, List.length_cons, List.length_nil] at hlen
    refine ⟨by simp only [List.length_cons]; omega, .mark rfl ?_ (by decide) (by decide)
      (by simp)⟩
    rw [List.take_succ_cons, List.all_eq_true]
    intro d hd
    simp only [List.mem_cons] at hd
    rcases hd with rfl | rfl | hd
    · decide
    · decide
    · rw [isLayout_of_mem_tag htag d hd]
      rfl
  · split at h
    · rename_i hecho
      cases h
      obtain ⟨ds, rfl⟩ := List.head?_eq_some_iff.mp hecho
      exact ⟨by simp, .mark rfl (by simp [isLayout, isBlank, isLineBreak]) (by decide)
        (by decide) (by simp)⟩
    · cases h
      exact pair_form (by decide) (by decide) (by decide) (by decide)

/-- An opening tag, or the mark alone. -/
theorem less_form (h : extent member '<' cs = .ok (kind, n)) :
    n ≤ cs.length ∧ LexemeForm member '<' (cs.take n) kind := by
  by_cases hnext : cs.head? = some '?'
  · obtain ⟨ds, rfl⟩ := List.head?_eq_some_iff.mp hnext
    exact tag_form h
  · rw [extent_less member hnext] at h
    cases h
    exact lone_form (by decide) (by decide) (by decide) rfl (by decide)

theorem arrow_form (hc : c = '-' ∨ c = '=') (h : extent member c cs = .ok (kind, n)) :
    n ≤ cs.length ∧ LexemeForm member c (cs.take n) kind := by
  have hmark : isLayout c = false ∧ isWordChar c = false ∧ isQuote c = false ∧ c ≠ ':' := by
    rcases hc with rfl | rfl <;> decide
  obtain ⟨hlayout, hword, hquote, hcolon⟩ := hmark
  rw [extent_arrow hc] at h
  split at h
  · rename_i harrow
    obtain ⟨ds, rfl⟩ := List.head?_eq_some_iff.mp harrow
    cases h
    exact pair_form hlayout (by decide) hword hquote
  · cases h
    exact lone_form hlayout hword hquote rfl (by simp [hcolon])

/-- A word, by its kind. -/
theorem word_form (hc : isWordChar c = true) (h : extent member c cs = .ok (kind, n)) :
    n ≤ cs.length ∧ LexemeForm member c (cs.take n) kind := by
  rw [extent_word hc] at h
  cases h
  refine ⟨runLength_le_length _ _, .word ?_⟩
  rw [take_runLength, List.all_cons, hc, List.all_takeWhile]
  rfl

/-- A string, with its quotes. -/
theorem quote_form (hc : isQuote c = true) (h : extent member c cs = .ok (kind, n)) :
    n ≤ cs.length ∧ LexemeForm member c (cs.take n) kind := by
  rw [extent_quote hc] at h
  split at h
  · rename_i k hk
    cases h
    exact ⟨quoteEnd?_le_length hk, .string hc⟩
  · cases h

/-- **What a lexeme can be.**  It stays inside the text and has one of the six forms. -/
theorem extent_form (h : extent member c cs = .ok (kind, n)) :
    n ≤ cs.length ∧ LexemeForm member c (cs.take n) kind := by
  by_cases hlayout : isLayout c = true
  · exact layout_form hlayout h
  by_cases h1 : c = '#'
  · subst h1
    exact hash_form h
  by_cases h2 : c = '/'
  · subst h2
    exact slash_form h
  by_cases h3 : c = ':'
  · subst h3
    exact colon_form h
  by_cases h4 : c = '?'
  · subst h4
    exact question_form h
  by_cases h5 : c = '<'
  · subst h5
    exact less_form h
  by_cases h6 : c = '-' ∨ c = '='
  · exact arrow_form h6 h
  by_cases h7 : isWordChar c = true
  · exact word_form h7 h
  by_cases h8 : isQuote c = true
  · exact quote_form h8 h
  -- what is left is a mark of one character
  rw [Bool.not_eq_true] at hlayout h7 h8
  rw [not_or] at h6
  obtain ⟨k, hk, hlone⟩ := extent_lone hlayout h8 h7 ⟨h1, h2, h3, h4, h5, h6.1, h6.2⟩ member
  rw [hlone] at h
  cases h
  exact lone_form hlayout h7 h8 hk.1 (by simp [h3, hk.2])

end Forms

/-- One lexeme is taken off the front of a text. -/
theorem lexemes_append {member : Bool} {c : Char} {t rest : List Char} {kind : TokenKind}
    (h : extent member c (t ++ rest) = .ok (kind, t.length)) :
    lexemes member (c :: (t ++ rest)) =
      (⟨kind, c :: t⟩ :: (lexemes (Lexeme.memberNext member ⟨kind, c :: t⟩) rest).1,
        (lexemes (Lexeme.memberNext member ⟨kind, c :: t⟩) rest).2) := by
  rw [lexemes, h]
  simp only [List.take_left, List.drop_left]

/-- The first of the lexemes of a text, and the others as the lexemes of the rest. -/
theorem lexemes_eq_cons {member : Bool} {cs : List Char} {l : Lexeme} {ls : List Lexeme}
    {o : Option OpenLiteral} (h : lexemes member cs = (l :: ls, o)) :
    ∃ c t rest, cs = c :: (t ++ rest) ∧ l.chars = c :: t
      ∧ extent member c (t ++ rest) = .ok (l.kind, t.length)
      ∧ lexemes (l.memberNext member) rest = (ls, o) := by
  cases cs with
  | nil =>
      rw [lexemes] at h
      cases h
  | cons c cs =>
      rw [lexemes] at h
      split at h
      · cases h
      · rename_i kind n hread
        cases h
        have hlen : (cs.take n).length = n := by
          rw [List.length_take]
          exact Nat.min_eq_left (extent_form hread).1
        refine ⟨c, cs.take n, cs.drop n, ?_, rfl, ?_, rfl⟩
        · rw [List.take_append_drop]
        · rw [List.take_append_drop, hlen]
          exact hread

/-! ## §6. Layout. -/

/-- Whitespace keeps what is known about member names. -/
theorem memberNext_whitespace (member : Bool) (cs : List Char) :
    Lexeme.memberNext member ⟨.whitespace, cs⟩ = member := rfl

/-- The lexemes of a text that are no whitespace, and the literal that stays open. -/
def codeLexemes (member : Bool) (cs : List Char) : List Lexeme × Option OpenLiteral :=
  ((lexemes member cs).1.filter (·.kind ≠ .whitespace), (lexemes member cs).2)

/-- Whitespace is no code. -/
theorem codeLexemes_skip {member : Bool} {c : Char} {cs : List Char} {n : Nat}
    (h : extent member c cs = .ok (.whitespace, n)) :
    codeLexemes member (c :: cs) = codeLexemes member (cs.drop n) := by
  unfold codeLexemes
  rw [lexemes, h]
  simp only [memberNext_whitespace]
  rw [List.filter_cons_of_neg (by simp)]

theorem codeLexemes_layout_cons {c : Char} (hc : isLayout c = true) (member : Bool)
    (cs : List Char) : codeLexemes member (c :: cs) = codeLexemes member cs := by
  have hcases : isBlank c = true ∨ c = '\n' ∨ c = '\r' := by
    simpa [isLayout, isLineBreak] using hc
  rcases hcases with hblank | rfl | rfl
  · -- the run of blanks that starts at `c` ends where the run behind it does
    rw [codeLexemes_skip (extent_blank hblank member cs)]
    cases cs with
    | nil => rfl
    | cons d cs =>
        by_cases hd : isBlank d = true
        · rw [codeLexemes_skip (extent_blank hd member cs)]
          simp [runLength, hd]
        · simp [runLength, hd]
  · exact codeLexemes_skip (extent_newline member cs)
  · rw [codeLexemes_skip (extent_return member cs)]
    cases cs with
    | nil => rfl
    | cons d cs =>
        by_cases hd : d = '\n'
        · subst hd
          rw [codeLexemes_skip (extent_newline member cs)]
          rfl
        · simp [hd]

/-- **Layout is transparent.**  Blanks and line breaks in front of a text change nothing about
the code behind them. -/
theorem codeLexemes_layout {u : List Char} (hu : u.all isLayout = true) (member : Bool)
    (cs : List Char) : codeLexemes member (u ++ cs) = codeLexemes member cs := by
  induction u with
  | nil => rfl
  | cons c u ih =>
      rw [List.all_cons, Bool.and_eq_true] at hu
      rw [List.cons_append, codeLexemes_layout_cons hu.1, ih hu.2]

end SwitchLayout
