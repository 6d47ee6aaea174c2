/-
  SwitchLayout.Proofs.Literals
  ────────────────────────────
  **Literals are read exactly when they are closed.**

  What closes a literal is said without the scanners: the inside of a string holds its quote only
  behind a backslash (`StringBody`), and a block comment ends at the first star and slash behind
  its opening pair (`IsBlockComment`).  Against this the scanners are measured in both directions:

    • `stringBody_of_quoteEnd?`, `quoteEnd?_stringBody` — the end of a string,
    • `exists_of_commentEnd?`, `commentEnd?_le` — the end of a block comment,
    • `closed_of_extent` — a lexeme that is read is closed,
    • `staysOpen_of_extent` — one that is not stays open to the end of the text.

  The main statement is `read_closes_literals`: a text is read into closed literals, or the error
  names the place where one is left open.
-/
import SwitchLayout.Proofs.Locations

namespace SwitchLayout

open Text

/-! ## §1. Closed literals. -/

/-- The inside of a string.  A backslash and the character behind it stand for one. -/
inductive StringBody (quote : Char) : List Char → Prop
  | nil : StringBody quote []
  | plain {c : Char} {cs : List Char} (hquote : c ≠ quote) (hescape : c ≠ '\\')
      (h : StringBody quote cs) : StringBody quote (c :: cs)
  | escaped {c : Char} {cs : List Char} (h : StringBody quote cs) :
      StringBody quote ('\\' :: c :: cs)

/-- A string with its quotes. -/
def IsString (cs : List Char) : Prop :=
  ∃ quote body, isQuote quote = true ∧ cs = quote :: (body ++ [quote]) ∧ StringBody quote body

/-- A comment without a line break, in front of a line break or the end of the text. -/
def IsLineComment (cs behind : List Char) : Prop :=
  startsLineComment cs = true ∧ (∀ c ∈ cs, isLineBreak c = false)
    ∧ ∀ d ∈ behind.head?, isLineBreak d = true

/-- A comment that ends at the first star and slash behind its opening pair. -/
def IsBlockComment (cs : List Char) : Prop :=
  ∃ body, cs = '/' :: '*' :: (body ++ ['*', '/'])
    ∧ ∀ u v, body ++ ['*', '/'] = u ++ '*' :: '/' :: v → body.length ≤ u.length

/-- If the lexeme is a string or a comment, it ends in front of `behind` as such. -/
def Lexeme.ClosedBefore (l : Lexeme) (behind : List Char) : Prop :=
  (l.kind = .string → IsString l.chars)
    ∧ (l.kind = .comment → IsLineComment l.chars behind ∨ IsBlockComment l.chars)

/-- The literal opens at the start of the text, and nothing in the text closes it. -/
def OpenLiteral.StaysOpen : OpenLiteral → List Char → Prop
  | .string quote, cs =>
    isQuote quote = true ∧ ∃ rest, cs = quote :: rest
      ∧ ∀ body behind, rest = body ++ quote :: behind → ¬ StringBody quote body
  | .comment, cs => ∃ rest, cs = '/' :: '*' :: rest ∧ ¬ ['*', '/'] <:+: rest

/-! ## §2. The end of a string. -/

/-- Where a string ends, the text up to there is the inside of one. -/
theorem stringBody_of_quoteEnd? {quote : Char} {cs : List Char} {n : Nat}
    (h : quoteEnd? quote cs = some n) :
    ∃ body behind, cs = body ++ quote :: behind ∧ n = body.length + 1
      ∧ StringBody quote body := by
  fun_induction quoteEnd? quote cs generalizing n with
  | case1 => cases h
  | case2 => cases h
  | case3 d rest ih =>
      obtain ⟨m, hm, rfl⟩ := Option.map_eq_some_iff.mp h
      obtain ⟨body, behind, rfl, rfl, hbody⟩ := ih hm
      exact ⟨'\\' :: d :: body, behind, rfl, rfl, .escaped hbody⟩
  | case4 cs hescape =>
      cases h
      exact ⟨[], cs, rfl, rfl, .nil⟩
  | case5 c cs hescape hquote ih =>
      obtain ⟨m, hm, rfl⟩ := Option.map_eq_some_iff.mp h
      obtain ⟨body, behind, rfl, rfl, hbody⟩ := ih hm
      exact ⟨c :: body, behind, rfl, rfl, .plain hquote hescape hbody⟩

/-- Behind the inside of a string its quote is the end. -/
theorem quoteEnd?_stringBody {quote : Char} (hquote : quote ≠ '\\') {body : List Char}
    (h : StringBody quote body) (behind : List Char) :
    quoteEnd? quote (body ++ quote :: behind) = some (body.length + 1) := by
  induction h with
  | nil => rw [List.nil_append, quoteEnd?_cons _ hquote, if_pos rfl, List.length_nil]
  | plain hne hescape _ ih =>
      rw [List.cons_append, quoteEnd?_cons _ hescape, if_neg hne, ih]
      rfl
  | escaped _ ih =>
      -- the pair is jumped over, also when it holds the quote
      rw [List.cons_append, List.cons_append, quoteEnd?, if_pos rfl]
      simp only [ih, Option.map_some, List.length_cons]

theorem ne_backslash_of_isQuote {c : Char} (h : isQuote c = true) : c ≠ '\\' := by
  rcases isQuote_cases h with rfl | rfl | rfl <;> decide

/-! ## §3. The end of a block comment. -/

/-- Where a block comment ends, a star and a slash stand. -/
theorem exists_of_commentEnd? {cs : List Char} {n : Nat} (h : commentEnd? cs = some n) :
    ∃ body behind, cs = body ++ '*' :: '/' :: behind ∧ n = body.length + 2 := by
  induction cs generalizing n with
  | nil => cases h
  | cons c cs ih =>
      rw [commentEnd?] at h
      split at h
      · rename_i hclose
        obtain ⟨rfl, hslash⟩ := hclose
        obtain ⟨behind, rfl⟩ := List.head?_eq_some_iff.mp hslash
        cases h
        exact ⟨[], behind, rfl, rfl⟩
      · obtain ⟨m, hm, rfl⟩ := Option.map_eq_some_iff.mp h
        obtain ⟨body, behind, rfl, rfl⟩ := ih hm
        exact ⟨c :: body, behind, rfl, rfl⟩

/-- A star and a slash end a block comment, if none before them did. -/
theorem commentEnd?_le (body behind : List Char) :
    ∃ n, commentEnd? (body ++ '*' :: '/' :: behind) = some n ∧ n ≤ body.length + 2 := by
  induction body with
  | nil => exact ⟨2, by rw [List.nil_append, commentEnd?_cons_cons, if_pos ⟨rfl, rfl⟩], by simp⟩
  | cons c body ih =>
      obtain ⟨n, hn, hle⟩ := ih
      rw [List.cons_append, commentEnd?, hn]
      split
      · exact ⟨2, rfl, by simp⟩
      · exact ⟨n + 1, rfl, by simp only [List.length_cons]; omega⟩

/-! ## §4. One lexeme. -/

section Lexeme

variable {member : Bool} {c : Char} {t rest cs : List Char} {kind : TokenKind}

theorem isString_of_extent (hquote : isQuote c = true)
    (h : extent member c (t ++ rest) = .ok (kind, t.length)) : IsString (c :: t) := by
  rw [extent_quote hquote] at h
  split at h
  · rename_i n hn
    obtain rfl : n = t.length := (Prod.mk.inj (Except.ok.inj h)).2
    obtain ⟨body, behind, rfl, hlength, hbody⟩ :=
      stringBody_of_quoteEnd? ((quoteEnd?_append_iff c t rest).mp hn)
    obtain rfl : behind = [] := by simpa using hlength
    exact ⟨c, body, hquote, rfl, hbody⟩
  · cases h

theorem isLineComment_of_extent (hstart : startsLineComment (c :: t) = true)
    (hline : (c :: t).all (!isLineBreak ·) = true)
    (h : extent member c (t ++ rest) = .ok (kind, t.length)) :
    IsLineComment (c :: t) rest := by
  rw [extent_lineComment hstart] at h
  have hlength := (Prod.mk.inj (Except.ok.inj h)).2
  refine ⟨hstart, fun d hd => by simpa using List.all_eq_true.mp hline d hd, fun d hd => ?_⟩
  simpa using ((runLength_append_iff _ t rest).mp hlength).2 d hd

theorem isBlockComment_of_extent
    (h : extent member '/' ('*' :: (t ++ rest)) = .ok (kind, t.length + 1)) :
    IsBlockComment ('/' :: '*' :: t) := by
  rw [extent_slash, List.head?_cons, if_neg (by decide), if_pos rfl, List.tail_cons] at h
  split at h
  · rename_i n hn
    obtain rfl : n = t.length := Nat.succ.inj (Prod.mk.inj (Except.ok.inj h)).2
    obtain ⟨body, behind, rfl, hlength⟩ :=
      exists_of_commentEnd? ((commentEnd?_append_iff t rest).mp hn)
    obtain rfl : behind = [] := by simpa using hlength
    refine ⟨body, rfl, fun u v heq => ?_⟩
    -- a closing pair further to the left would have ended the comment there
    obtain ⟨m, hm, hle⟩ := commentEnd?_le u v
    rw [← heq, (commentEnd?_append_iff _ rest).mp hn] at hm
    obtain rfl := Option.some.inj hm
    simp only [List.length_append, List.length_cons, List.length_nil] at hle
    omega
  · cases h

/-- **What is read is closed.** -/
theorem closed_of_extent (h : extent member c (t ++ rest) = .ok (kind, t.length)) :
    (Lexeme.mk kind (c :: t)).ClosedBefore rest := by
  have hform := (extent_form h).2
  rw [List.take_left] at hform
  cases hform with
  | layout _ => exact ⟨(nomatch ·), (nomatch ·)⟩
  | lineComment hstart hline =>
      exact ⟨(nomatch ·), fun _ => .inl (isLineComment_of_extent hstart hline h)⟩
  | blockComment => exact ⟨(nomatch ·), fun _ => .inr (isBlockComment_of_extent h)⟩
  | string hquote => exact ⟨fun _ => isString_of_extent hquote h, (nomatch ·)⟩
  | word _ =>
      have hword := isWord_of_member member (c :: t)
      exact ⟨fun hkind => absurd hkind (ne_of_isWord hword rfl),
        fun hkind => absurd hkind (ne_of_isWord hword rfl)⟩
  | mark hmark =>
      refine ⟨fun hkind => ?_, fun hkind => ?_⟩
      · change kind = .string at hkind
        subst hkind
        cases hmark
      · change kind = .comment at hkind
        subst hkind
        cases hmark

theorem exists_ok_ite {p : Prop} [Decidable p] {x y : Except OpenLiteral (TokenKind × Nat)}
    (hx : ∃ r, x = .ok r) (hy : ∃ r, y = .ok r) : ∃ r, (if p then x else y) = .ok r := by
  split
  · exact hx
  · exact hy

/-- Only a quote and a slash start what may stay open. -/
theorem extent_isOk (hquote : isQuote c = false) (hslash : c ≠ '/') (member : Bool)
    (cs : List Char) : ∃ r, extent member c cs = .ok r := by
  unfold extent
  -- without the two branches that can fail, each branch gives an extent
  rw [if_neg (c := c = '/' ∧ cs.head? = some '*') (fun h => hslash h.1),
    if_neg (c := isQuote c = true) (by rw [hquote]; decide)]
  repeat' apply exists_ok_ite
  all_goals exact ⟨_, rfl⟩

theorem staysOpen_of_quote {literal : OpenLiteral} (hquote : isQuote c = true)
    (h : extent member c cs = .error literal) : literal.StaysOpen (c :: cs) := by
  rw [extent_quote hquote] at h
  split at h
  · cases h
  · rename_i hnone
    cases h
    refine ⟨hquote, cs, rfl, fun body behind heq hbody => ?_⟩
    -- a quote behind the inside of a string would have been found
    rw [heq, quoteEnd?_stringBody (ne_backslash_of_isQuote hquote) hbody] at hnone
    cases hnone

theorem staysOpen_of_slash {literal : OpenLiteral} (h : extent member '/' cs = .error literal) :
    literal.StaysOpen ('/' :: cs) := by
  rw [extent_slash] at h
  split at h
  · cases h
  split at h
  · rename_i hstar
    obtain ⟨rest, rfl⟩ := List.head?_eq_some_iff.mp hstar
    split at h
    · cases h
    · rename_i hnone
      cases h
      refine ⟨rest, rfl, ?_⟩
      rintro ⟨body, behind, rfl⟩
      obtain ⟨n, hn, _⟩ := commentEnd?_le body behind
      rw [List.tail_cons, List.append_assoc] at hnone
      rw [show ['*', '/'] ++ behind = '*' :: '/' :: behind from rfl, hn] at hnone
      cases hnone
  · cases h

/-- **What is not read stays open.** -/
theorem staysOpen_of_extent {literal : OpenLiteral} (h : extent member c cs = .error literal) :
    literal.StaysOpen (c :: cs) := by
  by_cases hquote : isQuote c = true
  · exact staysOpen_of_quote hquote h
  by_cases hslash : c = '/'
  · subst hslash
    exact staysOpen_of_slash h
  · obtain ⟨r, hr⟩ := extent_isOk (by simpa using hquote) hslash member cs
    rw [hr] at h
    cases h

end Lexeme

/-! ## §5. Turns. -/

/-- All literals among the tokens made are closed in front of what comes behind them. -/
def Cursor.Closed (k : Cursor) : Prop :=
  ∀ (i : Nat) (t : Token), k.made[i]? = some t →
    t.lexeme.ClosedBefore ((k.made.drop (i + 1)).flatMap Token.chars ++ k.ahead)

theorem closed_start (text : List Char) : (Cursor.start text).Closed := by
  intro i t ht
  change ((Script.splitMark text).1.map Script.markToken)[i]? = some t at ht
  obtain ⟨c, _, rfl⟩ := List.mem_map.mp (List.mem_of_getElem? ht)
  exact ⟨(nomatch ·), (nomatch ·)⟩

/-- **A turn makes a closed token**, and the text behind the others stays what it was. -/
theorem closed_turn {tabWidth : Nat} {k k' : Cursor} (h : k.turn tabWidth = .ok (some k'))
    (hk : k.Closed) : k'.Closed := by
  obtain ⟨c, cs, rest, kind, hahead, hextent, rfl⟩ := turn_cases h
  intro i t ht
  show t.lexeme.ClosedBefore (((k.made ++ [_]).drop (i + 1)).flatMap Token.chars ++ rest)
  rcases getElem?_push_cases ht with ⟨hlt, hold⟩ | ⟨rfl, rfl⟩
  · have hclosed := hk i t hold
    rw [hahead] at hclosed
    rw [List.drop_append_of_le_length hlt, List.flatMap_append, List.append_assoc]
    simpa [Token.chars] using hclosed
  · rw [List.drop_of_length_le (by simp), List.flatMap_nil, List.nil_append]
    simpa [Token.lexeme, Token.chars] using closed_of_extent hextent

/-! ## §6. Texts. -/

theorem textFrom_ofTokens (ts : List Token) (i : Nat) :
    (Script.ofTokens ts).textFrom i = (ts.drop i).flatMap Token.chars := by
  unfold Script.textFrom
  rw [Script.lexemes_ofTokens, ← List.map_drop, List.flatMap_map]
  rfl

/-- **Literals are read exactly when they are closed.**  Either a text is read, and then each of
its strings is closed by its quote and each of its comments by the end of its line or by the first
pair that can.  Or reading stops with an error behind the text of the tokens made so far: what is
ahead opens the literal that the error names, nothing in it closes the literal, and the error is
located there. -/
theorem read_closes_literals (tabWidth : Nat) (text : String) :
    (∃ s, Script.read tabWidth text = .ok s
        ∧ ∀ i t, s.get? i = some t → t.lexeme.ClosedBefore (s.textFrom (i + 1)))
      ∨ ∃ e n k, Script.read tabWidth text = .error e
          ∧ Turns tabWidth n (.start text.toList) k ∧ k.Stops tabWidth (.error e)
          ∧ text.toList = k.behind ++ k.ahead
          ∧ e.literal.StaysOpen k.ahead
          ∧ e.location = shownBehind tabWidth k.behind := by
  obtain ⟨n, k, hturns, hstop⟩ := exists_stop tabWidth text
  cases hread : Script.read tabWidth text with
  | ok s =>
      left
      rw [hread] at hstop
      obtain ⟨hend, rfl⟩ := hstop
      refine ⟨_, rfl, fun i t ht => ?_⟩
      have hclosed := hturns.preserves closed_turn (closed_start text.toList)
      rw [Script.get?_ofTokens] at ht
      obtain ⟨made, hmade, rfl⟩ := Option.map_eq_some_iff.mp ht
      rw [textFrom_ofTokens]
      have hmore := hclosed i made hmade
      rw [turn_end hend, List.append_nil] at hmore
      exact hmore
  | error e =>
      right
      rw [hread] at hstop
      obtain ⟨c, cs, hahead, hextent, hlocation⟩ := turn_error hstop
      have hplaced := hturns.preserves placed_turn (placed_start tabWidth text.toList)
      have htext := hturns.text_eq
      rw [behind_start] at htext
      refine ⟨e, n, k, rfl, hturns, hstop, htext.symm, ?_, hlocation.trans hplaced.location⟩
      rw [hahead]
      exact staysOpen_of_extent hextent

end SwitchLayout
