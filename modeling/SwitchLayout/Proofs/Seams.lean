/-
  SwitchLayout.Proofs.Seams
  ─────────────────────────
  **Reading one text behind another.**

  A line feed at the end of a text is a seam.  The lexemes in front of it do not change with what
  comes behind (`lexemes_append_newline`), and what comes behind starts in the first column of a
  new line (`locationBehind_newline`).  One thing crosses the seam: an operator that a member name
  follows makes the first word of the next text a name.  A text whose last lexeme of code is no
  operator leaves nothing of that kind (`memberAfter_eq_false`).

  The main statement is `read_append`: the script of both texts is the script of the first with
  the script of the second set below it.
-/
import Mathlib.Data.List.Induction
import SwitchLayout.Proofs.Windows

namespace SwitchLayout

open Text

/-! ## §1. The last character of a lexeme. -/

/-- A string ends in its quote. -/
theorem getLast?_of_quoteEnd? {quote : Char} {t : List Char}
    (h : quoteEnd? quote t = some t.length) : t.getLast? = some quote := by
  fun_induction quoteEnd? quote t with
  | case1 => cases h
  | case2 => cases h
  | case3 d rest ih =>
      obtain ⟨n, hn, hlength⟩ := Option.map_eq_some_iff.mp h
      obtain rfl : n = rest.length := by simpa using hlength
      rw [List.getLast?_cons, List.getLast?_cons, ih hn]
      rfl
  | case4 cs hc =>
      cases cs with
      | nil => rfl
      | cons e cs => simp at h
  | case5 c cs hc hquote ih =>
      obtain ⟨n, hn, hlength⟩ := Option.map_eq_some_iff.mp h
      obtain rfl : n = cs.length := by simpa using hlength
      rw [List.getLast?_cons, ih hn]
      rfl

/-- A block comment ends in a slash. -/
theorem getLast?_of_commentEnd? {t : List Char} (h : commentEnd? t = some t.length) :
    t.getLast? = some '/' := by
  induction t with
  | nil => cases h
  | cons c t ih =>
      rw [commentEnd?] at h
      split at h
      · rename_i hpair
        cases t with
        | nil => cases h
        | cons d t =>
            obtain rfl : t = [] := by simpa using h
            obtain rfl : d = '/' := by simpa using hpair.2
            rfl
      · obtain ⟨n, hn, hlength⟩ := Option.map_eq_some_iff.mp h
        obtain rfl : n = t.length := by simpa using hlength
        rw [List.getLast?_cons, ih hn]
        rfl

section Lexeme

variable {member : Bool} {c : Char} {t rest : List Char} {kind : TokenKind}

/-- A lexeme that is no layout does not end in a line break. -/
theorem getLast?_of_extent (hc : isLayout c = false)
    (h : extent member c t = .ok (kind, t.length)) {d : Char} (hd : (c :: t).getLast? = some d) :
    isLineBreak d = false := by
  have hform := (extent_form h).2
  rw [List.take_length] at hform
  by_cases hall : (c :: t).all (!isLineBreak ·) = true
  · simpa using List.all_eq_true.mp hall d (List.mem_of_getLast? hd)
  -- only strings and comments have line breaks in them, and both have an end of their own
  have hclosed : (Lexeme.mk kind (c :: t)).isClosed = true :=
    LexemeForm.isClosed_of_lineBreak hform rfl hall
  have hkind : kind = .string ∨ kind = .comment := by
    have hspace : kind ≠ .whitespace := fun hkind => by
      rw [hform.whitespace_iff.mp hkind] at hc
      cases hc
    unfold Lexeme.isClosed at hclosed
    simp only [Bool.or_eq_true, beq_iff_eq, Bool.and_eq_true] at hclosed
    rcases hclosed with (hkind | hkind) | ⟨hkind, _⟩
    · exact absurd hkind hspace
    · exact .inl hkind
    · exact .inr hkind
  cases hform with
  | layout hlayout => rcases hkind with hkind | hkind <;> cases hkind
  | lineComment hstart hline => exact absurd hline hall
  | @blockComment t =>
      rw [extent_slash, List.head?_cons, if_neg (by decide), if_pos rfl] at h
      split at h
      · rename_i n hn
        obtain rfl : n = t.length := by simpa using h
        have hend : t.getLast? = some '/' := getLast?_of_commentEnd? hn
        rw [List.getLast?_cons_cons, List.getLast?_cons, hend] at hd
        obtain rfl := Option.some.inj hd
        decide
      · cases h
  | string hquote =>
      rw [extent_quote hquote] at h
      split at h
      · rename_i n hn
        obtain rfl : n = t.length := by simpa using h
        rw [List.getLast?_cons, getLast?_of_quoteEnd? hn] at hd
        obtain rfl := Option.some.inj hd
        rcases isQuote_cases hquote with rfl | rfl | rfl <;> decide
      · cases h
  | word hword =>
      have hne : ∀ {k : TokenKind}, k.isWord = false →
          (if member = true then TokenKind.word else wordKind (c :: t)) ≠ k :=
        ne_of_isWord (isWord_of_member member _)
      rcases hkind with hkind | hkind
      · exact absurd hkind (hne rfl)
      · exact absurd hkind (hne rfl)
  | mark hmark =>
      rcases hkind with rfl | rfl <;> cases hmark

/-- **No lexeme ends inside of a line break.** -/
theorem extent_parts_no_break (h : extent member c (t ++ rest) = .ok (kind, t.length))
    (hlast : (c :: t).getLast? = some '\r') : rest.head? ≠ some '\n' := by
  have hform := (extent_form h).2
  rw [List.take_left] at hform
  cases hc : isLayout c with
  | true =>
      rw [hform.whitespace_iff.mpr hc] at h
      intro hhead
      refine lexeme_parts_no_break h hc hlast ?_
      cases rest with
      | nil => cases hhead
      | cons d rest =>
          obtain rfl : d = '\n' := by simpa using hhead
          rfl
  | false =>
      have hbreak := getLast?_of_extent hc ((extent_append_iff hc member t rest kind).mp h).1 hlast
      exact absurd hbreak (by decide)

/-! ## §2. Lexemes in front of a line feed. -/

/-- What holds no line feed and starts inside of a text with a line feed at its end does not
reach that end. -/
theorem take_append_newline {w : List Char} (hw : w.getLast? = some '\n') {n : Nat}
    (h : '\n' ∉ (w ++ rest).take n) : (w ++ rest).take n = w.take n := by
  have hlt : n ≤ w.length := by
    by_contra hgt
    refine h ?_
    rw [List.take_append, List.take_of_length_le (by omega)]
    exact List.mem_append_left _ (List.mem_of_getLast? hw)
  rw [List.take_append_of_le_length hlt]

/-- Where a lexeme ends in front of a line feed, it ends whatever is behind that. -/
theorem endsAt_append_newline {text w : List Char} (hw : w.getLast? = some '\n')
    (h : EndsAt text w) (rest : List Char) : EndsAt text (w ++ rest) := by
  have hhead : (w ++ rest).head? = w.head? := by
    cases w with
    | nil => cases hw
    | cons d w => rfl
  -- what the end of a lexeme hangs on is at most three characters, none of them a line feed
  refine endsAt_transfer h (fun d hd => ?_) (fun harrow => ?_) fun htag => ?_
  · rw [hhead] at hd
    exact .inl hd
  · rw [← take_append_newline hw (by rw [harrow]; decide), harrow]
  · rw [← take_append_newline hw fun hmem => ?_, htag]
    exact absurd (isLayout_of_mem_tag htag _ hmem) (by decide)

/-- **A lexeme in front of a line feed** ends where it does, whatever is behind that. -/
theorem extent_append_newline {w : List Char}
    (h : extent member c (t ++ w) = .ok (kind, t.length))
    (hlast : (c :: (t ++ w)).getLast? = some '\n') (rest : List Char) :
    extent member c (t ++ (w ++ rest)) = .ok (kind, t.length) := by
  rw [← List.cons_append, List.getLast?_append] at hlast
  cases hc : isLayout c with
  | false =>
      obtain ⟨hextent, hends⟩ := (extent_append_iff hc member t w kind).mp h
      refine (extent_append_iff hc member t _ kind).mpr ⟨hextent, ?_⟩
      rcases Option.or_eq_some_iff.mp hlast with hw | ⟨_, hlexeme⟩
      · exact endsAt_append_newline hw hends rest
      · exact absurd (getLast?_of_extent hc hextent hlexeme) (by decide)
  | true =>
      -- only a blank or a carriage return looks at what is behind
      have hhead : (c :: t).getLast? ≠ some '\n' → (w ++ rest).head? = w.head? := by
        intro hlexeme
        cases w with
        | nil => exact absurd hlast hlexeme
        | cons d w => rfl
      have hcases : isBlank c = true ∨ c = '\n' ∨ c = '\r' := by
        simpa [isLayout, isLineBreak] using hc
      rcases hcases with hblank | rfl | rfl
      · rw [extent_blank hblank] at h ⊢
        obtain ⟨rfl, hlength⟩ := Prod.mk.inj (Except.ok.inj h)
        obtain ⟨hrun, hnext⟩ := (runLength_append_iff isBlank t w).mp hlength
        have hlexeme : (c :: t).getLast? ≠ some '\n' := by
          intro hlexeme
          rcases List.mem_cons.mp (List.mem_of_getLast? hlexeme) with rfl | hmem
          · exact absurd hblank (by decide)
          · exact absurd (all_of_runLength hrun _ hmem) (by decide)
        rw [(runLength_append_iff isBlank t (w ++ rest)).mpr ⟨hrun, by rwa [hhead hlexeme]⟩]
      · rw [extent_newline] at h ⊢
        exact h
      · rw [extent_return] at h ⊢
        cases t with
        | nil =>
            rw [List.nil_append] at h ⊢
            rw [hhead (by decide)]
            exact h
        | cons d t => exact h

end Lexeme

/-- Whether a word behind the lexemes names a member. -/
def memberAfter (member : Bool) (ls : List Lexeme) : Bool := ls.foldl Lexeme.memberNext member

/-- **The lexemes in front of a line feed** are those of the text up to it, and the others are
those of the text behind it. -/
theorem lexemes_append_newline {member : Bool} {u : List Char} {ls : List Lexeme}
    (h : lexemes member u = (ls, none)) (hlast : ∀ d ∈ u.getLast?, d = '\n')
    (rest : List Char) :
    lexemes member (u ++ rest)
      = (ls ++ (lexemes (memberAfter member ls) rest).1,
          (lexemes (memberAfter member ls) rest).2) := by
  -- the condition on the last character holds of every rest, of the empty one too
  induction ls generalizing member u with
  | nil =>
      have hchars := chars_lexemes member u (by rw [h])
      rw [h] at hchars
      rw [← hchars]
      rfl
  | cons l ls ih =>
      obtain ⟨c, t, w, rfl, hchars, hextent, hrest⟩ := lexemes_eq_cons h
      have hend : (c :: (t ++ w)).getLast? = some '\n' := by
        rw [List.getLast?_cons]
        exact congrArg some (hlast _ List.getLast?_cons)
      have hextent' := extent_append_newline hextent hend rest
      have hrest' := ih hrest fun d hd => hlast d (by
        rw [← List.cons_append, List.getLast?_append, show w.getLast? = some d from hd]
        rfl)
      rw [List.cons_append, List.append_assoc, lexemes_append hextent', ← hchars, hrest']
      rfl

/-! ## §3. Member names. -/

/-- What a member name follows is an operator. -/
theorem other_of_isMemberAccess {member : Bool} {cs : List Char} {ls : List Lexeme}
    {o : Option OpenLiteral} (h : lexemes member cs = (ls, o)) {l : Lexeme} (hl : l ∈ ls)
    (haccess : l.isMemberAccess = true) : l.kind = .other := by
  induction ls generalizing member cs with
  | nil => cases hl
  | cons l' ls ih =>
      obtain ⟨c, t, rest, rfl, hchars, hextent, hrest⟩ := lexemes_eq_cons h
      rcases List.mem_cons.mp hl with rfl | hl
      · unfold Lexeme.isMemberAccess at haccess
        rw [hchars] at haccess
        simp only [Bool.or_eq_true, beq_iff_eq, List.cons.injEq] at haccess
        rcases haccess with (⟨rfl, rfl⟩ | ⟨rfl, rfl⟩) | ⟨rfl, rfl⟩
        · rw [extent_arrow (.inl rfl)] at hextent
          simpa using hextent.symm
        · rw [extent_question] at hextent
          simpa using hextent.symm
        · rw [extent_colon] at hextent
          simpa using hextent.symm
      · exact ih hrest hl

/-- Lexemes of which the last one of code is no operator leave the next word a word. -/
theorem memberAfter_eq_false {member : Bool} {cs : List Char} {ls : List Lexeme}
    {o : Option OpenLiteral} (h : lexemes member cs = (ls, o))
    (hcode : ∀ l ∈ (codeOf ls).getLast?, l.kind ≠ .other) : memberAfter false ls = false := by
  have haccess : ∀ l ∈ ls, l.isMemberAccess = true → l.kind = .other :=
    fun l hl => other_of_isMemberAccess h hl
  clear h
  -- from the end: whitespace is passed over, anything else decides
  induction ls using List.reverseRecOn with
  | nil => rfl
  | append_singleton ls l ih =>
      have hafter : memberAfter false (ls ++ [l]) = l.memberNext (memberAfter false ls) := by
        unfold memberAfter
        rw [List.foldl_append]
        rfl
      have hsplit : codeOf (ls ++ [l]) = codeOf ls ++ codeOf [l] := List.filter_append ls [l]
      rw [hafter]
      unfold Lexeme.memberNext
      split
      · rename_i hspace
        rw [codeOf_space hspace] at hsplit
        refine ih (fun l' hl' => hcode l' ?_) fun l' hl' => haccess l' (List.mem_append_left _ hl')
        rw [hsplit, show codeOf [] = [] from rfl, List.append_nil]
        exact hl'
      · rename_i hspace
        rw [codeOf_code hspace] at hsplit
        rw [← Bool.not_eq_true]
        intro hmember
        refine hcode l ?_ (haccess l (List.mem_append_right _ List.mem_cons_self) hmember)
        rw [hsplit, show codeOf [] = [] from rfl, List.getLast?_concat]
        rfl

/-! ## §4. Locations. -/

namespace Location

theorem below_after (width lines : Nat) (l : Location) (cs : List Char) :
    (l.below lines).after width cs = (l.after width cs).below lines := by
  induction cs generalizing l with
  | nil => rfl
  | cons c cs ih =>
      have hstep : (l.below lines).step width c cs.head?
          = (l.step width c cs.head?).below lines := by
        unfold step
        split_ifs
        · show Location.mk (l.line + lines + 1) 1 = ⟨l.line + 1 + lines, 1⟩
          rw [Nat.add_right_comm]
        · rfl
        · rfl
      rw [after_cons, after_cons, hstep, ih]

/-- Behind a line feed is the first column. -/
theorem column_after_newline (width : Nat) (l : Location) {cs : List Char}
    (h : cs.getLast? = some '\n') : (l.after width cs).column = 1 := by
  induction cs generalizing l with
  | nil => cases h
  | cons c cs ih =>
      rw [after_cons]
      cases cs with
      | nil =>
          obtain rfl : c = '\n' := by simpa using h
          rfl
      | cons d cs =>
          rw [List.getLast?_cons_cons] at h
          exact ih _ h

end Location

theorem locationBehind_append (tabWidth : Nat) (loc : Location) (ls ls' : List Lexeme) :
    locationBehind tabWidth loc (ls ++ ls')
      = locationBehind tabWidth (locationBehind tabWidth loc ls) ls' :=
  List.foldl_append

theorem locationBehind_below (tabWidth lines : Nat) (loc : Location) (ls : List Lexeme) :
    locationBehind tabWidth (loc.below lines) ls
      = (locationBehind tabWidth loc ls).below lines := by
  induction ls generalizing loc with
  | nil => rfl
  | cons l ls ih =>
      show locationBehind tabWidth ((loc.below lines).after tabWidth l.chars) ls = _
      rw [Location.below_after, ih]
      rfl

/-- The location behind the lexemes of a text is the location behind the text. -/
theorem locationBehind_lexemes {member : Bool} {cs : List Char} {ls : List Lexeme}
    (h : lexemes member cs = (ls, none)) (tabWidth : Nat) (loc : Location) :
    locationBehind tabWidth loc ls = loc.after tabWidth cs := by
  induction ls generalizing member cs loc with
  | nil =>
      have hchars := chars_lexemes member cs (by rw [h])
      rw [h] at hchars
      rw [← hchars]
      rfl
  | cons l ls ih =>
      obtain ⟨c, t, rest, rfl, hchars, hextent, hrest⟩ := lexemes_eq_cons h
      rw [← List.cons_append, Location.after_append _ _ (extent_parts_no_break hextent), ← hchars,
        ← ih hrest]
      rfl

/-- **Behind a line feed** a new line starts. -/
theorem locationBehind_newline {member : Bool} {cs : List Char} {ls : List Lexeme}
    (h : lexemes member cs = (ls, none)) (hlast : cs.getLast? = some '\n') (tabWidth : Nat) :
    locationBehind tabWidth .origin ls = Location.origin.below (lineBreaks cs) := by
  rw [locationBehind_lexemes h]
  have hline := Location.line_after_eq tabWidth .origin cs
  have hcolumn := Location.column_after_newline tabWidth .origin hlast
  cases hloc : Location.origin.after tabWidth cs with
  | mk line column =>
      rw [hloc] at hline hcolumn
      change line = _ at hline
      change column = 1 at hcolumn
      rw [hline, hcolumn]
      rfl

theorem locate_append (tabWidth : Nat) (loc : Location) (ls ls' : List Lexeme) :
    locate tabWidth loc (ls ++ ls')
      = locate tabWidth loc ls ++ locate tabWidth (locationBehind tabWidth loc ls) ls' := by
  induction ls generalizing loc with
  | nil => rfl
  | cons l ls ih =>
      rw [List.cons_append, locate, ih]
      rfl

theorem locate_below (tabWidth lines : Nat) (loc : Location) (ls : List Lexeme) :
    locate tabWidth (loc.below lines) ls = (locate tabWidth loc ls).map (Token.shift 0 lines) := by
  induction ls generalizing loc with
  | nil => rfl
  | cons l ls ih =>
      rw [locate, locate, Location.below_after, ih]
      rfl

/-! ## §5. Reading. -/

/-- The error some lines further down. -/
def LexError.below (lines : Nat) (e : LexError) : LexError :=
  { e with location := e.location.below lines }

namespace Script

/-- The script with another one below it, whose lines go on behind `lines`. -/
def stack (s : Script) (lines : Nat) (s' : Script) : Script :=
  ofTokens (s.tokens.toList ++ s'.tokens.toList.map (Token.shift s.size lines))

/-- The tokens that are stacked have their positions already. -/
theorem tokens_stack (s : Script) (lines : Nat) (s' : Script) :
    (s.stack lines s').tokens.toList
      = s.tokens.toList ++ s'.tokens.toList.map (Token.shift s.size lines) := by
  show List.mapIdx _ _ = _
  refine List.ext_getElem? fun i => ?_
  rw [List.getElem?_mapIdx]
  cases ht : (s.tokens.toList ++ s'.tokens.toList.map (Token.shift s.size lines))[i]? with
  | none => rfl
  | some t =>
      have hposition : t.position = i := by
        rw [List.getElem?_append] at ht
        split at ht
        · exact position_of_get? (s := s) (by simpa [get?] using ht)
        · -- the token was moved by as many positions as there are tokens in front
          rename_i hge
          rw [List.getElem?_map] at ht
          obtain ⟨t', ht', rfl⟩ := Option.map_eq_some_iff.mp ht
          have hposition' : t'.position = i - s.tokens.toList.length :=
            position_of_get? (s := s') (by simpa [get?] using ht')
          show s.tokens.size + t'.position = i
          rw [hposition']
          simp only [Array.length_toList] at hge ⊢
          omega
      subst hposition
      rfl

theorem eq_of_tokens {s s' : Script} (h : s.tokens = s'.tokens) : s = s' := by
  cases s
  cases s'
  cases h
  rfl

theorem stack_ofTokens (ts ts' : List Token) (lines : Nat) :
    (ofTokens ts).stack lines (ofTokens ts') = ofTokens (ts ++ ts'.map (Token.shift 0 lines)) := by
  refine eq_of_tokens (Array.toList_inj.mp ?_)
  rw [tokens_stack, size_ofTokens]
  show _ = List.mapIdx _ _
  rw [List.mapIdx_append]
  refine congrArg _ (List.ext_getElem? fun i => ?_)
  show (List.map _ (List.mapIdx _ ts'))[i]? = _
  rw [List.getElem?_map, List.getElem?_mapIdx, List.getElem?_mapIdx, List.getElem?_map]
  cases ts'[i]? with
  | none => rfl
  | some t =>
      show some (Token.mk t.kind t.text (t.location.below lines) (ts.length + i))
        = some ⟨t.kind, t.text, t.location.below lines, i + ts.length⟩
      rw [Nat.add_comm]

theorem splitMark_append {cs : List Char} (hcs : cs ≠ []) (ds : List Char) :
    splitMark (cs ++ ds) = ((splitMark cs).1, (splitMark cs).2 ++ ds) := by
  cases cs with
  | nil => exact absurd rfl hcs
  | cons c cs =>
      rw [List.cons_append, splitMark, splitMark]
      split <;> rfl

theorem splitMark_of_head? {cs : List Char} (hcs : cs.head? ≠ some byteOrderMark) :
    splitMark cs = ([], cs) := by
  cases cs with
  | nil => rfl
  | cons c cs => exact if_neg fun hc => hcs (congrArg some hc)

/-- A mark is no line break. -/
theorem lineBreaks_splitMark (cs : List Char) : lineBreaks (splitMark cs).2 = lineBreaks cs := by
  cases cs with
  | nil => rfl
  | cons c cs =>
      rw [splitMark]
      split
      · rename_i hc
        subst hc
        rw [lineBreaks, if_neg (by simp [byteOrderMark])]
      · rfl

/-- **Reading one text behind another.**  The script of the second stands below that of the
first, and an error of the second is found as many lines further down. -/
theorem read_append {tabWidth : Nat} {a b : String} {s : Script} (h : read tabWidth a = .ok s)
    (hlast : a.toList.getLast? = some '\n') (hcode : ∀ l ∈ s.code.getLast?, l.kind ≠ .other)
    (hmark : b.toList.head? ≠ some byteOrderMark) :
    read tabWidth (a ++ b)
      = ((read tabWidth b).map (s.stack (lineBreaks a.toList))).mapError
          (LexError.below (lineBreaks a.toList)) := by
  obtain ⟨ls, hls, rfl⟩ := read_eq_ok_iff.mp h
  have hne : a.toList ≠ [] := by
    intro hnil
    rw [hnil] at hlast
    cases hlast
  -- the text behind the mark ends in the line feed too
  have hend : (splitMark a.toList).2.getLast? = some '\n' := by
    rw [← append_splitMark a.toList, List.getLast?_append] at hlast
    rcases Option.or_eq_some_iff.mp hlast with hrest | ⟨_, hmark⟩
    · exact hrest
    · exact absurd (mem_splitMark (List.mem_of_getLast? hmark)) (by decide)
  have hflag : memberAfter false ls = false := by
    have hcodeOf := code_read h
    unfold codeLexemes at hcodeOf
    rw [hls] at hcodeOf
    refine memberAfter_eq_false hls fun l hl => hcode l ?_
    rw [← (Prod.mk.inj hcodeOf).1]
    exact hl
  have hlocation : locationBehind tabWidth .origin ls
      = Location.origin.below (lineBreaks a.toList) := by
    rw [locationBehind_newline hls hend, lineBreaks_splitMark]
  have hlexemes := lexemes_append_newline hls (fun d hd => by
    rw [hend] at hd
    exact (Option.some.inj hd).symm) b.toList
  rw [hflag] at hlexemes
  unfold read
  rw [String.toList_append, splitMark_append hne, splitMark_of_head? hmark]
  dsimp only
  rw [hlexemes]
  cases hb : SwitchLayout.lexemes false b.toList with
  | mk ls' o =>
      cases o with
      | none =>
          dsimp only
          rw [locate_append, hlocation, locate_below, ← List.append_assoc, ← stack_ofTokens]
          rfl
      | some literal =>
          dsimp only
          rw [locationBehind_append, hlocation, locationBehind_below]
          rfl

end Script

end SwitchLayout
