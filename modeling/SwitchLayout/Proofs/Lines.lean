/-
  SwitchLayout.Proofs.Lines
  ─────────────────────────
  **Stretches and lines of a script.**

  `StandsAt` says that a list stands in a longer one from some position on.  What is known of a
  stretch of lexemes by its list is known of the script at the positions of the stretch: kinds,
  brackets and locations.

  `LineFrom` is the state in which a script is handed from one line to the next: code, a line
  break, and the start of line `n` behind it.  One line keeps it (`lineFrom_of_line`), and what
  comes first on such a line is found there by the questions that rules ask:

    • `leads_of_line` — its line and its column, and that it starts the line,
    • `LineFrom.previous?_eq` — the code in front of it stands on the line above.
-/
import SwitchLayout.Proofs.Reading
import SwitchLayout.Proofs.Scopes

namespace SwitchLayout

open Text

/-! ## §1. Stretches. -/

/-- The list `ys` stands in `xs` from position `p` on. -/
def StandsAt {α : Type} (xs : List α) (p : Nat) (ys : List α) : Prop :=
  ∀ i, i < ys.length → xs[p + i]? = ys[i]?

namespace StandsAt

variable {α : Type} {xs ys zs : List α} {p : Nat}

/-- A list stands in itself from the front on. -/
theorem self (xs : List α) : StandsAt xs 0 xs := by
  intro i _
  rw [Nat.zero_add]

theorem head {y : α} (h : StandsAt xs p (y :: ys)) : xs[p]? = some y :=
  h 0 (Nat.zero_lt_succ _)

theorem tail {y : α} (h : StandsAt xs p (y :: ys)) : StandsAt xs (p + 1) ys := by
  intro i hi
  have hget := h (i + 1) (Nat.succ_lt_succ hi)
  rw [List.getElem?_cons_succ] at hget
  rw [← hget, Nat.add_assoc, Nat.add_comm 1 i]

/-- A stretch may be made longer at the front. -/
theorem cons {y : α} (hy : xs[p]? = some y) (h : StandsAt xs (p + 1) ys) :
    StandsAt xs p (y :: ys) := by
  intro i hi
  cases i with
  | zero => exact hy
  | succ i =>
      rw [List.getElem?_cons_succ, ← h i (Nat.lt_of_succ_lt_succ hi), Nat.add_assoc,
        Nat.add_comm 1 i]

theorem left (h : StandsAt xs p (ys ++ zs)) : StandsAt xs p ys := by
  intro i hi
  rw [h i (by rw [List.length_append]; omega), List.getElem?_append_left hi]

theorem right (h : StandsAt xs p (ys ++ zs)) : StandsAt xs (p + ys.length) zs := by
  intro i hi
  have hget := h (ys.length + i) (by rw [List.length_append]; omega)
  rw [List.getElem?_append_right (by omega), Nat.add_sub_cancel_left] at hget
  rw [← hget, Nat.add_assoc]

/-- What stands in a list stands there under every map. -/
theorem map {β : Type} (f : α → β) (h : StandsAt xs p ys) : StandsAt (xs.map f) p (ys.map f) := by
  intro i hi
  rw [List.length_map] at hi
  rw [List.getElem?_map, List.getElem?_map, h i hi]

/-- What holds of all members of a stretch holds at all its positions. -/
theorem exists_mem (h : StandsAt xs p ys) {j : Nat} (hlo : p ≤ j) (hhi : j < p + ys.length) :
    ∃ y ∈ ys, xs[j]? = some y := by
  have hlt : j - p < ys.length := by omega
  refine ⟨ys[j - p], List.getElem_mem hlt, ?_⟩
  have hget := h (j - p) hlt
  rw [show p + (j - p) = j by omega, List.getElem?_eq_getElem hlt] at hget
  exact hget

/-- The stretch itself, cut out of the list. -/
theorem take_drop (h : StandsAt xs p ys) : (xs.drop p).take ys.length = ys := by
  apply List.ext_getElem?
  intro i
  rw [List.getElem?_take]
  by_cases hi : i < ys.length
  · rw [if_pos hi, List.getElem?_drop, h i hi]
  · rw [if_neg hi, List.getElem?_eq_none (by omega)]

end StandsAt

/-! ## §2. The tokens of a stretch. -/

namespace Script

variable {s : Script} {p : Nat} {l : Lexeme}

/-- Where there is a lexeme there is a token, and it is that lexeme. -/
theorem get?_of_lexeme (h : s.lexemes[p]? = some l) :
    ∃ t, s.get? p = some t ∧ t.lexeme = l ∧ s.tokenAt p = t := by
  rw [getElem?_lexemes, Option.map_eq_some_iff] at h
  obtain ⟨t, ht, hl⟩ := h
  refine ⟨t, ht, hl, ?_⟩
  unfold tokenAt
  rw [ht]
  rfl

theorem kindAt_of_lexeme (h : s.lexemes[p]? = some l) : s.kindAt p = l.kind := by
  obtain ⟨t, _, rfl, ht⟩ := get?_of_lexeme h
  unfold kindAt
  rw [ht]
  rfl

theorem chars_of_lexeme (h : s.lexemes[p]? = some l) : (s.tokenAt p).chars = l.chars := by
  obtain ⟨t, _, rfl, ht⟩ := get?_of_lexeme h
  rw [ht]
  rfl

theorem lt_size_of_lexeme (h : s.lexemes[p]? = some l) : p < s.size := by
  obtain ⟨t, ht, _⟩ := get?_of_lexeme h
  exact (Array.getElem?_eq_some_iff.mp ht).1

theorem position_tokenAt (h : s.lexemes[p]? = some l) : (s.tokenAt p).position = p := by
  obtain ⟨t, hget, _, ht⟩ := get?_of_lexeme h
  rw [ht]
  exact position_of_get? hget

/-- The kinds of a stretch. -/
theorem kindAt_of_standsAt {ls : List Lexeme} {P : TokenKind → Prop}
    (h : StandsAt s.lexemes p ls) (hls : ∀ l ∈ ls, P l.kind) {j : Nat} (hlo : p ≤ j)
    (hhi : j < p + ls.length) : P (s.kindAt j) := by
  obtain ⟨l, hl, hj⟩ := h.exists_mem hlo hhi
  rw [kindAt_of_lexeme hj]
  exact hls l hl

/-- The tokens of a stretch between those in front of it and those behind. -/
theorem tokens_of_standsAt {ls : List Lexeme} (h : StandsAt s.lexemes p ls) :
    ∃ ts, ts.map Token.lexeme = ls
      ∧ s.tokens.toList = s.tokens.toList.take p ++ (ts ++ s.tokens.toList.drop (p + ls.length)) := by
  refine ⟨(s.tokens.toList.drop p).take ls.length, ?_, ?_⟩
  · rw [List.map_take, List.map_drop]
    exact h.take_drop
  · rw [← List.drop_drop, List.take_append_drop, List.take_append_drop]

/-- Lexemes give away the kinds. -/
theorem map_kind_of_map_lexeme {ts : List Token} {ls : List Lexeme}
    (h : ts.map Token.lexeme = ls) : ts.map Token.kind = ls.map Lexeme.kind := by
  rw [← h, List.map_map]
  rfl

/-- No group of a balanced stretch reaches out of it. -/
theorem isOutside_of_standsAt {ls : List Lexeme} (h : StandsAt s.lexemes p ls) (hp : p ≤ s.size)
    (hls : Balanced (ls.map Lexeme.kind)) : s.brackets.IsOutside p (p + ls.length) := by
  obtain ⟨ts, hts, hs⟩ := tokens_of_standsAt h
  have hout := isOutside_of_balanced hls _ ts _ hs (map_kind_of_map_lexeme hts)
  have hbefore : (s.tokens.toList.take p).length = p := by
    rw [List.length_take, Array.length_toList]
    exact Nat.min_eq_left hp
  have hlength : ts.length = ls.length := by rw [← hts, List.length_map]
  rwa [hbefore, hlength] at hout

/-- The brackets around a balanced stretch are partners. -/
theorem groupEnd?_of_standsAt {ls : List Lexeme} {opener closer : Lexeme} {shape : BracketShape}
    (h : StandsAt s.lexemes p (opener :: (ls ++ [closer])))
    (hopens : opener.kind.opens? = some shape) (hcloses : closer.kind.closes? = some shape)
    (hls : Balanced (ls.map Lexeme.kind)) :
    s.brackets.groupEnd? p = some (p + ls.length + 1) := by
  obtain ⟨ts, hts, hs⟩ := tokens_of_standsAt h
  obtain ⟨t, us, rfl, rfl, hrest⟩ := List.map_eq_cons_iff.mp hts
  obtain ⟨inner, vs, rfl, hinner, hclose⟩ := List.map_eq_append_iff.mp hrest
  obtain ⟨u, ws, rfl, rfl, _⟩ := List.map_eq_cons_iff.mp hclose
  rw [List.cons_append, List.append_assoc, List.cons_append] at hs
  have hgroup := groupEnd?_of_balanced hs hopens hcloses (by
    rw [map_kind_of_map_lexeme hinner]
    exact hls)
  have hbefore : (s.tokens.toList.take p).length = p := by
    rw [List.length_take, Array.length_toList]
    exact Nat.min_eq_left (Nat.le_of_lt (lt_size_of_lexeme h.head))
  have hlength : inner.length = ls.length := by rw [← hinner, List.length_map]
  rwa [hbefore, hlength] at hgroup

end Script

/-! ## §3. Locations. -/

/-- No character of the lexeme breaks the line. -/
def Lexeme.isInline (l : Lexeme) : Bool := l.chars.all (!isLineBreak ·)

/-- The lexeme of the end of a line. -/
def Lexeme.newline : Lexeme := ⟨.whitespace, ['\n']⟩

/-- The layout in front of what stands `d` columns deep. -/
def Lexeme.indentation (d : Nat) : List Lexeme :=
  if d = 0 then [] else [⟨.whitespace, List.replicate d ' '⟩]

/-- Lexemes that go over no line leave off on the line where they start. -/
theorem line_locationBehind {tabWidth : Nat} {ls : List Lexeme}
    (hls : ls.all Lexeme.isInline = true) (loc : Location) :
    (locationBehind tabWidth loc ls).line = loc.line := by
  induction ls generalizing loc with
  | nil => rfl
  | cons l ls ih =>
      rw [List.all_cons, Bool.and_eq_true] at hls
      exact (ih hls.2 _).trans (Location.line_after hls.1 loc)

/-- Spaces take a column each. -/
theorem Location.after_spaces (tabWidth line column d : Nat) :
    (⟨line, column⟩ : Location).after tabWidth (List.replicate d ' ') = ⟨line, column + d⟩ := by
  induction d generalizing column with
  | zero => rfl
  | succ d ih =>
      rw [List.replicate_succ, Location.after_cons]
      have hstep : (⟨line, column⟩ : Location).step tabWidth ' ' (List.replicate d ' ').head?
          = ⟨line, column + 1⟩ := by
        unfold Location.step
        rw [if_neg (by simp), if_neg (by simp)]
      rw [hstep, ih, Nat.add_assoc, Nat.add_comm 1 d]

namespace Script

variable {s : Script} {tabWidth p n : Nat} {l : Lexeme}

/-- The location behind the lexemes in front of `p`. -/
def locationAt (s : Script) (tabWidth p : Nat) : Location :=
  locationBehind tabWidth .origin (s.lexemes.take p)

/-- Every token has the location behind what stands in front of it. -/
def Located (s : Script) (tabWidth : Nat) : Prop :=
  ∀ p t, s.get? p = some t → t.location = s.locationAt tabWidth p

/-- Without a byte order mark the first token stands where the script starts. -/
theorem located_of_read {text : String} (h : read tabWidth text = .ok s)
    (hmark : (splitMark text.toList).1 = []) : s.Located tabWidth := by
  obtain ⟨ls, _, rfl⟩ := read_eq_ok_iff.mp h
  intro p t ht
  rw [hmark, List.map_nil, List.nil_append] at ht ⊢
  unfold locationAt
  rw [lexemes_ofTokens, map_lexeme_locate]
  rw [get?_ofTokens, getElem?_locate, Option.map_map, Option.map_eq_some_iff] at ht
  obtain ⟨l, _, rfl⟩ := ht
  rfl

/-- Behind a stretch of lexemes, counted from its front. -/
theorem locationAt_add {ls : List Lexeme} (h : StandsAt s.lexemes p ls) :
    s.locationAt tabWidth (p + ls.length) = locationBehind tabWidth (s.locationAt tabWidth p) ls := by
  unfold locationAt
  rw [List.take_add, h.take_drop]
  exact List.foldl_append

theorem locationAt_succ (h : s.lexemes[p]? = some l) :
    s.locationAt tabWidth (p + 1) = (s.locationAt tabWidth p).after tabWidth l.chars := by
  have hone : StandsAt s.lexemes p [l] := by
    intro i hi
    obtain rfl : i = 0 := Nat.lt_one_iff.mp hi
    exact h
  exact locationAt_add hone

theorem lineAt_of_lexeme (hs : s.Located tabWidth) (h : s.lexemes[p]? = some l) :
    s.lineAt p = (s.locationAt tabWidth p).line := by
  obtain ⟨t, hget, _, ht⟩ := get?_of_lexeme h
  unfold lineAt Token.line
  rw [ht, hs p t hget]

theorem columnAt_of_lexeme (hs : s.Located tabWidth) (h : s.lexemes[p]? = some l) :
    s.columnAt p = (s.locationAt tabWidth p).column := by
  obtain ⟨t, hget, _, ht⟩ := get?_of_lexeme h
  unfold columnAt Token.column
  rw [ht, hs p t hget]

/-- A token without a line break ends on the line on which it starts. -/
theorem endLineAt_of_isInline (h : s.lexemes[p]? = some l) (hl : l.isInline = true) :
    s.endLineAt p = s.lineAt p := by
  unfold endLineAt Token.endLine
  rw [chars_of_lexeme h]
  have hcount : (l.chars.reverse.dropWhile isLineBreak).count '\n' = 0 := by
    refine List.count_eq_zero.mpr fun hmem => ?_
    have hbreak := List.all_eq_true.mp hl '\n'
      (List.mem_reverse.mp ((List.dropWhile_suffix _).subset hmem))
    cases hbreak
  rw [hcount]
  rfl

/-- Lexemes without a line break stay on the line on which they start. -/
theorem line_locationAt {ls : List Lexeme} (h : StandsAt s.lexemes p ls)
    (hls : ls.all Lexeme.isInline = true) :
    (s.locationAt tabWidth (p + ls.length)).line = (s.locationAt tabWidth p).line := by
  rw [locationAt_add h, line_locationBehind hls]

end Script

/-! ## §4. Lines. -/

namespace Script

variable {s : Script} {tabWidth p n q : Nat}

/-- Line `n` starts behind the code at `q`, which ends the line above, and its line break. -/
structure LineFrom (s : Script) (tabWidth n q : Nat) : Prop where
  mark : ∃ l, s.lexemes[q]? = some l ∧ l.kind ≠ .whitespace ∧ l.isInline = true
  mark_line : (s.locationAt tabWidth q).line + 1 = n
  newline : s.lexemes[q + 1]? = some .newline

/-- **One line.**  A line of code that ends in `mark` hands over to the line below. -/
theorem lineFrom_of_line {ls : List Lexeme} {mark : Lexeme}
    (hline : (s.locationAt tabWidth p).line = n)
    (h : StandsAt s.lexemes p (ls ++ [mark, .newline])) (hls : ls.all Lexeme.isInline = true)
    (hmark : mark.kind ≠ .whitespace) (hinline : mark.isInline = true) :
    s.LineFrom tabWidth (n + 1) (p + ls.length) where
  mark := ⟨mark, h.right.head, hmark, hinline⟩
  mark_line := by rw [line_locationAt h.left hls, hline]
  newline := h.right.tail.head

namespace LineFrom

/-- The line break stands on the line that it ends, -/
theorem line_newline (h : s.LineFrom tabWidth n q) :
    (s.locationAt tabWidth (q + 1)).line + 1 = n := by
  obtain ⟨l, hl, _, hinline⟩ := h.mark
  rw [locationAt_succ hl, Location.line_after hinline, h.mark_line]

/-- The line starts in its first column. -/
theorem starts (h : s.LineFrom tabWidth n q) : s.locationAt tabWidth (q + 2) = ⟨n, 1⟩ := by
  rw [locationAt_succ h.newline, ← h.line_newline]
  rfl

/-- and so does the code in front of it. -/
theorem endLineAt_mark (h : s.LineFrom tabWidth n q) (hs : s.Located tabWidth) :
    s.endLineAt q + 1 = n := by
  obtain ⟨l, hl, _, hinline⟩ := h.mark
  rw [endLineAt_of_isInline hl hinline, lineAt_of_lexeme hs hl, h.mark_line]

/-- The line break in front of a line is not on it. -/
theorem lineAt_newline (h : s.LineFrom tabWidth n q) (hs : s.Located tabWidth) :
    s.lineAt (q + 1) ≠ n := by
  have hline := h.line_newline
  rw [lineAt_of_lexeme hs h.newline]
  omega

/-- **The code above.**  From the layout at the start of a line, the code in front of it is what
ends the line above. -/
theorem previous?_eq (h : s.LineFrom tabWidth n q) {i start : Nat} (hstart : start ≤ q)
    (hqi : q < i) (hi : i ≤ s.size) (hblank : ∀ j, q < j → j < i → s.kindAt j = .whitespace) :
    s.previous? (· ≠ .whitespace) (i - 1) start = some q := by
  obtain ⟨l, hl, hcode, _⟩ := h.mark
  unfold previous?
  rw [lastIn?_eq_some_iff]
  refine ⟨hstart, by omega, ?_, fun j hqj hj => ?_⟩
  · rw [kindAt_of_lexeme hl]
    exact decide_eq_true hcode
  · rw [hblank j hqj (by omega)]
    rfl

end LineFrom

/-! ## §5. What comes first on a line. -/

/-- The token at `i` comes first on line `n`, `d` columns deep. -/
structure Leads (s : Script) (n d i : Nat) : Prop where
  line : s.lineAt i = n
  column : s.columnAt i = d + 1
  starts : s.lineStart? i = some i

/-- A row goes back no further than to the token in front of which another line ends. -/
theorem rowStart_self {i : Nat} (h : i = 0 ∨ s.lineAt (i - 1) ≠ n) : s.rowStart n i = i := by
  cases i with
  | zero => rfl
  | succ i =>
      rw [rowStart]
      rcases h with h | h
      · cases h
      · rw [Nat.add_sub_cancel] at h
        rw [if_neg h]

/-- Behind nothing but layout on its row code starts its line. -/
theorem lineStart?_self {i : Nat} (hi : i < s.size) (hcode : s.kindAt i ≠ .whitespace)
    (hrow : ∀ j, s.rowStart (s.lineAt i) i ≤ j → j < i → s.kindAt j = .whitespace) :
    s.lineStart? i = some i := by
  unfold lineStart?
  rw [if_pos hi, next?_eq_some_iff]
  refine ⟨rowStart_le s _ i, Nat.lt_succ_self i, hi, decide_eq_true hcode, fun j hlo hji => ?_⟩
  rw [hrow j hlo hji]
  rfl

/-- **What comes first on a line.** -/
theorem leads_of_line (hs : s.Located tabWidth) {d : Nat} {l : Lexeme}
    (hstart : s.locationAt tabWidth p = ⟨n, 1⟩) (habove : p = 0 ∨ s.lineAt (p - 1) ≠ n)
    (h : StandsAt s.lexemes p (Lexeme.indentation d ++ [l])) (hcode : l.kind ≠ .whitespace) :
    s.Leads n d (p + (Lexeme.indentation d).length) := by
  have hl := h.right.head
  have hkind : s.kindAt (p + (Lexeme.indentation d).length) ≠ .whitespace := by
    rw [kindAt_of_lexeme hl]
    exact hcode
  have hsize := lt_size_of_lexeme hl
  have hline := lineAt_of_lexeme hs hl
  have hcolumn := columnAt_of_lexeme hs hl
  by_cases hd : d = 0
  · -- nothing stands in front
    have hnone : (Lexeme.indentation d).length = 0 := by
      unfold Lexeme.indentation
      rw [if_pos hd]
      rfl
    rw [hnone, Nat.add_zero] at hkind hsize hline hcolumn ⊢
    rw [hstart] at hline hcolumn
    refine ⟨hline, by rw [hcolumn, hd], lineStart?_self hsize hkind fun j hlo hjp => ?_⟩
    rw [hline, rowStart_self habove] at hlo
    omega
  · -- one token of spaces stands in front
    have hone : Lexeme.indentation d = [⟨.whitespace, List.replicate d ' '⟩] := if_neg hd
    have hspace : s.lexemes[p]? = some ⟨.whitespace, List.replicate d ' '⟩ := by
      rw [hone] at h
      exact h.head
    have hlength : (Lexeme.indentation d).length = 1 := by rw [hone]; rfl
    have hbehind : s.locationAt tabWidth (p + 1) = ⟨n, 1 + d⟩ := by
      rw [locationAt_succ hspace, hstart, Location.after_spaces]
    have hfirst : s.lineAt p = n := by rw [lineAt_of_lexeme hs hspace, hstart]
    rw [hlength] at hkind hsize hline hcolumn ⊢
    rw [hbehind] at hline hcolumn
    refine ⟨hline, by rw [hcolumn, Nat.add_comm], lineStart?_self hsize hkind fun j hlo hjp => ?_⟩
    rw [hline, rowStart, if_pos hfirst, rowStart_self habove] at hlo
    obtain rfl : j = p := by omega
    exact kindAt_of_lexeme hspace

/-- What comes first on a line below code. -/
theorem LineFrom.leads (h : s.LineFrom tabWidth n q) (hs : s.Located tabWidth) {d : Nat}
    {l : Lexeme} (hstands : StandsAt s.lexemes (q + 2) (Lexeme.indentation d ++ [l]))
    (hcode : l.kind ≠ .whitespace) : s.Leads n d (q + 2 + (Lexeme.indentation d).length) :=
  leads_of_line hs h.starts (Or.inr (h.lineAt_newline hs)) hstands hcode

end Script

end SwitchLayout
