/-
  SwitchLayout.Proofs.Realigning
  ──────────────────────────────
  **One statement is moved, and nothing else.**

  The edit that comes with a wrong column of the statement that ends a case puts spaces in front of
  the statement or takes some away.  It may empty a token, so that all that comes behind is numbered
  anew; the pieces of code keep their numbers, and by these the two scripts are compared.

    • `Relays.textBefore` — the text in front of each piece of code in a new layout,
    • `relays_moved`, `not_gluesIn_moved` — the edit is a new layout,
    • `Realigned.location_before`, `Realigned.location_moved` — the code in front of the statement
      stays, and the statement comes to its column,
    • `Realigned.agrees_step`, `Realigned.agrees_behind` — the code behind it stays, but for the
      rest of the line,
    • `Realigned.cured` — the check finds nothing wrong with the column any more.

  The main statement is `checkText_breakIndent_cured`.
-/
import SwitchLayout.Proofs.SecondBreak
import SwitchLayout.Proofs.Rendering
import SwitchLayout.Proofs.Locations

namespace SwitchLayout

open Text

/-! ## §1. Locations behind spaces and line breaks. -/

/-- Spaces behind a text lead on, one column each. -/
theorem shownBehind_spaces (tabWidth : Nat) (front : List Char) (n : Nat) :
    shownBehind tabWidth (front ++ List.replicate n ' ')
      = ⟨(shownBehind tabWidth front).line, (shownBehind tabWidth front).column + n⟩ := by
  have hhead : ∀ c, c ≠ ' ' → (List.replicate n ' ').head? ≠ some c := by
    intro c hc hhead
    exact hc (List.eq_of_mem_replicate (List.mem_of_mem_head? hhead))
  rw [shownBehind_append tabWidth (fun _ => hhead _ (by decide)) (fun _ => hhead _ (by decide))]
  exact Location.after_spaces tabWidth _ _ n

/-- The line behind a text does not hang on the column. -/
theorem Location.line_after_congr (tabWidth : Nat) {l l' : Location} (h : l'.line = l.line)
    (cs : List Char) : (l'.after tabWidth cs).line = (l.after tabWidth cs).line := by
  rw [line_after_eq, line_after_eq, h]

/-- Behind a line break it does not matter from which column of the line a text starts. -/
theorem Location.after_eq_of_lineBreaks (tabWidth : Nat) {l l' : Location} {cs : List Char}
    (h : l'.line = l.line) (hbreak : 0 < lineBreaks cs) :
    l'.after tabWidth cs = l.after tabWidth cs :=
  congrArg₂ Location.mk (line_after_congr tabWidth h cs)
    (column_after_of_lineBreaks tabWidth l' l hbreak)

namespace Script

variable {tabWidth : Nat} {text text' : String} {s s' : Script} {k : Nat}

/-! ## §2. The text in front of a piece of code. -/

section Layout

variable {f : Token → List Char}

theorem flatMap_drop (s : Script) (p : Nat) :
    (s.tokens.toList.drop p).flatMap Token.chars = s.textFrom p := by
  unfold textFrom lexemes
  rw [← List.map_drop, List.flatMap_map]
  rfl

theorem flatMap_take (s : Script) (p : Nat) :
    (s.tokens.toList.take p).flatMap Token.chars = s.textBefore p := by
  unfold textBefore lexemes
  rw [← List.map_take, List.flatMap_map]
  rfl

/-- The tokens up to one, and then the one. -/
theorem flatMap_take_succ (f : Token → List Char) {p : Nat} (hp : p < s.size) :
    (s.tokens.toList.take (p + 1)).flatMap f
      = (s.tokens.toList.take p).flatMap f ++ f (s.tokenAt p) := by
  have htoken : s.tokens.toList[p]? = some (s.tokenAt p) := by
    rw [Array.getElem?_toList]
    exact get?_of_lt hp
  rw [List.take_add_one, htoken, List.flatMap_append]
  simp

/-- A layout in three parts: in front of a token, the token, behind it. -/
theorem flatMap_append_at (f : Token → List Char) {p : Nat} (hp : p < s.size) :
    (s.tokens.toList.take p).flatMap f
        ++ (f (s.tokenAt p) ++ ((s.tokens.toList.map f).drop (p + 1)).flatten)
      = (s.tokens.toList.map f).flatten := by
  rw [← List.append_assoc, ← flatMap_take_succ f hp, ← List.map_drop, ← List.flatMap_def,
    ← List.flatMap_append, List.take_append_drop, List.flatMap_def]

/-- The same of the text that a script was read from. -/
theorem textBefore_append (h : read tabWidth text = .ok s) {p : Nat} (hp : p < s.size) :
    s.textBefore p ++ ((s.tokenAt p).chars ++ s.textFrom (p + 1)) = text.toList := by
  have hparts := flatMap_append_at Token.chars hp
  rw [← List.map_drop, ← List.flatMap_def, ← List.flatMap_def, flatMap_take, flatMap_drop] at hparts
  rw [hparts, ← source_read h, source, String.toList_ofList]

/-- **In front of a piece of code** stands what the new layout puts there, and the piece is the
same, if the layout adds nothing but blanks to it. -/
theorem Relays.textBefore (hf : s.Relays f) (h : read tabWidth text = .ok s)
    (htext : text'.toList = (s.tokens.toList.map f).flatten) (h' : read tabWidth text' = .ok s')
    (hsame : s.SameProgram s') (hk : k < s.code.length) {blanks : List Char}
    (hblanks : f (s.tokenAt (s.place k)) = blanks ++ (s.tokenAt (s.place k)).chars) :
    s'.textBefore (s'.place k) = (s.tokens.toList.take (s.place k)).flatMap f ++ blanks
      ∧ (s'.tokenAt (s'.place k)).chars = (s.tokenAt (s.place k)).chars := by
  have hk' : k < s'.code.length := by
    rw [hsame.length_code]
    exact hk
  have hread := textBefore_append h' (place_lt_size hk')
  have hlaid := flatMap_append_at f (place_lt_size hk)
  -- what comes behind is the same in both, and so is the length of the code
  rw [hf.textFrom h htext h' hsame hk, htext, ← hlaid, hblanks, ← List.append_assoc,
    ← List.append_assoc, List.append_cancel_right_eq, ← List.append_assoc] at hread
  exact List.append_inj' hread (hsame.same_place hk).length_chars

/-- The same program, written with the same characters, is the same code. -/
theorem SameProgram.code_eq (hsame : s.SameProgram s')
    (hchars : ∀ k < s.code.length,
      (s'.tokenAt (s'.place k)).chars = (s.tokenAt (s.place k)).chars) : s'.code = s.code := by
  apply List.ext_getElem hsame.length_code
  intro k hk' hk
  have hcode : ∀ {e : Script} (hk : k < e.code.length),
      e.code[k] = (e.tokenAt (e.place k)).lexeme := by
    intro e hk
    have hget := e.getElem?_place k
    rw [getElem?_lexemes_tokenAt (place_lt_size hk), List.getElem?_eq_getElem hk] at hget
    exact (Option.some.inj hget).symm
  have hkind : (s'.tokenAt (s'.place k)).kind = (s.tokenAt (s.place k)).kind :=
    hsame.kindAt_place k
  rw [hcode hk', hcode hk]
  exact congrArg₂ Lexeme.mk hkind (hchars k hk)

end Layout

/-! ## §3. The edit as a new layout. -/

section Edits

variable {expected c : Nat} {e : Edit} {t : Token}

/-- An edit that fits is made on its own token. -/
theorem rendering_self {p : Nat} (hfits : Selection.fits s e = true) (ht : s.get? p = some t)
    (hp : e.position = p) : rendering [e] t = e.apply t := by
  subst hp
  have hdeleted : e.deleted ≤ t.chars.length := by
    unfold Selection.fits at hfits
    rw [ht] at hfits
    simpa [Edit.fits] using hfits
  unfold rendering firstFitting?
  rw [List.find?_cons_of_pos (by simpa using ⟨(position_of_get? ht).symm, hdeleted⟩)]
  rfl

/-- All other tokens stay. -/
theorem rendering_other {p : Nat} (ht : s.get? p = some t) (hp : p ≠ e.position) :
    rendering [e] t = t.chars := by
  have hposition := position_of_get? ht
  unfold rendering firstFitting?
  rw [List.find?_cons_of_neg (by simp; omega), List.find?_nil]

/-- **The edit is a new layout**, if the statement is not among the first two tokens. -/
theorem relays_moved (h : read tabWidth text = .ok s)
    (hleaves : (s.kindAt c).isTerminator = true) (he : s.Moves expected c e) (hc : 2 ≤ c) :
    s.Relays (rendering [e]) := by
  constructor
  · intro p t ht
    by_cases hp : p = e.position
    · subst hp
      rw [rendering_self he.fits ht rfl]
      exact (laidOut_of_moves h hleaves he ht).2
    · rw [rendering_other ht hp]
      exact .kept
  · intro t ht
    refine rendering_other ht ?_
    cases he with
    | ahead =>
        show 0 ≠ c
        omega
    | @back i =>
        show 0 ≠ i
        omega

/-- It glues nothing: what it empties stands in front of the statement, which is no colon. -/
theorem not_gluesIn_moved (h : read tabWidth text = .ok s)
    (hleaves : (s.kindAt c).isTerminator = true) (he : s.Moves expected c e) (hc : 2 ≤ c) :
    ¬ GluesIn s.lexemes (s.tokens.toList.map (rendering [e])) := by
  unfold lexemes
  rw [glues_iff]
  intro hglued
  obtain ⟨i, t, t', ht, ht', hkind, hgone⟩ := hglued
  rw [Array.getElem?_toList] at ht ht'
  obtain ⟨hspace, hcolon⟩ := (relays_moved h hleaves he hc).kinds_of_glued h ht ht' hkind hgone
  have hspace' : s.kindAt (i + 1) = .whitespace := by
    unfold kindAt tokenAt get?
    rw [ht']
    exact hspace
  have hposition : i + 1 = e.position := by
    by_contra hne
    rw [rendering_other ht' hne] at hgone
    exact chars_ne_nil h ht' hgone
  cases he with
  | ahead =>
      change i + 1 = c at hposition
      rw [← hposition, hspace'] at hleaves
      cases hleaves
  | @back j =>
      change i + 1 = j at hposition
      rw [← hposition, hcolon] at hleaves
      cases hleaves

/-- Behind the edit all tokens stay. -/
theorem rendering_behind {p : Nat} (hp : e.position < p) :
    ((s.tokens.toList.map (rendering [e])).drop p).flatten = s.textFrom p := by
  rw [← List.map_drop, ← List.flatMap_def, ← flatMap_drop, List.flatMap_def, List.flatMap_def]
  refine congrArg List.flatten (List.map_congr_left fun t ht => ?_)
  obtain ⟨i, hi⟩ := List.mem_iff_getElem?.mp ht
  rw [List.getElem?_drop, Array.getElem?_toList] at hi
  exact rendering_other hi (by omega)

/-- In front of the edit all tokens stay. -/
theorem rendering_before {p : Nat} (hp : p ≤ e.position) :
    (s.tokens.toList.take p).flatMap (rendering [e]) = s.textBefore p := by
  rw [← flatMap_take, List.flatMap_def, List.flatMap_def]
  refine congrArg List.flatten (List.map_congr_left fun t ht => ?_)
  obtain ⟨i, hi⟩ := List.mem_iff_getElem?.mp ht
  obtain ⟨hlt, hi⟩ : i < p ∧ s.tokens.toList[i]? = some t := by
    rw [List.getElem?_take] at hi
    split at hi
    · exact ⟨‹_›, hi⟩
    · cases hi
  rw [Array.getElem?_toList] at hi
  exact rendering_other hi (by omega)

end Edits

/-! ## §4. Where the code comes to stand. -/

/-- The text with the one edit made. -/
def edited (s : Script) (e : Edit) : String :=
  String.ofList (s.tokens.toList.flatMap (rendering [e]))

theorem toList_edited (s : Script) (e : Edit) :
    (s.edited e).toList = (s.tokens.toList.map (rendering [e])).flatten := by
  unfold edited
  rw [String.toList_ofList, List.flatMap_def]

/-- The script `s'` is read from the text of `s` in which the code number `k`, a statement, is moved
to the column `expected`. -/
structure Realigned (tabWidth : Nat) (s s' : Script) (expected k : Nat) (e : Edit) : Prop where
  before : ∃ text, read tabWidth text = .ok s
  moves : s.Moves expected (s.place k) e
  relays : s.Relays (rendering [e])
  behind : read tabWidth (s.edited e) = .ok s'
  program : s.SameProgram s'
  lt_length : k < s.code.length

namespace Realigned

variable {expected m : Nat} {e : Edit}

/-- The edit is made on the statement or on the whitespace in front of it. -/
theorem position_cases (hr : Realigned tabWidth s s' expected k e) :
    e.position = s.place k
      ∨ (e.position + 1 = s.place k ∧ s.kindAt e.position = .whitespace) := by
  have hmoves := hr.moves
  generalize s.place k = c at hmoves ⊢
  cases hmoves with
  | ahead => exact .inl rfl
  | back _ _ hspace => exact .inr ⟨rfl, hspace⟩

/-- Code other than the statement is not edited. -/
theorem rendering_code (hr : Realigned tabWidth s s' expected k e) (hm : m < s.code.length)
    (hne : m ≠ k) :
    rendering [e] (s.tokenAt (s.place m)) = (s.tokenAt (s.place m)).chars := by
  refine rendering_other (get?_of_lt (place_lt_size hm)) fun hplace => ?_
  rcases hr.position_cases with heq | ⟨_, hspace⟩
  · exact hne (s.thins_bare.inj (hplace.trans heq))
  · rw [← hplace] at hspace
    exact kindAt_place_ne hm hspace

/-- The code has as many pieces as before. -/
theorem lt_length_code (hr : Realigned tabWidth s s' expected k e) (hm : m < s.code.length) :
    m < s'.code.length := by
  rw [hr.program.length_code]
  exact hm

/-- The text in front of a piece of code, and the piece. -/
theorem textBefore (hr : Realigned tabWidth s s' expected k e) (hm : m < s.code.length)
    (blanks : List Char)
    (hblanks : rendering [e] (s.tokenAt (s.place m)) = blanks ++ (s.tokenAt (s.place m)).chars) :
    s'.textBefore (s'.place m)
        = (s.tokens.toList.take (s.place m)).flatMap (rendering [e]) ++ blanks
      ∧ (s'.tokenAt (s'.place m)).chars = (s.tokenAt (s.place m)).chars := by
  obtain ⟨text, h⟩ := hr.before
  exact hr.relays.textBefore h (s.toList_edited e) hr.behind hr.program hm hblanks

/-- **In front of the statement** the code stays where it is. -/
theorem location_before (hr : Realigned tabWidth s s' expected k e) (hm : m < k) :
    (s'.tokenAt (s'.place m)).location = (s.tokenAt (s.place m)).location := by
  obtain ⟨text, h⟩ := hr.before
  have hlt : m < s.code.length := Nat.lt_trans hm hr.lt_length
  have hle : s.place m ≤ e.position := by
    have hplace : s.place m < s.place k := s.place_lt hm
    rcases hr.position_cases with heq | ⟨heq, _⟩ <;> omega
  have htext := (hr.textBefore hlt [] (hr.rendering_code hlt (Nat.ne_of_lt hm))).1
  rw [List.append_nil, rendering_before hle] at htext
  rw [location_eq_shownBehind hr.behind (get?_of_lt (place_lt_size (hr.lt_length_code hlt))),
    location_eq_shownBehind h (get?_of_lt (place_lt_size hlt)), htext]

/-- The statement is the same and stands behind the same text as before, with another number of
spaces between. -/
theorem front (hr : Realigned tabWidth s s' expected k e) :
    (s'.tokenAt (s'.place k)).chars = (s.tokenAt (s.place k)).chars
      ∧ ∃ front a b, s.textBefore (s.place k) = front ++ List.replicate a ' '
        ∧ s'.textBefore (s'.place k) = front ++ List.replicate b ' '
        ∧ s.columnAt (s.place k) + b = expected + a := by
  have hlt := place_lt_size hr.lt_length
  have hfits := hr.moves.fits
  have htext := hr.textBefore hr.lt_length
  have hmoves := hr.moves
  generalize s.place k = c at hlt htext hmoves ⊢
  cases hmoves with
  | ahead count _ _ hcolumn =>
      have hself : rendering [Edit.insertBefore c (String.ofList (List.replicate count ' '))]
          (s.tokenAt c) = List.replicate count ' ' ++ (s.tokenAt c).chars := by
        rw [rendering_self hfits (get?_of_lt hlt) rfl]
        simp [Edit.apply, Edit.insertBefore]
      obtain ⟨hbefore, hchars⟩ := htext _ hself
      refine ⟨hchars, s.textBefore c, 0, count, by simp, ?_, hcolumn⟩
      rw [hbefore, rendering_before (Nat.le_refl c)]
  | @back i count _ _ hblanks hcount hcolumn =>
      have hkept : rendering [Edit.trimStart i count] (s.tokenAt (i + 1))
          = [] ++ (s.tokenAt (i + 1)).chars :=
        rendering_other (get?_of_lt hlt) (Nat.succ_ne_self i)
      have hsize : i < s.size := Nat.lt_of_succ_lt hlt
      have hself : rendering [Edit.trimStart i count] (s.tokenAt i)
          = (s.tokenAt i).chars.drop count := by
        rw [rendering_self hfits (get?_of_lt hsize) rfl]
        simp [Edit.apply, Edit.trimStart]
      have hspaces : (s.tokenAt i).chars = List.replicate (s.tokenAt i).chars.length ' ' :=
        List.eq_replicate_of_mem hblanks
      obtain ⟨hbefore, hchars⟩ := htext _ hkept
      generalize (s.tokenAt i).chars.length = n at hspaces hcount
      refine ⟨hchars, s.textBefore i, n, n - count, ?_, ?_, by omega⟩
      · rw [← flatMap_take, flatMap_take_succ _ hsize, flatMap_take, hspaces]
      · rw [hbefore, List.append_nil, flatMap_take_succ _ hsize,
          rendering_before (Nat.le_refl i), hself, hspaces, List.drop_replicate]

/-- **The statement** stays on its line and comes to its column. -/
theorem location_moved (hr : Realigned tabWidth s s' expected k e) :
    s'.lineAt (s'.place k) = s.lineAt (s.place k) ∧ s'.columnAt (s'.place k) = expected := by
  obtain ⟨text, h⟩ := hr.before
  obtain ⟨_, front, a, b, hbefore, hbehind, hcolumn⟩ := hr.front
  have hk' := hr.lt_length_code hr.lt_length
  have hlocation := location_eq_shownBehind h (get?_of_lt (place_lt_size hr.lt_length))
  have hlocation' := location_eq_shownBehind hr.behind (get?_of_lt (place_lt_size hk'))
  rw [hbefore, shownBehind_spaces] at hlocation
  rw [hbehind, shownBehind_spaces] at hlocation'
  have hstood : s.columnAt (s.place k) = (shownBehind tabWidth front).column + a :=
    congrArg Location.column hlocation
  have hstands : s'.columnAt (s'.place k) = (shownBehind tabWidth front).column + b :=
    congrArg Location.column hlocation'
  refine ⟨?_, by omega⟩
  show (s'.tokenAt (s'.place k)).location.line = (s.tokenAt (s.place k)).location.line
  rw [hlocation, hlocation']

/-- Each piece of code is kept to the letter. -/
theorem chars_eq (hr : Realigned tabWidth s s' expected k e) (hm : m < s.code.length) :
    (s'.tokenAt (s'.place m)).chars = (s.tokenAt (s.place m)).chars := by
  by_cases hmk : m = k
  · rw [hmk]
    exact hr.front.1
  · exact (hr.textBefore hm [] (hr.rendering_code hm hmk)).2

/-- The layout behind the statement and behind all later code is kept. -/
theorem gap_eq (hr : Realigned tabWidth s s' expected k e) (hkm : k ≤ m)
    (hm : m < s.code.length) : s'.gap m = s.gap m := by
  obtain ⟨text, h⟩ := hr.before
  have hlt : e.position < s.place m + 1 := by
    have hle : s.place k ≤ s.place m := s.thins_bare.le_iff.mpr hkm
    rcases hr.position_cases with heq | ⟨heq, _⟩ <;> omega
  unfold gap
  rw [hr.relays.textFrom h (s.toList_edited e) hr.behind hr.program hm, rendering_behind hlt]

/-- The piece of code number `m` stays on its line, and where it is if that is another line than
that of the statement. -/
structure Agrees (s s' : Script) (k m : Nat) : Prop where
  line : s'.lineAt (s'.place m) = s.lineAt (s.place m)
  location : s.lineAt (s.place m) ≠ s.lineAt (s.place k) →
    (s'.tokenAt (s'.place m)).location = (s.tokenAt (s.place m)).location

/-- **From one piece of code to the next.**  A line break between the two, or in the first, makes
the column forget what is in front of it. -/
theorem agrees_step (hr : Realigned tabWidth s s' expected k e) (hkm : k ≤ m)
    (hm : m + 1 < s.code.length) (hagrees : Agrees s s' k m) : Agrees s s' k (m + 1) := by
  obtain ⟨text, h⟩ := hr.before
  have hnext := location_place_succ h hm
  have hnext' := location_place_succ hr.behind (hr.lt_length_code hm)
  rw [hr.chars_eq (Nat.lt_of_succ_lt hm), hr.gap_eq hkm (Nat.lt_of_succ_lt hm)] at hnext'
  generalize (s.tokenAt (s.place m)).chars = cs at hnext hnext'
  generalize s.gap m = layout at hnext hnext'
  have hline : (s'.tokenAt (s'.place m)).location.line = (s.tokenAt (s.place m)).location.line :=
    hagrees.line
  have hline' := Location.line_after_congr tabWidth hline cs
  constructor
  · show (s'.tokenAt (s'.place (m + 1))).location.line
      = (s.tokenAt (s.place (m + 1))).location.line
    rw [hnext, hnext']
    exact Location.line_after_congr tabWidth hline' layout
  · intro hother
    rw [hnext, hnext']
    by_cases hfirst : 0 < lineBreaks cs
    · rw [Location.after_eq_of_lineBreaks tabWidth hline hfirst]
    by_cases hgap : 0 < lineBreaks layout
    · exact Location.after_eq_of_lineBreaks tabWidth hline' hgap
    -- both pieces are on one line, which is not that of the statement
    have hsame : s.lineAt (s.place (m + 1)) = s.lineAt (s.place m) := by
      show (s.tokenAt (s.place (m + 1))).location.line = (s.tokenAt (s.place m)).location.line
      rw [hnext, Location.line_after_eq, Location.line_after_eq]
      omega
    rw [hagrees.location (hsame ▸ hother)]

/-- **Behind the statement** all code stays where it is, but for the rest of the line. -/
theorem agrees_behind (hr : Realigned tabWidth s s' expected k e) (hkm : k ≤ m)
    (hm : m < s.code.length) : Agrees s s' k m := by
  induction m, hkm using Nat.le_induction with
  | base => exact ⟨hr.location_moved.1, fun hline => absurd rfl hline⟩
  | succ m hkm ih => exact hr.agrees_step hkm hm (ih (Nat.lt_of_succ_lt hm))

/-- Code on another line than the statement stays where it is. -/
theorem location_eq (hr : Realigned tabWidth s s' expected k e) (hm : m < s.code.length)
    (hline : s.lineAt (s.place m) ≠ s.lineAt (s.place k)) :
    (s'.tokenAt (s'.place m)).location = (s.tokenAt (s.place m)).location := by
  rcases Nat.lt_or_ge m k with hmk | hkm
  · exact hr.location_before hmk
  · exact (hr.agrees_behind hkm hm).location hline

end Realigned

/-- **The new text is read again**, as the same program. -/
theorem exists_realigned {expected : Nat} {e : Edit} (h : read tabWidth text = .ok s)
    (hk : k < s.code.length) (hleaves : (s.kindAt (s.place k)).isTerminator = true)
    (he : s.Moves expected (s.place k) e) (hfar : 2 ≤ s.place k) :
    ∃ s', Realigned tabWidth s s' expected k e := by
  have hrelays := relays_moved h hleaves he hfar
  obtain ⟨s', hread, hsame⟩ :=
    hrelays.code h (not_gluesIn_moved h hleaves he hfar) (s.toList_edited e)
  exact ⟨s', ⟨text, h⟩, he, hrelays, hread, hsame, hk⟩

/-! ## §5. The check. -/

/-- **Where a finding on the column of a statement comes from.** -/
theorem endsCase_of_breakIndent {settings : Settings} {f : Finding} (hf : f ∈ s.flaws settings)
    (hcode : f.code = .breakIndent) :
    ∃ scope label, s.EndsCase settings.indent scope label ∧ f.position = label.closer
      ∧ s.columnAt label.closer ≠ (s.body settings.indent scope).breakColumn
      ∧ f.fix = (s.body settings.indent scope).indentFix? label.closer
          (s.body settings.indent scope).breakColumn := by
  obtain ⟨scope, hswitch, hmem⟩ :=
    (mem_standard_iff_switch (by rw [hcode]; nofun)).mp (mem_flaws_iff.mp hf).1
  obtain ⟨i, hi, hcase, label, hlabel, hleaves, howner, hfound⟩ :=
    SwitchBody.caseEnd_of_findings (.inr hcode) hmem
  have hposition := SwitchBody.position_of_closer hlabel
  obtain ⟨hdetected, rfl⟩ := scopeOf?_scopeTable_iff.mp hlabel
  refine ⟨scope, label, ⟨hswitch, hi, hcase, hdetected, hleaves, howner⟩, ?_⟩
  rcases hfound with hfound | ⟨x, _, rfl⟩
  · unfold SwitchBody.breakIndentFindings at hfound
    split at hfound
    · cases hfound
    · rename_i hcolumn
      obtain rfl := List.mem_singleton.mp hfound
      exact ⟨hposition, hcolumn, rfl⟩
  · cases hcode

/-- The switch comes in front of the statement. -/
theorem EndsCase.condition_lt {indent : Nat} {scope label : Scope}
    (h : s.EndsCase indent scope label) : scope.condition + 2 ≤ label.closer := by
  have hscope := ordered_of_mem_detectedScopes h.switch.1
  have hlabel := ordered_of_mem_detectedScopes h.detected
  have hbranch : scope.opener + 1 ≤ label.condition :=
    ((SwitchBody.branchesFrom_spec _ _).2 _ h.branch).1
  omega

/-- **The statement is not found again.**  The switch has not moved, and the statement is due in no
other column than the one that it has come to. -/
theorem Realigned.cured {settings : Settings} {e : Edit} {scope label : Scope}
    (hends : s.bare.EndsCase settings.indent scope label)
    (hr : Realigned tabWidth s s'
      (s.body settings.indent (scope.move s.place)).breakColumn label.closer e) :
    s'.columnAt (s'.place scope.condition) = s.columnAt (s.place scope.condition)
      ∧ s'.columnAt (s'.place label.closer)
          = s'.columnAt (s'.place scope.condition) + 2 * settings.indent
      ∧ ∀ g ∈ s'.flaws settings, g.code = .breakIndent → g.position ≠ s'.place label.closer := by
  have hswitch : s'.columnAt (s'.place scope.condition) = s.columnAt (s.place scope.condition) :=
    congrArg Location.column (hr.location_before (Nat.lt_of_succ_lt hends.condition_lt))
  have hcolumn : s'.columnAt (s'.place label.closer)
      = s.columnAt (s.place scope.condition) + settings.indent + settings.indent :=
    hr.location_moved.2
  refine ⟨hswitch, by omega, ?_⟩
  intro g hg hcode hposition
  obtain ⟨scope', label', hends', hposition', hwrong, _⟩ := endsCase_of_breakIndent hg hcode
  have hcloser : label'.closer = s'.place label.closer := hposition'.symm.trans hposition
  have hmoved : s'.EndsCase settings.indent (scope.move s'.place) (label.move s'.place) :=
    (thins_of_sameProgram hr.program).endsCase_place.mpr ⟨scope, label, hends, rfl, rfl⟩
  have hdue : (s'.body settings.indent scope').breakColumn
      = (s'.body settings.indent (scope.move s'.place)).breakColumn :=
    Due.column_eq ⟨scope', label', hends', hcloser, rfl⟩ ⟨_, _, hmoved, rfl, rfl⟩
  rw [hdue, hcloser] at hwrong
  apply hwrong
  show _ = s'.columnAt (s'.place scope.condition) + settings.indent + settings.indent
  omega

end Script

/-- **The edit of a wrong column cures it and disturbs nothing else.**  Made alone, it leaves a text
with the same code.  All code that starts on another line than the statement stays where it is.
The statement comes to stand two levels behind the column of its switch, and the check of the new
text finds no wrong column there. -/
theorem checkText_breakIndent_cured {settings : Settings} {text : String} {s : Script}
    {fs : List Finding} {f : Finding} (hindent : 1 ≤ settings.indent)
    (hread : Script.read settings.tabWidth text = .ok s)
    (hcheck : s.check s.scopeTable settings = .ok fs) (hf : f ∈ fs)
    (hcode : f.code = .breakIndent) (hfix : f.isFixable = true) :
    ∃ s', Script.read settings.tabWidth (s.applyFixes [f]).source = .ok s'
      ∧ s'.code = s.code
      ∧ (∀ m < s.code.length, s.lineAt (s.place m) ≠ s.lineAt f.position →
          (s'.tokenAt (s'.place m)).location = (s.tokenAt (s.place m)).location)
      ∧ ∃ scope label j k, s.EndsCase settings.indent scope label
          ∧ scope.condition = s.place j ∧ j < s.code.length
          ∧ label.closer = s.place k ∧ k < s.code.length
          ∧ f.position = s.place k
          ∧ s'.columnAt (s'.place j) = s.columnAt (s.place j)
          ∧ s'.columnAt (s'.place k) = s'.columnAt (s'.place j) + 2 * settings.indent
          ∧ ∃ fs', checkText (s.applyFixes [f]).source settings = .ok fs'
              ∧ ∀ g ∈ fs', g.code = .breakIndent → g.position ≠ s'.place k := by
  rw [s.check_scopeTable hindent] at hcheck
  obtain rfl := Except.ok.inj hcheck
  obtain ⟨scope, label, hends, hposition, _, hedit⟩ := Script.endsCase_of_breakIndent hf hcode
  obtain ⟨e, he⟩ := Option.isSome_iff_exists.mp hfix
  have hmoves := SwitchBody.moves_of_indent (hedit.symm.trans he)
  have hsource : (s.applyFixes [f]).source = s.edited e := by
    rw [source_applyFixes, List.filterMap_cons_some he]
    rfl
  -- the switch and the statement by their numbers in the code
  obtain ⟨a, b, hbare, rfl, rfl⟩ := s.thins_bare.endsCase_place.mp hends
  have hk : b.closer < s.code.length := by
    rw [← s.size_bare]
    exact (Script.ordered_of_mem_detectedScopes hbare.detected).2.2.1
  have hj : a.condition < s.code.length :=
    Nat.lt_trans (Nat.lt_of_succ_lt hbare.condition_lt) hk
  obtain ⟨s', hr⟩ := Script.exists_realigned hread hk hends.leaves hmoves
    (Nat.le_trans (Nat.le_add_left 2 _) hends.condition_lt)
  obtain ⟨hswitch, hcolumn, hcured⟩ := hr.cured hbare
  rw [hsource]
  refine ⟨s', hr.behind, hr.program.code_eq fun m hm => hr.chars_eq hm, fun m hm hline => ?_,
    a.move s.place, b.move s.place, a.condition, b.closer, hends, rfl, hj, rfl, hk, hposition,
    hswitch, hcolumn, _, checkText_of_read hindent hr.behind, hcured⟩
  rw [hposition] at hline
  exact hr.location_eq hm hline

/-- The `break` comes behind a comment that starts on another line.  All of the whitespace between
the two goes, and with it a token. -/
theorem checkText_breakIndent_cured_comment :
    let settings : Settings := ⟨1, 4, []⟩
    let text := "switch ($x) \x7b\n case 1:\n/*\n*/   break; a();\n\x7d\n"
    let s := Script.ofText 4 text
    let f := (s.body 1 ⟨0, 6, 24⟩).report (.breakIndent 1) 16 (some (.trimStart 15 3))
    (Script.read settings.tabWidth text = .ok s
        ∧ s.check s.scopeTable settings = .ok (s.flaws settings)
        ∧ f ∈ s.flaws settings ∧ f.isFixable = true)
      ∧ (s.applyFixes [f]).source = "switch ($x) \x7b\n case 1:\n/*\n*/break; a();\n\x7d\n"
      ∧ ∃ s', Script.read settings.tabWidth (s.applyFixes [f]).source = .ok s'
          ∧ s'.code = s.code
          ∧ ∃ k fs', s.place k = 16 ∧ checkText (s.applyFixes [f]).source settings = .ok fs'
              ∧ ∀ g ∈ fs', g.code = .breakIndent → g.position ≠ s'.place k := by
  intro settings text s f
  have hread : Script.read settings.tabWidth text = .ok s :=
    Script.read_ofText (by decide +kernel)
  have hcheck : s.check s.scopeTable settings = .ok (s.flaws settings) :=
    s.check_scopeTable (by decide)
  have hf : f ∈ s.flaws settings := by decide +kernel
  have hposition : f.position = 16 := by decide +kernel
  obtain ⟨s', hread', hcode, _, _, _, _, k, _, _, _, _, _, hk, _, _, fs', hfs', hcured⟩ :=
    checkText_breakIndent_cured (by decide) hread hcheck hf rfl rfl
  exact ⟨⟨hread, hcheck, hf, rfl⟩, by decide +kernel, s', hread', hcode, k, fs',
    hk.symm.trans hposition, hfs', hcured⟩

end SwitchLayout
