/-
  SwitchLayout.Proofs.Gaps
  ────────────────────────
  **The code of a script and the layout between it.**

  `place` says where the pieces of code stand among the tokens of a script.  The lemmas:

    • `thins_of_sameProgram` — without its layout a script is thinned out, and two scripts with
      one program are thinned to the same,
    • `flatten_drop_eq` — a text falls into layout and pieces of code in one way only,
    • `Relays.textFrom`, `textFrom_repaired` — so that behind a piece of code the text in a new
      layout, as a round makes one, is what that layout puts there,
    • `location_place_succ`, `lineAt_place_succ` — where a piece of code stands, from the piece in
      front of it.
-/
import SwitchLayout.Proofs.Preservation
import SwitchLayout.Proofs.Thinning

namespace SwitchLayout

open Text

/-! ## §1. Where the code stands. -/

/-- The position of the code number `k` among these lexemes; behind their end it goes on from
there. -/
def codePlace : List Lexeme → Nat → Nat
  | [], k => k
  | l :: ls, k =>
    if l.kind = .whitespace then codePlace ls k + 1
    else match k with
      | 0 => 0
      | k + 1 => codePlace ls k + 1

/-- The lexemes that are no whitespace. -/
def codeOf (ls : List Lexeme) : List Lexeme := ls.filter (·.kind ≠ .whitespace)

section Places

variable {l : Lexeme} {ls : List Lexeme}

theorem codePlace_space (hl : l.kind = .whitespace) (k : Nat) :
    codePlace (l :: ls) k = codePlace ls k + 1 := by
  cases k <;> rw [codePlace, if_pos hl]

theorem codePlace_zero (hl : l.kind ≠ .whitespace) : codePlace (l :: ls) 0 = 0 := by
  rw [codePlace, if_neg hl]

theorem codePlace_succ (hl : l.kind ≠ .whitespace) (k : Nat) :
    codePlace (l :: ls) (k + 1) = codePlace ls k + 1 := by
  rw [codePlace, if_neg hl]

theorem codeOf_space (hl : l.kind = .whitespace) : codeOf (l :: ls) = codeOf ls :=
  List.filter_cons_of_neg (by simp [hl])

theorem codeOf_code (hl : l.kind ≠ .whitespace) : codeOf (l :: ls) = l :: codeOf ls :=
  List.filter_cons_of_pos (by simp [hl])

/-- The code keeps its order. -/
theorem codePlace_lt (ls : List Lexeme) {i j : Nat} (hij : i < j) :
    codePlace ls i < codePlace ls j := by
  induction ls generalizing i j with
  | nil => exact hij
  | cons l ls ih =>
      by_cases hl : l.kind = .whitespace
      · rw [codePlace_space hl, codePlace_space hl]
        exact Nat.succ_lt_succ (ih hij)
      · obtain ⟨j, rfl⟩ : ∃ j', j = j' + 1 := ⟨j - 1, by omega⟩
        rw [codePlace_succ hl]
        cases i with
        | zero =>
            rw [codePlace_zero hl]
            exact Nat.succ_pos _
        | succ i =>
            rw [codePlace_succ hl]
            exact Nat.succ_lt_succ (ih (Nat.lt_of_succ_lt_succ hij))

/-- The end of the code is the end of the lexemes. -/
theorem codePlace_length (ls : List Lexeme) : codePlace ls (codeOf ls).length = ls.length := by
  induction ls with
  | nil => rfl
  | cons l ls ih =>
      by_cases hl : l.kind = .whitespace
      · rw [codeOf_space hl, codePlace_space hl, ih]
        rfl
      · rw [codeOf_code hl, List.length_cons, codePlace_succ hl, ih]
        rfl

/-- What stands at the place of the code is that code. -/
theorem getElem?_codePlace (ls : List Lexeme) (k : Nat) :
    ls[codePlace ls k]? = (codeOf ls)[k]? := by
  induction ls generalizing k with
  | nil => rfl
  | cons l ls ih =>
      by_cases hl : l.kind = .whitespace
      · rw [codeOf_space hl, codePlace_space hl, List.getElem?_cons_succ, ih]
      · rw [codeOf_code hl]
        cases k with
        | zero => rw [codePlace_zero hl, List.getElem?_cons_zero, List.getElem?_cons_zero]
        | succ k => rw [codePlace_succ hl, List.getElem?_cons_succ, List.getElem?_cons_succ, ih]

/-- What stands elsewhere is whitespace. -/
theorem whitespace_of_ne_codePlace {i : Nat} (hi : ls[i]? = some l)
    (hne : ∀ k < (codeOf ls).length, codePlace ls k ≠ i) : l.kind = .whitespace := by
  induction ls generalizing i with
  | nil => cases hi
  | cons n ls ih =>
      by_cases hn : n.kind = .whitespace
      · cases i with
        | zero =>
            obtain rfl : n = l := by simpa using hi
            exact hn
        | succ i =>
            apply ih hi
            intro k hk heq
            apply hne k (by rwa [codeOf_space hn])
            rw [codePlace_space hn, heq]
      · cases i with
        | zero =>
            have hzero := hne 0 (by rw [codeOf_code hn]; exact Nat.succ_pos _)
            exact absurd (codePlace_zero hn) hzero
        | succ i =>
            apply ih hi
            intro k hk heq
            apply hne (k + 1) (by rw [codeOf_code hn]; exact Nat.succ_lt_succ hk)
            rw [codePlace_succ hn, heq]

end Places

/-! ## §2. Scripts without their layout. -/

namespace Script

/-- The position of the code number `k`. -/
def place (s : Script) (k : Nat) : Nat := codePlace s.lexemes k

/-- The script without its whitespace. -/
def bare (s : Script) : Script := ofTokens (s.tokens.toList.filter (·.kind ≠ .whitespace))

theorem code_eq_codeOf (s : Script) : s.code = codeOf s.lexemes := rfl

theorem lexemes_bare (s : Script) : s.bare.lexemes = s.code := by
  unfold bare code
  rw [lexemes_ofTokens]
  unfold lexemes
  rw [List.filter_map]
  rfl

theorem length_lexemes (s : Script) : s.lexemes.length = s.size := by
  simp [lexemes, size]

theorem size_bare (s : Script) : s.bare.size = s.code.length := by
  rw [← length_lexemes, lexemes_bare]

/-- A token is known by its lexeme, its place apart. -/
theorem lexeme_tokenAt {s : Script} {i : Nat} {l : Lexeme} (h : s.lexemes[i]? = some l) :
    (s.tokenAt i).kind = l.kind ∧ (s.tokenAt i).chars = l.chars ∧ i < s.size := by
  rw [getElem?_lexemes] at h
  obtain ⟨t, ht, rfl⟩ := Option.map_eq_some_iff.mp h
  obtain ⟨hi, _⟩ := Array.getElem?_eq_some_iff.mp ht
  unfold tokenAt
  rw [ht]
  exact ⟨rfl, rfl, hi⟩

theorem getElem?_lexemes_tokenAt {s : Script} {i : Nat} (hi : i < s.size) :
    s.lexemes[i]? = some (s.tokenAt i).lexeme := by
  rw [getElem?_lexemes]
  unfold tokenAt get?
  rw [Array.getElem?_eq_getElem hi]
  rfl

/-- The code number `k` stands at its place. -/
theorem getElem?_place (s : Script) (k : Nat) : s.lexemes[s.place k]? = s.code[k]? :=
  getElem?_codePlace s.lexemes k

theorem place_length (s : Script) : s.place s.code.length = s.size := by
  rw [← length_lexemes]
  exact codePlace_length s.lexemes

theorem place_lt (s : Script) {i j : Nat} (hij : i < j) : s.place i < s.place j :=
  codePlace_lt s.lexemes hij

theorem place_lt_size {s : Script} {k : Nat} (hk : k < s.code.length) : s.place k < s.size := by
  rw [← place_length]
  exact s.place_lt hk

/-- What stands at the place of code is no whitespace. -/
theorem kindAt_place_ne {s : Script} {k : Nat} (hk : k < s.code.length) :
    s.kindAt (s.place k) ≠ .whitespace := by
  have hget := s.getElem?_place k
  rw [List.getElem?_eq_getElem hk] at hget
  have hcode := (List.mem_filter.mp (List.getElem_mem hk)).2
  intro hspace
  change (s.tokenAt (s.place k)).kind = .whitespace at hspace
  rw [(lexeme_tokenAt hget).1] at hspace
  simp [hspace] at hcode

/-- What stands at the place of no code is whitespace. -/
theorem whitespace_of_ne_place {s : Script} {i : Nat} (hi : i < s.size)
    (hne : ∀ k < s.code.length, s.place k ≠ i) : s.kindAt i = .whitespace := by
  have hkind : (s.tokenAt i).lexeme.kind = .whitespace :=
    whitespace_of_ne_codePlace (getElem?_lexemes_tokenAt hi) hne
  exact hkind

/-- Two tokens with the same kind and text have bodies of the same form. -/
theorem bodyForm_congr {t t' : Token} (hkind : t.kind = t'.kind) (hchars : t.chars = t'.chars) :
    t.bodyForm = t'.bodyForm := by
  unfold Token.bodyForm
  rw [hkind, hchars]

/-- **A script with the code of `e` is thinned to `e`.**  Branch keywords may have changed to
lower case on the way. -/
theorem thins_of_forall₂ {e s : Script} (h : List.Forall₂ Lexeme.Same e.lexemes s.code) :
    Thins e s s.place := by
  have hlength : e.size = s.code.length := by
    rw [← length_lexemes]
    exact h.length_eq
  have hsame : ∀ {i : Nat}, i < e.size → ∃ l l', e.lexemes[i]? = some l
      ∧ s.lexemes[s.place i]? = some l' ∧ l.Same l' := by
    intro i hi
    have hi' : i < e.lexemes.length := by rwa [length_lexemes]
    have hcode : i < s.code.length := by omega
    refine ⟨e.lexemes[i], s.code[i], List.getElem?_eq_getElem hi', ?_, h.get hi' hcode⟩
    rw [getElem?_place, List.getElem?_eq_getElem hcode]
  -- a piece of code that is no branch keyword is the same in both
  have hplain : ∀ {i : Nat}, i < e.size → (e.kindAt i).isBranch = false →
      (s.tokenAt (s.place i)).kind = (e.tokenAt i).kind
        ∧ (s.tokenAt (s.place i)).chars = (e.tokenAt i).chars := by
    intro i hi hbranch
    obtain ⟨l, l', hl, hl', hkind, hchars⟩ := hsame hi
    obtain ⟨hk, hc, _⟩ := lexeme_tokenAt hl
    obtain ⟨hk', hc', _⟩ := lexeme_tokenAt hl'
    change (e.tokenAt i).kind.isBranch = false at hbranch
    rw [hk] at hbranch
    rw [hbranch] at hchars
    rw [hk, hc, hk', hc']
    refine ⟨hkind, hchars.resolve_right ?_⟩
    intro hlow
    cases hlow.1
  constructor
  · intro i j hij
    exact s.place_lt hij
  · rw [hlength, place_length]
  · intro i hi
    obtain ⟨l, l', hl, hl', hkind, _⟩ := hsame hi
    show (s.tokenAt (s.place i)).kind = (e.tokenAt i).kind
    rw [(lexeme_tokenAt hl).1, (lexeme_tokenAt hl').1, hkind]
  · intro i hi howns
    have hbranch : (e.kindAt i).isBranch = false := TokenKind.isBranch_of_ownsBody howns
    obtain ⟨hk, hc⟩ := hplain hi hbranch
    exact bodyForm_congr hk hc
  · intro i hi hother
    obtain ⟨_, hc⟩ := hplain hi (by rw [hother]; rfl)
    unfold Token.chars at hc
    rw [String.toList_inj.mp hc]
  · intro k hk hne
    rw [whitespace_of_ne_place hk fun i hi => hne i (by omega)]
    rfl

/-- Two scripts with one program are thinned to the same. -/
theorem thins_of_sameProgram {s s' : Script} (h : s.SameProgram s') : Thins s.bare s' s'.place := by
  apply thins_of_forall₂
  rw [lexemes_bare]
  exact h

theorem thins_bare (s : Script) : Thins s.bare s s.place :=
  thins_of_sameProgram (SameProgram.refl s)

end Script

/-! ## §3. The text behind a piece of code. -/

/-- The text is code: it is not empty and does not start with layout. -/
def IsCode (c : List Char) : Prop := ∃ d t, c = d :: t ∧ isLayout d = false

/-- The text `u` stands in the place of the lexeme `l`: whitespace is layout, and code has
nothing but layout in front of it and keeps its length. -/
def Fills (l : Lexeme) (u : List Char) : Prop :=
  if l.kind = .whitespace then u.all isLayout = true
  else ∃ blanks chars, u = blanks ++ chars ∧ blanks.all isLayout = true ∧ IsCode chars
    ∧ chars.length = l.chars.length

section Alignment

variable {ls ls' : List Lexeme} {us us' : List (List Char)}

/-- A layout in front of code ends where the code starts. -/
theorem layout_inj {g g' c c' w w' : List Char} (hg : g.all isLayout = true)
    (hg' : g'.all isLayout = true) (hc : IsCode c) (hc' : IsCode c')
    (h : g ++ (c ++ w) = g' ++ (c' ++ w')) : c ++ w = c' ++ w' := by
  obtain ⟨d, t, rfl, hd⟩ := hc
  obtain ⟨d', t', rfl, hd'⟩ := hc'
  induction g generalizing g' with
  | nil =>
      cases g' with
      | nil => exact h
      | cons e g' =>
          obtain ⟨rfl, _⟩ := List.cons.inj h
          rw [List.all_cons, hd] at hg'
          cases hg'
  | cons e g ih =>
      cases g' with
      | nil =>
          obtain ⟨rfl, _⟩ := List.cons.inj h
          rw [List.all_cons, hd'] at hg
          cases hg
      | cons e' g' =>
          rw [List.all_cons, Bool.and_eq_true] at hg hg'
          exact ih hg.2 hg'.2 (List.cons.inj h).2

/-- The text of lexemes up to their first code. -/
theorem front_of_fills (h : List.Forall₂ Fills ls us) {l : Lexeme} {code : List Lexeme}
    (hcode : codeOf ls = l :: code) :
    ∃ blanks chars, us.flatten = blanks ++ (chars ++ (us.drop (codePlace ls 0 + 1)).flatten)
      ∧ blanks.all isLayout = true ∧ IsCode chars ∧ chars.length = l.chars.length
      ∧ codeOf (ls.drop (codePlace ls 0 + 1)) = code
      ∧ ∀ k, codePlace ls (k + 1)
          = codePlace ls 0 + 1 + codePlace (ls.drop (codePlace ls 0 + 1)) k := by
  induction h with
  | nil => cases hcode
  | @cons n u ls us hfill _ ih =>
      by_cases hn : n.kind = .whitespace
      · rw [codeOf_space hn] at hcode
        obtain ⟨blanks, chars, htext, hblanks, hchars, hlength, hrest, hplace⟩ := ih hcode
        unfold Fills at hfill
        rw [if_pos hn] at hfill
        rw [codePlace_space hn]
        refine ⟨u ++ blanks, chars, ?_, ?_, hchars, hlength, hrest, ?_⟩
        · rw [List.flatten_cons, htext, List.append_assoc]
          rfl
        · rw [List.all_append, hfill, hblanks]
          rfl
        · intro k
          rw [codePlace_space hn, hplace, List.drop_succ_cons]
          omega
      · rw [codeOf_code hn] at hcode
        obtain ⟨rfl, hrest⟩ := List.cons.inj hcode
        unfold Fills at hfill
        rw [if_neg hn] at hfill
        obtain ⟨blanks, chars, rfl, hblanks, hchars, hlength⟩ := hfill
        rw [codePlace_zero hn]
        refine ⟨blanks, chars, ?_, hblanks, hchars, hlength, hrest, ?_⟩
        · rw [List.flatten_cons, List.append_assoc]
          rfl
        · intro k
          rw [codePlace_succ hn, List.drop_succ_cons, List.drop_zero]
          omega

/-- **Two readings of one text agree behind each piece of code.** -/
theorem flatten_drop_eq (h : List.Forall₂ Fills ls us) (h' : List.Forall₂ Fills ls' us')
    (hlengths : List.Forall₂ (fun l l' => l.chars.length = l'.chars.length) (codeOf ls) (codeOf ls'))
    (htext : us.flatten = us'.flatten) {k : Nat} (hk : k < (codeOf ls).length) :
    (us.drop (codePlace ls k + 1)).flatten = (us'.drop (codePlace ls' k + 1)).flatten := by
  generalize hcode : codeOf ls = code, hcode' : codeOf ls' = code' at hlengths hk
  induction hlengths generalizing ls ls' us us' k with
  | nil => cases hk
  | @cons l l' code code' hlength htail ih =>
      obtain ⟨blanks, chars, hfront, hblanks, hchars, hlen, hrest, hplace⟩ :=
        front_of_fills h hcode
      obtain ⟨blanks', chars', hfront', hblanks', hchars', hlen', hrest', hplace'⟩ :=
        front_of_fills h' hcode'
      -- first the layout, then the code, which has its length
      rw [hfront, hfront'] at htext
      have hbehind := (List.append_inj (layout_inj hblanks hblanks' hchars hchars' htext)
        (by omega)).2
      cases k with
      | zero => exact hbehind
      | succ k =>
          have hdrop := ih (List.forall₂_drop _ h) (List.forall₂_drop _ h') hbehind hrest hrest'
            (Nat.lt_of_succ_lt_succ hk)
          rw [List.drop_drop, List.drop_drop] at hdrop
          rw [hplace, hplace', Nat.add_assoc, Nat.add_assoc (codePlace ls' 0 + 1)]
          exact hdrop

end Alignment

/-! ## §4. A new layout, behind each piece of code. -/

/-- The lexeme of a text fills its own place. -/
theorem fills_chars {l : Lexeme} {member : Bool} {c : Char} {t : List Char}
    (hchars : l.chars = c :: t) (hform : LexemeForm member c t l.kind) : Fills l l.chars := by
  unfold Fills
  split
  · rename_i hl
    rw [hchars]
    exact hform.all_isLayout hl
  · rename_i hl
    refine ⟨[], l.chars, rfl, rfl, ⟨c, t, hchars, ?_⟩, rfl⟩
    rw [← Bool.not_eq_true]
    exact fun hc => hl (hform.whitespace_iff.mpr hc)

/-- A new layout of a lexeme fills its place. -/
theorem fills_of_laidOut {l : Lexeme} {prev next : Option Lexeme} {u : List Char} {member : Bool}
    {c : Char} {t : List Char} (hchars : l.chars = c :: t) (hform : LexemeForm member c t l.kind)
    (h : LaidOut prev l next u) : Fills l u := by
  have hfill := fills_chars hchars hform
  unfold Fills at hfill ⊢
  split
  · rename_i hl
    rw [if_pos hl] at hfill
    exact h.all_isLayout hl hfill
  · rename_i hl
    obtain ⟨blanks, chars, rfl, hblanks, hsame, _⟩ := h.code hl
    refine ⟨blanks, chars, rfl, hblanks, ?_, hsame.length_chars⟩
    rcases hsame.2 with heq | ⟨hbranch, heq⟩
    · change chars = l.chars at heq
      refine ⟨c, t, heq.trans hchars, ?_⟩
      rw [← Bool.not_eq_true]
      exact fun hc => hl (hform.whitespace_iff.mpr hc)
    · -- a branch keyword starts with one of two letters
      change chars = lowerAscii l.chars at heq
      obtain ⟨e, w, hw, he⟩ := exists_branch_letter (hform.of_isBranch hbranch).2.1 hbranch
      refine ⟨e, w, ?_, ?_⟩
      · rw [heq, hchars, hw]
      · rcases he with rfl | rfl <;> rfl

theorem forall₂_fills {prev : Option Lexeme} {ls : List Lexeme} {us : List (List Char)}
    (hforms : ∀ l ∈ ls, ∃ member c t, l.chars = c :: t ∧ LexemeForm member c t l.kind)
    (h : Relaid prev ls us) : List.Forall₂ Fills ls us := by
  induction h with
  | nil => exact .nil
  | @cons prev l ls u us hhead _ ih =>
      obtain ⟨member, c, t, hchars, hform⟩ := hforms l List.mem_cons_self
      exact .cons (fills_of_laidOut hchars hform hhead)
        (ih fun n hn => hforms n (List.mem_cons_of_mem l hn))

/-- Whitespace in front shifts the code. -/
theorem codePlace_append {front : List Lexeme} (hfront : ∀ l ∈ front, l.kind = .whitespace)
    (ls : List Lexeme) (k : Nat) : codePlace (front ++ ls) k = front.length + codePlace ls k := by
  induction front with
  | nil => exact (Nat.zero_add _).symm
  | cons l front ih =>
      rw [List.cons_append, codePlace_space (hfront l List.mem_cons_self),
        ih fun n hn => hfront n (List.mem_cons_of_mem l hn), List.length_cons]
      omega

namespace Script

/-- The text from the token at `p` on. -/
def textFrom (s : Script) (p : Nat) : List Char := (s.lexemes.drop p).flatMap Lexeme.chars

/-- The text that a round makes of the tokens from `p` on. -/
def repairedFrom (s : Script) (settings : Settings) (p : Nat) : List Char :=
  ((s.tokens.toList.map (s.selection settings).textOf).drop p).flatten

section Round

variable {settings : Settings} {tabWidth : Nat} {text text₁ : String} {s s₁ : Script}
  {f : Token → List Char}

theorem splitMark_fst_congr {cs cs' : List Char} (h : cs.head? = cs'.head?) :
    (splitMark cs).1 = (splitMark cs').1 := by
  cases cs with
  | nil =>
      cases cs' with
      | nil => rfl
      | cons c' cs' => cases h
  | cons c cs =>
      cases cs' with
      | nil => cases h
      | cons c' cs' =>
          obtain rfl : c = c' := by simpa using h
          rw [splitMark, splitMark]
          split <;> rfl

/-- A new layout keeps the byte order mark, or the lack of it. -/
theorem Relays.mark (hf : s.Relays f) (h : read tabWidth text = .ok s) :
    (splitMark (s.tokens.toList.map f).flatten).1 = (splitMark text.toList).1 := by
  apply splitMark_fst_congr
  rw [← source_read h, source, String.toList_ofList]
  cases htokens : s.tokens.toList with
  | nil => rfl
  | cons t ts =>
      have ht : s.get? 0 = some t := by
        unfold get?
        rw [← Array.getElem?_toList, htokens]
        rfl
      obtain ⟨c, w, hchars⟩ := List.exists_cons_of_ne_nil (chars_ne_nil h ht)
      rw [List.map_cons, List.flatten_cons, List.flatMap_cons, hf.first ht, hchars]
      rfl

theorem mark_repaired (h : read settings.tabWidth text = .ok s) :
    (splitMark (s.repaired settings).toList).1 = (splitMark text.toList).1 := by
  rw [toList_repaired]
  exact (relays_selection h).mark h

/-- The text of a new layout without the byte order mark. -/
theorem Relays.flatten (hf : s.Relays f) (h : read tabWidth text = .ok s)
    (htext : text₁.toList = (s.tokens.toList.map f).flatten) (h₁ : read tabWidth text₁ = .ok s₁) :
    ∃ front ls us ls₁, s.lexemes = front ++ ls ∧ s₁.lexemes = front ++ ls₁
      ∧ (∀ l ∈ front, l.kind = .whitespace)
      ∧ us = (s.tokens.toList.map f).drop front.length
      ∧ List.Forall₂ Fills ls us ∧ List.Forall₂ Fills ls₁ (ls₁.map Lexeme.chars)
      ∧ us.flatten = (ls₁.map Lexeme.chars).flatten := by
  obtain ⟨ls, hls, hlexemes⟩ := lexemes_of_read h
  obtain ⟨ls₁, hls₁, hlexemes₁⟩ := lexemes_of_read h₁
  have htext₁ := append_splitMark text₁.toList
  have hchars₁ := chars_lexemes false (splitMark text₁.toList).2 (by rw [hls₁])
  rw [hls₁] at hchars₁
  rw [htext, hf.mark h] at hlexemes₁
  rw [← hchars₁, htext, hf.mark h] at htext₁
  have hrel := hf.relaid
  have hfirst : ∀ t, s.tokens.toList[0]? = some t → f t = t.chars := by
    intro t ht
    rw [Array.getElem?_toList] at ht
    exact hf.first ht
  have hforms := fun l (hl : l ∈ ls) => form_of_mem hls hl
  have hfills₁ : List.Forall₂ Fills ls₁ (ls₁.map Lexeme.chars) := by
    rw [List.forall₂_map_right_iff, List.forall₂_same]
    intro l hl
    obtain ⟨member, c, t, hchars, hform⟩ := form_of_mem hls₁ hl
    exact fills_chars hchars hform
  refine ⟨(splitMark text.toList).1.map markLexeme, ls, _, ls₁, hlexemes, hlexemes₁, ?_, rfl, ?_⟩
  · intro l hl
    obtain ⟨c, _, rfl⟩ := List.mem_map.mp hl
    rfl
  · unfold lexemes at hlexemes hrel
    generalize s.tokens.toList = ts at *
    rw [← List.flatMap_def]
    rcases splitMark_cases text.toList with hmark | hmark
    · rw [hmark, List.map_nil, List.nil_append] at hlexemes
      rw [hmark, List.nil_append] at htext₁
      rw [hmark]
      rw [hlexemes] at hrel
      exact ⟨forall₂_fills hforms hrel, hfills₁, htext₁.symm⟩
    · rw [hmark] at hlexemes htext₁ ⊢
      cases ts with
      | nil => cases hlexemes
      | cons t ts =>
          obtain ⟨hlexeme, hlater⟩ : t.lexeme = markLexeme byteOrderMark ∧ ts.map Token.lexeme = ls :=
            List.cons.inj hlexemes
          have hchars : f t = [byteOrderMark] := by
            rw [hfirst t rfl]
            exact congrArg Lexeme.chars hlexeme
          rw [List.map_cons, List.map_cons, hlater] at hrel
          rw [List.map_cons, List.flatten_cons, hchars] at htext₁
          cases hrel with
          | cons _ htail =>
              exact ⟨forall₂_fills hforms htail, hfills₁, (List.cons.inj htext₁).2.symm⟩

/-- **What a new layout puts behind a piece of code is what is read there.** -/
theorem Relays.textFrom (hf : s.Relays f) (h : read tabWidth text = .ok s)
    (htext : text₁.toList = (s.tokens.toList.map f).flatten) (h₁ : read tabWidth text₁ = .ok s₁)
    (hsame : s.SameProgram s₁) {k : Nat} (hk : k < s.code.length) :
    s₁.textFrom (s₁.place k + 1) = ((s.tokens.toList.map f).drop (s.place k + 1)).flatten := by
  obtain ⟨front, ls, us, ls₁, hlexemes, hlexemes₁, hfront, hus, hfills, hfills₁, hflat⟩ :=
    hf.flatten h htext h₁
  have hcodeOf : ∀ ns : List Lexeme, codeOf (front ++ ns) = codeOf ns := by
    intro ns
    unfold codeOf
    rw [List.filter_append, List.filter_eq_nil_iff.mpr, List.nil_append]
    intro l hl
    simp [hfront l hl]
  unfold SameProgram at hsame
  rw [code_eq_codeOf, code_eq_codeOf, hlexemes, hlexemes₁, hcodeOf, hcodeOf] at hsame
  rw [code_eq_codeOf, hlexemes, hcodeOf] at hk
  have hbehind := flatten_drop_eq hfills hfills₁ (hsame.imp fun _ _ h => h.length_chars.symm)
    hflat hk
  unfold Script.textFrom place
  rw [hlexemes, hlexemes₁, codePlace_append hfront, codePlace_append hfront, Nat.add_assoc,
    Nat.add_assoc, List.drop_length_add_append, List.flatMap_def, List.map_drop]
  rw [hus, List.drop_drop] at hbehind
  exact hbehind.symm

/-- **What a round puts behind a piece of code is what is read there.** -/
theorem textFrom_repaired (h : read settings.tabWidth text = .ok s)
    (hfree : ¬ s.Glues (s.selection settings))
    (h₁ : read settings.tabWidth (s.repaired settings) = .ok s₁) {k : Nat}
    (hk : k < s.code.length) :
    s₁.textFrom (s₁.place k + 1) = s.repairedFrom settings (s.place k + 1) := by
  obtain ⟨s₂, h₂, hsame⟩ := code_repaired h hfree
  obtain rfl : s₁ = s₂ := Except.ok.inj (h₁.symm.trans h₂)
  exact (relays_selection h).textFrom h (s.toList_repaired settings) h₁ hsame hk

end Round

/-! ## §5. Reading behind a piece of code. -/

section Behind

variable {tabWidth : Nat} {text : String} {s : Script} {k p : Nat}

theorem lexemes_drop {member : Bool} {ls : List Lexeme}
    (h : SwitchLayout.lexemes member (ls.flatMap Lexeme.chars) = (ls, none)) (n : Nat) :
    ∃ member', SwitchLayout.lexemes member' ((ls.drop n).flatMap Lexeme.chars)
      = (ls.drop n, none) := by
  induction n generalizing member ls with
  | zero => exact ⟨member, h⟩
  | succ n ih =>
      cases ls with
      | nil => exact ⟨member, h⟩
      | cons l ls =>
          obtain ⟨_, _, _, _, _, hrest⟩ := lexemes_flatMap_cons h
          exact ih hrest

/-- The tokens behind a token are those of the text behind it. -/
theorem lexemes_textFrom (h : read tabWidth text = .ok s) (p : Nat) :
    ∃ member, SwitchLayout.lexemes member (s.textFrom (p + 1)) = (s.lexemes.drop (p + 1), none) := by
  obtain ⟨ls, hls, hlexemes⟩ := lexemes_of_read h
  have hchars := chars_lexemes false (splitMark text.toList).2 (by rw [hls])
  rw [hls] at hchars
  rw [← hchars] at hls
  unfold textFrom
  rw [hlexemes]
  rcases splitMark_cases text.toList with hmark | hmark
  · rw [hmark]
    exact lexemes_drop hls (p + 1)
  · rw [hmark]
    exact lexemes_drop hls p

/-- Between two pieces of code there is only whitespace. -/
theorem whitespace_between (hk : k < s.code.length) (hlo : s.place k < p)
    (hhi : p < s.place (k + 1)) : s.kindAt p = .whitespace := by
  have hthins := s.thins_bare
  have hsize : s.place (k + 1) ≤ s.size := by
    rw [← hthins.behind, hthins.le_iff, size_bare]
    exact hk
  apply whitespace_of_ne_place (by omega)
  intro j _ heq
  rw [← heq, hthins.lt_iff] at hlo hhi
  omega

/-- The next code is what comes behind nothing but whitespace. -/
theorem place_succ_eq (hlo : s.place k < p) (hp : p < s.size) (hcode : s.kindAt p ≠ .whitespace)
    (hspace : ∀ i, s.place k < i → i < p → s.kindAt i = .whitespace) : s.place (k + 1) = p := by
  have hthins := s.thins_bare
  obtain ⟨j, hj, rfl⟩ : ∃ j < s.code.length, s.place j = p := by
    by_contra hnone
    apply hcode
    apply whitespace_of_ne_place hp
    intro j hj heq
    exact hnone ⟨j, hj, heq⟩
  have hle := hthins.lt_iff.mp hlo
  rcases Nat.eq_or_lt_of_le hle with heq | hlt
  · exact congrArg s.place heq
  · -- the code in between would be whitespace
    exfalso
    have hlength : k + 1 < s.code.length := by omega
    exact kindAt_place_ne hlength
      (hspace _ (s.place_lt (Nat.lt_succ_self k)) (hthins.increasing hlt))

end Behind

end Script

/-! ## §6. Lines and columns. -/

theorem lineBreaks_append {u w : List Char}
    (h : u.getLast? = some '\r' → w.head? ≠ some '\n') :
    lineBreaks (u ++ w) = lineBreaks u + lineBreaks w := by
  have hline := Location.line_after_eq 0 .origin (u ++ w)
  rw [Location.after_append 0 .origin h, Location.line_after_eq, Location.line_after_eq] at hline
  omega

/-- Spaces at its end add no line break to a text. -/
theorem lineBreaks_append_spaces (u : List Char) (n : Nat) :
    lineBreaks (u ++ List.replicate n ' ') = lineBreaks u := by
  have hspaces : lineBreaks (List.replicate n ' ') = 0 := by
    apply lineBreaks_eq_zero
    rw [List.all_eq_true]
    intro c hc
    rw [List.eq_of_mem_replicate hc]
    rfl
  rw [lineBreaks_append, hspaces, Nat.add_zero]
  intro _ hhead
  cases n with
  | zero => cases hhead
  | succ n => cases hhead

/-- The lexemes of a text part no line break of it. -/
theorem lexeme_parts_no_break {member : Bool} {c : Char} {t rest : List Char}
    (h : extent member c (t ++ rest) = .ok (.whitespace, t.length)) (hc : isLayout c = true)
    (hlast : (c :: t).getLast? = some '\r') : (rest.takeWhile isLayout).head? ≠ some '\n' := by
  intro hhead
  have hcases : isBlank c = true ∨ c = '\n' ∨ c = '\r' := by
    simpa [isLayout, isLineBreak] using hc
  have hnext : t = [] → rest.head? = some '\n' := by
    intro _
    cases rest with
    | nil => cases hhead
    | cons d rest =>
        rw [List.takeWhile_cons] at hhead
        split at hhead
        · exact hhead
        · cases hhead
  rcases hcases with hblank | rfl | rfl
  · -- all of the lexeme is blank
    rw [extent_blank hblank] at h
    have hlength : runLength isBlank (t ++ rest) = t.length := by
      have hpair := Except.ok.inj h
      exact (Prod.mk.inj hpair).2
    have hall := all_of_runLength ((runLength_append_iff isBlank t rest).mp hlength).1
    rcases List.mem_cons.mp (List.mem_of_getLast? hlast) with rfl | hmem
    · exact absurd hblank (by decide)
    · exact absurd (hall _ hmem) (by decide)
  · rw [extent_newline] at h
    have hlength : 0 = t.length := (Prod.mk.inj (Except.ok.inj h)).2
    rw [List.eq_nil_of_length_eq_zero hlength.symm] at hlast
    exact absurd hlast (by decide)
  · rw [extent_return] at h
    have hlength := (Prod.mk.inj (Except.ok.inj h)).2
    cases t with
    | nil =>
        rw [List.nil_append, if_pos (hnext rfl)] at hlength
        cases hlength
    | cons d t =>
        -- the pair of a carriage return and a line feed
        split at hlength
        · rename_i hd
          obtain rfl : d = '\n' := by simpa using hd
          obtain rfl : t = [] := List.eq_nil_of_length_eq_zero (Nat.succ.inj hlength).symm
          exact absurd hlast (by decide)
        · cases hlength

/-- The whitespace in front of the first code among these lexemes. -/
def leadingSpace (ls : List Lexeme) : List Lexeme := ls.takeWhile (·.kind = .whitespace)

theorem codePlace_front (ls : List Lexeme) : codePlace ls 0 = (leadingSpace ls).length := by
  induction ls with
  | nil => rfl
  | cons l ls ih =>
      unfold leadingSpace
      by_cases hl : l.kind = .whitespace
      · rw [codePlace_space hl, ih, List.takeWhile_cons_of_pos (by simpa using hl)]
        rfl
      · rw [codePlace_zero hl, List.takeWhile_cons_of_neg (by simpa using hl)]
        rfl

/-- The location of the first code of a text. -/
theorem locationBehind_leadingSpace {member : Bool} {cs : List Char} {ls : List Lexeme}
    (h : lexemes member cs = (ls, none)) (tabWidth : Nat) (loc : Location) :
    locationBehind tabWidth loc (leadingSpace ls) = loc.after tabWidth (cs.takeWhile isLayout) := by
  induction ls generalizing member cs loc with
  | nil =>
      have hchars := chars_lexemes member cs (by rw [h])
      rw [h] at hchars
      rw [← hchars]
      rfl
  | cons l ls ih =>
      obtain ⟨c, t, rest, rfl, hchars, hextent, hrest⟩ := lexemes_eq_cons h
      have hform := (extent_form hextent).2
      rw [List.take_left] at hform
      unfold leadingSpace
      by_cases hl : l.kind = .whitespace
      · have hlayout : ∀ d ∈ c :: t, isLayout d = true :=
          List.all_eq_true.mp (hform.all_isLayout hl)
        have htake : (c :: (t ++ rest)).takeWhile isLayout = c :: t ++ rest.takeWhile isLayout := by
          rw [← List.cons_append, List.takeWhile_append_of_pos hlayout]
        rw [hl] at hextent
        rw [List.takeWhile_cons_of_pos (by simpa using hl), htake,
          Location.after_append _ _ (lexeme_parts_no_break hextent (hlayout c List.mem_cons_self)),
          ← hchars, ← ih hrest]
        rfl
      · have hc : ¬ isLayout c = true := fun hc => hl (hform.whitespace_iff.mpr hc)
        rw [List.takeWhile_cons_of_neg (by simpa using hl), List.takeWhile_cons_of_neg hc]
        rfl

namespace Script

variable {tabWidth : Nat} {text : String} {s : Script}

theorem get?_of_lt {i : Nat} (hi : i < s.size) : s.get? i = some (s.tokenAt i) := by
  unfold tokenAt get?
  rw [Array.getElem?_eq_getElem hi]
  rfl

/-- A token stands where the one in front of it ends, if that is not the byte order mark. -/
theorem location_succ (h : read tabWidth text = .ok s) {i : Nat} (hi : i + 1 < s.size)
    (hmark : 0 < i ∨ s.kindAt i ≠ .whitespace) :
    (s.tokenAt (i + 1)).location = (s.tokenAt i).location.after tabWidth (s.tokenAt i).chars := by
  have hget := get?_of_lt (s := s) (i := i) (by omega)
  rcases location_next h hget (get?_of_lt hi) with hnext | ⟨hzero, hlexeme, _⟩
  · exact hnext
  · have hkind : s.kindAt i = .whitespace := congrArg Lexeme.kind hlexeme
    rcases hmark with hpos | hcode
    · omega
    · exact absurd hkind hcode

theorem lexemes_drop_eq {p : Nat} (hp : p < s.size) :
    s.lexemes.drop p = (s.tokenAt p).lexeme :: s.lexemes.drop (p + 1) := by
  have hlength : p < s.lexemes.length := by
    rw [length_lexemes]
    exact hp
  have hget := getElem?_lexemes_tokenAt hp
  rw [List.getElem?_eq_getElem hlength] at hget
  rw [List.drop_eq_getElem_cons hlength, Option.some.inj hget]

/-- The location of the first code from the token at `p` on. -/
theorem location_leading (h : read tabWidth text = .ok s) {p q : Nat} (hp : 0 < p) (hpq : p ≤ q)
    (hq : q < s.size) (hspace : ∀ i, p ≤ i → i < q → s.kindAt i = .whitespace)
    (hcode : s.kindAt q ≠ .whitespace) :
    (s.tokenAt q).location
      = locationBehind tabWidth (s.tokenAt p).location (leadingSpace (s.lexemes.drop p)) := by
  unfold leadingSpace
  induction hn : q - p generalizing p with
  | zero =>
      obtain rfl : p = q := by omega
      have hkind : (s.tokenAt p).lexeme.kind ≠ .whitespace := hcode
      rw [lexemes_drop_eq hq, List.takeWhile_cons_of_neg (by simpa using hkind)]
      rfl
  | succ n ih =>
      have hbehind := ih (p := p + 1) (Nat.succ_pos p) (by omega)
        (fun i hlo hhi => hspace i (by omega) hhi) (by omega)
      have hkind : (s.tokenAt p).lexeme.kind = .whitespace := hspace p (Nat.le_refl p) (by omega)
      rw [hbehind, location_succ h (by omega) (.inl hp), lexemes_drop_eq (p := p) (by omega),
        List.takeWhile_cons_of_pos (by simpa using hkind)]
      rfl

/-- The layout between the code number `k` and the next. -/
def gap (s : Script) (k : Nat) : List Char := (s.textFrom (s.place k + 1)).takeWhile isLayout

/-- **The location of a piece of code**, from the piece in front of it. -/
theorem location_place_succ (h : read tabWidth text = .ok s) {k : Nat}
    (hk : k + 1 < s.code.length) :
    (s.tokenAt (s.place (k + 1))).location
      = ((s.tokenAt (s.place k)).location.after tabWidth (s.tokenAt (s.place k)).chars).after
          tabWidth (s.gap k) := by
  have hlt : s.place k < s.place (k + 1) := s.place_lt (Nat.lt_succ_self k)
  have hsize := place_lt_size hk
  obtain ⟨member, hread⟩ := lexemes_textFrom h (s.place k)
  rw [location_leading h (p := s.place k + 1) (Nat.succ_pos _) hlt hsize
      (fun i hlo hhi => whitespace_between (by omega) hlo hhi) (kindAt_place_ne hk),
    location_succ h (by omega) (.inr (kindAt_place_ne (by omega))), locationBehind_leadingSpace hread]
  rfl

/-- The number of line breaks between the code number `k` and the next. -/
def breaksBehind (s : Script) (k : Nat) : Nat := lineBreaks (s.gap k)

/-- The line of a piece of code, from the piece in front of it. -/
theorem lineAt_place_succ (h : read tabWidth text = .ok s) {k : Nat} (hk : k + 1 < s.code.length) :
    s.lineAt (s.place (k + 1))
      = s.lineAt (s.place k) + lineBreaks (s.tokenAt (s.place k)).chars + s.breaksBehind k := by
  show (s.tokenAt (s.place (k + 1))).location.line = _
  rw [location_place_succ h hk, Location.line_after_eq, Location.line_after_eq]
  rfl

theorem location_of_read (h : read tabWidth text = .ok s) {ls : List Lexeme}
    (hls : SwitchLayout.lexemes false (splitMark text.toList).2 = (ls, none)) {j : Nat}
    (hj : j < ls.length) :
    (s.tokenAt ((splitMark text.toList).1.length + j)).location
      = locationBehind tabWidth .origin (ls.take j) := by
  obtain ⟨ls', hls', rfl⟩ := read_eq_ok_iff.mp h
  obtain rfl : ls' = ls := (Prod.mk.inj (hls'.symm.trans hls)).1
  unfold tokenAt
  rw [get?_ofTokens, List.getElem?_append_right (by simp), List.length_map, Nat.add_sub_cancel_left,
    getElem?_locate, List.getElem?_eq_getElem hj]
  rfl

/-- The location of the first piece of code. -/
theorem location_place_zero (h : read tabWidth text = .ok s) (hcode : 0 < s.code.length) :
    (s.tokenAt (s.place 0)).location
      = Location.origin.after tabWidth ((splitMark text.toList).2.takeWhile isLayout) := by
  obtain ⟨ls, hls, hlexemes⟩ := lexemes_of_read h
  have hplace : s.place 0 = (splitMark text.toList).1.length + (leadingSpace ls).length := by
    unfold place
    rw [hlexemes, codePlace_append, List.length_map, codePlace_front]
    intro l hl
    obtain ⟨c, _, rfl⟩ := List.mem_map.mp hl
    rfl
  have hlength : (leadingSpace ls).length < ls.length := by
    have hsize := place_lt_size hcode
    rw [hplace, ← length_lexemes, hlexemes, List.length_append, List.length_map] at hsize
    omega
  have htake : ls.take (leadingSpace ls).length = leadingSpace ls :=
    List.prefix_iff_eq_take.mp (List.takeWhile_prefix _) |>.symm
  rw [hplace, location_of_read h hls hlength, htake, locationBehind_leadingSpace hls]

end Script

end SwitchLayout
