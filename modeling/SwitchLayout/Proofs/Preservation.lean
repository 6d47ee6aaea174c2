/-
  SwitchLayout.Proofs.Preservation
  ────────────────────────────────
  **When a repair keeps the program.**

  A round changes layout only, and reading the new text gives the old code back, with one
  exception: the whitespace between a colon or a line comment and the colon of a label goes
  like any other, and then the two are read as one lexeme (`Script.Glues`).  A round that does
  not glue keeps the code (`code_repaired`).  A round that glues makes the lengths of the
  lexemes of code grow in the dictionary order, later rounds never take that back
  (`lengths_repaired`), and so the program is lost for good.

  The whole repair: `repair_keeps_program_iff`.
-/
import SwitchLayout.Proofs.Rounds

namespace SwitchLayout

open Text

/-! ## §1. New layout, position by position. -/

/-- A new layout may be given position by position. -/
theorem relaid_of_forall {α : Type} {lexeme : α → Lexeme} {text : α → List Char}
    {prev : Option Lexeme} {ts : List α}
    (hfirst : ∀ t, ts[0]? = some t →
      LaidOut prev (lexeme t) (ts[1]?.map lexeme) (text t))
    (hlater : ∀ i t t', ts[i]? = some t → ts[i + 1]? = some t' →
      LaidOut (some (lexeme t)) (lexeme t') (ts[i + 2]?.map lexeme) (text t')) :
    Relaid prev (ts.map lexeme) (ts.map text) := by
  induction ts generalizing prev with
  | nil => exact .nil
  | cons t ts ih =>
      refine .cons ?_ (ih ?_ ?_)
      · rw [List.head?_map, List.head?_eq_getElem?]
        exact hfirst t rfl
      · intro t' ht'
        exact hlater 0 t t' rfl ht'
      · intro i t' t'' ht' ht''
        exact hlater (i + 1) t' t'' ht' ht''

/-- What is glued stands at some position. -/
theorem glues_iff {α : Type} {lexeme : α → Lexeme} {text : α → List Char} {ts : List α} :
    GluesIn (ts.map lexeme) (ts.map text) ↔
      ∃ i t t', ts[i]? = some t ∧ ts[i + 1]? = some t'
        ∧ ((lexeme t).kind = .colon ∨ (lexeme t).isLineComment = true) ∧ text t' = [] := by
  induction ts with
  | nil =>
      constructor
      · exact False.elim
      · rintro ⟨i, t, _, ht, _⟩
        cases ht
  | cons t ts ih =>
      have hhead : Glued (lexeme t) (ts.map text) ↔
          ∃ t', ts[0]? = some t'
            ∧ ((lexeme t).kind = .colon ∨ (lexeme t).isLineComment = true) ∧ text t' = [] := by
        unfold Glued
        rw [List.head?_map, ← List.head?_eq_getElem?, Option.map_eq_some_iff]
        constructor
        · rintro ⟨hkind, t', ht', htext⟩
          exact ⟨t', ht', hkind, htext⟩
        · rintro ⟨t', ht', hkind, htext⟩
          exact ⟨hkind, t', ht', htext⟩
      show Glued (lexeme t) (ts.map text) ∨ GluesIn (ts.map lexeme) (ts.map text) ↔ _
      rw [hhead, ih]
      constructor
      · rintro (⟨t', ht', hrest⟩ | ⟨i, a, a', ha, ha', hrest⟩)
        · exact ⟨0, t, t', rfl, ht', hrest⟩
        · exact ⟨i + 1, a, a', ha, ha', hrest⟩
      · rintro ⟨i, a, a', ha, ha', hrest⟩
        cases i with
        | zero =>
            obtain rfl : t = a := by simpa using ha
            exact .inl ⟨a', ha', hrest⟩
        | succ i => exact .inr ⟨i, a, a', ha, ha', hrest⟩

/-- The lexemes of a text in which no literal stays open spell it. -/
theorem flatMap_chars_of_lexemes {member : Bool} {cs : List Char} {ls : List Lexeme}
    (h : lexemes member cs = (ls, none)) : ls.flatMap Lexeme.chars = cs := by
  have hspelled := chars_lexemes member cs (by rw [h])
  rwa [h] at hspelled

namespace Script

/-! ## §2. A round is a new layout. -/

variable {settings : Settings} {text : String} {s : Script}

/-- An edit of a round leaves its token in a layout that is allowed, and is none of the first
token. -/
theorem laidOut_of_selection (h : read settings.tabWidth text = .ok s) {p : Nat} {e : Edit}
    {t : Token} (he : (s.selection settings).chosen[p]? = some e) (ht : s.get? p = some t) :
    0 < p ∧ LaidOut (s.lexemeBefore? p) t.lexeme ((s.get? (p + 1)).map Token.lexeme)
      (e.apply t) := by
  obtain ⟨rfl, _, f, hf, hfix⟩ := selection_eq_some he
  obtain ⟨q, scope, _, hscope, i, hi, hprop⟩ := standard_fix (mem_flaws_iff.mp hf).1 hfix
  have hbranch := (SwitchBody.branchesFrom_spec _ _).2 i hi
  refine SwitchBody.laidOut_of_proposes h (Nat.lt_of_lt_of_le (Nat.succ_pos _) hbranch.1)
    hbranch.2.2.2 ?_ hprop ht
  intro scope' hscope'
  obtain ⟨hmem, hcond⟩ := scopeOf?_scopeTable_iff.mp hscope'
  obtain ⟨hlt, hlt', _⟩ := ordered_of_mem_detectedScopes hmem
  exact ⟨by omega, hlt'⟩

/-- A new layout of a script: each token gets a text that its neighbours allow, and the first
token keeps its own. -/
structure Relays (s : Script) (f : Token → List Char) : Prop where
  laid : ∀ {p : Nat} {t : Token}, s.get? p = some t →
    LaidOut (s.lexemeBefore? p) t.lexeme ((s.get? (p + 1)).map Token.lexeme) (f t)
  first : ∀ {t : Token}, s.get? 0 = some t → f t = t.chars

/-- Texts that the neighbours of each token allow are a new layout of all tokens. -/
theorem relaid_of_laidOut {f : Token → List Char}
    (hf : ∀ {p : Nat} {t : Token}, s.get? p = some t →
      LaidOut (s.lexemeBefore? p) t.lexeme ((s.get? (p + 1)).map Token.lexeme) (f t)) :
    Relaid none s.lexemes (s.tokens.toList.map f) := by
  refine relaid_of_forall (fun t ht => ?_) (fun p t t' ht ht' => ?_)
  · rw [Array.getElem?_toList] at ht ⊢
    exact hf ht
  · rw [Array.getElem?_toList] at ht ht' ⊢
    have hnext := hf ht'
    rw [lexemeBefore?, get?, ht] at hnext
    exact hnext

theorem Relays.relaid {f : Token → List Char} (hf : s.Relays f) :
    Relaid none s.lexemes (s.tokens.toList.map f) :=
  relaid_of_laidOut hf.laid

/-- **A round gives the script a new layout.** -/
theorem relays_selection (h : read settings.tabWidth text = .ok s) :
    s.Relays (s.selection settings).textOf := by
  constructor
  · intro p t ht
    rw [textOf_eq ht]
    cases he : (s.selection settings).chosen[p]? with
    | none => exact .kept
    | some e => exact (laidOut_of_selection h he ht).2
  · intro t ht
    rw [textOf_eq ht]
    cases he : (s.selection settings).chosen[0]? with
    | none => rfl
    | some e => exact absurd (laidOut_of_selection h he ht).1 (Nat.lt_irrefl 0)

/-! ## §3. What a round glues. -/

/-- A round glues when it takes away the whitespace between a colon or a line comment and the
colon behind it. -/
def Glues (s : Script) (sel : Selection) : Prop :=
  ∃ i < s.size, (s.kindAt i = .colon ∨ (s.tokenAt i).lexeme.isLineComment = true)
    ∧ s.kindAt (i + 1) = .whitespace ∧ s.kindAt (i + 2) = .colon
    ∧ sel.textOf (s.tokenAt (i + 1)) = []

instance (s : Script) (sel : Selection) : Decidable (s.Glues sel) :=
  inferInstanceAs (Decidable (∃ i < s.size, _))

/-- What stands behind a colon or a line comment goes only in front of a colon. -/
theorem Relays.kinds_of_glued {tabWidth : Nat} {f : Token → List Char} (hf : s.Relays f)
    (h : read tabWidth text = .ok s) {i : Nat} {t t' : Token} (ht : s.get? i = some t)
    (ht' : s.get? (i + 1) = some t') (hkind : t.kind = .colon ∨ t.lexeme.isLineComment = true)
    (hgone : f t' = []) : t'.kind = .whitespace ∧ s.kindAt (i + 2) = .colon := by
  have hopen : t.lexeme.isClosed = false := (kind_facts_of_open hkind).2.2
  have hlaid := hf.laid ht'
  rw [lexemeBefore?, ht, hgone] at hlaid
  obtain ⟨hspace, hcolon⟩ := hlaid.of_gone (chars_ne_nil h ht') hopen
  refine ⟨hspace, ?_⟩
  obtain ⟨l, hl, hlkind⟩ := Option.map_eq_some_iff.mp hcolon
  obtain ⟨colon, hcolon, rfl⟩ := Option.map_eq_some_iff.mp hl
  rw [kindAt, tokenAt, hcolon]
  exact hlkind

theorem glues_iff_lexemes (h : read settings.tabWidth text = .ok s) :
    s.Glues (s.selection settings) ↔
      GluesIn s.lexemes (s.tokens.toList.map (s.selection settings).textOf) := by
  unfold lexemes
  rw [glues_iff]
  constructor
  · rintro ⟨i, hi, hkind, hspace, _, hgone⟩
    obtain ⟨t', ht', htoken', _⟩ := get?_of_kindAt hspace (by decide)
    obtain ⟨t, ht⟩ : ∃ t, s.get? i = some t := ⟨_, Array.getElem?_eq_getElem hi⟩
    have htoken : s.tokenAt i = t := by
      rw [tokenAt, ht]
      rfl
    rw [kindAt, htoken] at hkind
    rw [htoken'] at hgone
    refine ⟨i, t, t', ?_, ?_, hkind, hgone⟩
    · rw [Array.getElem?_toList]
      exact ht
    · rw [Array.getElem?_toList]
      exact ht'
  · rintro ⟨i, t, t', ht, ht', hkind, hgone⟩
    rw [Array.getElem?_toList] at ht ht'
    obtain ⟨hspace, hcolon⟩ := (relays_selection h).kinds_of_glued h ht ht' hkind hgone
    have htoken : s.tokenAt i = t := by
      rw [tokenAt, get?, ht]
      rfl
    have htoken' : s.tokenAt (i + 1) = t' := by
      rw [tokenAt, get?, ht']
      rfl
    obtain ⟨hi, _⟩ := Array.getElem?_eq_some_iff.mp ht
    refine ⟨i, hi, ?_, ?_, hcolon, ?_⟩
    · rw [kindAt, htoken]
      exact hkind
    · rw [kindAt, htoken']
      exact hspace
    · rw [htoken']
      exact hgone

/-! ## §4. Reading the text of a round. -/

theorem splitMark_cons {c : Char} {cs : List Char} (h : (splitMark (c :: cs)).1 = [])
    (cs' : List Char) : splitMark (c :: cs') = ([], c :: cs') := by
  by_cases hc : c = byteOrderMark
  · simp [splitMark, hc] at h
  · rw [splitMark, if_neg hc]

/-- A new layout that keeps the first token keeps the byte order mark apart. -/
theorem splitMark_relaid {ts : List Token} {f : Token → List Char} {cs : List Char}
    {ls : List Lexeme} (hlexemes : ts.map Token.lexeme = (splitMark cs).1.map markLexeme ++ ls)
    (hsource : ts.flatMap Token.chars = cs) (hne : ∀ t ∈ ts, t.chars ≠ [])
    (hfirst : ∀ t, ts[0]? = some t → f t = t.chars)
    (hrel : Relaid none (ts.map Token.lexeme) (ts.map f)) :
    ∃ prev us, Relaid prev ls us ∧ (splitMark (ts.map f).flatten).2 = us.flatten
      ∧ (GluesIn ls us ↔ GluesIn (ts.map Token.lexeme) (ts.map f)) := by
  have hmark : (splitMark cs).1 = [] ∨ (splitMark cs).1 = [byteOrderMark] := by
    unfold splitMark
    repeat' split
    · exact .inl rfl
    · rename_i hc
      exact .inr (by rw [hc])
    · exact .inl rfl
  rcases hmark with hmark | hmark
  · rw [hmark, List.map_nil, List.nil_append] at hlexemes
    rw [hlexemes] at hrel ⊢
    refine ⟨none, ts.map f, hrel, ?_, Iff.rfl⟩
    cases ts with
    | nil => rfl
    | cons t ts =>
        -- the text starts as it did, and so with no mark
        obtain ⟨c, w, hchars⟩ := List.exists_cons_of_ne_nil (hne t List.mem_cons_self)
        rw [List.flatMap_cons, hchars, List.cons_append] at hsource
        rw [List.map_cons, List.flatten_cons, hfirst t rfl, hchars, List.cons_append]
        rw [← hsource] at hmark
        rw [splitMark_cons hmark]
  · rw [hmark] at hlexemes
    cases ts with
    | nil => cases hlexemes
    | cons t ts =>
        obtain ⟨hlexeme, hls⟩ : t.lexeme = markLexeme byteOrderMark ∧ ts.map Token.lexeme = ls :=
          List.cons.inj hlexemes
        have hchars : f t = [byteOrderMark] := by
          rw [hfirst t rfl]
          exact congrArg Lexeme.chars hlexeme
        rw [List.map_cons, List.map_cons, hls, hlexeme] at hrel
        rw [List.map_cons, List.map_cons, hls, hlexeme, List.flatten_cons, hchars]
        cases hrel with
        | cons hhead htail =>
            refine ⟨_, ts.map f, htail, rfl, ?_⟩
            -- the mark itself is glued to nothing
            show _ ↔ Glued _ _ ∨ _
            rw [or_iff_right]
            rintro ⟨hkind | hcomment, _⟩
            · cases hkind
            · cases hcomment

/-- The text behind the byte order mark is the old one in the new layout. -/
theorem Relays.relaid_text {tabWidth : Nat} {f : Token → List Char} (hf : s.Relays f)
    (h : read tabWidth text = .ok s) :
    ∃ prev ls us, SwitchLayout.lexemes false (splitMark text.toList).2 = (ls, none)
      ∧ Relaid prev ls us ∧ (splitMark (s.tokens.toList.map f).flatten).2 = us.flatten
      ∧ (GluesIn ls us ↔ GluesIn s.lexemes (s.tokens.toList.map f)) := by
  obtain ⟨ls, hls, hlexemes⟩ := lexemes_of_read h
  have hsource : s.tokens.toList.flatMap Token.chars = text.toList := by
    rw [← source_read h, source, String.toList_ofList]
  have hne : ∀ t ∈ s.tokens.toList, t.chars ≠ [] := by
    intro t ht
    obtain ⟨i, hi⟩ := List.mem_iff_getElem?.mp ht
    rw [Array.getElem?_toList] at hi
    exact chars_ne_nil h hi
  have hfirst : ∀ t, s.tokens.toList[0]? = some t → f t = t.chars := by
    intro t ht
    rw [Array.getElem?_toList] at ht
    exact hf.first ht
  obtain ⟨prev, us, hrel, hsplit, hglues⟩ :=
    splitMark_relaid hlexemes hsource hne hfirst hf.relaid
  exact ⟨prev, ls, us, hls, hrel, hsplit, hglues⟩

/-! ## §5. One round. -/

/-- Two scripts have the same program: the same code, up to the letter case of the branch
keywords, which may have been lowered. -/
def SameProgram (s s' : Script) : Prop := List.Forall₂ Lexeme.Same s.code s'.code

instance (s s' : Script) : Decidable (s.SameProgram s') :=
  decidable_of_iff
    (s.code.length = s'.code.length ∧ ∀ p ∈ s.code.zip s'.code, p.1.Same p.2) (by
      unfold SameProgram
      rw [List.forall₂_iff_zip, Prod.forall])

/-- The lengths of the lexemes of code. -/
def codeLengths (s : Script) : List Nat := s.code.map (·.chars.length)

theorem SameProgram.refl (s : Script) : s.SameProgram s :=
  List.forall₂_same.mpr fun _ _ => ⟨rfl, .inl rfl⟩

theorem SameProgram.trans {s s' s'' : Script} (h : s.SameProgram s') (h' : s'.SameProgram s'') :
    s.SameProgram s'' := by
  unfold SameProgram at *
  generalize s.code = ls, s'.code = ls', s''.code = ls'' at *
  induction h generalizing ls'' with
  | nil => exact h'
  | cons hl _ ih =>
      cases h' with
      | cons hl' htail => exact .cons (hl.trans hl') (ih _ htail)

theorem SameProgram.codeLengths_eq {s s' : Script} (h : s.SameProgram s') :
    s'.codeLengths = s.codeLengths := by
  unfold SameProgram at h
  unfold codeLengths
  generalize s.code = ls, s'.code = ls' at *
  induction h with
  | nil => rfl
  | cons hl _ ih => rw [List.map_cons, List.map_cons, ih, hl.length_chars]

/-- **A new layout that glues nothing keeps the program.** -/
theorem Relays.code {tabWidth : Nat} {f : Token → List Char} (hf : s.Relays f)
    (h : read tabWidth text = .ok s) (hfree : ¬ GluesIn s.lexemes (s.tokens.toList.map f))
    {text' : String} (htext' : text'.toList = (s.tokens.toList.map f).flatten) :
    ∃ s', read tabWidth text' = .ok s' ∧ s.SameProgram s' := by
  obtain ⟨prev, ls, us, hls, hrel, hsplit, hglues⟩ := hf.relaid_text h
  have htext : ls.flatMap Lexeme.chars = (splitMark text.toList).2 := flatMap_chars_of_lexemes hls
  rw [← htext] at hls
  obtain ⟨ls', hcode', hsame⟩ := codeLexemes_relaid hls hrel (fun hg => hfree (hglues.mp hg))
  rw [← hsplit, ← htext'] at hcode'
  obtain ⟨s', hread', rfl⟩ := read_of_codeLexemes hcode' tabWidth
  refine ⟨s', hread', ?_⟩
  have hcode := code_read h
  rw [← htext, codeLexemes, hls] at hcode
  unfold SameProgram
  rw [← (Prod.mk.inj hcode).1]
  exact hsame

/-- **A round that glues nothing keeps the program.** -/
theorem code_repaired (h : read settings.tabWidth text = .ok s)
    (hfree : ¬ s.Glues (s.selection settings)) :
    ∃ s', read settings.tabWidth (s.repaired settings) = .ok s' ∧ s.SameProgram s' := by
  rw [glues_iff_lexemes h] at hfree
  exact (relays_selection h).code h hfree (s.toList_repaired settings)

/-- **A round that glues makes the lexemes grow.** -/
theorem lengths_repaired (h : read settings.tabWidth text = .ok s)
    (hglues : s.Glues (s.selection settings)) {s' : Script}
    (h' : read settings.tabWidth (s.repaired settings) = .ok s') :
    s.codeLengths < s'.codeLengths := by
  obtain ⟨prev, ls, us, hls, hrel, hsplit, hiff⟩ := (relays_selection h).relaid_text h
  have htext : ls.flatMap Lexeme.chars = (splitMark text.toList).2 := flatMap_chars_of_lexemes hls
  rw [← htext] at hls
  rw [glues_iff_lexemes h] at hglues
  have hlt := codeLexemes_glued hls hrel (hiff.mpr hglues)
  have hcode := code_read h
  rw [← htext, codeLexemes, hls] at hcode
  rw [← hsplit, ← toList_repaired, code_read h'] at hlt
  unfold codeLengths
  rw [← (Prod.mk.inj hcode).1]
  exact hlt

end Script

/-! ## §6. All rounds. -/

section Loop

variable {settings : Settings} {text : String} {s : Script}

/-- The text that a round leaves, or the text itself if it cannot be read. -/
def roundSource (settings : Settings) (text : String) : String :=
  match Script.read settings.tabWidth text with
  | .ok s => s.repaired settings
  | .error _ => text

/-- The text that is left after so many rounds. -/
def sourceAfter (settings : Settings) : Nat → String → String
  | 0, text => text
  | rounds + 1, text => sourceAfter settings rounds (roundSource settings text)

/-- The next round on this text glues. -/
def RoundGlues (settings : Settings) (text : String) : Prop :=
  match Script.read settings.tabWidth text with
  | .ok s => s.Glues (s.selection settings)
  | .error _ => False

instance (settings : Settings) (text : String) : Decidable (RoundGlues settings text) :=
  match h : Script.read settings.tabWidth text with
  | .ok s => decidable_of_iff (s.Glues (s.selection settings)) (by rw [RoundGlues, h])
  | .error _ => .isFalse (by rw [RoundGlues, h]; exact id)

theorem roundSource_of_read (h : Script.read settings.tabWidth text = .ok s) :
    roundSource settings text = s.repaired settings := by
  rw [roundSource, h]

theorem roundGlues_of_read (h : Script.read settings.tabWidth text = .ok s) :
    RoundGlues settings text ↔ s.Glues (s.selection settings) := by
  rw [RoundGlues, h]

/-- Once a round makes no edit, the text stays. -/
theorem sourceAfter_of_applied_eq_zero (h : Script.read settings.tabWidth text = .ok s)
    (hnone : (s.applyFixes (s.flaws settings)).applied = 0) (k : Nat) :
    sourceAfter settings k text = text := by
  have hround : roundSource settings text = text := by
    rw [roundSource_of_read h, Script.repaired_of_applied_eq_zero hnone, Script.source_read h]
  induction k with
  | zero => rfl
  | succ k ih => rw [sourceAfter, hround, ih]

/-- Once a round makes no edit, nothing is glued any more. -/
theorem not_roundGlues_of_applied_eq_zero (h : Script.read settings.tabWidth text = .ok s)
    (hnone : (s.applyFixes (s.flaws settings)).applied = 0) (k : Nat) :
    ¬ RoundGlues settings (sourceAfter settings k text) := by
  rw [sourceAfter_of_applied_eq_zero h hnone, roundGlues_of_read h]
  rintro ⟨i, _, _, hspace, _, hgone⟩
  obtain ⟨t, ht, htoken, _⟩ := Script.get?_of_kindAt hspace (by decide)
  rw [htoken, Script.textOf_of_applied_eq_zero hnone] at hgone
  exact Script.chars_ne_nil h ht hgone

/-- Where no round glues, the repair ends with the program it started with. -/
theorem repairWithin_keeps (hindent : 1 ≤ settings.indent) (passes : Nat) :
    ∀ {text : String} {s : Script}, Script.read settings.tabWidth text = .ok s →
      (∀ k < passes, ¬ RoundGlues settings (sourceAfter settings k text)) →
      ∃ report s', repairWithin settings passes text = .ok report
        ∧ Script.read settings.tabWidth report.source = .ok s' ∧ s.SameProgram s' := by
  induction passes with
  | zero =>
      intro text s h _
      exact ⟨_, s, repairWithin_zero hindent h, h, .refl s⟩
  | succ passes ih =>
      intro text s h hfree
      rw [repairWithin_succ hindent h]
      by_cases hnone : (s.applyFixes (s.flaws settings)).applied = 0
      · rw [if_pos hnone]
        exact ⟨_, s, rfl, h, .refl s⟩
      · rw [if_neg hnone]
        have hfirst := hfree 0 (Nat.succ_pos passes)
        rw [sourceAfter, roundGlues_of_read h] at hfirst
        obtain ⟨s₁, h₁, hsame⟩ := Script.code_repaired h hfirst
        obtain ⟨rest, s', hrest, h', hsame'⟩ := ih h₁ fun k hk => by
          have hlater := hfree (k + 1) (Nat.succ_lt_succ hk)
          rwa [sourceAfter, roundSource_of_read h] at hlater
        rw [hrest]
        exact ⟨_, s', rfl, h', hsame.trans hsame'⟩

/-- Rounds never make the lexemes of code shorter in the dictionary order, and a round that
glues makes them longer. -/
theorem repairWithin_lengths (hindent : 1 ≤ settings.indent) (passes : Nat) :
    ∀ {text : String} {s s' : Script} {report : Report},
      Script.read settings.tabWidth text = .ok s →
      repairWithin settings passes text = .ok report →
      Script.read settings.tabWidth report.source = .ok s' →
      (s.codeLengths = s'.codeLengths ∨ s.codeLengths < s'.codeLengths)
        ∧ ∀ k < passes, RoundGlues settings (sourceAfter settings k text) →
            s.codeLengths < s'.codeLengths := by
  induction passes with
  | zero =>
      intro text s s' report h hrepair h'
      rw [repairWithin_zero hindent h] at hrepair
      obtain rfl := Except.ok.inj hrepair
      obtain rfl : s = s' := Except.ok.inj (h.symm.trans h')
      exact ⟨.inl rfl, fun k hk => absurd hk (Nat.not_lt_zero k)⟩
  | succ passes ih =>
      intro text s s' report h hrepair h'
      rw [repairWithin_succ hindent h] at hrepair
      by_cases hnone : (s.applyFixes (s.flaws settings)).applied = 0
      · rw [if_pos hnone] at hrepair
        obtain rfl := Except.ok.inj hrepair
        obtain rfl : s = s' := Except.ok.inj (h.symm.trans h')
        exact ⟨.inl rfl, fun k _ hglues =>
          absurd hglues (not_roundGlues_of_applied_eq_zero h hnone k)⟩
      · rw [if_neg hnone] at hrepair
        obtain ⟨rest, hrest, hsource⟩ : ∃ rest,
            repairWithin settings passes (s.repaired settings) = .ok rest
              ∧ report.source = rest.source := by
          cases hrest : repairWithin settings passes (s.repaired settings) with
          | error e =>
              rw [hrest] at hrepair
              cases hrepair
          | ok rest =>
              rw [hrest] at hrepair
              exact ⟨rest, rfl, by rw [← Except.ok.inj hrepair]⟩
        -- the text of the round could be read, or the repair would have failed
        obtain ⟨s₁, h₁⟩ : ∃ s₁, Script.read settings.tabWidth (s.repaired settings) = .ok s₁ := by
          cases hread : Script.read settings.tabWidth (s.repaired settings) with
          | ok s₁ => exact ⟨s₁, rfl⟩
          | error e =>
              rw [repairWithin_of_error hread] at hrest
              cases hrest
        rw [hsource] at h'
        obtain ⟨hgrow, hlater⟩ := ih h₁ hrest h'
        have hglued : s.Glues (s.selection settings) → s.codeLengths < s'.codeLengths := by
          intro hglues
          have hstep := Script.lengths_repaired h hglues h₁
          rcases hgrow with heq | hlt
          · rwa [← heq]
          · exact List.lt_trans hstep hlt
        by_cases hglues : s.Glues (s.selection settings)
        · exact ⟨.inr (hglued hglues), fun _ _ _ => hglued hglues⟩
        · obtain ⟨s₂, h₂, hsame⟩ := Script.code_repaired h hglues
          obtain rfl : s₁ = s₂ := Except.ok.inj (h₁.symm.trans h₂)
          rw [← hsame.codeLengths_eq]
          refine ⟨hgrow, fun k hk hk' => ?_⟩
          cases k with
          | zero =>
              rw [sourceAfter, roundGlues_of_read h] at hk'
              exact absurd hk' hglues
          | succ k =>
              rw [sourceAfter, roundSource_of_read h] at hk'
              exact hlater k (Nat.lt_of_succ_lt_succ hk) hk'

/-- **When a repair keeps the program.**  With settings that can be used, and for a text that
can be read, the repair gives a report whose text can be read and holds the same code — branch
keywords may have gone to lower case — exactly when none of its rounds takes away the
whitespace between a line comment or a colon and the colon of a label. -/
theorem repair_keeps_program_iff (hindent : 1 ≤ settings.indent)
    (h : Script.read settings.tabWidth text = .ok s) :
    (∃ report s', repair text settings = .ok report
        ∧ Script.read settings.tabWidth report.source = .ok s' ∧ s.SameProgram s') ↔
      ∀ k < maxPasses, ¬ RoundGlues settings (sourceAfter settings k text) := by
  constructor
  · rintro ⟨report, s', hrepair, h', hsame⟩ k hk hglues
    have hlt := (repairWithin_lengths hindent maxPasses h hrepair h').2 k hk hglues
    rw [hsame.codeLengths_eq] at hlt
    exact List.lt_irrefl _ hlt
  · exact repairWithin_keeps hindent maxPasses h

/-- The two sides at work: a line comment swallows the colon below it, and a label that is only
badly spaced keeps its program. -/
theorem repair_keeps_program_iff_comment :
    let lost := "switch ($x) \x7b case 1 // one\n: break; \x7d"
    let kept := "switch ($x) \x7b CASE 1 : break; \x7d"
    ((1 ≤ Settings.standard.indent
          ∧ Script.read 4 lost = .ok (Script.ofText 4 lost))
        ∧ ¬ ∃ report s', repair lost .standard = .ok report
            ∧ Script.read 4 report.source = .ok s' ∧ (Script.ofText 4 lost).SameProgram s')
      ∧ Script.read 4 kept = .ok (Script.ofText 4 kept)
        ∧ ∃ report s', repair kept .standard = .ok report
            ∧ Script.read 4 report.source = .ok s' ∧ (Script.ofText 4 kept).SameProgram s' := by
  intro lost kept
  have hlost : Script.read 4 lost = .ok (Script.ofText 4 lost) := Script.read_ofText (by decide +kernel)
  have hkept : Script.read 4 kept = .ok (Script.ofText 4 kept) := Script.read_ofText (by decide +kernel)
  have hindent : 1 ≤ Settings.standard.indent := by decide
  have hiff := repair_keeps_program_iff hindent hlost
  have hiff' := repair_keeps_program_iff hindent hkept
  refine ⟨⟨⟨hindent, hlost⟩, ?_⟩, hkept, hiff'.mpr ?_⟩
  · intro h
    exact hiff.mp h 0 (by decide) (by decide +kernel)
  · -- the first round leaves nothing to edit
    intro k _
    cases k with
    | zero => decide +kernel
    | succ k =>
        have hround : roundSource .standard kept = "switch ($x) \x7b case 1: break; \x7d" := by
          decide +kernel
        rw [sourceAfter, hround]
        exact not_roundGlues_of_applied_eq_zero (Script.read_ofText (by decide +kernel))
          (by decide +kernel) k

end Loop

end SwitchLayout
