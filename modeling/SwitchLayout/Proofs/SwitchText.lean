/-
  SwitchLayout.Proofs.SwitchText
  ──────────────────────────────
  **Switches as they are written, and in canonical layout.**

  `SwitchText` is a switch with any number of cases, their labels, their calls and the
  statements that end them, together with the freedom of layout that a writer takes: the letter
  case of the keywords, the blanks behind a `case` and in front of a colon, and the depth of the
  statements that end the cases.  `text` writes it down and `tidy` is the same switch in
  canonical layout.

  The text is cut into `pieces`, each a lexeme with the text that the canonical layout has in
  its place:

    • `chars_pieces` — the lexemes of the pieces spell the text,
    • `tidyChars_pieces` — their canonical texts spell the canonical text,
    • `lexemes_text` — and the lexemes are what is read from the text.
-/
import SwitchLayout.Proofs.Reading

namespace SwitchLayout

open Text

/-! ## §1. What is written. -/

/-- So many spaces. -/
def spaces (n : Nat) : List Char := List.replicate n ' '

/-- The label of a case. -/
inductive Label where
  /-- A number. -/
  | number (digits : List Char) (ne : digits ≠ []) (digit : digits.all Char.isDigit = true)
  /-- Small letters and spaces in single quotes. -/
  | quoted (letters : List Char) (plain : letters.all (fun c => c.isLower || c == ' ') = true)
  /-- A dollar sign and small letters. -/
  | dollar (name : List Char) (ne : name ≠ []) (lower : name.all Char.isLower = true)

/-- The text of a label. -/
def Label.chars : Label → List Char
  | .number digits _ _ => digits
  | .quoted letters _ => '\x27' :: (letters ++ ['\x27'])
  | .dollar name _ _ => '$' :: name

/-- A call of a function without arguments, whose name starts with `f_`. -/
structure Call where
  name : List Char
  lower : name.all Char.isLower = true

/-- The line of a call, `depth` columns deep. -/
def Call.line (depth : Nat) (f : Call) : List Char :=
  spaces depth ++ ['f', '_'] ++ f.name ++ ['(', ')', ';', '\n']

/-- The statement that ends a case. -/
inductive Terminator where
  /-- A `break`. -/
  | breakStatement
  /-- A `return` without a value. -/
  | returnStatement
  /-- A `continue`. -/
  | continueStatement
  /-- A `throw` of a variable. -/
  | throwStatement

/-- The keyword of a terminator. -/
def Terminator.keyword : Terminator → List Char
  | .breakStatement => ['b', 'r', 'e', 'a', 'k']
  | .returnStatement => ['r', 'e', 't', 'u', 'r', 'n']
  | .continueStatement => ['c', 'o', 'n', 't', 'i', 'n', 'u', 'e']
  | .throwStatement => ['t', 'h', 'r', 'o', 'w']

/-- What follows the keyword of a terminator: the semicolon, behind `throw` also what is
thrown. -/
def Terminator.rest : Terminator → List Char
  | .throwStatement => [' ', '$', 'e', ';']
  | _ => [';']

/-- A case: its label, its code and the statement that ends it. -/
structure Case where
  label : Label
  body : List Call
  terminator : Terminator

/-- How a case is laid out: its keyword as written, the blanks behind it and in front of the
colon, and the spaces in front of the statement that ends it. -/
structure CaseLayout where
  keyword : List Char
  keyword_eq : lowerAscii keyword = ['c', 'a', 's', 'e']
  gap : List Char
  gap_ne : gap ≠ []
  gap_blank : gap.all isBlank = true
  beforeColon : List Char
  beforeColon_blank : beforeColon.all isBlank = true
  depth : Nat

/-- How a `default` is laid out. -/
structure DefaultLayout where
  keyword : List Char
  keyword_eq : lowerAscii keyword = ['d', 'e', 'f', 'a', 'u', 'l', 't']
  beforeColon : List Char
  beforeColon_blank : beforeColon.all isBlank = true

/-- A switch of at least one case and a `default`, with the layout of each. -/
structure SwitchText where
  /-- The column of the switch, counted from zero. -/
  pad : Nat
  /-- The columns of one level. -/
  indent : Nat
  indent_pos : 1 ≤ indent
  cases : List (Case × CaseLayout)
  cases_ne : cases ≠ []
  defaultLayout : DefaultLayout
  defaultBody : List Call

/-! ## §2. How it is written. -/

namespace SwitchText

/-- The depth of the branch keywords. -/
def one (w : SwitchText) : Nat := w.pad + w.indent

/-- The depth of the code of the branches. -/
def two (w : SwitchText) : Nat := w.pad + 2 * w.indent

/-- The lines of a case. -/
def caseText (w : SwitchText) (x : Case × CaseLayout) : List Char :=
  spaces w.one ++ x.2.keyword ++ x.2.gap ++ x.1.label.chars ++ x.2.beforeColon ++ [':', '\n']
    ++ x.1.body.flatMap (Call.line w.two)
    ++ spaces x.2.depth ++ x.1.terminator.keyword ++ x.1.terminator.rest ++ ['\n']

/-- The lines of the `default`. -/
def defaultText (w : SwitchText) : List Char :=
  spaces w.one ++ w.defaultLayout.keyword ++ w.defaultLayout.beforeColon ++ [':', '\n']
    ++ w.defaultBody.flatMap (Call.line w.two)

/-- The switch as it is written. -/
def text (w : SwitchText) : String :=
  String.ofList
    (spaces w.pad ++ "switch ($x) \x7b\n".toList ++ w.cases.flatMap w.caseText ++ w.defaultText
      ++ spaces w.pad ++ ['\x7d', '\n'])

end SwitchText

/-- The canonical layout of a case whose code stands at `depth`. -/
def CaseLayout.tidy (depth : Nat) : CaseLayout where
  keyword := ['c', 'a', 's', 'e']
  keyword_eq := rfl
  gap := [' ']
  gap_ne := List.cons_ne_nil _ _
  gap_blank := rfl
  beforeColon := []
  beforeColon_blank := rfl
  depth := depth

/-- The canonical layout of a `default`. -/
def DefaultLayout.tidy : DefaultLayout where
  keyword := ['d', 'e', 'f', 'a', 'u', 'l', 't']
  keyword_eq := rfl
  beforeColon := []
  beforeColon_blank := rfl

/-- The same switch in canonical layout. -/
def SwitchText.tidy (w : SwitchText) : SwitchText where
  pad := w.pad
  indent := w.indent
  indent_pos := w.indent_pos
  cases := w.cases.map fun x => (x.1, .tidy w.two)
  cases_ne := by simpa using w.cases_ne
  defaultLayout := .tidy
  defaultBody := w.defaultBody

@[simp] theorem SwitchText.pad_tidy (w : SwitchText) : w.tidy.pad = w.pad := rfl

@[simp] theorem SwitchText.one_tidy (w : SwitchText) : w.tidy.one = w.one := rfl

@[simp] theorem SwitchText.two_tidy (w : SwitchText) : w.tidy.two = w.two := rfl

/-! ## §3. Pieces. -/

/-- A lexeme with the text that the canonical layout has in its place. -/
structure Piece where
  lexeme : Lexeme
  tidy : List Char

namespace Piece

/-- A lexeme that stays. -/
def kept (kind : TokenKind) (chars : List Char) : Piece := ⟨⟨kind, chars⟩, chars⟩

/-- Whitespace, if there is any. -/
def blanks (chars tidy : List Char) : List Piece :=
  if chars = [] then [] else [⟨⟨.whitespace, chars⟩, tidy⟩]

/-- The end of a line. -/
def newline : Piece := kept .whitespace ['\n']

end Piece

/-- The lexeme of a label. -/
def Label.lexeme (l : Label) : Lexeme :=
  match l with
  | .quoted _ _ => ⟨.string, l.chars⟩
  | _ => ⟨.word, l.chars⟩

/-- The kind of a terminator. -/
def Terminator.kind : Terminator → TokenKind
  | .breakStatement => .breakKw
  | .returnStatement => .returnKw
  | .continueStatement => .continueKw
  | .throwStatement => .throwKw

/-- The pieces behind the keyword of a terminator. -/
def Terminator.restPieces : Terminator → List Piece
  | .throwStatement => [.kept .whitespace [' '], .kept .word ['$', 'e'], .kept .semicolon [';']]
  | _ => [.kept .semicolon [';']]

/-- The pieces of a call. -/
def Call.pieces (depth : Nat) (f : Call) : List Piece :=
  [.kept .whitespace (spaces depth), .kept .word ('f' :: '_' :: f.name), .kept .openParen ['('],
    .kept .closeParen [')'], .kept .semicolon [';'], .newline]

namespace SwitchText

/-- The pieces of the lines behind the label of a case: its code and the statement that ends
it.  A statement that stands too deep loses spaces in front of it, one that does not stand deep
enough gains them itself. -/
def endPieces (w : SwitchText) (x : Case × CaseLayout) : List Piece :=
  Piece.blanks (spaces x.2.depth) (spaces (min x.2.depth w.two))
    ++ ⟨⟨x.1.terminator.kind, x.1.terminator.keyword⟩,
        spaces (w.two - x.2.depth) ++ x.1.terminator.keyword⟩
      :: (x.1.terminator.restPieces ++ [.newline])

/-- The pieces of a case. -/
def casePieces (w : SwitchText) (x : Case × CaseLayout) : List Piece :=
  [.kept .whitespace (spaces w.one), ⟨⟨.caseKw, x.2.keyword⟩, ['c', 'a', 's', 'e']⟩,
      ⟨⟨.whitespace, x.2.gap⟩, [' ']⟩, ⟨x.1.label.lexeme, x.1.label.chars⟩]
    ++ Piece.blanks x.2.beforeColon [] ++ [.kept .colon [':'], .newline]
    ++ x.1.body.flatMap (Call.pieces w.two) ++ w.endPieces x

/-- The pieces of the `default`. -/
def defaultPieces (w : SwitchText) : List Piece :=
  [.kept .whitespace (spaces w.one),
      ⟨⟨.defaultKw, w.defaultLayout.keyword⟩, ['d', 'e', 'f', 'a', 'u', 'l', 't']⟩]
    ++ Piece.blanks w.defaultLayout.beforeColon [] ++ [.kept .colon [':'], .newline]
    ++ w.defaultBody.flatMap (Call.pieces w.two)

/-- The pieces of the line of the switch. -/
def headPieces (w : SwitchText) : List Piece :=
  Piece.blanks (spaces w.pad) (spaces w.pad)
    ++ [.kept .switchKw ['s', 'w', 'i', 't', 'c', 'h'], .kept .whitespace [' '],
      .kept .openParen ['('], .kept .word ['$', 'x'], .kept .closeParen [')'],
      .kept .whitespace [' '], .kept .openBrace ['\x7b'], .newline]

/-- The pieces of the line of the closing brace. -/
def tailPieces (w : SwitchText) : List Piece :=
  Piece.blanks (spaces w.pad) (spaces w.pad) ++ [.kept .closeBrace ['\x7d'], .newline]

/-- The pieces of the switch. -/
def pieces (w : SwitchText) : List Piece :=
  w.headPieces ++ w.cases.flatMap w.casePieces ++ w.defaultPieces ++ w.tailPieces

end SwitchText

/-! ## §4. The pieces spell the two texts. -/

namespace Piece

/-- What the lexemes of some pieces spell. -/
def chars (ps : List Piece) : List Char := ps.flatMap (·.lexeme.chars)

/-- What some pieces spell in canonical layout. -/
def tidyChars (ps : List Piece) : List Char := ps.flatMap tidy

@[simp] theorem chars_nil : chars [] = [] := rfl

@[simp] theorem chars_cons (p : Piece) (ps : List Piece) :
    chars (p :: ps) = p.lexeme.chars ++ chars ps := rfl

@[simp] theorem chars_append (ps qs : List Piece) : chars (ps ++ qs) = chars ps ++ chars qs :=
  List.flatMap_append

@[simp] theorem tidyChars_nil : tidyChars [] = [] := rfl

@[simp] theorem tidyChars_cons (p : Piece) (ps : List Piece) :
    tidyChars (p :: ps) = p.tidy ++ tidyChars ps := rfl

@[simp] theorem tidyChars_append (ps qs : List Piece) :
    tidyChars (ps ++ qs) = tidyChars ps ++ tidyChars qs :=
  List.flatMap_append

/-- Blanks that are there are one piece. -/
theorem blanks_of_ne {cs tidy : List Char} (h : cs ≠ []) :
    blanks cs tidy = [⟨⟨.whitespace, cs⟩, tidy⟩] :=
  if_neg h

/-- Blanks are one piece at most. -/
theorem eq_of_mem_blanks {cs tidy : List Char} {p : Piece} (h : p ∈ blanks cs tidy) :
    p = ⟨⟨.whitespace, cs⟩, tidy⟩ := by
  unfold blanks at h
  by_cases hcs : cs = []
  · rw [if_pos hcs] at h
    cases h
  · rw [if_neg hcs] at h
    exact List.mem_singleton.mp h

@[simp] theorem chars_blanks (cs tidy : List Char) : chars (blanks cs tidy) = cs := by
  unfold blanks
  by_cases h : cs = []
  · rw [if_pos h, h]
    rfl
  · rw [if_neg h]
    simp

/-- In canonical layout blanks may be there only if they were written. -/
theorem tidyChars_blanks {cs tidy : List Char} (h : cs = [] → tidy = []) :
    tidyChars (blanks cs tidy) = tidy := by
  unfold blanks
  by_cases hcs : cs = []
  · rw [if_pos hcs, h hcs]
    rfl
  · rw [if_neg hcs]
    simp

/-- What is written part by part is spelled part by part, -/
theorem chars_flatMap {α : Type} (f : α → List Piece) (g : α → List Char)
    (h : ∀ a, chars (f a) = g a) (as : List α) : chars (as.flatMap f) = as.flatMap g := by
  induction as with
  | nil => rfl
  | cons a as ih => rw [List.flatMap_cons, List.flatMap_cons, chars_append, h, ih]

/-- and so in canonical layout. -/
theorem tidyChars_flatMap {α : Type} (f : α → List Piece) (g : α → List Char)
    (h : ∀ a, tidyChars (f a) = g a) (as : List α) : tidyChars (as.flatMap f) = as.flatMap g := by
  induction as with
  | nil => rfl
  | cons a as ih => rw [List.flatMap_cons, List.flatMap_cons, tidyChars_append, h, ih]

end Piece

theorem spaces_append (m n : Nat) : spaces m ++ spaces n = spaces (m + n) :=
  List.replicate_append_replicate

/-- A label is one lexeme. -/
theorem Label.chars_lexeme (l : Label) : l.lexeme.chars = l.chars := by
  cases l <;> rfl

/-- A call is spelled by its pieces, and is in canonical layout already. -/
theorem Call.chars_pieces (depth : Nat) (f : Call) : Piece.chars (f.pieces depth) = f.line depth := by
  simp [Call.pieces, Call.line, Piece.kept, Piece.newline]

theorem Call.tidyChars_pieces (depth : Nat) (f : Call) :
    Piece.tidyChars (f.pieces depth) = f.line depth := by
  simp [Call.pieces, Call.line, Piece.kept, Piece.newline]

/-- What follows the keyword of a terminator is left as it is. -/
theorem Terminator.chars_restPieces (t : Terminator) : Piece.chars t.restPieces = t.rest := by
  cases t <;> rfl

theorem Terminator.tidyChars_restPieces (t : Terminator) :
    Piece.tidyChars t.restPieces = t.rest := by
  cases t <;> rfl

namespace SwitchText

/-- **A case is spelled by its pieces,** -/
theorem chars_casePieces (w : SwitchText) (x : Case × CaseLayout) :
    Piece.chars (w.casePieces x) = w.caseText x := by
  have hbody := Piece.chars_flatMap (Call.pieces w.two) _ (Call.chars_pieces w.two) x.1.body
  simp [casePieces, endPieces, caseText, hbody, Terminator.chars_restPieces, Label.chars_lexeme,
    Piece.kept, Piece.newline]

/-- **and so is the same case in canonical layout.** -/
theorem tidyChars_casePieces (w : SwitchText) (x : Case × CaseLayout) :
    Piece.tidyChars (w.casePieces x) = w.tidy.caseText (x.1, .tidy w.two) := by
  have hbody := Piece.tidyChars_flatMap (Call.pieces w.two) _ (Call.tidyChars_pieces w.two) x.1.body
  have hdepth : Piece.tidyChars (Piece.blanks (spaces x.2.depth) (spaces (min x.2.depth w.two)))
      = spaces (min x.2.depth w.two) := by
    refine Piece.tidyChars_blanks fun h => ?_
    have hzero : x.2.depth = 0 := by simpa [spaces] using h
    rw [hzero, Nat.zero_min]
    rfl
  have hcolon : Piece.tidyChars (Piece.blanks x.2.beforeColon []) = [] :=
    Piece.tidyChars_blanks fun _ => rfl
  -- the spaces that stay and those that are gained make up the depth
  have htwo : ∀ cs : List Char, spaces (min x.2.depth w.two) ++ (spaces (w.two - x.2.depth) ++ cs)
      = spaces w.two ++ cs := by
    intro cs
    rw [← List.append_assoc, spaces_append]
    congr 2
    omega
  simp [casePieces, endPieces, caseText, hbody, hdepth, hcolon, htwo, CaseLayout.tidy,
    Terminator.tidyChars_restPieces, Piece.kept, Piece.newline]

/-- **The lexemes of the pieces spell the text.** -/
theorem chars_pieces (w : SwitchText) : Piece.chars w.pieces = w.text.toList := by
  have hcases := Piece.chars_flatMap w.casePieces _ w.chars_casePieces w.cases
  have hbody := Piece.chars_flatMap (Call.pieces w.two) _ (Call.chars_pieces w.two) w.defaultBody
  have hhead : "switch ($x) \x7b\n".toList
      = ['s', 'w', 'i', 't', 'c', 'h', ' ', '(', '$', 'x', ')', ' ', '\x7b', '\n'] := rfl
  simp [pieces, headPieces, defaultPieces, tailPieces, text, defaultText, hcases, hbody, hhead,
    Piece.kept, Piece.newline]

/-- **The canonical texts of the pieces spell the canonical text.** -/
theorem tidyChars_pieces (w : SwitchText) : Piece.tidyChars w.pieces = w.tidy.text.toList := by
  have hcases := Piece.tidyChars_flatMap w.casePieces _ w.tidyChars_casePieces w.cases
  have hbody :=
    Piece.tidyChars_flatMap (Call.pieces w.two) _ (Call.tidyChars_pieces w.two) w.defaultBody
  have hhead : "switch ($x) \x7b\n".toList
      = ['s', 'w', 'i', 't', 'c', 'h', ' ', '(', '$', 'x', ')', ' ', '\x7b', '\n'] := rfl
  have hpad : Piece.tidyChars (Piece.blanks (spaces w.pad) (spaces w.pad)) = spaces w.pad :=
    Piece.tidyChars_blanks id
  have hcolon : Piece.tidyChars (Piece.blanks w.defaultLayout.beforeColon []) = [] :=
    Piece.tidyChars_blanks fun _ => rfl
  have hmap : w.tidy.cases.flatMap w.tidy.caseText
      = w.cases.flatMap fun x => w.tidy.caseText (x.1, .tidy w.two) := by
    rw [show w.tidy.cases = w.cases.map fun x => (x.1, CaseLayout.tidy w.two) from rfl,
      List.flatMap_map]
  have hdefault : w.tidy.defaultLayout = .tidy ∧ w.tidy.defaultBody = w.defaultBody := ⟨rfl, rfl⟩
  unfold text
  rw [hmap]
  simp [pieces, headPieces, defaultPieces, tailPieces, defaultText, hcases, hbody, hhead, hpad,
    hcolon, hdefault, Piece.kept, Piece.newline, DefaultLayout.tidy]

end SwitchText

/-! ## §5. Reading the text. -/

/-- The lexeme, written in front of `rest`, is read as it stands, and no member name follows. -/
def Lexeme.ReadsBefore (l : Lexeme) (rest : List Char) : Prop :=
  ∃ c t, l.chars = c :: t ∧ extent false c (t ++ rest) = .ok (l.kind, t.length)
    ∧ l.memberNext false = false

/-- The pieces, written in front of `rest`, are read as they stand. -/
def Piece.Reads (ps : List Piece) (rest : List Char) : Prop :=
  lexemes false (Piece.chars ps ++ rest)
    = (ps.map Piece.lexeme ++ (lexemes false rest).1, (lexemes false rest).2)

namespace Piece

theorem reads_nil (rest : List Char) : Reads [] rest := rfl

/-- A piece that is read as it stands, in front of pieces that are. -/
theorem reads_cons {p : Piece} {ps : List Piece} {rest : List Char}
    (hp : p.lexeme.ReadsBefore (chars ps ++ rest)) (hps : Reads ps rest) :
    Reads (p :: ps) rest := by
  obtain ⟨c, t, hchars, hextent, hmember⟩ := hp
  have hlexeme : p.lexeme = ⟨p.lexeme.kind, c :: t⟩ := by rw [← hchars]
  unfold Reads at hps ⊢
  rw [chars_cons, hchars, List.append_assoc, List.cons_append, lexemes_append hextent, ← hlexeme,
    hmember, hps, List.map_cons, List.cons_append]

/-- Stretches of pieces are read one behind the other. -/
theorem reads_append {ps qs : List Piece} {rest : List Char} (hps : Reads ps (chars qs ++ rest))
    (hqs : Reads qs rest) : Reads (ps ++ qs) rest := by
  unfold Reads at hps hqs ⊢
  rw [chars_append, List.append_assoc, hps, hqs, List.map_append, List.append_assoc]

/-- Parts that are read whatever follows may be strung together. -/
theorem reads_flatMap {α : Type} (f : α → List Piece) (h : ∀ a rest, Reads (f a) rest)
    (as : List α) (rest : List Char) : Reads (as.flatMap f) rest := by
  induction as with
  | nil => exact reads_nil rest
  | cons a as ih => exact reads_append (h a _) ih

end Piece

/-- A run in front of a rest that does not go on with it. -/
theorem runLength_run {p : Char → Bool} {t rest : List Char} (ht : t.all p = true)
    (hrest : ∀ d ∈ rest.head?, p d = false) : runLength p (t ++ rest) = t.length := by
  unfold runLength
  rw [List.takeWhile_append_of_pos (List.all_eq_true.mp ht)]
  cases rest with
  | nil => simp
  | cons d rest => simp [hrest d rfl]

namespace Lexeme

/-- Blanks are one lexeme, up to the first character that is none. -/
theorem readsBefore_blanks {cs rest : List Char} (hne : cs ≠ []) (hblank : cs.all isBlank = true)
    (hrest : ∀ d ∈ rest.head?, isBlank d = false) :
    ReadsBefore ⟨.whitespace, cs⟩ rest := by
  obtain ⟨c, t, rfl⟩ := List.exists_cons_of_ne_nil hne
  rw [List.all_cons, Bool.and_eq_true] at hblank
  refine ⟨c, t, rfl, ?_, rfl⟩
  rw [extent_blank hblank.1, runLength_run hblank.2 hrest]

/-- A line feed is a lexeme of its own, also in front of blanks. -/
theorem readsBefore_newline (rest : List Char) : ReadsBefore ⟨.whitespace, ['\n']⟩ rest :=
  ⟨'\n', [], rfl, extent_newline false rest, rfl⟩

/-- A word is one lexeme, up to the first character that cannot be in it. -/
theorem readsBefore_word {cs rest : List Char} {kind : TokenKind} (hne : cs ≠ [])
    (hword : cs.all isWordChar = true) (hkind : wordKind cs = kind)
    (hrest : ∀ d ∈ rest.head?, isWordChar d = false) : ReadsBefore ⟨kind, cs⟩ rest := by
  obtain ⟨c, t, rfl⟩ := List.exists_cons_of_ne_nil hne
  have hcons := hword
  rw [List.all_cons, Bool.and_eq_true] at hcons
  have hrun : runLength isWordChar (t ++ rest) = t.length := runLength_run hcons.2 hrest
  refine ⟨c, t, rfl, ?_, ?_⟩
  · rw [extent_word hcons.1, hrun, List.take_left, ← hkind]
    rfl
  · -- no operator starts with a character of a word
    have hspace : kind ≠ .whitespace := ne_of_isWord (hkind ▸ isWord_wordKind (c :: t)) rfl
    unfold memberNext
    rw [if_neg hspace]
    unfold isMemberAccess
    have hfirst : ∀ d ∈ ['-', '?', ':'], c ≠ d := by
      intro d hd hcd
      have hmark : ['-', '?', ':'].all (!isWordChar ·) = true := rfl
      have hd' := List.all_eq_true.mp hmark d hd
      rw [← hcd, hcons.1] at hd'
      cases hd'
    simp [hfirst]

/-- A mark of one character is a lexeme whatever follows. -/
theorem readsBefore_lone {c : Char} {kind : TokenKind} {rest : List Char}
    (hextent : extent false c rest = .ok (kind, 0)) (hkind : kind ≠ .whitespace) :
    ReadsBefore ⟨kind, [c]⟩ rest := by
  refine ⟨c, [], rfl, hextent, ?_⟩
  unfold memberNext
  rw [if_neg hkind]
  simp [isMemberAccess]

/-- A string ends at its second quote, for there is none among its letters. -/
theorem readsBefore_quoted {cs rest : List Char}
    (hplain : cs.all (fun c => c.isLower || c == ' ') = true) :
    ReadsBefore ⟨.string, '\x27' :: (cs ++ ['\x27'])⟩ rest := by
  refine ⟨'\x27', cs ++ ['\x27'], rfl, ?_, ?_⟩
  · have hend : quoteEnd? '\x27' (cs ++ ['\x27']) = some (cs ++ ['\x27']).length := by
      induction cs with
      | nil => rfl
      | cons c cs ih =>
          rw [List.all_cons, Bool.and_eq_true] at hplain
          have hc : c ≠ '\\' ∧ c ≠ '\x27' := by
            constructor <;> (rintro rfl; simp at hplain)
          rw [List.cons_append, quoteEnd?_cons _ hc.1, if_neg hc.2, ih hplain.2]
          rfl
    rw [extent_quote (by rfl), (quoteEnd?_append_iff _ _ _).mpr hend]
  · rfl

end Lexeme

/-- What follows starts with a character that ends the run. -/
theorem forall_head?_cons {p : Char → Bool} {c : Char} (h : p c = false) (cs : List Char) :
    ∀ d ∈ (c :: cs).head?, p d = false := by
  intro d hd
  cases hd
  exact h

theorem isWordChar_of_isLower {c : Char} (h : c.isLower = true) : isWordChar c = true := by
  unfold isWordChar Char.isAlphanum Char.isAlpha
  simp [h]

theorem isWordChar_of_isDigit {c : Char} (h : c.isDigit = true) : isWordChar c = true := by
  unfold isWordChar Char.isAlphanum
  simp [h]

/-- A digit has no lower case. -/
theorem isLower_toLower_of_isDigit {c : Char} (h : c.isDigit = true) :
    c.toLower.isLower = false := by
  have hle : c.val.toNat ≤ 57 := (Char.isDigit_iff_toNat.mp h).2
  have hA : 'A'.val.toNat = 65 := rfl
  have ha : 'a'.val.toNat = 97 := rfl
  have hupper : ¬ (c.val ≥ 'A'.val ∧ c.val ≤ 'Z'.val) := by
    rintro ⟨hge, _⟩
    have hnat : 'A'.val.toNat ≤ c.val.toNat := hge
    omega
  unfold Char.toLower
  rw [dif_neg hupper, Bool.eq_false_iff]
  intro hlower
  have hge : 'a'.val.toNat ≤ c.val.toNat := by
    unfold Char.isLower at hlower
    rw [Bool.and_eq_true, decide_eq_true_eq] at hlower
    exact hlower.1
  omega

/-- A text that becomes small letters in lower case is a word. -/
theorem isWordChar_of_lowerAscii {cs letters : List Char} (h : lowerAscii cs = letters)
    (hletters : letters.all Char.isLower = true) : cs.all isWordChar = true := by
  rw [List.all_eq_true]
  intro c hc
  refine isWordChar_of_toLower (List.all_eq_true.mp hletters _ ?_)
  rw [← h]
  exact List.mem_map_of_mem hc

/-- A blank is no character of a word. -/
theorem isBlank_of_isWordChar {c : Char} (h : isWordChar c = true) : isBlank c = false := by
  rw [Bool.eq_false_iff]
  intro hblank
  unfold isBlank at hblank
  rw [Bool.or_eq_true, beq_iff_eq, beq_iff_eq] at hblank
  rcases hblank with rfl | rfl <;> cases h

/-- A blank ends a word. -/
theorem isWordChar_of_isBlank {c : Char} (h : isBlank c = true) : isWordChar c = false := by
  rw [Bool.eq_false_iff]
  intro hword
  rw [isBlank_of_isWordChar hword] at h
  cases h

/-- The first character of a text in front of another. -/
theorem forall_head?_append {p : Char → Bool} {cs : List Char} (hne : cs ≠ [])
    (h : ∀ c ∈ cs, p c = false) (rest : List Char) : ∀ d ∈ (cs ++ rest).head?, p d = false := by
  obtain ⟨c, t, rfl⟩ := List.exists_cons_of_ne_nil hne
  exact forall_head?_cons (h c List.mem_cons_self) _

/-- The first character of a word in front of anything is no blank. -/
theorem head?_word {cs : List Char} (hne : cs ≠ []) (hword : cs.all isWordChar = true)
    (rest : List Char) : ∀ d ∈ (cs ++ rest).head?, isBlank d = false :=
  forall_head?_append hne (fun c hc => isBlank_of_isWordChar (List.all_eq_true.mp hword c hc)) rest

/-- The first of some blanks in front of anything belongs to no word. -/
theorem head?_blanks {cs : List Char} (hne : cs ≠ []) (hblank : cs.all isBlank = true)
    (rest : List Char) : ∀ d ∈ (cs ++ rest).head?, isWordChar d = false :=
  forall_head?_append hne (fun c hc => isWordChar_of_isBlank (List.all_eq_true.mp hblank c hc)) rest

/-- The first character of blanks in front of a colon belongs to no word. -/
theorem head?_blanks_colon {cs : List Char} (hblank : cs.all isBlank = true) (rest : List Char) :
    ∀ d ∈ (cs ++ ':' :: rest).head?, isWordChar d = false := by
  by_cases hne : cs = []
  · rw [hne]
    exact forall_head?_cons rfl rest
  · exact head?_blanks hne hblank _

theorem all_isBlank_spaces (n : Nat) : (spaces n).all isBlank = true := by
  rw [List.all_eq_true]
  intro c hc
  rw [List.eq_of_mem_replicate hc]
  rfl

theorem spaces_ne_nil {n : Nat} (h : 0 < n) : spaces n ≠ [] := by
  unfold spaces
  rw [ne_eq, List.replicate_eq_nil_iff]
  omega

namespace Piece

/-- Blanks that may not be there, in front of what is no blank. -/
theorem reads_blanks {cs tidy rest : List Char} (hblank : cs.all isBlank = true)
    (hrest : ∀ d ∈ rest.head?, isBlank d = false) : Reads (blanks cs tidy) rest := by
  unfold blanks
  by_cases h : cs = []
  · rw [if_pos h]
    exact reads_nil rest
  · rw [if_neg h]
    exact reads_cons (Lexeme.readsBefore_blanks h hblank hrest) (reads_nil rest)

/-- The end of a statement and of its line. -/
theorem reads_semicolon {ps : List Piece} {rest : List Char} (h : Reads ps rest) :
    Reads (kept .semicolon [';'] :: newline :: ps) rest :=
  reads_cons (Lexeme.readsBefore_lone rfl (by decide))
    (reads_cons (Lexeme.readsBefore_newline _) h)

/-- The end of a label and of its line. -/
theorem reads_colon {ps : List Piece} {rest : List Char} (h : Reads ps rest) :
    Reads (kept .colon [':'] :: newline :: ps) rest :=
  reads_cons (Lexeme.readsBefore_lone rfl (by decide))
    (reads_cons (Lexeme.readsBefore_newline _) h)

end Piece

/-- The name of a function is one word. -/
theorem Call.isWordChar_chars (f : Call) : ('f' :: '_' :: f.name).all isWordChar = true := by
  rw [List.all_cons, List.all_cons, Bool.and_eq_true, Bool.and_eq_true]
  refine ⟨rfl, rfl, List.all_eq_true.mpr fun c hc => ?_⟩
  exact isWordChar_of_isLower (List.all_eq_true.mp f.lower c hc)

/-- The line of a call, whatever follows. -/
theorem Call.reads_pieces {depth : Nat} (hdepth : 0 < depth) (f : Call) (rest : List Char) :
    Piece.Reads (f.pieces depth) rest := by
  have hword := f.isWordChar_chars
  have hkind : wordKind ('f' :: '_' :: f.name) = .word :=
    wordKind_of_nonletter (c := '_') (by simp) (by decide)
  unfold Call.pieces
  refine Piece.reads_cons ?_ (Piece.reads_cons ?_ (Piece.reads_cons ?_ (Piece.reads_cons ?_
    (Piece.reads_semicolon (Piece.reads_nil rest)))))
  · refine Lexeme.readsBefore_blanks (spaces_ne_nil hdepth) (all_isBlank_spaces depth) ?_
    rw [Piece.chars_cons, List.append_assoc]
    exact head?_word (List.cons_ne_nil _ _) hword _
  · refine Lexeme.readsBefore_word (List.cons_ne_nil _ _) hword hkind (forall_head?_cons rfl _)
  · exact Lexeme.readsBefore_lone rfl (by decide)
  · exact Lexeme.readsBefore_lone rfl (by decide)

/-- The keyword of a terminator, written in front of what follows it, is read as such. -/
theorem Terminator.reads (k : Terminator) (tidy rest : List Char) :
    Piece.Reads (⟨⟨k.kind, k.keyword⟩, tidy⟩ :: (k.restPieces ++ [.newline])) rest := by
  have hend : ∀ rest, Piece.Reads [.kept .semicolon [';'], .newline] rest := by
    intro rest
    exact Piece.reads_semicolon (Piece.reads_nil rest)
  cases k with
  | breakStatement =>
      refine Piece.reads_cons ?_ (hend rest)
      exact Lexeme.readsBefore_word (List.cons_ne_nil _ _) rfl (by decide) (forall_head?_cons rfl _)
  | returnStatement =>
      refine Piece.reads_cons ?_ (hend rest)
      exact Lexeme.readsBefore_word (List.cons_ne_nil _ _) rfl (by decide) (forall_head?_cons rfl _)
  | continueStatement =>
      refine Piece.reads_cons ?_ (hend rest)
      exact Lexeme.readsBefore_word (List.cons_ne_nil _ _) rfl (by decide) (forall_head?_cons rfl _)
  | throwStatement =>
      refine Piece.reads_cons ?_ (Piece.reads_cons ?_ (Piece.reads_cons ?_ (hend rest)))
      · exact Lexeme.readsBefore_word (List.cons_ne_nil _ _) rfl (by decide) (forall_head?_cons rfl _)
      · exact Lexeme.readsBefore_blanks (List.cons_ne_nil _ _) rfl (forall_head?_cons rfl _)
      · exact Lexeme.readsBefore_word (List.cons_ne_nil _ _) rfl (by decide) (forall_head?_cons rfl _)

/-- A number is one word, -/
theorem isWordChar_digits {digits : List Char} (h : digits.all Char.isDigit = true) :
    digits.all isWordChar = true :=
  List.all_eq_true.mpr fun c hc => isWordChar_of_isDigit (List.all_eq_true.mp h c hc)

/-- and so is a variable. -/
theorem isWordChar_dollar {name : List Char} (h : name.all Char.isLower = true) :
    ('$' :: name).all isWordChar = true := by
  rw [List.all_cons, Bool.and_eq_true]
  refine ⟨rfl, List.all_eq_true.mpr fun c hc => ?_⟩
  exact isWordChar_of_isLower (List.all_eq_true.mp h c hc)

/-- A label in front of blanks and a colon is read as it stands. -/
theorem Label.readsBefore (l : Label) {rest : List Char}
    (hrest : ∀ d ∈ rest.head?, isWordChar d = false) : l.lexeme.ReadsBefore rest := by
  cases l with
  | number digits ne digit =>
      refine Lexeme.readsBefore_word ne (isWordChar_digits digit) ?_ hrest
      obtain ⟨c, hc⟩ := List.exists_mem_of_ne_nil digits ne
      exact wordKind_of_nonletter hc (isLower_toLower_of_isDigit (List.all_eq_true.mp digit c hc))
  | quoted letters plain => exact Lexeme.readsBefore_quoted plain
  | dollar name ne lower =>
      refine Lexeme.readsBefore_word (List.cons_ne_nil _ _) (isWordChar_dollar lower) ?_ hrest
      exact wordKind_of_nonletter List.mem_cons_self (by decide)

/-- A label does not start with a blank. -/
theorem Label.head?_chars (l : Label) (rest : List Char) :
    ∀ d ∈ (l.chars ++ rest).head?, isBlank d = false := by
  cases l with
  | number digits ne digit =>
      exact head?_word ne (isWordChar_digits digit) rest
  | quoted letters plain => exact forall_head?_cons rfl _
  | dollar name ne lower => exact forall_head?_cons rfl _

namespace SwitchText

/-- Branch keywords are indented, and so the spaces in front of them are a piece. -/
theorem one_pos (w : SwitchText) : 0 < w.one := by
  have := w.indent_pos
  unfold one
  omega

theorem two_pos (w : SwitchText) : 0 < w.two := by
  have := w.indent_pos
  unfold two
  omega

/-- The line that a keyword starts. -/
theorem reads_keyword (w : SwitchText) {kind : TokenKind} {keyword letters tidy : List Char}
    {ps : List Piece} {rest : List Char} (hne : letters ≠ [])
    (hkeyword : lowerAscii keyword = letters) (hletters : letters.all Char.isLower = true)
    (hkind : wordKind letters = kind)
    (hhead : ∀ d ∈ (Piece.chars ps ++ rest).head?, isWordChar d = false)
    (hps : Piece.Reads ps rest) :
    Piece.Reads (.kept .whitespace (spaces w.one) :: ⟨⟨kind, keyword⟩, tidy⟩ :: ps) rest := by
  have hword := isWordChar_of_lowerAscii hkeyword hletters
  have hcons : keyword ≠ [] := by
    intro hnil
    rw [hnil] at hkeyword
    exact hne hkeyword.symm
  refine Piece.reads_cons ?_ (Piece.reads_cons ?_ hps)
  · refine Lexeme.readsBefore_blanks (spaces_ne_nil w.one_pos) (all_isBlank_spaces _) ?_
    rw [Piece.chars_cons, List.append_assoc]
    exact head?_word hcons hword _
  · refine Lexeme.readsBefore_word hcons hword ?_ hhead
    rw [← wordKind_lowerAscii, hkeyword, hkind]

/-- The pieces of a case, from the first on. -/
theorem casePieces_eq (w : SwitchText) (x : Case × CaseLayout) :
    w.casePieces x = .kept .whitespace (spaces w.one) :: ⟨⟨.caseKw, x.2.keyword⟩, ['c', 'a', 's', 'e']⟩
      :: ⟨⟨.whitespace, x.2.gap⟩, [' ']⟩ :: ⟨x.1.label.lexeme, x.1.label.chars⟩
      :: (Piece.blanks x.2.beforeColon [] ++ .kept .colon [':'] :: .newline
        :: (x.1.body.flatMap (Call.pieces w.two) ++ w.endPieces x)) := by
  simp [casePieces]

/-- The pieces of the `default`, from the first on. -/
theorem defaultPieces_eq (w : SwitchText) :
    w.defaultPieces = .kept .whitespace (spaces w.one)
      :: ⟨⟨.defaultKw, w.defaultLayout.keyword⟩, ['d', 'e', 'f', 'a', 'u', 'l', 't']⟩
      :: (Piece.blanks w.defaultLayout.beforeColon [] ++ .kept .colon [':'] :: .newline
        :: w.defaultBody.flatMap (Call.pieces w.two)) := by
  simp [defaultPieces]

/-- The code of a branch. -/
theorem reads_body (w : SwitchText) (fs : List Call) (rest : List Char) :
    Piece.Reads (fs.flatMap (Call.pieces w.two)) rest :=
  Piece.reads_flatMap _ (Call.reads_pieces w.two_pos) fs rest

/-- **A case is read as it is written**, whatever follows. -/
theorem reads_casePieces (w : SwitchText) (x : Case × CaseLayout) (rest : List Char) :
    Piece.Reads (w.casePieces x) rest := by
  have hend : Piece.Reads (w.endPieces x) rest := by
    refine Piece.reads_append (Piece.reads_blanks (all_isBlank_spaces _) ?_)
      (Terminator.reads _ _ rest)
    cases x.1.terminator <;> exact forall_head?_cons rfl _
  rw [casePieces_eq]
  refine w.reads_keyword (List.cons_ne_nil _ _) x.2.keyword_eq rfl (by decide) ?_
    (Piece.reads_cons ?_ (Piece.reads_cons ?_ (Piece.reads_append ?_
      (Piece.reads_colon (Piece.reads_append (w.reads_body _ _) hend)))))
  · rw [Piece.chars_cons, List.append_assoc]
    exact head?_blanks x.2.gap_ne x.2.gap_blank _
  · refine Lexeme.readsBefore_blanks x.2.gap_ne x.2.gap_blank ?_
    rw [Piece.chars_cons, Label.chars_lexeme, List.append_assoc]
    exact x.1.label.head?_chars _
  · refine x.1.label.readsBefore ?_
    rw [Piece.chars_append, Piece.chars_blanks, List.append_assoc]
    exact head?_blanks_colon x.2.beforeColon_blank _
  · exact Piece.reads_blanks x.2.beforeColon_blank (forall_head?_cons rfl _)

/-- **So is the `default`.** -/
theorem reads_defaultPieces (w : SwitchText) (rest : List Char) :
    Piece.Reads w.defaultPieces rest := by
  have hblank := w.defaultLayout.beforeColon_blank
  rw [defaultPieces_eq]
  refine w.reads_keyword (List.cons_ne_nil _ _) w.defaultLayout.keyword_eq rfl (by decide) ?_
    (Piece.reads_append ?_ (Piece.reads_colon (w.reads_body _ _)))
  · rw [Piece.chars_append, Piece.chars_blanks, List.append_assoc]
    exact head?_blanks_colon hblank _
  · exact Piece.reads_blanks hblank (forall_head?_cons rfl _)

/-- The line of the switch. -/
theorem reads_headPieces (w : SwitchText) (rest : List Char) : Piece.Reads w.headPieces rest := by
  refine Piece.reads_append (Piece.reads_blanks (all_isBlank_spaces _) (forall_head?_cons rfl _))
    (Piece.reads_cons ?_ (Piece.reads_cons ?_ (Piece.reads_cons ?_ (Piece.reads_cons ?_
      (Piece.reads_cons ?_ (Piece.reads_cons ?_ (Piece.reads_cons ?_ (Piece.reads_cons ?_
        (Piece.reads_nil rest)))))))))
  · exact Lexeme.readsBefore_word (List.cons_ne_nil _ _) rfl (by decide) (forall_head?_cons rfl _)
  · exact Lexeme.readsBefore_blanks (List.cons_ne_nil _ _) rfl (forall_head?_cons rfl _)
  · exact Lexeme.readsBefore_lone rfl (by decide)
  · exact Lexeme.readsBefore_word (List.cons_ne_nil _ _) rfl (by decide) (forall_head?_cons rfl _)
  · exact Lexeme.readsBefore_lone rfl (by decide)
  · exact Lexeme.readsBefore_blanks (List.cons_ne_nil _ _) rfl (forall_head?_cons rfl _)
  · exact Lexeme.readsBefore_lone rfl (by decide)
  · exact Lexeme.readsBefore_newline rest

/-- The line of the brace. -/
theorem reads_tailPieces (w : SwitchText) (rest : List Char) : Piece.Reads w.tailPieces rest := by
  refine Piece.reads_append (Piece.reads_blanks (all_isBlank_spaces _) (forall_head?_cons rfl _))
    (Piece.reads_cons ?_ (Piece.reads_cons ?_ (Piece.reads_nil rest)))
  · exact Lexeme.readsBefore_lone rfl (by decide)
  · exact Lexeme.readsBefore_newline rest

/-- **The lexemes of the pieces are read from the text.** -/
theorem lexemes_text (w : SwitchText) :
    lexemes false w.text.toList = (w.pieces.map Piece.lexeme, none) := by
  have hcases : ∀ rest, Piece.Reads (w.cases.flatMap w.casePieces) rest :=
    Piece.reads_flatMap _ w.reads_casePieces _
  have hreads : Piece.Reads w.pieces [] :=
    Piece.reads_append (Piece.reads_append (Piece.reads_append (w.reads_headPieces _) (hcases _))
      (w.reads_defaultPieces _)) (w.reads_tailPieces _)
  unfold Piece.Reads at hreads
  rw [List.append_nil, w.chars_pieces, lexemes] at hreads
  simpa using hreads

end SwitchText

end SwitchLayout
