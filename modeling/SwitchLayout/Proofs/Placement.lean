/-
  SwitchLayout.Proofs.Placement
  ─────────────────────────────
  **Where the parts of a written switch stand.**

  The script of a `SwitchText` is walked from line to line.  `Placed` is what the walk knows in
  front of the cases that are still to come; one case takes it to the next (`placed_cons`), and
  behind the last one the `default` and the closing brace are left (`placed_nil`).

  On the way each case gives up its positions, its lines and the kinds found there:

    • `CaseAt`, `DefaultAt` — a case and the `default`, by what stands where,
    • `kindAt_of_placed` — branch keywords stand where the scopes say, and no other keyword owns
      a body.
-/
import SwitchLayout.Proofs.Branches
import SwitchLayout.Proofs.Lines
import SwitchLayout.Proofs.SwitchText

namespace SwitchLayout

open Text

/-! ## §1. The script of a written switch. -/

namespace SwitchText

/-- The script of the text. -/
def script (w : SwitchText) (tabWidth : Nat) : Script := Script.ofText tabWidth w.text

/-- The text starts with a space or with its keyword, and so with no byte order mark. -/
theorem splitMark_text (w : SwitchText) : Script.splitMark w.text.toList = ([], w.text.toList) := by
  have htext : w.text.toList = spaces w.pad ++ ("switch ($x) \x7b\n".toList
      ++ (w.cases.flatMap w.caseText ++ (w.defaultText ++ (spaces w.pad ++ ['\x7d', '\n'])))) := by
    simp [text]
  rw [htext]
  cases w.pad with
  | zero => rfl
  | succ pad => rfl

/-- **A written switch can be read.** -/
theorem read_text (w : SwitchText) (tabWidth : Nat) :
    Script.read tabWidth w.text = .ok (w.script tabWidth) := by
  refine Script.read_ofText ?_
  unfold Script.read
  rw [w.splitMark_text]
  dsimp only
  rw [w.lexemes_text]
  rfl

/-- Its lexemes are the pieces it was written from. -/
theorem lexemes_script (w : SwitchText) (tabWidth : Nat) :
    (w.script tabWidth).lexemes = w.pieces.map Piece.lexeme := by
  obtain ⟨ls, hls, hlexemes⟩ := Script.lexemes_of_read (w.read_text tabWidth)
  rw [w.splitMark_text, w.lexemes_text] at hls
  rw [hlexemes, w.splitMark_text, List.map_nil, List.nil_append]
  exact (congrArg Prod.fst hls).symm

/-- Locations are counted from its first lexeme on. -/
theorem located_script (w : SwitchText) (tabWidth : Nat) :
    (w.script tabWidth).Located tabWidth :=
  Script.located_of_read (w.read_text tabWidth) (by rw [w.splitMark_text])

variable {w : SwitchText} {tabWidth p : Nat} {q : Piece}

/-- A piece is found at its number. -/
theorem lexeme_of_piece (tabWidth : Nat) (h : w.pieces[p]? = some q) :
    (w.script tabWidth).lexemes[p]? = some q.lexeme := by
  rw [lexemes_script, List.getElem?_map, h]
  rfl

/-- A stretch of pieces is found at its number. -/
theorem standsAt_script (tabWidth : Nat) {qs : List Piece} (h : StandsAt w.pieces p qs) :
    StandsAt (w.script tabWidth).lexemes p (qs.map Piece.lexeme) := by
  rw [lexemes_script]
  exact h.map Piece.lexeme

theorem kindAt_script (h : w.pieces[p]? = some q) :
    (w.script tabWidth).kindAt p = q.lexeme.kind :=
  Script.kindAt_of_lexeme (lexeme_of_piece tabWidth h)

end SwitchText

/-! ## §2. Positions. -/

/-- The scope of a case whose line follows the code at `q`. -/
def caseScope (q : Nat) (x : Case × CaseLayout) : Scope where
  condition := q + 3
  opener := q + 6 + (Piece.blanks x.2.beforeColon []).length
  closer := q + 6 + (Piece.blanks x.2.beforeColon []).length + 6 * x.1.body.length + 2
    + (Lexeme.indentation x.2.depth).length

/-- The semicolon that ends a case whose line follows the code at `q`. -/
def caseEnd (q : Nat) (x : Case × CaseLayout) : Nat :=
  (caseScope q x).closer + x.1.terminator.restPieces.length

namespace SwitchText

/-- The scope of the `default` whose line follows the code at `q`.  It reaches to the brace. -/
def defaultScope (w : SwitchText) (q : Nat) : Scope where
  condition := q + 3
  opener := q + 4 + (Piece.blanks w.defaultLayout.beforeColon []).length
  closer := q + 4 + (Piece.blanks w.defaultLayout.beforeColon []).length
    + 6 * w.defaultBody.length + 2 + (Lexeme.indentation w.pad).length

/-- The scopes of the cases whose lines follow the code at `q`, and of the `default`. -/
def scopesFrom (w : SwitchText) : Nat → List (Case × CaseLayout) → List Scope
  | q, [] => [w.defaultScope q]
  | q, x :: xs => caseScope q x :: w.scopesFrom (caseEnd q x) xs

/-- The closing brace behind the cases whose lines follow the code at `q`. -/
def braceFrom (w : SwitchText) : Nat → List (Case × CaseLayout) → Nat
  | q, [] => (w.defaultScope q).closer
  | q, x :: xs => w.braceFrom (caseEnd q x) xs

/-- The keyword of the switch. -/
def keywordAt (w : SwitchText) : Nat := (Lexeme.indentation w.pad).length

/-- The scope of the switch. -/
def scope (w : SwitchText) : Scope where
  condition := w.keywordAt
  opener := w.keywordAt + 6
  closer := w.braceFrom (w.keywordAt + 6) w.cases

/-! ## §3. Calls. -/

/-- Spaces are the indentation of a line, also where there are none. -/
theorem map_lexeme_blanks_spaces (d : Nat) (tidy : List Char) :
    (Piece.blanks (spaces d) tidy).map Piece.lexeme = Lexeme.indentation d := by
  unfold Piece.blanks Lexeme.indentation
  by_cases hd : d = 0
  · rw [if_pos hd, if_pos (by rw [hd]; rfl)]
    rfl
  · rw [if_neg hd, if_neg (spaces_ne_nil (Nat.pos_of_ne_zero hd))]
    rfl

theorem length_blanks_spaces (d : Nat) (tidy : List Char) :
    (Piece.blanks (spaces d) tidy).length = (Lexeme.indentation d).length := by
  rw [← map_lexeme_blanks_spaces d tidy, List.length_map]

/-- No word goes over a line, -/
theorem isLineBreak_of_isWordChar {c : Char} (h : isWordChar c = true) :
    isLineBreak c = false := by
  cases hbreak : isLineBreak c with
  | false => rfl
  | true =>
      unfold isLineBreak at hbreak
      rw [Bool.or_eq_true, beq_iff_eq, beq_iff_eq] at hbreak
      rcases hbreak with rfl | rfl <;> cases h

theorem isInline_of_isWordChar {kind : TokenKind} {cs : List Char}
    (h : cs.all isWordChar = true) : Lexeme.isInline ⟨kind, cs⟩ = true := by
  refine List.all_eq_true.mpr fun c hc => ?_
  rw [isLineBreak_of_isWordChar (List.all_eq_true.mp h c hc)]
  rfl

/-- and no blanks do. -/
theorem isInline_of_isBlank {kind : TokenKind} {cs : List Char}
    (h : cs.all isBlank = true) : Lexeme.isInline ⟨kind, cs⟩ = true := by
  refine List.all_eq_true.mpr fun c hc => ?_
  have hblank := List.all_eq_true.mp h c hc
  unfold isBlank at hblank
  rw [Bool.or_eq_true, beq_iff_eq, beq_iff_eq] at hblank
  rcases hblank with rfl | rfl <;> rfl

end SwitchText

/-- In front of its semicolon a call stays on its line. -/
theorem Call.isInline_line (depth : Nat) (f : Call) :
    (((f.pieces depth).take 4).map Piece.lexeme).all Lexeme.isInline = true := by
  have hspaces : Lexeme.isInline ⟨.whitespace, spaces depth⟩ = true :=
    SwitchText.isInline_of_isBlank (all_isBlank_spaces depth)
  have hword : Lexeme.isInline ⟨.word, 'f' :: '_' :: f.name⟩ = true :=
    SwitchText.isInline_of_isWordChar f.isWordChar_chars
  show ([_, _, _, _] : List Lexeme).all Lexeme.isInline = true
  simp only [List.all_cons, List.all_nil, Piece.kept, hspaces, hword, Bool.and_true, Bool.true_and]
  rfl

namespace SwitchText

variable {w : SwitchText} {tabWidth n q : Nat}

/-- Each call takes a line. -/
theorem lineFrom_calls {depth : Nat} (fs : List Call) :
    ∀ {n q : Nat}, (w.script tabWidth).LineFrom tabWidth n q →
      StandsAt w.pieces (q + 2) (fs.flatMap (Call.pieces depth)) →
      (w.script tabWidth).LineFrom tabWidth (n + fs.length) (q + 6 * fs.length) := by
  induction fs with
  | nil =>
      intro n q hline _
      exact hline
  | cons f fs ih =>
      intro n q hline hstands
      rw [List.flatMap_cons] at hstands
      have hcall : (w.script tabWidth).LineFrom tabWidth (n + 1) (q + 6) := by
        refine Script.lineFrom_of_line (p := q + 2) (by rw [hline.starts])
          (standsAt_script tabWidth hstands.left) (f.isInline_line depth) ?_ ?_
        · decide
        · rfl
      have hrest := ih hcall hstands.right
      rw [show n + 1 + fs.length = n + (f :: fs).length by rw [List.length_cons]; omega,
        show q + 6 + 6 * fs.length = q + 6 * (f :: fs).length by rw [List.length_cons]; omega]
        at hrest
      exact hrest

/-- A call has six pieces. -/
theorem length_calls (depth : Nat) (fs : List Call) :
    (fs.flatMap (Call.pieces depth)).length = 6 * fs.length := by
  induction fs with
  | nil => rfl
  | cons f fs ih =>
      rw [List.flatMap_cons, List.length_append, ih, List.length_cons]
      show 6 + 6 * fs.length = _
      omega

theorem isInline_blanks {cs tidy : List Char} (h : cs.all isBlank = true) :
    ((Piece.blanks cs tidy).map Piece.lexeme).all Lexeme.isInline = true := by
  refine List.all_eq_true.mpr fun l hl => ?_
  obtain ⟨p, hp, rfl⟩ := List.mem_map.mp hl
  rw [Piece.eq_of_mem_blanks hp]
  exact isInline_of_isBlank h

/-- A label stays on its line, of whatever form it is. -/
theorem isInline_label (l : Label) : l.lexeme.isInline = true := by
  cases l with
  | number digits ne digit => exact isInline_of_isWordChar (isWordChar_digits digit)
  | quoted letters plain =>
      refine List.all_eq_true.mpr fun c hc => ?_
      rcases List.mem_cons.mp hc with rfl | hc
      · rfl
      · rcases List.mem_append.mp hc with hc | hc
        · have hplain := List.all_eq_true.mp plain c hc
          rw [Bool.or_eq_true, beq_iff_eq] at hplain
          rcases hplain with hlower | rfl
          · rw [isLineBreak_of_isWordChar (isWordChar_of_isLower hlower)]
            rfl
          · rfl
        · rw [List.mem_singleton.mp hc]
          rfl
  | dollar name ne lower => exact isInline_of_isWordChar (isWordChar_dollar lower)

/-- Where there are spaces, they are one lexeme. -/
theorem indentation_pos {d : Nat} (h : 0 < d) :
    Lexeme.indentation d = [⟨.whitespace, spaces d⟩] :=
  if_neg (Nat.ne_of_gt h)

theorem isInline_indentation (d : Nat) : (Lexeme.indentation d).all Lexeme.isInline = true := by
  rw [← map_lexeme_blanks_spaces d []]
  exact isInline_blanks (all_isBlank_spaces d)

/-- A statement that ends a case ends in a semicolon itself, behind nothing that is more than a
word. -/
theorem restPieces_eq (k : Terminator) :
    ∃ front, k.restPieces = front ++ [.kept .semicolon [';']]
      ∧ (front.map Piece.lexeme).all Lexeme.isInline = true
      ∧ ∀ p ∈ front, p.lexeme.kind = .whitespace ∨ p.lexeme.kind = .word := by
  cases k with
  | throwStatement =>
      refine ⟨[.kept .whitespace [' '], .kept .word ['$', 'e']], rfl, by decide, fun p hp => ?_⟩
      rcases List.mem_cons.mp hp with rfl | hp
      · exact Or.inl rfl
      · rw [List.mem_singleton.mp hp]
        exact Or.inr rfl
  | _ => exact ⟨[], rfl, rfl, fun p hp => by cases hp⟩

theorem isInline_terminator (k : Terminator) : Lexeme.isInline ⟨k.kind, k.keyword⟩ = true := by
  cases k <;> rfl

/-- The scope finder takes its keyword for the end of a case. -/
theorem isTerminator_kind (k : Terminator) : k.kind.isTerminator = true := by
  cases k <;> rfl

/-! ## §4. The lines of a branch. -/

/-- The line of a label: the keyword, whatever makes up the label, and the colon. -/
theorem lineFrom_label {kind : TokenKind} {keyword letters : List Char} {ps : List Piece}
    (hline : (w.script tabWidth).LineFrom tabWidth n q)
    (hstands : StandsAt w.pieces (q + 2) (.kept .whitespace (spaces w.one)
      :: ⟨⟨kind, keyword⟩, letters⟩ :: (ps ++ [.kept .colon [':'], .newline])))
    (hkeyword : keyword.all isWordChar = true)
    (hps : (ps.map Piece.lexeme).all Lexeme.isInline = true) :
    (w.script tabWidth).LineFrom tabWidth (n + 1) (q + 4 + ps.length) := by
  have hspaces : Lexeme.isInline ⟨.whitespace, spaces w.one⟩ = true :=
    isInline_of_isBlank (all_isBlank_spaces _)
  have hword : Lexeme.isInline ⟨kind, keyword⟩ = true := isInline_of_isWordChar hkeyword
  have hlexemes : StandsAt (w.script tabWidth).lexemes (q + 2)
      ((.mk .whitespace (spaces w.one) :: .mk kind keyword :: ps.map Piece.lexeme)
        ++ [.mk .colon [':'], .newline]) := by
    have hmap := standsAt_script tabWidth hstands
    rw [List.map_cons, List.map_cons, List.map_append] at hmap
    exact hmap
  have hfound := Script.lineFrom_of_line (n := n) (by rw [hline.starts]) hlexemes
    (by rw [List.all_cons, List.all_cons, hspaces, hword, hps]; rfl) (by decide) rfl
  rw [List.length_cons, List.length_cons, List.length_map,
    show q + 2 + (ps.length + 1 + 1) = q + 4 + ps.length by omega] at hfound
  exact hfound

/-- What comes first on a line, behind `d` spaces. -/
theorem leads_of_pieces {d : Nat} {tidy : List Char} {r : Piece} {ps : List Piece}
    (hline : (w.script tabWidth).LineFrom tabWidth n q)
    (hstands : StandsAt w.pieces (q + 2) (Piece.blanks (spaces d) tidy ++ r :: ps))
    (hcode : r.lexeme.kind ≠ .whitespace) :
    (w.script tabWidth).Leads n d (q + 2 + (Lexeme.indentation d).length) := by
  have hlexemes := standsAt_script tabWidth hstands
  rw [List.append_cons, List.map_append, List.map_append, map_lexeme_blanks_spaces] at hlexemes
  exact hline.leads (w.located_script tabWidth) hlexemes.left hcode

/-- So it is where there are spaces for certain. -/
theorem leads_of_spaces {d : Nat} {r : Piece} {ps : List Piece} (hd : 0 < d)
    (hline : (w.script tabWidth).LineFrom tabWidth n q)
    (hstands : StandsAt w.pieces (q + 2) (.kept .whitespace (spaces d) :: r :: ps))
    (hcode : r.lexeme.kind ≠ .whitespace) : (w.script tabWidth).Leads n d (q + 3) := by
  have hone : Piece.blanks (spaces d) (spaces d) = [.kept .whitespace (spaces d)] :=
    Piece.blanks_of_ne (spaces_ne_nil hd)
  have hblanks : StandsAt w.pieces (q + 2) (Piece.blanks (spaces d) (spaces d) ++ r :: ps) := by
    rw [hone]
    exact hstands
  have hleads := leads_of_pieces hline hblanks hcode
  rw [indentation_pos hd] at hleads
  exact hleads

/-! ## §5. A case. -/

/-- The lines of a case follow the code at `q`, which ends line `n - 1`. -/
structure CaseAt (w : SwitchText) (tabWidth n q : Nat) (x : Case × CaseLayout) : Prop where
  line : (w.script tabWidth).LineFrom tabWidth n q
  pieces : StandsAt w.pieces (q + 2) (w.casePieces x)

namespace CaseAt

variable {x : Case × CaseLayout}

/-- The pieces of a case, from the first on. -/
theorem stands (h : w.CaseAt tabWidth n q x) :
    StandsAt w.pieces (q + 2) (.kept .whitespace (spaces w.one)
      :: ⟨⟨.caseKw, x.2.keyword⟩, ['c', 'a', 's', 'e']⟩ :: ⟨⟨.whitespace, x.2.gap⟩, [' ']⟩
      :: ⟨x.1.label.lexeme, x.1.label.chars⟩
      :: (Piece.blanks x.2.beforeColon [] ++ .kept .colon [':'] :: .newline
        :: (x.1.body.flatMap (Call.pieces w.two) ++ w.endPieces x))) := by
  rw [← w.casePieces_eq]
  exact h.pieces

theorem keyword (h : w.CaseAt tabWidth n q x) :
    w.pieces[q + 3]? = some ⟨⟨.caseKw, x.2.keyword⟩, ['c', 'a', 's', 'e']⟩ :=
  h.stands.tail.head

theorem gap (h : w.CaseAt tabWidth n q x) :
    w.pieces[q + 4]? = some ⟨⟨.whitespace, x.2.gap⟩, [' ']⟩ :=
  h.stands.tail.tail.head

theorem label (h : w.CaseAt tabWidth n q x) :
    w.pieces[q + 5]? = some ⟨x.1.label.lexeme, x.1.label.chars⟩ :=
  h.stands.tail.tail.tail.head

theorem beforeColon (h : w.CaseAt tabWidth n q x) :
    StandsAt w.pieces (q + 6) (Piece.blanks x.2.beforeColon []) :=
  h.stands.tail.tail.tail.tail.left

theorem colon (h : w.CaseAt tabWidth n q x) :
    w.pieces[(caseScope q x).opener]? = some (.kept .colon [':']) :=
  h.stands.tail.tail.tail.tail.right.head

theorem calls (h : w.CaseAt tabWidth n q x) :
    StandsAt w.pieces ((caseScope q x).opener + 2) (x.1.body.flatMap (Call.pieces w.two)) :=
  h.stands.tail.tail.tail.tail.right.tail.tail.left

/-- The statement that ends the case, behind the calls. -/
theorem ends (h : w.CaseAt tabWidth n q x) :
    StandsAt w.pieces ((caseScope q x).opener + 6 * x.1.body.length + 2) (w.endPieces x) := by
  have hright := h.stands.tail.tail.tail.tail.right.tail.tail.right
  rw [length_calls] at hright
  rw [Nat.add_right_comm]
  exact hright

/-- The scope of a case is closed by the keyword of that statement. -/
theorem closer (h : w.CaseAt tabWidth n q x) :
    w.pieces[(caseScope q x).closer]? = some ⟨⟨x.1.terminator.kind, x.1.terminator.keyword⟩,
      spaces (w.two - x.2.depth) ++ x.1.terminator.keyword⟩ := by
  have hright := h.ends.right
  rw [length_blanks_spaces] at hright
  exact hright.head

/-- The spaces in front of the statement that ends the case. -/
theorem indent (h : w.CaseAt tabWidth n q x) (hdepth : 0 < x.2.depth) :
    w.pieces[(caseScope q x).closer - 1]?
      = some ⟨⟨.whitespace, spaces x.2.depth⟩, spaces (min x.2.depth w.two)⟩ := by
  have hleft := h.ends.left
  rw [Piece.blanks_of_ne (spaces_ne_nil hdepth)] at hleft
  rw [show (caseScope q x).closer - 1 = (caseScope q x).opener + 6 * x.1.body.length + 2 by
    unfold caseScope
    rw [indentation_pos hdepth]
    rfl]
  exact hleft.head

/-- The rest of the statement, and the end of its line. -/
theorem rest (h : w.CaseAt tabWidth n q x) :
    StandsAt w.pieces ((caseScope q x).closer + 1) (x.1.terminator.restPieces ++ [.newline]) := by
  have hright := h.ends.right
  rw [length_blanks_spaces] at hright
  exact hright.tail

/-- The line of the label. -/
theorem line_colon (h : w.CaseAt tabWidth n q x) :
    (w.script tabWidth).LineFrom tabWidth (n + 1) (caseScope q x).opener := by
  have hgap : Lexeme.isInline ⟨.whitespace, x.2.gap⟩ = true := isInline_of_isBlank x.2.gap_blank
  have hstands : StandsAt w.pieces (q + 2) (.kept .whitespace (spaces w.one)
      :: ⟨⟨.caseKw, x.2.keyword⟩, ['c', 'a', 's', 'e']⟩
      :: ((⟨⟨.whitespace, x.2.gap⟩, [' ']⟩ :: ⟨x.1.label.lexeme, x.1.label.chars⟩
        :: Piece.blanks x.2.beforeColon []) ++ [.kept .colon [':'], .newline])) :=
    h.pieces.left.left
  have hline := lineFrom_label h.line hstands (isWordChar_of_lowerAscii x.2.keyword_eq rfl)
    (by simp only [List.map_cons, List.all_cons, hgap, isInline_label,
      isInline_blanks x.2.beforeColon_blank, Bool.and_self])
  rw [List.length_cons, List.length_cons] at hline
  rw [show (caseScope q x).opener = q + 4 + ((Piece.blanks x.2.beforeColon []).length + 1 + 1) by
    unfold caseScope; dsimp only; omega]
  exact hline

/-- The lines of the code. -/
theorem line_code (h : w.CaseAt tabWidth n q x) :
    (w.script tabWidth).LineFrom tabWidth (n + 1 + x.1.body.length)
      ((caseScope q x).opener + 6 * x.1.body.length) :=
  lineFrom_calls x.1.body h.line_colon h.calls

/-- The line of the statement that ends the case. -/
theorem line_end (h : w.CaseAt tabWidth n q x) :
    (w.script tabWidth).LineFrom tabWidth (n + x.1.body.length + 2) (caseEnd q x) := by
  obtain ⟨front, hrest, hinline, _⟩ := restPieces_eq x.1.terminator
  have hstands : StandsAt (w.script tabWidth).lexemes
      ((caseScope q x).opener + 6 * x.1.body.length + 2)
      ((Lexeme.indentation x.2.depth ++ .mk x.1.terminator.kind x.1.terminator.keyword
        :: front.map Piece.lexeme) ++ [.mk .semicolon [';'], .newline]) := by
    have hends := standsAt_script tabWidth h.ends
    unfold endPieces at hends
    rw [hrest, List.map_append, map_lexeme_blanks_spaces, List.map_cons, List.append_assoc,
      List.map_append] at hends
    rw [List.append_assoc, List.cons_append]
    exact hends
  have hline := Script.lineFrom_of_line (n := n + 1 + x.1.body.length)
    (by rw [h.line_code.starts]) hstands
    (by rw [List.all_append, List.all_cons, isInline_indentation, isInline_terminator, hinline]; rfl)
    (by decide) rfl
  have hlength : x.1.terminator.restPieces.length = front.length + 1 := by
    rw [hrest, List.length_append]
    rfl
  rw [List.length_append, List.length_cons, List.length_map] at hline
  rw [show n + x.1.body.length + 2 = n + 1 + x.1.body.length + 1 by omega]
  rw [show (caseScope q x).opener + 6 * x.1.body.length + 2
      + ((Lexeme.indentation x.2.depth).length + (front.length + 1)) = caseEnd q x by
    unfold caseEnd
    rw [hlength]
    unfold caseScope
    dsimp only
    omega] at hline
  exact hline

/-- The keyword comes first on its line. -/
theorem leads_keyword (h : w.CaseAt tabWidth n q x) :
    (w.script tabWidth).Leads n w.one (q + 3) :=
  leads_of_spaces w.one_pos h.line h.stands (fun hkind => by cases hkind)

/-- The statement that ends the case comes first on its line. -/
theorem leads_closer (h : w.CaseAt tabWidth n q x) :
    (w.script tabWidth).Leads (n + 1 + x.1.body.length) x.2.depth (caseScope q x).closer := by
  refine leads_of_pieces h.line_code h.ends ?_
  cases x.1.terminator <;> exact fun hkind => by cases hkind

end CaseAt

/-! ## §6. Kinds and brackets. -/

/-- What may stand between a branch keyword and its colon. -/
def isLabelPart : TokenKind → Bool
  | .whitespace | .word | .string => true
  | _ => false

/-- What may stand between the keywords of a written switch. -/
def isFiller : TokenKind → Bool
  | .whitespace | .word | .string | .colon | .semicolon | .openParen | .closeParen => true
  | _ => false

/-- Parts of a label are no keywords. -/
theorem isFiller_of_isLabelPart {kind : TokenKind} (h : isLabelPart kind = true) :
    isFiller kind = true := by
  cases kind <;> first | rfl | cases h

/-- What stands between the keywords ends no branch, starts none and owns no body. -/
theorem not_ends_of_isFiller {kind : TokenKind} (h : isFiller kind = true) :
    Script.endsBranch kind = false ∧ kind.isBranch = false ∧ kind.ownsBody = false := by
  cases kind <;> first | exact ⟨rfl, rfl, rfl⟩ | cases h

theorem isLabelPart_label (l : Label) : isLabelPart l.lexeme.kind = true := by
  cases l <;> rfl

theorem kind_of_mem_blanks {cs tidy : List Char} {p : Piece} (h : p ∈ Piece.blanks cs tidy) :
    p.lexeme.kind = .whitespace := by
  rw [Piece.eq_of_mem_blanks h]

/-- Calls have no keyword. -/
theorem isFiller_calls {depth : Nat} {fs : List Call} {p : Piece}
    (h : p ∈ fs.flatMap (Call.pieces depth)) : isFiller p.lexeme.kind = true := by
  obtain ⟨f, _, hp⟩ := List.mem_flatMap.mp h
  have hall : ((f.pieces depth).all fun p => isFiller p.lexeme.kind) = true := rfl
  exact List.all_eq_true.mp hall p hp

theorem balanced_blanks (cs tidy : List Char) :
    Balanced (((Piece.blanks cs tidy).map Piece.lexeme).map Lexeme.kind) := by
  refine balanced_of_plain fun kind hkind => ?_
  rw [List.map_map] at hkind
  obtain ⟨p, hp, rfl⟩ := List.mem_map.mp hkind
  show (p.lexeme.kind).opens? = none ∧ (p.lexeme.kind).closes? = none
  rw [kind_of_mem_blanks hp]
  exact ⟨rfl, rfl⟩

/-- The brackets of a call are those around its arguments. -/
theorem balanced_calls (depth : Nat) (fs : List Call) :
    Balanced (((fs.flatMap (Call.pieces depth)).map Piece.lexeme).map Lexeme.kind) := by
  induction fs with
  | nil => exact .nil
  | cons f fs ih =>
      rw [List.flatMap_cons, List.map_append, List.map_append]
      refine Balanced.append ?_ ih
      exact .plain rfl rfl (.plain rfl rfl (.pair rfl rfl (.plain rfl rfl (.plain rfl rfl .nil))))

/-- **A case leaves no bracket open.** -/
theorem balanced_casePieces (w : SwitchText) (x : Case × CaseLayout) :
    Balanced (((w.casePieces x).map Piece.lexeme).map Lexeme.kind) := by
  have hlabel : x.1.label.lexeme.kind.opens? = none ∧ x.1.label.lexeme.kind.closes? = none := by
    cases x.1.label <;> exact ⟨rfl, rfl⟩
  have hend : Balanced (((w.endPieces x).map Piece.lexeme).map Lexeme.kind) := by
    unfold endPieces
    rw [List.map_append, List.map_append]
    refine Balanced.append (balanced_blanks _ _) ?_
    cases x.1.terminator with
    | throwStatement => exact .plain rfl rfl (.plain rfl rfl (.plain rfl rfl (.plain rfl rfl
        (.plain rfl rfl .nil))))
    | _ => exact .plain rfl rfl (.plain rfl rfl (.plain rfl rfl .nil))
  unfold casePieces
  simp only [List.map_append]
  refine Balanced.append (Balanced.append (Balanced.append (Balanced.append ?_
    (balanced_blanks _ _)) ?_) (balanced_calls _ _)) hend
  · exact .plain rfl rfl (.plain rfl rfl (.plain rfl rfl (.plain hlabel.1 hlabel.2 .nil)))
  · exact .plain rfl rfl (.plain rfl rfl .nil)

/-- **Nor does the `default`.** -/
theorem balanced_defaultPieces (w : SwitchText) :
    Balanced ((w.defaultPieces.map Piece.lexeme).map Lexeme.kind) := by
  unfold defaultPieces
  simp only [List.map_append]
  refine Balanced.append (Balanced.append (Balanced.append ?_ (balanced_blanks _ _)) ?_)
    (balanced_calls _ _)
  · exact .plain rfl rfl (.plain rfl rfl .nil)
  · exact .plain rfl rfl (.plain rfl rfl .nil)

theorem balanced_cases (w : SwitchText) (xs : List (Case × CaseLayout)) :
    Balanced (((xs.flatMap w.casePieces).map Piece.lexeme).map Lexeme.kind) := by
  induction xs with
  | nil => exact .nil
  | cons x xs ih =>
      rw [List.flatMap_cons, List.map_append, List.map_append]
      exact Balanced.append (w.balanced_casePieces x) ih

/-- The kinds of a stretch of pieces. -/
theorem kindAt_of_pieces {qs : List Piece} {P : TokenKind → Prop} {p j : Nat}
    (h : StandsAt w.pieces p qs) (hqs : ∀ q ∈ qs, P q.lexeme.kind) (hlo : p ≤ j)
    (hhi : j < p + qs.length) : P ((w.script tabWidth).kindAt j) := by
  obtain ⟨q, hq, hj⟩ := h.exists_mem hlo hhi
  rw [kindAt_script hj]
  exact hqs q hq

/-- Layout alone stands between the end of a line and what comes first on the next. -/
theorem kindAt_layout {d j : Nat} {tidy : List Char}
    (hline : (w.script tabWidth).LineFrom tabWidth n q)
    (hspaces : StandsAt w.pieces (q + 2) (Piece.blanks (spaces d) tidy)) (hlo : q < j)
    (hhi : j < q + 2 + (Lexeme.indentation d).length) :
    (w.script tabWidth).kindAt j = .whitespace := by
  rcases Nat.lt_or_ge j (q + 2) with hj | hj
  · obtain rfl : j = q + 1 := by omega
    exact Script.kindAt_of_lexeme hline.newline
  · refine kindAt_of_pieces (P := (· = .whitespace)) hspaces (fun p hp => ?_) hj ?_
    · exact kind_of_mem_blanks hp
    · rw [length_blanks_spaces]
      exact hhi

/-- Calls, behind the end of the line at `o + 1` and in front of the spaces of the next line. -/
theorem isFiller_code {fs : List Call} {o depth d j : Nat} {tidy : List Char}
    (hnewline : w.pieces[o + 1]? = some .newline)
    (hcalls : StandsAt w.pieces (o + 2) (fs.flatMap (Call.pieces depth)))
    (hspaces : StandsAt w.pieces (o + 6 * fs.length + 2) (Piece.blanks (spaces d) tidy))
    (hlo : o < j) (hhi : j < o + 6 * fs.length + 2 + (Lexeme.indentation d).length) :
    isFiller ((w.script tabWidth).kindAt j) = true := by
  have hlength := length_calls depth fs
  rcases Nat.lt_or_ge j (o + 2) with hj | hj
  · obtain rfl : j = o + 1 := by omega
    rw [kindAt_script hnewline]
    rfl
  · rcases Nat.lt_or_ge j (o + 6 * fs.length + 2) with hj' | hj'
    · exact kindAt_of_pieces (P := (isFiller · = true)) hcalls (fun p hp => isFiller_calls hp) hj
        (by omega)
    · refine kindAt_of_pieces (P := (isFiller · = true)) hspaces (fun p hp => ?_) hj' ?_
      · rw [kind_of_mem_blanks hp]
        rfl
      · rw [length_blanks_spaces]
        exact hhi

namespace CaseAt

variable {x : Case × CaseLayout}

/-- From its keyword to its colon a case has a label. -/
theorem kindAt_label (h : w.CaseAt tabWidth n q x) {j : Nat} (hlo : q + 4 ≤ j)
    (hhi : j < (caseScope q x).opener) :
    isLabelPart ((w.script tabWidth).kindAt j) = true := by
  unfold caseScope at hhi
  dsimp only at hhi
  rcases Nat.lt_or_ge j (q + 6) with hj | hj
  · obtain rfl | rfl : j = q + 4 ∨ j = q + 5 := by omega
    · rw [kindAt_script h.gap]
      rfl
    · rw [kindAt_script h.label]
      exact isLabelPart_label x.1.label
  · refine kindAt_of_pieces (P := (isLabelPart · = true)) h.beforeColon (fun p hp => ?_) hj hhi
    rw [kind_of_mem_blanks hp]
    rfl

theorem newline_colon (h : w.CaseAt tabWidth n q x) :
    w.pieces[(caseScope q x).opener + 1]? = some .newline :=
  h.stands.tail.tail.tail.tail.right.tail.head

/-- From its colon to the statement that ends it a case has calls. -/
theorem kindAt_code (h : w.CaseAt tabWidth n q x) {j : Nat} (hlo : (caseScope q x).opener < j)
    (hhi : j < (caseScope q x).closer) : isFiller ((w.script tabWidth).kindAt j) = true :=
  isFiller_code h.newline_colon h.calls h.ends.left hlo hhi

/-- Behind the keyword of that statement there is no other, as far as the end of its line. -/
theorem kindAt_rest (h : w.CaseAt tabWidth n q x) {j : Nat} (hlo : (caseScope q x).closer < j)
    (hhi : j ≤ caseEnd q x + 1) : isFiller ((w.script tabWidth).kindAt j) = true := by
  refine kindAt_of_pieces (P := (isFiller · = true)) h.rest (fun p hp => ?_) hlo ?_
  · obtain ⟨front, hrest, _, hfront⟩ := restPieces_eq x.1.terminator
    rw [hrest] at hp
    rcases List.mem_append.mp hp with hp | hp
    · rcases List.mem_append.mp hp with hp | hp
      · rcases hfront p hp with hkind | hkind <;> (rw [hkind]; rfl)
      · rw [List.mem_singleton.mp hp]
        rfl
    · rw [List.mem_singleton.mp hp]
      rfl
  · unfold caseEnd at hhi
    rw [List.length_append, List.length_singleton]
    omega

/-- Between the code at `q` and the end of the case there are two keywords. -/
theorem kindAt_filler (h : w.CaseAt tabWidth n q x) {j : Nat} (hlo : q < j)
    (hhi : j ≤ caseEnd q x + 1) (hkeyword : j ≠ q + 3) (hcloser : j ≠ (caseScope q x).closer) :
    isFiller ((w.script tabWidth).kindAt j) = true := by
  rcases Nat.lt_or_ge j (q + 4) with hj | hj
  · obtain rfl | rfl : j = q + 1 ∨ j = q + 2 := by omega
    · rw [Script.kindAt_of_lexeme h.line.newline]
      rfl
    · rw [kindAt_script h.stands.head]
      rfl
  · rcases Nat.lt_trichotomy j (caseScope q x).opener with hj' | rfl | hj'
    · exact isFiller_of_isLabelPart (h.kindAt_label hj hj')
    · rw [kindAt_script h.colon]
      rfl
    · rcases Nat.lt_or_ge j (caseScope q x).closer with hj'' | hj''
      · exact h.kindAt_code hj' hj''
      · exact h.kindAt_rest (by omega) hhi

end CaseAt

/-! ## §7. The `default` and the brace. -/

/-- The lines of the `default` and of the brace follow the code at `q`, which ends line
`n - 1`. -/
structure DefaultAt (w : SwitchText) (tabWidth n q : Nat) : Prop where
  line : (w.script tabWidth).LineFrom tabWidth n q
  pieces : StandsAt w.pieces (q + 2) (w.defaultPieces ++ w.tailPieces)

namespace DefaultAt

/-- The pieces of the `default`, from the first on. -/
theorem stands (h : w.DefaultAt tabWidth n q) :
    StandsAt w.pieces (q + 2) (.kept .whitespace (spaces w.one)
      :: ⟨⟨.defaultKw, w.defaultLayout.keyword⟩, ['d', 'e', 'f', 'a', 'u', 'l', 't']⟩
      :: (Piece.blanks w.defaultLayout.beforeColon [] ++ .kept .colon [':'] :: .newline
        :: w.defaultBody.flatMap (Call.pieces w.two))) := by
  rw [← w.defaultPieces_eq]
  exact h.pieces.left

theorem keyword (h : w.DefaultAt tabWidth n q) :
    w.pieces[q + 3]?
      = some ⟨⟨.defaultKw, w.defaultLayout.keyword⟩, ['d', 'e', 'f', 'a', 'u', 'l', 't']⟩ :=
  h.stands.tail.head

theorem beforeColon (h : w.DefaultAt tabWidth n q) :
    StandsAt w.pieces (q + 4) (Piece.blanks w.defaultLayout.beforeColon []) :=
  h.stands.tail.tail.left

theorem colon (h : w.DefaultAt tabWidth n q) :
    w.pieces[(w.defaultScope q).opener]? = some (.kept .colon [':']) :=
  h.stands.tail.tail.right.head

theorem newline_colon (h : w.DefaultAt tabWidth n q) :
    w.pieces[(w.defaultScope q).opener + 1]? = some .newline :=
  h.stands.tail.tail.right.tail.head

theorem calls (h : w.DefaultAt tabWidth n q) :
    StandsAt w.pieces ((w.defaultScope q).opener + 2)
      (w.defaultBody.flatMap (Call.pieces w.two)) :=
  h.stands.tail.tail.right.tail.tail

/-- The line of the brace, behind the calls. -/
theorem tail (h : w.DefaultAt tabWidth n q) :
    StandsAt w.pieces ((w.defaultScope q).opener + 6 * w.defaultBody.length + 2) w.tailPieces := by
  have hright := h.pieces.right
  rw [defaultPieces_eq] at hright
  simp only [List.length_cons, List.length_append, length_calls] at hright
  rw [show q + 2 + ((Piece.blanks w.defaultLayout.beforeColon []).length
      + (6 * w.defaultBody.length + 1 + 1) + 1 + 1)
    = (w.defaultScope q).opener + 6 * w.defaultBody.length + 2 by
      unfold defaultScope; dsimp only; omega] at hright
  exact hright

/-- The scope of the `default` is closed by the brace of the switch. -/
theorem brace (h : w.DefaultAt tabWidth n q) :
    w.pieces[(w.defaultScope q).closer]? = some (.kept .closeBrace ['\x7d']) := by
  have hright := h.tail.right
  rw [length_blanks_spaces] at hright
  exact hright.head

theorem newline_brace (h : w.DefaultAt tabWidth n q) :
    w.pieces[(w.defaultScope q).closer + 1]? = some .newline := by
  have hright := h.tail.right
  rw [length_blanks_spaces] at hright
  exact hright.tail.head

/-- The label of the `default` takes a line. -/
theorem line_colon (h : w.DefaultAt tabWidth n q) :
    (w.script tabWidth).LineFrom tabWidth (n + 1) (w.defaultScope q).opener := by
  have hstands : StandsAt w.pieces (q + 2) (.kept .whitespace (spaces w.one)
      :: ⟨⟨.defaultKw, w.defaultLayout.keyword⟩, ['d', 'e', 'f', 'a', 'u', 'l', 't']⟩
      :: (Piece.blanks w.defaultLayout.beforeColon [] ++ [.kept .colon [':'], .newline])) :=
    h.pieces.left.left
  exact lineFrom_label h.line hstands (isWordChar_of_lowerAscii w.defaultLayout.keyword_eq rfl)
    (isInline_blanks w.defaultLayout.beforeColon_blank)

/-- The lines of the code. -/
theorem line_code (h : w.DefaultAt tabWidth n q) :
    (w.script tabWidth).LineFrom tabWidth (n + 1 + w.defaultBody.length)
      ((w.defaultScope q).opener + 6 * w.defaultBody.length) :=
  lineFrom_calls w.defaultBody h.line_colon h.calls

/-- The keyword comes first on its line. -/
theorem leads_keyword (h : w.DefaultAt tabWidth n q) :
    (w.script tabWidth).Leads n w.one (q + 3) :=
  leads_of_spaces w.one_pos h.line h.stands (fun hkind => by cases hkind)

/-- The brace comes first on its line, below the `switch`. -/
theorem leads_brace (h : w.DefaultAt tabWidth n q) :
    (w.script tabWidth).Leads (n + 1 + w.defaultBody.length) w.pad (w.defaultScope q).closer :=
  leads_of_pieces h.line_code h.tail (fun hkind => by cases hkind)

/-- The `default` has nothing but blanks there. -/
theorem kindAt_label (h : w.DefaultAt tabWidth n q) {j : Nat} (hlo : q + 4 ≤ j)
    (hhi : j < (w.defaultScope q).opener) :
    isLabelPart ((w.script tabWidth).kindAt j) = true := by
  refine kindAt_of_pieces (P := (isLabelPart · = true)) h.beforeColon (fun p hp => ?_) hlo hhi
  rw [kind_of_mem_blanks hp]
  rfl

/-- From its colon to the brace the `default` has calls. -/
theorem kindAt_code (h : w.DefaultAt tabWidth n q) {j : Nat}
    (hlo : (w.defaultScope q).opener < j) (hhi : j < (w.defaultScope q).closer) :
    isFiller ((w.script tabWidth).kindAt j) = true :=
  isFiller_code h.newline_colon h.calls h.tail.left hlo hhi

/-- Between the code at `q` and the brace there is one keyword. -/
theorem kindAt_filler (h : w.DefaultAt tabWidth n q) {j : Nat} (hlo : q < j)
    (hhi : j < (w.defaultScope q).closer) (hkeyword : j ≠ q + 3) :
    isFiller ((w.script tabWidth).kindAt j) = true := by
  rcases Nat.lt_or_ge j (q + 4) with hj | hj
  · obtain rfl | rfl : j = q + 1 ∨ j = q + 2 := by omega
    · rw [Script.kindAt_of_lexeme h.line.newline]
      rfl
    · rw [kindAt_script h.stands.head]
      rfl
  · rcases Nat.lt_trichotomy j (w.defaultScope q).opener with hj' | rfl | hj'
    · exact isFiller_of_isLabelPart (h.kindAt_label hj hj')
    · rw [kindAt_script h.colon]
      rfl
    · exact h.kindAt_code hj' hhi

end DefaultAt

/-! ## §8. The walk. -/

/-- The cases `xs`, the `default` and the brace follow the code at `q`, which ends line
`n - 1`. -/
structure Placed (w : SwitchText) (tabWidth n q : Nat) (xs : List (Case × CaseLayout)) : Prop where
  line : (w.script tabWidth).LineFrom tabWidth n q
  pieces : StandsAt w.pieces (q + 2)
    (xs.flatMap w.casePieces ++ (w.defaultPieces ++ w.tailPieces))

/-- The pieces of a case go as far as its end. -/
theorem length_casePieces (w : SwitchText) (q : Nat) (x : Case × CaseLayout) :
    q + (w.casePieces x).length = caseEnd q x := by
  rw [casePieces_eq]
  unfold endPieces caseEnd caseScope
  simp only [List.length_cons, List.length_append, List.length_nil, length_calls,
    length_blanks_spaces]
  omega

/-- **One case.**  Behind the lines of a case stands what is left. -/
theorem placed_cons {x : Case × CaseLayout} {xs : List (Case × CaseLayout)}
    (h : w.Placed tabWidth n q (x :: xs)) :
    w.CaseAt tabWidth n q x
      ∧ w.Placed tabWidth (n + x.1.body.length + 2) (caseEnd q x) xs := by
  have hpieces := h.pieces
  rw [List.flatMap_cons, List.append_assoc] at hpieces
  have hcase : w.CaseAt tabWidth n q x := ⟨h.line, hpieces.left⟩
  refine ⟨hcase, hcase.line_end, ?_⟩
  have hright := hpieces.right
  rw [Nat.add_right_comm, w.length_casePieces] at hright
  exact hright

/-- **Behind the last case** stands the `default`. -/
theorem placed_nil (h : w.Placed tabWidth n q []) : w.DefaultAt tabWidth n q :=
  ⟨h.line, h.pieces⟩

/-- The line of the switch. -/
theorem standsAt_head (w : SwitchText) (tabWidth : Nat) :
    StandsAt (w.script tabWidth).lexemes 0
      ((Lexeme.indentation w.pad ++ [.mk .switchKw ['s', 'w', 'i', 't', 'c', 'h'],
          .mk .whitespace [' '], .mk .openParen ['('], .mk .word ['$', 'x'], .mk .closeParen [')'],
          .mk .whitespace [' ']])
        ++ [.mk .openBrace ['\x7b'], .newline]) := by
  have hself := StandsAt.self w.pieces
  have hhead := standsAt_script tabWidth hself.left.left.left
  unfold headPieces at hhead
  rw [List.map_append, map_lexeme_blanks_spaces] at hhead
  rw [List.append_assoc]
  exact hhead

/-- **The walk starts** behind the line of the switch. -/
theorem placed_start (w : SwitchText) (tabWidth : Nat) :
    w.Placed tabWidth 2 w.scope.opener w.cases := by
  refine ⟨?_, ?_⟩
  · have hstart : ((w.script tabWidth).locationAt tabWidth 0).line = 1 := rfl
    have hline := Script.lineFrom_of_line hstart (w.standsAt_head tabWidth)
      (by rw [List.all_append, isInline_indentation]; rfl) (by decide) rfl
    rw [Nat.zero_add, List.length_append] at hline
    exact hline
  · have hself : StandsAt w.pieces 0
        (w.headPieces ++ (w.cases.flatMap w.casePieces ++ (w.defaultPieces ++ w.tailPieces))) := by
      rw [← List.append_assoc, ← List.append_assoc]
      exact StandsAt.self w.pieces
    have hright := hself.right
    unfold headPieces at hright
    rw [Nat.zero_add, List.length_append, length_blanks_spaces] at hright
    exact hright

/-- The brace stands behind all that is still to come. -/
theorem lt_braceFrom (w : SwitchText) (xs : List (Case × CaseLayout)) :
    ∀ q, q + 3 < w.braceFrom q xs := by
  induction xs with
  | nil =>
      intro q
      show q + 3 < (w.defaultScope q).closer
      unfold defaultScope
      dsimp only
      omega
  | cons x xs ih =>
      intro q
      show q + 3 < w.braceFrom (caseEnd q x) xs
      have hlt := ih (caseEnd q x)
      unfold caseEnd caseScope at hlt ⊢
      dsimp only at hlt ⊢
      omega

/-- A case is opened behind its keyword, closed behind that, and ends behind its closer. -/
theorem caseScope_lt (q : Nat) (x : Case × CaseLayout) :
    q + 5 < (caseScope q x).opener ∧ (caseScope q x).opener < (caseScope q x).closer
      ∧ (caseScope q x).closer < caseEnd q x := by
  obtain ⟨front, hrest, _⟩ := restPieces_eq x.1.terminator
  unfold caseEnd
  rw [hrest, List.length_append, List.length_singleton]
  unfold caseScope
  dsimp only
  omega

/-- The scopes that are still to come start behind the code at `q`. -/
theorem lt_condition (w : SwitchText) (xs : List (Case × CaseLayout)) :
    ∀ {q : Nat} {scope : Scope}, scope ∈ w.scopesFrom q xs → q + 3 ≤ scope.condition := by
  induction xs with
  | nil =>
      intro q scope h
      rw [List.mem_singleton.mp h]
      exact Nat.le_refl _
  | cons x xs ih =>
      intro q scope h
      rcases List.mem_cons.mp h with rfl | h
      · exact Nat.le_refl _
      · have hle := ih h
        have hlt := caseScope_lt q x
        omega

/-- What the walk finds: the brace closes, branch keywords stand where the scopes say, and no
other keyword owns a body. -/
theorem kindAt_of_placed (xs : List (Case × CaseLayout)) :
    ∀ {n q : Nat}, w.Placed tabWidth n q xs →
      (w.script tabWidth).kindAt (w.braceFrom q xs) = .closeBrace
        ∧ (w.script tabWidth).kindAt (w.braceFrom q xs + 1) = .whitespace
        ∧ ∀ j, q < j → j < w.braceFrom q xs →
          ((w.script tabWidth).kindAt j).ownsBody = false
            ∧ (((w.script tabWidth).kindAt j).isBranch = true ↔
                j ∈ (w.scopesFrom q xs).map Scope.condition) := by
  induction xs with
  | nil =>
      intro n q h
      have hdefault := placed_nil h
      refine ⟨kindAt_script hdefault.brace, kindAt_script hdefault.newline_brace, fun j hlo hhi => ?_⟩
      show _ ∧ (_ ↔ j ∈ [q + 3])
      by_cases hj : j = q + 3
      · rw [hj, kindAt_script hdefault.keyword]
        simp [TokenKind.ownsBody, TokenKind.isBranch]
      · have hfiller := not_ends_of_isFiller (hdefault.kindAt_filler hlo hhi hj)
        refine ⟨hfiller.2.2, ?_⟩
        rw [hfiller.2.1, List.mem_singleton]
        simp [hj]
  | cons x xs ih =>
      intro n q h
      obtain ⟨hcase, hrest⟩ := placed_cons h
      obtain ⟨hbrace, hnewline, hkinds⟩ := ih hrest
      obtain ⟨_, hoc, hce⟩ := caseScope_lt q x
      refine ⟨hbrace, hnewline, fun j hlo hhi => ?_⟩
      have hmem : j ∈ (w.scopesFrom q (x :: xs)).map Scope.condition ↔
          j = q + 3 ∨ j ∈ (w.scopesFrom (caseEnd q x) xs).map Scope.condition :=
        List.mem_cons
      rw [hmem]
      by_cases hj : caseEnd q x < j
      · -- behind the case
        have hne : j ≠ q + 3 := by omega
        rw [or_iff_right hne]
        exact hkinds j hj hhi
      · -- in the case: its keyword, or what is none
        have hbehind : j ∉ (w.scopesFrom (caseEnd q x) xs).map Scope.condition := by
          intro hj'
          obtain ⟨scope, hscope, rfl⟩ := List.mem_map.mp hj'
          have hle := w.lt_condition xs hscope
          omega
        rw [or_iff_left hbehind]
        by_cases hkeyword : j = q + 3
        · rw [hkeyword, kindAt_script hcase.keyword]
          simp [TokenKind.ownsBody, TokenKind.isBranch]
        · have hplain : ((w.script tabWidth).kindAt j).ownsBody = false
              ∧ ((w.script tabWidth).kindAt j).isBranch = false := by
            by_cases hcloser : j = (caseScope q x).closer
            · rw [hcloser, kindAt_script hcase.closer]
              cases x.1.terminator <;> exact ⟨rfl, rfl⟩
            · have hfiller :=
                not_ends_of_isFiller (hcase.kindAt_filler hlo (by omega) hkeyword hcloser)
              exact ⟨hfiller.2.2, hfiller.2.1⟩
          refine ⟨hplain.1, ?_⟩
          rw [hplain.2]
          simp [hkeyword]

end SwitchText

end SwitchLayout
