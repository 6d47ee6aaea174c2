/-
  SwitchLayout.Proofs.Windows
  ───────────────────────────
  **A stretch of a script that reads like a script of its own.**

  `Window e s offset lines` says that the tokens of `e` stand in `s` from the position `offset` on,
  `lines` lines further down, and that the line in front of them is another one.  Every question
  about positions then has in `s` the answer it has in `e`, moved by the offset:

    • `next?_window`, `previous?_window` — the next and the last token of some kind,
    • `rowStart_window`, `lineStart?_window` — where a line starts; the search goes backwards and
      has no end of its own, and stops where the window does because the line does.
-/
import SwitchLayout.Proofs.Gaps

namespace SwitchLayout

/-! ## §1. Moving. -/

/-- The same column, some lines further down. -/
def Location.below (lines : Nat) (l : Location) : Location := ⟨l.line + lines, l.column⟩

/-- The token moved by some positions and lines. -/
def Token.shift (offset lines : Nat) (t : Token) : Token :=
  { t with location := t.location.below lines, position := offset + t.position }

/-- The edit of the token that was moved. -/
def Edit.shift (offset : Nat) (e : Edit) : Edit := { e with position := offset + e.position }

/-- The finding on the token that was moved. -/
def Finding.shift (offset lines : Nat) (f : Finding) : Finding :=
  { f with
    position := offset + f.position
    location := f.location.below lines
    fix := f.fix.map (Edit.shift offset) }

section Shift

variable (offset lines : Nat) (t : Token)

@[simp] theorem Token.kind_shift : (t.shift offset lines).kind = t.kind := rfl

@[simp] theorem Token.text_shift : (t.shift offset lines).text = t.text := rfl

@[simp] theorem Token.chars_shift : (t.shift offset lines).chars = t.chars := rfl

@[simp] theorem Token.column_shift : (t.shift offset lines).column = t.column := rfl

@[simp] theorem Token.line_shift : (t.shift offset lines).line = t.line + lines := rfl

@[simp] theorem Token.position_shift : (t.shift offset lines).position = offset + t.position := rfl

@[simp] theorem Token.bodyForm_shift : (t.shift offset lines).bodyForm = t.bodyForm := rfl

/-- A token that spans lines ends as many lines further down as it starts. -/
@[simp] theorem Token.endLine_shift : (t.shift offset lines).endLine = t.endLine + lines := by
  unfold Token.endLine
  rw [Token.line_shift, Token.chars_shift]
  omega

/-- Moved by nothing, a token stays. -/
theorem Token.shift_zero : t.shift 0 0 = t := by
  unfold Token.shift Location.below
  simp

theorem Edit.shift_zero (e : Edit) : e.shift 0 = e := by
  unfold Edit.shift
  simp

/-- Moved by nothing, a finding stays, and its edit with it. -/
theorem Finding.shift_zero (f : Finding) : f.shift 0 0 = f := by
  have hfix : f.fix.map (Edit.shift 0) = f.fix := by
    cases f.fix with
    | none => rfl
    | some e => exact congrArg some e.shift_zero
  unfold Finding.shift Location.below
  rw [hfix]
  simp

end Shift

/-! ## §2. Searching. -/

/-- A search upwards in a stretch that was moved finds what was moved. -/
theorem firstFrom?_add {p q : Nat → Bool} {offset start count : Nat}
    (h : ∀ i, start ≤ i → i < start + count → q (offset + i) = p i) :
    firstFrom? q (offset + start) count = (firstFrom? p start count).map (offset + ·) := by
  induction count generalizing start with
  | zero => rfl
  | succ count ih =>
      have hhead := h start (Nat.le_refl start) (by omega)
      have htail : firstFrom? q (offset + (start + 1)) count
          = (firstFrom? p (start + 1) count).map (offset + ·) :=
        ih fun i hlo hhi => h i (by omega) (by omega)
      rw [firstFrom?, firstFrom?, hhead, Nat.add_assoc, htail]
      split <;> rfl

/-- The same for a search downwards. -/
theorem lastFrom?_add {p q : Nat → Bool} {offset start count : Nat}
    (h : ∀ i, start ≤ i → i < start + count → q (offset + i) = p i) :
    lastFrom? q (offset + start) count = (lastFrom? p start count).map (offset + ·) := by
  induction count with
  | zero => rfl
  | succ count ih =>
      have hhead := h (start + count) (by omega) (by omega)
      have htail := ih fun i hlo hhi => h i hlo (by omega)
      rw [lastFrom?, lastFrom?, Nat.add_assoc, hhead, htail]
      split <;> rfl

/-! ## §3. Windows. -/

/-- The tokens of `e` stand in `s` from `offset` on, `lines` lines further down, and the token in
front of them is on another line. -/
structure Window (e s : Script) (offset lines : Nat) : Prop where
  within : offset + e.size ≤ s.size
  token : ∀ {i : Nat}, i < e.size → s.tokenAt (offset + i) = (e.tokenAt i).shift offset lines
  apart : ∀ {m i : Nat}, m + 1 = offset → i < e.size → s.lineAt m ≠ s.lineAt (offset + i)

namespace Window

variable {e s : Script} {offset lines i : Nat}

/-- Kinds are those of the window, -/
theorem kindAt (hw : Window e s offset lines) (hi : i < e.size) :
    s.kindAt (offset + i) = e.kindAt i := by
  unfold Script.kindAt
  rw [hw.token hi, Token.kind_shift]

/-- lines are counted on, -/
theorem lineAt (hw : Window e s offset lines) (hi : i < e.size) :
    s.lineAt (offset + i) = e.lineAt i + lines := by
  unfold Script.lineAt
  rw [hw.token hi, Token.line_shift]

/-- also those on which tokens end, -/
theorem endLineAt (hw : Window e s offset lines) (hi : i < e.size) :
    s.endLineAt (offset + i) = e.endLineAt i + lines := by
  unfold Script.endLineAt
  rw [hw.token hi, Token.endLine_shift]

/-- and columns stay. -/
theorem columnAt (hw : Window e s offset lines) (hi : i < e.size) :
    s.columnAt (offset + i) = e.columnAt i := by
  unfold Script.columnAt
  rw [hw.token hi, Token.column_shift]

/-- The tokens of the window, moved to where it stands. -/
theorem get? (hw : Window e s offset lines) (hi : i < e.size) :
    s.get? (offset + i) = (e.get? i).map (Token.shift offset lines) := by
  have hsize : offset + i < s.size := Nat.lt_of_lt_of_le (Nat.add_lt_add_left hi offset) hw.within
  rw [Script.get?_of_lt hsize, Script.get?_of_lt hi, hw.token hi]
  rfl

/-- **The next token of some kind.** -/
theorem next?_window (hw : Window e s offset lines) (p : TokenKind → Bool) (start : Nat)
    {stop : Nat} (hstop : stop ≤ e.size) :
    s.next? p (offset + start) (offset + stop) = (e.next? p start stop).map (offset + ·) := by
  have hwithin := hw.within
  unfold Script.next? firstIn?
  rw [Nat.min_eq_left (by omega), Nat.min_eq_left hstop, Nat.add_sub_add_left]
  refine firstFrom?_add fun i hlo hhi => ?_
  rw [hw.kindAt (by omega)]

/-- A search that ends inside the window. -/
theorem next?_of_some (hw : Window e s offset lines) {p : TokenKind → Bool} {start x : Nat}
    (h : e.next? p start e.size = some x) :
    s.next? p (offset + start) s.size = some (offset + x) := by
  have hwithin := hw.within
  obtain ⟨hlo, _, hx, hp, hleast⟩ := Script.next?_eq_some_iff.mp h
  refine Script.next?_eq_some_iff.mpr ⟨by omega, by omega, by omega, by rwa [hw.kindAt hx],
    fun k hk hkx => ?_⟩
  obtain ⟨j, rfl⟩ := Nat.exists_eq_add_of_le (show offset ≤ k by omega)
  rw [hw.kindAt (by omega)]
  exact hleast j (by omega) (by omega)

/-- **The last token of some kind.** -/
theorem previous?_window (hw : Window e s offset lines) (p : TokenKind → Bool) {start : Nat}
    (hstart : start < e.size) (stop : Nat) :
    s.previous? p (offset + start) (offset + stop)
      = (e.previous? p start stop).map (offset + ·) := by
  have hwithin := hw.within
  unfold Script.previous? lastIn?
  rw [Nat.min_eq_left (by omega), Nat.min_eq_left (by omega), Nat.add_assoc,
    Nat.add_sub_add_left]
  refine lastFrom?_add fun i hlo hhi => ?_
  rw [hw.kindAt (by omega)]

/-- The row of tokens on the line of a token of the window starts inside the window. -/
theorem rowStart_window (hw : Window e s offset lines) {j : Nat} (hj : j < e.size)
    (hi : i ≤ e.size) :
    s.rowStart (e.lineAt j + lines) (offset + i) = offset + e.rowStart (e.lineAt j) i := by
  induction i with
  | zero =>
      cases offset with
      | zero => rfl
      | succ m =>
          -- the token in front of the window is on another line
          have hapart := hw.apart rfl hj
          rw [hw.lineAt hj] at hapart
          show s.rowStart _ (m + 1) = m + 1 + 0
          rw [Script.rowStart, if_neg hapart]
  | succ i ih =>
      rw [← Nat.add_assoc, Script.rowStart, Script.rowStart, hw.lineAt hi]
      by_cases hline : e.lineAt i = e.lineAt j
      · rw [if_pos (congrArg (· + lines) hline), if_pos hline, ih (Nat.le_of_succ_le hi)]
      · rw [if_neg fun heq => hline (Nat.add_right_cancel heq), if_neg hline, Nat.add_assoc]

/-- **Where the line of a token starts.** -/
theorem lineStart?_window (hw : Window e s offset lines) (hi : i < e.size) :
    s.lineStart? (offset + i) = (e.lineStart? i).map (offset + ·) := by
  have hsize : offset + i < s.size := Nat.lt_of_lt_of_le (Nat.add_lt_add_left hi offset) hw.within
  unfold Script.lineStart?
  rw [if_pos hsize, if_pos hi, hw.lineAt hi, hw.rowStart_window hi (Nat.le_of_lt hi), Nat.add_assoc]
  exact hw.next?_window _ _ hi

end Window

end SwitchLayout
