/-
  SwitchLayout.Proofs.LineStarts
  ──────────────────────────────
  **What starts a line.**

  To find the start of a line, `lineStart?` goes back from a token as long as the tokens stand on
  its line, and then forward to the first that is no whitespace.  In a script that was read from a
  text this is the start of the line indeed, because no token stands above the one in front of it:

    • `lineAt_le` — lines go forward, whatever breaks the literals hold,
    • `rowStart_le_iff_lineAt` — so the row of a token reaches back to all that stands on its line,
    • `lineStart?_read` — the first token other than whitespace on the line.
-/
import Mathlib.Order.Bounds.Defs
import SwitchLayout.Proofs.Branches
import SwitchLayout.Proofs.Gaps

namespace SwitchLayout

namespace Script

variable {tabWidth : Nat} {text : String} {s : Script} {i : Nat}

/-! ## §1. Rows. -/

/-- Lines go forward. -/
theorem lineAt_le (h : read tabWidth text = .ok s) {i j : Nat} (hij : i ≤ j) (hj : j < s.size) :
    s.lineAt i ≤ s.lineAt j := by
  induction j with
  | zero =>
      obtain rfl : i = 0 := by omega
      exact Nat.le_refl _
  | succ j ih =>
      rcases Nat.eq_or_lt_of_le hij with rfl | hlt
      · exact Nat.le_refl _
      · have hstep : s.lineAt (j + 1) = s.lineAt j + lineBreaks (s.tokenAt j).chars :=
          line_next h (get?_of_lt (by omega)) (get?_of_lt hj)
        have hback := ih (by omega) (by omega)
        omega

/-- The row of a line reaches back as far as all tokens stand on it. -/
theorem rowStart_le_iff {line i j : Nat} (hji : j ≤ i) :
    s.rowStart line i ≤ j ↔ ∀ m, j ≤ m → m < i → s.lineAt m = line := by
  induction i with
  | zero =>
      rw [rowStart]
      exact ⟨fun _ m _ hm => absurd hm (Nat.not_lt_zero m), fun _ => Nat.zero_le j⟩
  | succ i ih =>
      rw [rowStart]
      rcases Nat.eq_or_lt_of_le hji with rfl | hlt
      · constructor
        · intro _ m hlo hhi
          omega
        · intro _
          split
          · exact Nat.le_succ_of_le (rowStart_le s line i)
          · exact Nat.le_refl _
      · have hrest := ih (by omega)
        split
        · rename_i hline
          rw [hrest]
          constructor
          · intro hall m hlo hhi
            rcases Nat.eq_or_lt_of_le (Nat.le_of_lt_succ hhi) with rfl | hless
            · exact hline
            · exact hall m hlo hless
          · intro hall m hlo hhi
            exact hall m hlo (by omega)
        · rename_i hline
          constructor
          · intro hle
            omega
          · intro hall
            exact absurd (hall i (by omega) (Nat.lt_succ_self i)) hline

/-- In a script that was read, the row of a token reaches back to all that stands on its line. -/
theorem rowStart_le_iff_lineAt (h : read tabWidth text = .ok s) (hi : i < s.size) {j : Nat}
    (hji : j ≤ i) : s.rowStart (s.lineAt i) i ≤ j ↔ s.lineAt j = s.lineAt i := by
  rw [rowStart_le_iff hji]
  constructor
  · intro hall
    rcases Nat.eq_or_lt_of_le hji with rfl | hlt
    · rfl
    · exact hall j (Nat.le_refl j) hlt
  · -- lines go forward, so nothing between two tokens of a line stands on another
    intro hline m hlo hhi
    have hless := lineAt_le h hlo (Nat.lt_trans hhi hi)
    have hmore := lineAt_le h (Nat.le_of_lt hhi) hi
    omega

/-! ## §2. The start of a line. -/

/-- The script has a token at `j` that starts on the line and is no whitespace. -/
def ContentOn (s : Script) (line j : Nat) : Prop :=
  j < s.size ∧ s.lineAt j = line ∧ s.kindAt j ≠ .whitespace

/-- The search finds the first content of the line, as far as the token asked about. -/
theorem lineStart?_eq_some_iff_isLeast (h : read tabWidth text = .ok s) (hi : i < s.size)
    {j : Nat} :
    s.lineStart? i = some j ↔ IsLeast {k | k ≤ i ∧ s.ContentOn (s.lineAt i) k} j := by
  unfold lineStart?
  rw [if_pos hi, next?_eq_some_iff]
  constructor
  · rintro ⟨hlo, hji, hsize, hcode, hfirst⟩
    have hle := Nat.le_of_lt_succ hji
    refine ⟨⟨hle, hsize, (rowStart_le_iff_lineAt h hi hle).mp hlo, by simpa using hcode⟩, ?_⟩
    rintro k ⟨hki, _, hline, hcontent⟩
    by_contra hlt
    have hspace := hfirst k ((rowStart_le_iff_lineAt h hi hki).mpr hline) (Nat.lt_of_not_le hlt)
    exact hcontent (by simpa using hspace)
  · rintro ⟨⟨hle, hsize, hline, hcode⟩, hleast⟩
    refine ⟨(rowStart_le_iff_lineAt h hi hle).mpr hline, Nat.lt_succ_of_le hle, hsize,
      decide_eq_true hcode, fun k hlo hkj => ?_⟩
    by_contra hcontent
    have hki : k ≤ i := Nat.le_trans (Nat.le_of_lt hkj) hle
    have hjk : j ≤ k := hleast ⟨hki, Nat.lt_trans hkj hsize,
      (rowStart_le_iff_lineAt h hi hki).mp hlo, by simpa using hcontent⟩
    omega

/-- The search finds nothing exactly if the line has no content as far as the token asked about. -/
theorem lineStart?_eq_none_iff (h : read tabWidth text = .ok s) (hi : i < s.size) :
    s.lineStart? i = none ↔ ∀ k ≤ i, ¬ s.ContentOn (s.lineAt i) k := by
  unfold lineStart? next?
  rw [if_pos hi, firstIn?_eq_none_iff, Nat.min_eq_left hi]
  constructor
  · rintro hspace k hki ⟨_, hline, hcode⟩
    have hkind := hspace k ((rowStart_le_iff_lineAt h hi hki).mpr hline) (Nat.lt_succ_of_le hki)
    exact hcode (by simpa using hkind)
  · intro hnone k hlo hki
    have hle := Nat.le_of_lt_succ hki
    by_contra hcode
    exact hnone k hle ⟨Nat.lt_of_le_of_lt hle hi, (rowStart_le_iff_lineAt h hi hle).mp hlo,
      by simpa using hcode⟩

/-- **What starts a line**, in a script that was read from a text.  From a token the search finds
the first one of the whole script that starts on its line, is no whitespace and does not stand
behind it; it finds nothing exactly if there is none.  From a token that is no whitespace itself it
finds the first one that starts on the line and is no whitespace. -/
theorem lineStart?_read (h : read tabWidth text = .ok s) (hi : i < s.size) :
    (∀ j, s.lineStart? i = some j ↔ IsLeast {k | k ≤ i ∧ s.ContentOn (s.lineAt i) k} j)
      ∧ (s.lineStart? i = none ↔ ∀ k ≤ i, ¬ s.ContentOn (s.lineAt i) k)
      ∧ (s.kindAt i ≠ .whitespace →
          ∃ j, s.lineStart? i = some j ∧ IsLeast {k | s.ContentOn (s.lineAt i) k} j) := by
  refine ⟨fun j => lineStart?_eq_some_iff_isLeast h hi, lineStart?_eq_none_iff h hi,
    fun hcode => ?_⟩
  have hself : s.ContentOn (s.lineAt i) i := ⟨hi, rfl, hcode⟩
  obtain ⟨j, hj⟩ : ∃ j, s.lineStart? i = some j := by
    rw [← Option.ne_none_iff_exists', Ne, lineStart?_eq_none_iff h hi]
    exact fun hnone => hnone i (Nat.le_refl i) hself
  obtain ⟨⟨hji, hcontent⟩, hleast⟩ := (lineStart?_eq_some_iff_isLeast h hi).mp hj
  refine ⟨j, hj, hcontent, fun k hk => ?_⟩
  -- what stands behind the token is no earlier than what was found up to it
  rcases Nat.le_total k i with hki | hik
  · exact hleast ⟨hki, hk⟩
  · exact Nat.le_trans hji hik

/-- A string goes over a line feed and a bare carriage return.  The word behind it starts the line
on which the string ends, and the blank in front of the word has nothing to start with. -/
theorem lineStart?_read_string :
    let text := "a\r\n\t'x\ny\rz' b;\n"
    let s := Script.ofText 4 text
    (read 4 text = .ok s ∧ 4 < s.size ∧ 6 < s.size ∧ s.lineAt 4 = 4 ∧ s.lineAt 6 = 4)
      ∧ (s.lineStart? 6 = some 5 ∧ IsLeast {k | s.ContentOn 4 k} 5)
      ∧ ∀ k ≤ 4, ¬ s.ContentOn 4 k := by
  intro text s
  have hread : read 4 text = .ok s := read_ofText (by decide +kernel)
  obtain ⟨hblank, hmark, hblankLine, hmarkLine, hfound, hnone, hcode⟩ :
      4 < s.size ∧ 6 < s.size ∧ s.lineAt 4 = 4 ∧ s.lineAt 6 = 4 ∧ s.lineStart? 6 = some 5
        ∧ s.lineStart? 4 = none ∧ s.kindAt 6 ≠ .whitespace := by
    decide +kernel
  obtain ⟨j, hj, hleast⟩ := (lineStart?_read hread hmark).2.2 hcode
  obtain rfl : 5 = j := Option.some.inj (hfound.symm.trans hj)
  rw [hmarkLine] at hleast
  have hspace := (lineStart?_read hread hblank).2.1.mp hnone
  rw [hblankLine] at hspace
  exact ⟨⟨hread, hblank, hmark, hblankLine, hmarkLine⟩, ⟨hfound, hleast⟩, hspace⟩

end Script

end SwitchLayout
