/-
  SwitchLayout.Search
  ───────────────────
  Searching a stretch of positions upwards for the least one that satisfies a test, or
  downwards for the greatest.

  Main statements: `firstIn?_eq_some_iff`, `lastIn?_eq_some_iff` and their `none` forms, which
  say what is found without a word on how.
-/

namespace SwitchLayout

/-! ## §1. Upwards. -/

/-- The least position that satisfies `p` among the `count` positions from `start` on. -/
def firstFrom? (p : Nat → Bool) (start : Nat) : Nat → Option Nat
  | 0 => none
  | count + 1 => if p start then some start else firstFrom? p (start + 1) count

/-- The least position `i` with `start ≤ i < stop` that satisfies `p`. -/
def firstIn? (p : Nat → Bool) (start stop : Nat) : Option Nat :=
  firstFrom? p start (stop - start)

theorem firstFrom?_eq_none_iff (p : Nat → Bool) (start count : Nat) :
    firstFrom? p start count = none ↔ ∀ i, start ≤ i → i < start + count → p i = false := by
  induction count generalizing start with
  | zero =>
      simp only [firstFrom?, true_iff]
      intro i _ _
      omega
  | succ count ih =>
      rw [firstFrom?]
      split
      · rename_i hp
        simp only [reduceCtorEq, false_iff]
        intro h
        rw [h start (Nat.le_refl start) (by omega)] at hp
        cases hp
      · rename_i hp
        rw [ih]
        constructor
        · intro h i hlo hhi
          rcases Nat.eq_or_lt_of_le hlo with heq | hlt
          · simpa [← heq] using hp
          · exact h i hlt (by omega)
        · intro h i hlo hhi
          exact h i (by omega) (by omega)

theorem firstFrom?_eq_some_iff (p : Nat → Bool) (start count i : Nat) :
    firstFrom? p start count = some i ↔
      start ≤ i ∧ i < start + count ∧ p i = true ∧ ∀ j, start ≤ j → j < i → p j = false := by
  induction count generalizing start with
  | zero =>
      simp only [firstFrom?, reduceCtorEq, false_iff]
      rintro ⟨_, _, _⟩
      omega
  | succ count ih =>
      rw [firstFrom?]
      split
      · rename_i hp
        constructor
        · intro h
          cases h
          exact ⟨Nat.le_refl _, by omega, hp, fun j _ _ => by omega⟩
        · rintro ⟨hlo, _, _, hleast⟩
          rcases Nat.eq_or_lt_of_le hlo with heq | hlt
          · exact congrArg some heq
          · rw [hleast start (Nat.le_refl start) hlt] at hp
            cases hp
      · rename_i hp
        rw [ih]
        constructor
        · rintro ⟨hlo, hhi, hi, hleast⟩
          refine ⟨by omega, by omega, hi, fun j hj hji => ?_⟩
          rcases Nat.eq_or_lt_of_le hj with heq | hlt
          · simpa [← heq] using hp
          · exact hleast j hlt hji
        · rintro ⟨hlo, hhi, hi, hleast⟩
          have hne : start ≠ i := by
            rintro rfl
            exact hp hi
          exact ⟨by omega, by omega, hi, fun j hj hji => hleast j (by omega) hji⟩

/-- Nothing is found exactly when every position of the stretch fails the test. -/
theorem firstIn?_eq_none_iff (p : Nat → Bool) (start stop : Nat) :
    firstIn? p start stop = none ↔ ∀ i, start ≤ i → i < stop → p i = false := by
  rw [firstIn?, firstFrom?_eq_none_iff]
  constructor
  · intro h i hlo hhi
    exact h i hlo (by omega)
  · intro h i hlo hhi
    exact h i hlo (by omega)

/-- The position found is the least one of the stretch that passes the test. -/
theorem firstIn?_eq_some_iff (p : Nat → Bool) (start stop i : Nat) :
    firstIn? p start stop = some i ↔
      start ≤ i ∧ i < stop ∧ p i = true ∧ ∀ j, start ≤ j → j < i → p j = false := by
  rw [firstIn?, firstFrom?_eq_some_iff]
  constructor
  · rintro ⟨hlo, hhi, hi⟩
    exact ⟨hlo, by omega, hi⟩
  · rintro ⟨hlo, hhi, hi⟩
    exact ⟨hlo, by omega, hi⟩

/-! ## §2. Downwards. -/

/-- The greatest position that satisfies `p` among the `count` positions from `start` on. -/
def lastFrom? (p : Nat → Bool) (start : Nat) : Nat → Option Nat
  | 0 => none
  | count + 1 => if p (start + count) then some (start + count) else lastFrom? p start count

/-- The greatest position `i` with `start ≤ i < stop` that satisfies `p`. -/
def lastIn? (p : Nat → Bool) (start stop : Nat) : Option Nat :=
  lastFrom? p start (stop - start)

theorem lastFrom?_eq_none_iff (p : Nat → Bool) (start count : Nat) :
    lastFrom? p start count = none ↔ ∀ i, start ≤ i → i < start + count → p i = false := by
  induction count with
  | zero =>
      simp only [lastFrom?, true_iff]
      intro i _ _
      omega
  | succ count ih =>
      rw [lastFrom?]
      split
      · rename_i hp
        simp only [reduceCtorEq, false_iff]
        intro h
        rw [h (start + count) (by omega) (by omega)] at hp
        cases hp
      · rename_i hp
        rw [ih]
        constructor
        · intro h i hlo hhi
          rcases Nat.lt_or_ge i (start + count) with hlt | hge
          · exact h i hlo hlt
          · obtain rfl : i = start + count := by omega
            simpa using hp
        · intro h i hlo hhi
          exact h i hlo (by omega)

theorem lastFrom?_eq_some_iff (p : Nat → Bool) (start count i : Nat) :
    lastFrom? p start count = some i ↔
      start ≤ i ∧ i < start + count ∧ p i = true ∧
        ∀ j, i < j → j < start + count → p j = false := by
  induction count with
  | zero =>
      simp only [lastFrom?, reduceCtorEq, false_iff]
      rintro ⟨_, _, _⟩
      omega
  | succ count ih =>
      rw [lastFrom?]
      split
      · rename_i hp
        constructor
        · intro h
          cases h
          exact ⟨by omega, by omega, hp, fun j _ _ => by omega⟩
        · rintro ⟨_, hhi, _, hgreatest⟩
          rcases Nat.lt_or_ge i (start + count) with hlt | hge
          · rw [hgreatest (start + count) hlt (by omega)] at hp
            cases hp
          · exact congrArg some (by omega)
      · rename_i hp
        rw [ih]
        constructor
        · rintro ⟨hlo, hhi, hi, hgreatest⟩
          refine ⟨hlo, by omega, hi, fun j hij hj => ?_⟩
          rcases Nat.lt_or_ge j (start + count) with hlt | hge
          · exact hgreatest j hij hlt
          · obtain rfl : j = start + count := by omega
            simpa using hp
        · rintro ⟨hlo, hhi, hi, hgreatest⟩
          have hne : i ≠ start + count := by
            rintro rfl
            exact hp hi
          exact ⟨hlo, by omega, hi, fun j hij hj => hgreatest j hij (by omega)⟩

/-- Nothing is found exactly when every position of the stretch fails the test. -/
theorem lastIn?_eq_none_iff (p : Nat → Bool) (start stop : Nat) :
    lastIn? p start stop = none ↔ ∀ i, start ≤ i → i < stop → p i = false := by
  rw [lastIn?, lastFrom?_eq_none_iff]
  constructor
  · intro h i hlo hhi
    exact h i hlo (by omega)
  · intro h i hlo hhi
    exact h i hlo (by omega)

/-- The position found is the greatest one of the stretch that passes the test. -/
theorem lastIn?_eq_some_iff (p : Nat → Bool) (start stop i : Nat) :
    lastIn? p start stop = some i ↔
      start ≤ i ∧ i < stop ∧ p i = true ∧ ∀ j, i < j → j < stop → p j = false := by
  rw [lastIn?, lastFrom?_eq_some_iff]
  constructor
  · rintro ⟨hlo, hhi, hi, hgreatest⟩
    exact ⟨hlo, by omega, hi, fun j hij hj => hgreatest j hij (by omega)⟩
  · rintro ⟨hlo, hhi, hi, hgreatest⟩
    exact ⟨hlo, by omega, hi, fun j hij hj => hgreatest j hij (by omega)⟩

end SwitchLayout
