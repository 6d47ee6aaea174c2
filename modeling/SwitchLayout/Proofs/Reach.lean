/-
  SwitchLayout.Proofs.Reach
  ─────────────────────────
  **How far the edits of a repair reach.**

  An edit of the layout shifts what stands behind it on its line, and it may take a line break away.
  All else stays in its column, and as many lines below the code in front of it as before.

    • `EditReaches`, `TakesBreak` — what one round reaches, and where it takes a line break away,
    • `Round.columnAt_eq`, `Round.breaksBehind_eq` — what it leaves alone,
    • `Undisturbed`, `Undisturbed.step` — the same for any number of rounds, and for one more,
    • `Reached`, `Taken` — what the rounds of a repair reach and take,
    • `repair_undisturbed` — what a repair that keeps the program leaves alone.
-/
import SwitchLayout.Proofs.Columns
import SwitchLayout.Proofs.Stability

namespace SwitchLayout

open Text

namespace Script

/-! ## §1. One round. -/

/-- The token behind the layout that the token at `i` starts with.  Code starts with none. -/
def behindLayout (s : Script) (i : Nat) : Nat := if s.kindAt i = .whitespace then i + 1 else i

/-- **An edit reaches the token at `q`**: the token stands behind an edit of the layout, on one line
with what follows the edit. -/
def EditReaches (s : Script) (settings : Settings) (q : Nat) : Prop :=
  ∃ i < s.size, s.EditsLayout settings i ∧ s.behindLayout i ≤ q
    ∧ s.lineAt (s.behindLayout i) = s.lineAt q

/-- An edit takes a line break from between the code number `k` and the next. -/
def TakesBreak (s : Script) (settings : Settings) (k : Nat) : Prop :=
  ∃ i < s.place (k + 1), s.place k < i ∧ s.EditsLayout settings i
    ∧ 0 < lineBreaks (s.tokenAt i).chars

instance (s : Script) (settings : Settings) (i : Nat) : Decidable (s.EditsLayout settings i) :=
  inferInstanceAs (Decidable (_ ≠ _))

instance (s : Script) (settings : Settings) (q : Nat) : Decidable (s.EditReaches settings q) :=
  inferInstanceAs (Decidable (∃ i < _, _))

instance (s : Script) (settings : Settings) (k : Nat) : Decidable (s.TakesBreak settings k) :=
  inferInstanceAs (Decidable (∃ i < _, _))

section Reach

variable {settings : Settings} {text : String} {s s₁ : Script} {k : Nat}

theorem behindLayout_code {i : Nat} (h : s.kindAt i ≠ .whitespace) : s.behindLayout i = i :=
  if_neg h

theorem behindLayout_whitespace {i : Nat} (h : s.kindAt i = .whitespace) :
    s.behindLayout i = i + 1 :=
  if_pos h

/-- Without an edit nothing is reached. -/
theorem not_editsLayout_of_applied_eq_zero
    (hnone : (s.applyFixes (s.flaws settings)).applied = 0) (i : Nat) :
    ¬ s.EditsLayout settings i := by
  unfold EditsLayout
  rw [textOf_of_applied_eq_zero hnone]
  exact not_not.mpr rfl

/-- The line of a piece of code, from the whitespace in front of it. -/
theorem lineAt_of_layoutFrom {tabWidth : Nat} (h : read tabWidth text = .ok s) {p q : Nat}
    (hp : 0 < p) (hpq : p ≤ q) (hq : q < s.size)
    (hspace : ∀ i, p ≤ i → i < q → s.kindAt i = .whitespace) (hcode : s.kindAt q ≠ .whitespace) :
    s.lineAt q = s.lineAt p + lineBreaks (s.layoutFrom p) := by
  obtain ⟨i, rfl⟩ : ∃ i, p = i + 1 := ⟨p - 1, by omega⟩
  obtain ⟨member, hread⟩ := lexemes_textFrom h i
  show (s.tokenAt q).location.line = _
  rw [location_leading h hp hpq hq hspace hcode, locationBehind_leadingSpace hread,
    Location.line_after_eq]
  rfl

/-- No edit is made between code that is not reached and the last line break in front of it. -/
theorem edits_of_not_editReaches (h : read settings.tabWidth text = .ok s)
    (hk : k + 1 < s.code.length) (hnot : ¬ s.EditReaches settings (s.place (k + 1))) :
    ¬ s.EditsLayout settings (s.place (k + 1))
      ∧ ∀ j, s.place k < j → j < s.place (k + 1) → s.EditsLayout settings j →
        0 < lineBreaks (s.layoutFrom (j + 1)) := by
  have hsize := place_lt_size hk
  have hspace : ∀ j, s.place k < j → j < s.place (k + 1) → s.kindAt j = .whitespace :=
    fun j hlo hhi => whitespace_between (by omega) hlo hhi
  constructor
  · intro hedit
    have hcode := behindLayout_code (kindAt_place_ne hk)
    exact hnot ⟨_, hsize, hedit, Nat.le_of_eq hcode, by rw [hcode]⟩
  · intro j hlo hhi hedit
    have hbehind := behindLayout_whitespace (hspace j hlo hhi)
    have hline : s.lineAt (s.place (k + 1))
        = s.lineAt (j + 1) + lineBreaks (s.layoutFrom (j + 1)) :=
      lineAt_of_layoutFrom h (Nat.succ_pos j) hhi hsize
        (fun i hji hik => hspace i (by omega) hik) (kindAt_place_ne hk)
    by_contra hnone
    refine hnot ⟨j, by omega, hedit, by omega, ?_⟩
    rw [hbehind]
    omega

/-- What stands on its line in front of code that is not reached is not reached. -/
theorem not_editReaches_front {p q : Nat} (hpq : p ≤ q) (hline : s.lineAt p = s.lineAt q)
    (hnot : ¬ s.EditReaches settings q) : ¬ s.EditReaches settings p := by
  intro hreach
  obtain ⟨i, hi, hedit, hle, hsame⟩ := hreach
  exact hnot ⟨i, hi, hedit, Nat.le_trans hle hpq, hsame.trans hline⟩

namespace Round

/-- **Code that a round does not reach keeps its column**, by induction over the code in front of
it. -/
theorem columnAt_eq (hr : Round settings s s₁) (hk : k < s.code.length)
    (hnot : ¬ s.EditReaches settings (s.place k)) :
    s₁.columnAt (s₁.place k) = s.columnAt (s.place k) := by
  induction k with
  | zero =>
      have hcode₁ : 0 < s₁.code.length := by
        rw [hr.calmed.length_code]
        exact hk
      exact congrArg Location.column (location_place_zero_repaired hr.before hr.behind hk hcode₁)
  | succ k ih =>
      obtain ⟨hstay, hbreak⟩ := edits_of_not_editReaches hr.before hk hnot
      refine hr.columnAt_succ hk hstay hbreak fun hline => ih (by omega) ?_
      exact not_editReaches_front (Nat.le_of_lt (s.place_lt (Nat.lt_succ_self k))) hline hnot

/-- Line breaks stay where a round takes none away. -/
theorem breaksBehind_eq (hr : Round settings s s₁) (hk : k + 1 < s.code.length)
    (hnot : ¬ s.TakesBreak settings k) : s₁.breaksBehind k = s.breaksBehind k := by
  apply breaksBehind_repaired_eq hr.before hr.free hr.behind hk
  intro j hlo hhi hedit
  by_contra hbreak
  exact hnot ⟨j, hhi, hlo, hedit, Nat.pos_of_ne_zero hbreak⟩

end Round

end Reach

/-! ## §2. Any number of rounds. -/

/-- The script `s'` is what some rounds have made of `s`.  They have reached no code but what has
its number in `reached`, and have taken no line break away but behind the numbers in `taken`. -/
structure Undisturbed (tabWidth : Nat) (s s' : Script) (reached taken : Nat → Prop) : Prop where
  calmed : Calmed tabWidth s s'
  column : ∀ k < s.code.length, ¬ reached k → s'.columnAt (s'.place k) = s.columnAt (s.place k)
  breaks : ∀ k, k + 1 < s.code.length → ¬ taken k → s'.breaksBehind k = s.breaksBehind k

namespace Undisturbed

variable {settings : Settings} {tabWidth : Nat} {s s₁ s₂ : Script} {reached taken : Nat → Prop}
  {b k : Nat}

theorem refl (h : read tabWidth s.source = .ok s) : Undisturbed tabWidth s s reached taken where
  calmed := .refl h
  column _ _ _ := rfl
  breaks _ _ _ := rfl

/-- **One more round.** -/
theorem step (hu : Undisturbed settings.tabWidth s s₁ reached taken) (hr : Round settings s₁ s₂)
    (hreach : ∀ k, s₁.EditReaches settings (s₁.place k) → reached k)
    (htake : ∀ k, s₁.TakesBreak settings k → taken k) :
    Undisturbed settings.tabWidth s s₂ reached taken := by
  have hlength := hu.calmed.length_code
  refine ⟨hu.calmed.trans hr.calmed, ?_, ?_⟩
  · intro k hk hnot
    rw [hr.columnAt_eq (by omega) fun h => hnot (hreach k h)]
    exact hu.column k hk hnot
  · intro k hk hnot
    rw [hr.breaksBehind_eq (by omega) fun h => hnot (htake k h)]
    exact hu.breaks k hk hnot

end Undisturbed

end Script

/-! ## §3. The rounds of a repair. -/

section Repairs

variable {settings : Settings} {text : String} {s : Script} {k : Nat}

/-- The next round on this text reaches the code number `k`. -/
def RoundReaches (settings : Settings) (text : String) (k : Nat) : Prop :=
  match Script.read settings.tabWidth text with
  | .ok s => s.EditReaches settings (s.place k)
  | .error _ => False

/-- The next round on this text takes a line break away behind the code number `k`. -/
def RoundTakes (settings : Settings) (text : String) (k : Nat) : Prop :=
  match Script.read settings.tabWidth text with
  | .ok s => s.TakesBreak settings k
  | .error _ => False

/-- Some round of the repair of this text reaches the code number `k`. -/
def Reached (settings : Settings) (text : String) (k : Nat) : Prop :=
  ∃ pass < maxPasses, RoundReaches settings (sourceAfter settings pass text) k

/-- Some round of the repair of this text takes a line break away behind the code number `k`. -/
def Taken (settings : Settings) (text : String) (k : Nat) : Prop :=
  ∃ pass < maxPasses, RoundTakes settings (sourceAfter settings pass text) k

theorem roundReaches_of_read (h : Script.read settings.tabWidth text = .ok s) :
    RoundReaches settings text k ↔ s.EditReaches settings (s.place k) := by
  rw [RoundReaches, h]

theorem roundTakes_of_read (h : Script.read settings.tabWidth text = .ok s) :
    RoundTakes settings text k ↔ s.TakesBreak settings k := by
  rw [RoundTakes, h]

/-- A repair that makes no edit reaches nothing and takes nothing away. -/
theorem not_reached_of_applied_eq_zero (h : Script.read settings.tabWidth text = .ok s)
    (hnone : (s.applyFixes (s.flaws settings)).applied = 0) :
    (∀ k, ¬ Reached settings text k) ∧ ∀ k, ¬ Taken settings text k := by
  have hstays : ∀ pass, sourceAfter settings pass text = text :=
    fun pass => sourceAfter_of_applied_eq_zero h hnone pass
  constructor
  · intro k hreached
    obtain ⟨pass, _, hround⟩ := hreached
    rw [hstays, roundReaches_of_read h] at hround
    obtain ⟨i, _, hedit, _⟩ := hround
    exact Script.not_editsLayout_of_applied_eq_zero hnone i hedit
  · intro k htaken
    obtain ⟨pass, _, hround⟩ := htaken
    rw [hstays, roundTakes_of_read h] at hround
    obtain ⟨i, _, _, hedit, _⟩ := hround
    exact Script.not_editsLayout_of_applied_eq_zero hnone i hedit

/-- Where nothing is left to edit behind the first round, the repair reaches and takes what that
round does. -/
theorem reached_of_one_round {s' : Script} (h : Script.read settings.tabWidth text = .ok s)
    (h' : Script.read settings.tabWidth (s.repaired settings) = .ok s')
    (hnone : (s'.applyFixes (s'.flaws settings)).applied = 0) :
    (∀ k, Reached settings text k → s.EditReaches settings (s.place k))
      ∧ ∀ k, Taken settings text k → s.TakesBreak settings k := by
  obtain ⟨hreached, htaken⟩ := not_reached_of_applied_eq_zero h' hnone
  constructor
  · intro k hk
    obtain ⟨pass, hpass, hround⟩ := hk
    cases pass with
    | zero => exact (roundReaches_of_read h).mp hround
    | succ pass =>
        rw [sourceAfter, roundSource_of_read h] at hround
        exact absurd ⟨pass, by omega, hround⟩ (hreached k)
  · intro k hk
    obtain ⟨pass, hpass, hround⟩ := hk
    cases pass with
    | zero => exact (roundTakes_of_read h).mp hround
    | succ pass =>
        rw [sourceAfter, roundSource_of_read h] at hround
        exact absurd ⟨pass, by omega, hround⟩ (htaken k)

/-- **All rounds**, by induction over those that are left, behind some that were made. -/
theorem repairWithin_undisturbed {s' : Script} {reached taken : Nat → Prop}
    (hindent : 1 ≤ settings.indent) (passes : Nat) :
    ∀ {text : String} {s₁ : Script} {r : Report}, Script.read settings.tabWidth text = .ok s₁ →
      (∀ pass < passes, ¬ RoundGlues settings (sourceAfter settings pass text)
        ∧ ∀ k, (RoundReaches settings (sourceAfter settings pass text) k → reached k)
          ∧ (RoundTakes settings (sourceAfter settings pass text) k → taken k)) →
      Script.Undisturbed settings.tabWidth s s₁ reached taken →
      repairWithin settings passes text = .ok r →
      Script.read settings.tabWidth r.source = .ok s' →
      Script.Undisturbed settings.tabWidth s s' reached taken := by
  induction passes with
  | zero =>
      intro text s₁ r h _ hu hrepair h'
      rw [repairWithin_zero hindent h] at hrepair
      obtain rfl := Except.ok.inj hrepair
      obtain rfl : s₁ = s' := Except.ok.inj (h.symm.trans h')
      exact hu
  | succ passes ih =>
      intro text s₁ r h hrounds hu hrepair h'
      rw [repairWithin_succ hindent h] at hrepair
      split at hrepair
      · obtain rfl := Except.ok.inj hrepair
        obtain rfl : s₁ = s' := Except.ok.inj (h.symm.trans h')
        exact hu
      · -- one round, and the rounds behind it
        obtain ⟨hfree, hreach⟩ := hrounds 0 (Nat.succ_pos passes)
        rw [sourceAfter, roundGlues_of_read h] at hfree
        obtain ⟨s₂, h₂, _⟩ := Script.code_repaired h hfree
        have hround : Script.Round settings s₁ s₂ := ⟨hu.calmed.behind, hfree, h₂⟩
        have hu₂ : Script.Undisturbed settings.tabWidth s s₂ reached taken := by
          apply hu.step hround
          · exact fun k hk => (hreach k).1 ((roundReaches_of_read h).mpr hk)
          · exact fun k hk => (hreach k).2 ((roundTakes_of_read h).mpr hk)
        cases hrest : repairWithin settings passes (s₁.repaired settings) with
        | error e =>
            rw [hrest] at hrepair
            cases hrepair
        | ok rest =>
            rw [hrest] at hrepair
            rw [← Except.ok.inj hrepair] at h'
            refine ih h₂ (fun pass hpass => ?_) hu₂ hrest h'
            have hnext := hrounds (pass + 1) (Nat.succ_lt_succ hpass)
            rwa [sourceAfter, roundSource_of_read h] at hnext

/-- **A repair that keeps the program** leaves alone what its rounds do not reach. -/
theorem repair_undisturbed {s' : Script} {r : Report} (hrepair : repair text settings = .ok r)
    (h : Script.read settings.tabWidth text = .ok s)
    (h' : Script.read settings.tabWidth r.source = .ok s') (hsame : s.SameProgram s') :
    Script.Undisturbed settings.tabWidth s s' (Reached settings text) (Taken settings text) := by
  obtain ⟨hindent, _⟩ := read_of_repairWithin hrepair
  have hread : Script.read settings.tabWidth s.source = .ok s := by
    rw [Script.source_read h]
    exact h
  refine repairWithin_undisturbed hindent maxPasses h (fun pass hpass => ⟨fun hglues => ?_,
    fun k => ⟨fun hround => ⟨pass, hpass, hround⟩, fun hround => ⟨pass, hpass, hround⟩⟩⟩)
    (.refl hread) hrepair h'
  -- a round that glues would have made the code longer
  have hlt := (repairWithin_lengths hindent maxPasses h hrepair h').2 pass hpass hglues
  rw [hsame.codeLengths_eq] at hlt
  exact List.lt_irrefl _ hlt

end Repairs

end SwitchLayout
