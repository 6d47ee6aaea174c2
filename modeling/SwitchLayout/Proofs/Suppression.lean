/-
  SwitchLayout.Proofs.Suppression
  ───────────────────────────────
  **Silencing a code only filters.**

  A run looks at its settings in three places: it refuses settings that cannot be used, its rules
  measure by them, and it drops what they silence.  One more silenced code changes the last of the
  three alone:

    • `Rule.Impartial` — a rule reports the same whatever is silenced; both rules of this library
      do,
    • `filter_sortByPosition_comm` — findings may be dropped before they are put in order or
      afterwards,
    • `Ruleset.run_suppress` — so a run of impartial rules has the same fault, or the same
      findings less those of the code.
-/
import SwitchLayout.Ruleset
import Mathlib.Data.List.Basic

namespace SwitchLayout

/-! ## §1. Dropping findings and putting them in order. -/

/-- A finding that is dropped may as well not be placed. -/
theorem filter_placeByPosition_dropped {p : Finding → Bool} {f : Finding} (hf : p f = false)
    (gs : List Finding) : (placeByPosition f gs).filter p = gs.filter p := by
  induction gs with
  | nil => simp [placeByPosition, hf]
  | cons g gs ih =>
      rw [placeByPosition]
      split
      · rw [List.filter_cons, List.filter_cons, ih]
      · rw [List.filter_cons, hf]
        rfl

/-- A finding that is kept finds its place among those that are kept. -/
theorem filter_placeByPosition_kept {p : Finding → Bool} {f : Finding} (hf : p f = true)
    {gs : List Finding} (hsorted : gs.Pairwise fun a b => a.position ≤ b.position) :
    (placeByPosition f gs).filter p = placeByPosition f (gs.filter p) := by
  induction gs with
  | nil => simp [placeByPosition, hf]
  | cons g gs ih =>
      obtain ⟨hhead, htail⟩ := List.pairwise_cons.mp hsorted
      rw [placeByPosition]
      by_cases hlt : g.position < f.position
      · rw [if_pos hlt, List.filter_cons, List.filter_cons, ih htail]
        split
        · rw [placeByPosition, if_pos hlt]
        · rfl
      · rw [if_neg hlt, List.filter_cons, hf, if_pos rfl]
        -- what comes first among the kept ones is no earlier than `g`
        cases hkept : (g :: gs).filter p with
        | nil => rfl
        | cons k ks =>
            have hmem : k ∈ g :: gs := List.mem_of_mem_filter (hkept ▸ List.mem_cons_self)
            have hle : g.position ≤ k.position := by
              rcases List.mem_cons.mp hmem with rfl | hmem
              · exact Nat.le_refl _
              · exact hhead k hmem
            rw [placeByPosition, if_neg (by omega)]

/-- **Dropping and ordering commute.** -/
theorem filter_sortByPosition_comm (p : Finding → Bool) (fs : List Finding) :
    (sortByPosition fs).filter p = sortByPosition (fs.filter p) := by
  induction fs with
  | nil => rfl
  | cons f fs ih =>
      show (placeByPosition f (sortByPosition fs)).filter p = _
      rw [List.filter_cons]
      cases hf : p f with
      | false => rw [filter_placeByPosition_dropped hf, ih, if_neg (by decide)]
      | true =>
          rw [filter_placeByPosition_kept hf (sortByPosition_sorted fs), ih, if_pos rfl]
          rfl

/-! ## §2. What one more silenced code changes. -/

/-- The code of the finding is written `code`, in short or in full. -/
def Finding.isNamed (f : Finding) (code : String) : Bool :=
  code == f.code.name || code == f.fullCode

/-- One more code silences the findings of that name besides. -/
theorem Settings.suppresses_suppress (settings : Settings) (code : String) (f : Finding) :
    (settings.suppress code).suppresses f = (settings.suppresses f || f.isNamed code) := by
  unfold Settings.suppresses Settings.suppress Finding.isNamed
  rw [List.any_append, List.any_cons, List.any_nil, Bool.or_false]

/-- The rule reports the same whatever codes are silenced. -/
def Rule.Impartial (r : Rule) : Prop :=
  ∀ (s : Script) (table : ScopeTable) (settings : Settings) (code : String) (i : Nat),
    r.check s table (settings.suppress code) i = r.check s table settings i

theorem SwitchBody.impartial_rule : SwitchBody.rule.Impartial := by
  intro s table settings code i
  show SwitchBody.check s table (settings.suppress code) i = SwitchBody.check s table settings i
  -- the rule takes nothing but the indentation from its settings
  rfl

theorem ScopeEnd.impartial_rule : ScopeEnd.rule.Impartial := by
  intro s table settings code i
  show ScopeEnd.check s table (settings.suppress code) i = ScopeEnd.check s table settings i
  rfl

theorem Rule.Impartial.findings_eq {r : Rule} (h : r.Impartial) (s : Script)
    (table : ScopeTable) (settings : Settings) (code : String) :
    r.findings s table (settings.suppress code) = r.findings s table settings := by
  unfold Rule.findings
  exact List.flatMap_congr fun i _ => h s table settings code i

/-! ## §3. Runs. -/

/-- **A run of impartial rules.**  With one more code silenced it has the same fault or, without
one, the same findings in the same order, less those of the code. -/
theorem Ruleset.run_suppress {rs : Ruleset} (hrs : ∀ r ∈ rs.rules, r.Impartial) (s : Script)
    (table : ScopeTable) (settings : Settings) (code : String) :
    rs.run s table (settings.suppress code)
      = (rs.run s table settings).map (List.filter (!·.isNamed code)) := by
  have hvalidate : (settings.suppress code).validate = settings.validate := rfl
  have hfindings : rs.findings s table (settings.suppress code) = rs.findings s table settings :=
    List.flatMap_congr fun r hr => (hrs r hr).findings_eq s table settings code
  have hkept : (rs.findings s table settings).filter (!(settings.suppress code).suppresses ·)
      = ((rs.findings s table settings).filter (!settings.suppresses ·)).filter
          (!·.isNamed code) := by
    rw [List.filter_filter]
    refine List.filter_congr fun f _ => ?_
    rw [Settings.suppresses_suppress, Bool.not_or, Bool.and_comm]
  unfold Ruleset.run
  rw [hvalidate, hfindings, hkept, ← filter_sortByPosition_comm]
  cases settings.validate with
  | error e => rfl
  | ok _ =>
      cases table.checkBounds s.size with
      | error e => rfl
      | ok _ => rfl

/-- **Silencing a code only filters.**  Whatever the script, its scope table and the settings: a
check with one more code silenced fails with the fault of the check without it, or it gives the
findings of that check, with those whose short or full name is the code taken out and the others
as they are. -/
theorem Script.check_suppress (s : Script) (table : ScopeTable) (settings : Settings)
    (code : String) :
    s.check table (settings.suppress code)
      = (s.check table settings).map (List.filter (!·.isNamed code)) := by
  have hrules : ∀ r ∈ Ruleset.standard.rules, r.Impartial := by
    intro r hr
    rcases List.mem_cons.mp hr with rfl | hr
    · exact SwitchBody.impartial_rule
    · obtain rfl := List.mem_singleton.mp hr
      exact ScopeEnd.impartial_rule
  exact Ruleset.run_suppress hrules s table settings code

end SwitchLayout
