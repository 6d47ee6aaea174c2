/-
  SwitchLayout.Proofs.Independence
  ────────────────────────────────
  **Rules do not interfere.**

  A rule may report far from the token it was asked about, so the findings of a run arrive out of
  order, and the run sorts those of all rules together.  What a rule reports can be told from the
  outcome all the same:

    • `sublist_sortByPosition` — findings that are left out leave the order of the others alone,
    • `Ruleset.reported_at` — at each position stand the findings of the first rule, then those of
      the second, and so on, each rule as if it were run alone,
    • `Ruleset.run_add` — so one more rule adds its own findings and changes nothing else.
-/
import SwitchLayout.Proofs.Uniqueness

namespace SwitchLayout

/-! ## §1. Findings in order, and fewer of them. -/

/-- Placing a finding keeps what was in order before. -/
theorem sublist_placeByPosition (f : Finding) (gs : List Finding) :
    gs.Sublist (placeByPosition f gs) := by
  induction gs with
  | nil => exact List.nil_sublist _
  | cons g gs ih =>
      rw [placeByPosition]
      split
      · exact ih.cons_cons g
      · exact List.sublist_cons_self f (g :: gs)

/-- A finding that is no later than any other comes first. -/
theorem placeByPosition_of_le {f : Finding} {gs : List Finding}
    (h : ∀ g ∈ gs, f.position ≤ g.position) : placeByPosition f gs = f :: gs := by
  cases gs with
  | nil => rfl
  | cons g gs =>
      have hle := h g List.mem_cons_self
      rw [placeByPosition, if_neg (by omega)]

/-- A finding is placed among fewer findings as it is among all of them. -/
theorem placeByPosition_sublist {f : Finding} {fs gs : List Finding} (h : fs.Sublist gs)
    (hsorted : gs.Pairwise fun a b => a.position ≤ b.position) :
    (placeByPosition f fs).Sublist (placeByPosition f gs) := by
  induction h with
  | slnil => exact List.Sublist.refl _
  | @cons fs gs g h ih =>
      obtain ⟨hhead, htail⟩ := List.pairwise_cons.mp hsorted
      rw [placeByPosition]
      split
      · exact (ih htail).cons g
      · -- nothing of the rest is earlier than `g`, and `g` is no earlier than `f`
        rename_i hge
        have hle : ∀ a ∈ fs, f.position ≤ a.position := by
          intro a ha
          have hga := hhead a (h.subset ha)
          omega
        rw [placeByPosition_of_le hle]
        exact (h.cons g).cons_cons f
  | @cons_cons fs gs g h ih =>
      have htail := (List.pairwise_cons.mp hsorted).2
      rw [placeByPosition, placeByPosition]
      split
      · exact (ih htail).cons_cons g
      · exact (h.cons_cons g).cons_cons f

/-- **Fewer findings come in the same order.** -/
theorem sublist_sortByPosition {fs gs : List Finding} (h : fs.Sublist gs) :
    (sortByPosition fs).Sublist (sortByPosition gs) := by
  induction h with
  | slnil => exact List.Sublist.refl _
  | @cons fs gs g h ih =>
      show (sortByPosition fs).Sublist (placeByPosition g (sortByPosition gs))
      exact ih.trans (sublist_placeByPosition g (sortByPosition gs))
  | @cons_cons fs gs g h ih =>
      show (placeByPosition g (sortByPosition fs)).Sublist (placeByPosition g (sortByPosition gs))
      exact placeByPosition_sublist ih (sortByPosition_sorted gs)

/-! ## §2. The findings of a run. -/

namespace Ruleset

variable {s : Script} {table : ScopeTable} {settings : Settings}

/-- The ruleset of one rule. -/
def only (r : Rule) : Ruleset := ⟨[r]⟩

/-- What the rules report, in order and without the suppressed codes. -/
def reported (rs : Ruleset) (s : Script) (table : ScopeTable) (settings : Settings) :
    List Finding :=
  sortByPosition ((rs.findings s table settings).filter (!settings.suppresses ·))

/-- A run with settings that can be used and a table that fits. -/
theorem run_eq_reported (rs : Ruleset) (hsettings : settings.validate = .ok ())
    (htable : table.checkBounds s.size = .ok ()) :
    rs.run s table settings = .ok (rs.reported s table settings) := by
  unfold run
  rw [hsettings, htable]
  rfl

theorem findings_only (r : Rule) :
    (only r).findings s table settings = r.findings s table settings :=
  List.flatMap_singleton _ _

theorem findings_add (rs : Ruleset) (r : Rule) :
    (rs.add r).findings s table settings
      = rs.findings s table settings ++ (only r).findings s table settings := by
  unfold findings add only
  rw [List.flatMap_append]

/-- **Rule by rule.**  The findings at a position are those of each rule run alone, in the order of
the rules. -/
theorem reported_at (rs : Ruleset) (s : Script) (table : ScopeTable) (settings : Settings)
    (p : Nat) :
    (rs.reported s table settings).filter (·.position == p)
      = rs.rules.flatMap fun r =>
          ((only r).reported s table settings).filter (·.position == p) := by
  have halone : ∀ r : Rule, ((only r).reported s table settings).filter (·.position == p)
      = ((r.findings s table settings).filter (!settings.suppresses ·)).filter
          (·.position == p) := by
    intro r
    unfold reported
    rw [filter_sortByPosition, findings_only]
  simp only [halone]
  unfold reported findings
  rw [filter_sortByPosition, List.filter_flatMap, List.filter_flatMap]

/-- The findings of one more rule, with those of the others. -/
theorem perm_reported_add (rs : Ruleset) (r : Rule) :
    ((rs.add r).reported s table settings).Perm
      (rs.reported s table settings ++ (only r).reported s table settings) := by
  have hall : ((rs.add r).reported s table settings).Perm
      ((rs.findings s table settings).filter (!settings.suppresses ·)
        ++ ((only r).findings s table settings).filter (!settings.suppresses ·)) := by
    rw [← List.filter_append, ← findings_add]
    exact perm_sortByPosition _
  have hparts := (perm_sortByPosition
    ((rs.findings s table settings).filter (!settings.suppresses ·))).append
      (perm_sortByPosition (((only r).findings s table settings).filter (!settings.suppresses ·)))
  exact hall.trans hparts.symm

theorem sublist_reported_add (rs : Ruleset) (r : Rule) :
    (rs.reported s table settings).Sublist ((rs.add r).reported s table settings)
      ∧ ((only r).reported s table settings).Sublist ((rs.add r).reported s table settings) := by
  constructor
  · refine sublist_sortByPosition (List.Sublist.filter _ ?_)
    rw [findings_add]
    exact List.sublist_append_left _ _
  · refine sublist_sortByPosition (List.Sublist.filter _ ?_)
    rw [findings_add]
    exact List.sublist_append_right _ _

/-! ## §3. One more rule. -/

/-- **Rules do not interfere.**  Whatever the rules, the script and the scope table that fits it:
with one more rule a run gives findings in the order of their positions, and at each position those
of the run without the rule, followed by those of the rule run alone.  No finding is lost or comes
twice, and neither the old ones nor those of the rule change their order. -/
theorem run_add (rs : Ruleset) (r : Rule) (s : Script) (table : ScopeTable) (settings : Settings)
    (hsettings : settings.validate = .ok ()) (htable : table.checkBounds s.size = .ok ()) :
    ∃ all old own, (rs.add r).run s table settings = .ok all
      ∧ rs.run s table settings = .ok old
      ∧ (only r).run s table settings = .ok own
      ∧ all.Pairwise (fun f g => f.position ≤ g.position)
      ∧ (∀ p, all.filter (·.position == p)
          = old.filter (·.position == p) ++ own.filter (·.position == p))
      ∧ all.Perm (old ++ own)
      ∧ old.Sublist all
      ∧ own.Sublist all := by
  refine ⟨_, _, _, run_eq_reported _ hsettings htable, run_eq_reported _ hsettings htable,
    run_eq_reported _ hsettings htable, sortByPosition_sorted _, fun p => ?_,
    perm_reported_add rs r, sublist_reported_add rs r⟩
  rw [reported_at, reported_at rs]
  show (rs.rules ++ [r]).flatMap _ = _
  rw [List.flatMap_append, List.flatMap_singleton]

/-- The rules of this library and one that is asked about opening braces and points at the closing
ones, so that what it finds for the outer block comes first. -/
theorem run_add_closing_braces :
    let s := Script.ofText 4 "switch ($x) \x7b case 1: if ($y) \x7b \x7d \x7d"
    let r : Rule := ⟨"BlockEnd", [.openBrace], fun s _ _ i => (s.brackets.groupEnd? i).toList.map
      fun j => .pointingAt (s.tokenAt j) .warning "BlockEnd" .closeBraceLine "block" none⟩
    (Settings.standard.validate = .ok () ∧ s.scopeTable.checkBounds s.size = .ok ())
      ∧ (r.findings s s.scopeTable .standard).map Finding.position = [23, 21]
      ∧ ∃ all old own, (standard.add r).run s s.scopeTable .standard = .ok all
        ∧ standard.run s s.scopeTable .standard = .ok old
        ∧ (only r).run s s.scopeTable .standard = .ok own
        ∧ all.Pairwise (fun f g => f.position ≤ g.position)
        ∧ (∀ p, all.filter (·.position == p)
            = old.filter (·.position == p) ++ own.filter (·.position == p))
        ∧ all.Perm (old ++ own)
        ∧ old.Sublist all
        ∧ own.Sublist all := by
  intro s r
  have hsettings : Settings.standard.validate = .ok () := rfl
  have htable : s.scopeTable.checkBounds s.size = .ok () := s.checkBounds_scopeTable
  exact ⟨⟨hsettings, htable⟩, by decide +kernel,
    run_add standard r s s.scopeTable .standard hsettings htable⟩

end Ruleset

end SwitchLayout
