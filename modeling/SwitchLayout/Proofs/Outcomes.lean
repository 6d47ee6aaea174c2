/-
  SwitchLayout.Proofs.Outcomes
  ────────────────────────────
  **A run never reaches outside its script and never subtracts below zero.**

  The run with guarded rules ends as the plain run does (`guardedRun_eq`), for every script
  whose columns count from one and every table that was built scope by scope.  A run is refused
  for its settings or for its table and for nothing else (`run_cases`), and the table of a text
  that was read is never refused (`checkText_ne_scope`).

  Main statement: `run_outcome` — the ways in which a run ends, none of them a trap.
-/
import SwitchLayout.Proofs.Guarded
import SwitchLayout.Proofs.Stability

namespace SwitchLayout

/-! ## §1. Runs, guarded. -/

/-- Why a guarded run gives no findings. -/
inductive Stop where
  /-- The run is refused. -/
  | fault (f : Fault)
  /-- A step of a rule has no answer. -/
  | trap (t : Trap)
deriving DecidableEq

/-- Guarded form of the rule on switches. -/
def SwitchBody.guardedCheck (s : Script) (table : ScopeTable) (settings : Settings) (i : Nat) :
    Guarded (List Finding) :=
  match table.scopeOf? i with
  | none => return []
  | some scope => (SwitchBody.mk s table scope settings.indent).guardedFindings

/-- The positions that a rule is asked about. -/
def Rule.positions (r : Rule) (s : Script) : List Nat :=
  (List.range s.size).filter fun i => r.kinds.contains (s.kindAt i)

/-- Guarded form of the findings of the standard rules. -/
def guardedFindings (s : Script) (table : ScopeTable) (settings : Settings) :
    Guarded (List Finding) := do
  let switches ← collect (SwitchBody.guardedCheck s table settings) (SwitchBody.rule.positions s)
  let closers ← collect (ScopeEnd.guardedCheck s table settings) (ScopeEnd.rule.positions s)
  return switches ++ closers

/-- Guarded form of a run of the standard rules. -/
def guardedRun (s : Script) (table : ScopeTable) (settings : Settings) :
    Except Stop (List Finding) := do
  settings.validate.mapError fun e => .fault (.settings e)
  (table.checkBounds s.size).mapError fun e => .fault (.scope e)
  let findings ← (guardedFindings s table settings).mapError .trap
  return sortByPosition (findings.filter (!settings.suppresses ·))

section Runs

variable {s : Script} {table : ScopeTable}

theorem guardedFindings_eq (hcolumns : ∀ i < s.size, 1 ≤ s.columnAt i) (htable : table.Ordered)
    (hclosers : ∀ {c : Nat} {scope : Scope}, table.scopeOf? c = some scope → scope.closer < s.size)
    (settings : Settings) :
    guardedFindings s table settings = .ok (Ruleset.standard.findings s table settings) := by
  have hswitch : ∀ i, SwitchBody.guardedCheck s table settings i
      = .ok (SwitchBody.check s table settings i) := by
    intro i
    unfold SwitchBody.guardedCheck SwitchBody.check
    cases hscope : table.scopeOf? i with
    | none => rfl
    | some scope =>
        have hcondition := (htable.scopes hscope).1
        exact SwitchBody.guardedFindings_eq ⟨htable, hclosers, by rw [hcondition]; exact hscope⟩
  unfold guardedFindings
  rw [collect_eq fun i _ => hswitch i,
    collect_eq fun i _ => ScopeEnd.guardedCheck_eq hcolumns htable hclosers settings i]
  show Except.ok (SwitchBody.rule.findings s table settings
    ++ ScopeEnd.rule.findings s table settings) = _
  unfold Ruleset.findings Ruleset.standard
  rw [List.flatMap_cons, List.flatMap_singleton]

/-- **No trap.**  A guarded run gives what a run gives. -/
theorem guardedRun_eq (hcolumns : ∀ i < s.size, 1 ≤ s.columnAt i) (htable : table.Built)
    (settings : Settings) :
    guardedRun s table settings = (Ruleset.standard.run s table settings).mapError .fault := by
  have hordered := ScopeTable.ordered_of_built htable
  unfold guardedRun Ruleset.run
  cases settings.validate with
  | error e => rfl
  | ok _ =>
      rcases table.checkBounds_cases s.size with ⟨hfits, hclosers⟩ | ⟨p, hoff, _⟩
      · rw [hfits, guardedFindings_eq hcolumns hordered hclosers]
        rfl
      · rw [hoff]
        rfl

/-- Settings without an indentation are refused before anything else, and no others are. -/
theorem run_eq_settings_iff (s : Script) (table : ScopeTable) (settings : Settings) :
    (∃ e, Ruleset.standard.run s table settings = .error (.settings e)) ↔ settings.indent = 0 := by
  unfold Ruleset.run
  constructor
  · intro ⟨e, h⟩
    by_contra hindent
    rw [Settings.validate_eq_ok (by omega)] at h
    rcases table.checkBounds_cases s.size with ⟨hfits, _⟩ | ⟨p, hoff, _⟩
    · rw [hfits] at h
      cases h
    · rw [hoff] at h
      cases h
  · intro hindent
    rw [Settings.validate_eq_error hindent]
    exact ⟨.zeroIndent, rfl⟩

/-- With settings that can be used, a run is refused if the table reaches outside, and gives
findings if it does not. -/
theorem run_cases (htable : table.Ordered) {settings : Settings} (hindent : settings.indent ≠ 0) :
    ((∃ p, Ruleset.standard.run s table settings = .error (.scope (.outOfBounds p s.size)))
        ∧ ∃ p, table.Records p ∧ s.size ≤ p)
      ∨ ((∃ fs, Ruleset.standard.run s table settings = .ok fs)
        ∧ ∀ p, table.Records p → p < s.size) := by
  unfold Ruleset.run
  rw [Settings.validate_eq_ok (by omega)]
  rcases table.checkBounds_cases s.size with ⟨hfits, hclosers⟩ | ⟨p, hoff, hrecords⟩
  · refine Or.inr ⟨⟨_, by rw [hfits]; rfl⟩, ?_⟩
    intro p hp
    obtain ⟨c, scope, hscope, hle⟩ := htable.le_closer hp
    have hlt := hclosers hscope
    omega
  · exact Or.inl ⟨⟨p, by rw [hoff]; rfl⟩, p, hrecords⟩

theorem run_eq_outOfBounds_iff (htable : table.Ordered) {settings : Settings}
    (hindent : settings.indent ≠ 0) :
    (∃ p, Ruleset.standard.run s table settings = .error (.scope (.outOfBounds p s.size)))
      ↔ ∃ p, table.Records p ∧ s.size ≤ p := by
  rcases run_cases (s := s) htable hindent with ⟨hrun, hoff⟩ | ⟨⟨fs, hrun⟩, hinside⟩
  · exact ⟨fun _ => hoff, fun _ => hrun⟩
  · rw [hrun]
    constructor
    · intro ⟨_, h⟩
      cases h
    · intro ⟨p, hp, hle⟩
      have hlt := hinside p hp
      omega

theorem run_eq_ok_iff (htable : table.Ordered) {settings : Settings}
    (hindent : settings.indent ≠ 0) :
    (∃ fs, Ruleset.standard.run s table settings = .ok fs)
      ↔ ∀ p, table.Records p → p < s.size := by
  rcases run_cases (s := s) htable hindent with ⟨⟨p, hrun⟩, q, hq, hle⟩ | ⟨hrun, hinside⟩
  · rw [hrun]
    constructor
    · intro ⟨_, h⟩
      cases h
    · intro h
      have hlt := h q hq
      omega
  · exact ⟨fun _ => hinside, fun _ => hrun⟩

end Runs

/-! ## §2. Texts. -/

/-- Columns count from one. -/
theorem Location.one_le_column_after (width : Nat) (l : Location) (cs : List Char)
    (h : 1 ≤ l.column) : 1 ≤ (l.after width cs).column := by
  induction cs generalizing l with
  | nil => exact h
  | cons c cs ih =>
      rw [after_cons]
      apply ih
      unfold step tabStop nextLine
      split
      · exact Nat.le_refl 1
      · split
        · dsimp only
          split <;> omega
        · exact Nat.le_add_left 1 _

theorem one_le_column_locate (tabWidth : Nat) (ls : List Lexeme) (loc : Location)
    (h : 1 ≤ loc.column) : ∀ t ∈ locate tabWidth loc ls, 1 ≤ t.column := by
  induction ls generalizing loc with
  | nil =>
      intro t ht
      cases ht
  | cons l ls ih =>
      intro t ht
      rw [locate] at ht
      rcases List.mem_cons.mp ht with rfl | ht
      · exact h
      · exact ih _ (Location.one_le_column_after tabWidth loc l.chars h) t ht

/-- The columns of a script that was read count from one. -/
theorem Script.one_le_columnAt {tabWidth : Nat} {text : String} {s : Script}
    (h : Script.read tabWidth text = .ok s) (i : Nat) (hi : i < s.size) : 1 ≤ s.columnAt i := by
  obtain ⟨ls, _, rfl⟩ := read_eq_ok_iff.mp h
  have hget := get?_tokenAt hi
  rw [get?_ofTokens, Option.map_eq_some_iff] at hget
  obtain ⟨t, ht, heq⟩ := hget
  have hcolumn : 1 ≤ t.column := by
    rcases List.mem_append.mp (List.mem_of_getElem? ht) with hmark | hbody
    · obtain ⟨c, _, rfl⟩ := List.mem_map.mp hmark
      exact Nat.le_refl 1
    · exact one_le_column_locate tabWidth ls .origin (Nat.le_refl 1) t hbody
  unfold columnAt
  rw [← heq]
  exact hcolumn

section Texts

variable {text : String} {settings : Settings}

/-- A text that can be read is checked as its script is. -/
theorem checkText_eq_check {s : Script} (h : Script.read settings.tabWidth text = .ok s) :
    checkText text settings = Ruleset.standard.run s s.scopeTable settings := by
  unfold checkText
  rw [h]
  rcases Nat.eq_zero_or_pos settings.indent with hzero | hpos
  · unfold Ruleset.run
    rw [Settings.validate_eq_error hzero]
    rfl
  · rw [Settings.validate_eq_ok hpos]
    rfl

/-- A text that cannot be read is refused for that, if the settings can be used. -/
theorem checkText_of_error {e : LexError} (h : Script.read settings.tabWidth text = .error e) :
    checkText text settings
      = if settings.indent = 0 then .error (.settings .zeroIndent) else .error (.lex e) := by
  unfold checkText
  rw [h]
  split
  · rename_i hzero
    rw [Settings.validate_eq_error hzero]
    rfl
  · rw [Settings.validate_eq_ok (by omega)]
    rfl

theorem checkText_eq_settings_iff (text : String) (settings : Settings) :
    (∃ e, checkText text settings = .error (.settings e)) ↔ settings.indent = 0 := by
  cases hread : Script.read settings.tabWidth text with
  | ok s =>
      rw [checkText_eq_check hread]
      exact run_eq_settings_iff s s.scopeTable settings
  | error e =>
      rw [checkText_of_error hread]
      split
      · rename_i hzero
        exact ⟨fun _ => hzero, fun _ => ⟨_, rfl⟩⟩
      · rename_i hpos
        refine ⟨?_, fun hzero => absurd hzero hpos⟩
        intro ⟨_, h⟩
        cases h

theorem checkText_eq_lex_iff (hindent : settings.indent ≠ 0) (e : LexError) :
    checkText text settings = .error (.lex e)
      ↔ Script.read settings.tabWidth text = .error e := by
  cases hread : Script.read settings.tabWidth text with
  | ok s =>
      rw [checkText_of_read (by omega) hread]
      constructor <;> intro h <;> cases h
  | error e' =>
      rw [checkText_of_error hread, if_neg hindent]
      constructor
      · intro h
        cases h
        rfl
      · intro h
        cases h
        rfl

/-- The scopes found in a text always fit it. -/
theorem checkText_ne_scope (text : String) (settings : Settings) (e : ScopeError) :
    checkText text settings ≠ .error (.scope e) := by
  intro h
  cases hread : Script.read settings.tabWidth text with
  | error e' =>
      rw [checkText_of_error hread] at h
      split at h <;> cases h
  | ok s =>
      rcases Nat.eq_zero_or_pos settings.indent with hzero | hpos
      · obtain ⟨_, hzero⟩ := (checkText_eq_settings_iff text settings).mpr hzero
        rw [hzero] at h
        cases h
      · rw [checkText_of_read hpos hread] at h
        cases h

end Texts

/-! ## §3. What a run comes to. -/

/-- **A run goes wrong in no other way than it says.**  On a script whose columns count from
one, with any table that was built scope by scope, the guarded run meets no trap and ends as
the run does.  The run is refused for its settings exactly if an indentation has no width, else
for its table exactly if that mentions a position outside the script, and otherwise gives
findings.  So the check of a text is refused for its settings, else for a literal that stays
open, and never for its scopes. -/
theorem run_outcome {s : Script} {table : ScopeTable}
    (hcolumns : ∀ i < s.size, 1 ≤ s.columnAt i) (htable : table.Built) (settings : Settings) :
    guardedRun s table settings = (Ruleset.standard.run s table settings).mapError .fault
      ∧ ((∃ e, Ruleset.standard.run s table settings = .error (.settings e))
          ↔ settings.indent = 0)
      ∧ (settings.indent ≠ 0 →
          ((∃ p, Ruleset.standard.run s table settings = .error (.scope (.outOfBounds p s.size)))
              ↔ ∃ p, table.Records p ∧ s.size ≤ p)
            ∧ ((∃ fs, Ruleset.standard.run s table settings = .ok fs)
              ↔ ∀ p, table.Records p → p < s.size))
      ∧ ∀ text : String,
          ((∃ e, checkText text settings = .error (.settings e)) ↔ settings.indent = 0)
            ∧ (settings.indent ≠ 0 → ∀ e, checkText text settings = .error (.lex e)
                ↔ Script.read settings.tabWidth text = .error e)
            ∧ (∀ e, checkText text settings ≠ .error (.scope e))
            ∧ (∀ s', Script.read settings.tabWidth text = .ok s' →
                guardedRun s' s'.scopeTable settings
                  = (checkText text settings).mapError .fault) := by
  have hordered := ScopeTable.ordered_of_built htable
  refine ⟨guardedRun_eq hcolumns htable settings, run_eq_settings_iff s table settings,
    fun hindent => ⟨run_eq_outOfBounds_iff hordered hindent, run_eq_ok_iff hordered hindent⟩,
    fun text => ⟨checkText_eq_settings_iff text settings, checkText_eq_lex_iff,
      checkText_ne_scope text settings, fun s' hread => ?_⟩⟩
  rw [checkText_eq_check hread]
  exact guardedRun_eq (Script.one_le_columnAt hread) s'.built_scopeTable settings

/-- Two cases fall into one `break`, and the owner that their table has for it is the later one:
the run ends as the guarded run does, and with findings exactly if the table fits. -/
theorem run_outcome_shared_closer :
    let s := Script.ofText 4 "switch ($x) \x7b case 1: case 2: break; \x7d"
    let scopes := ScopeTable.empty.insertAccepted [⟨0, 6, 21⟩, ⟨8, 11, 18⟩, ⟨13, 16, 18⟩]
    let table : ScopeTable := { scopes with owners := scopes.owners.insert 18 13 }
    ((∀ i < s.size, 1 ≤ s.columnAt i) ∧ table.Built)
      ∧ guardedRun s table .standard
          = (Ruleset.standard.run s table .standard).mapError .fault
      ∧ ((∃ fs, Ruleset.standard.run s table .standard = .ok fs)
          ↔ ∀ p, table.Records p → p < s.size) := by
  intro s scopes table
  have hcolumns : ∀ i < s.size, 1 ≤ s.columnAt i := by decide +kernel
  have hscopes : scopes.Built := ScopeTable.built_insertAccepted _ .empty
  have hset : scopes.setOwner 18 13 = .ok table := if_pos (by decide +kernel)
  have htable : table.Built := .setOwner hscopes hset
  have houtcome := run_outcome hcolumns htable .standard
  exact ⟨⟨hcolumns, htable⟩, houtcome.1, (houtcome.2.2.1 (by decide)).2⟩

end SwitchLayout
