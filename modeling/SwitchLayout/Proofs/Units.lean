/-
  SwitchLayout.Proofs.Units
  ─────────────────────────
  **Units are checked on their own.**

  A unit that ends in a line feed and a text behind it stand in the script of both as two windows
  with their own scopes.  Each rule finds in a window what it finds in the text alone, and the
  order of the findings keeps those of the unit in front:

    • `sortByPosition_split` — findings are put in order on both sides of a position,
    • `findings_stack` — a rule has the findings of the one script and then those of the other,
    • `flaws_stack` — and so has the check.

  The main statement is `checkText_append`.
-/
import SwitchLayout.Proofs.Calming
import SwitchLayout.Proofs.LineStarts
import SwitchLayout.Proofs.Stacking
import SwitchLayout.Proofs.Uniqueness

namespace SwitchLayout

open Text

/-! ## §1. The order of findings. -/

theorem placeByPosition_front {f : Finding} (fs : List Finding) {gs : List Finding}
    (hgs : ∀ g ∈ gs, f.position ≤ g.position) :
    placeByPosition f (fs ++ gs) = placeByPosition f fs ++ gs := by
  induction fs with
  | nil =>
      cases gs with
      | nil => rfl
      | cons g gs =>
          have hle := hgs g List.mem_cons_self
          show (if g.position < f.position then _ else _) = _
          rw [if_neg (by omega)]
          rfl
  | cons h fs ih =>
      rw [List.cons_append, placeByPosition, placeByPosition, ih]
      split <;> rfl

theorem placeByPosition_back {f : Finding} {fs : List Finding} (gs : List Finding)
    (hfs : ∀ g ∈ fs, g.position < f.position) :
    placeByPosition f (fs ++ gs) = fs ++ placeByPosition f gs := by
  induction fs with
  | nil => rfl
  | cons h fs ih =>
      have hlt := hfs h List.mem_cons_self
      rw [List.cons_append, placeByPosition, if_pos hlt,
        ih fun g hg => hfs g (List.mem_cons_of_mem h hg), List.cons_append]

/-- **The findings in front of a position** come in front of the others. -/
theorem sortByPosition_split (n : Nat) (fs : List Finding) :
    sortByPosition fs
      = sortByPosition (fs.filter (·.position < n))
        ++ sortByPosition (fs.filter (n ≤ ·.position)) := by
  induction fs with
  | nil => rfl
  | cons f fs ih =>
      have hplace : sortByPosition (f :: fs) = placeByPosition f (sortByPosition fs) := rfl
      rw [hplace, ih]
      by_cases hf : f.position < n
      · rw [List.filter_cons_of_pos (by simpa using hf),
          List.filter_cons_of_neg (by simpa using hf)]
        refine placeByPosition_front _ fun g hg => ?_
        have hle : n ≤ g.position := by
          simpa using (List.mem_filter.mp ((mem_sortByPosition g _).mp hg)).2
        omega
      · rw [List.filter_cons_of_neg (by simpa using hf),
          List.filter_cons_of_pos (by simpa using Nat.le_of_not_lt hf)]
        refine placeByPosition_back _ fun g hg => ?_
        have hlt : g.position < n := by
          simpa using (List.mem_filter.mp ((mem_sortByPosition g _).mp hg)).2
        omega

theorem filter_position {n : Nat} {fs gs : List Finding} (hfs : ∀ f ∈ fs, f.position < n)
    (hgs : ∀ g ∈ gs, n ≤ g.position) :
    (fs ++ gs).filter (·.position < n) = fs ∧ (fs ++ gs).filter (n ≤ ·.position) = gs := by
  constructor
  · rw [List.filter_append, List.filter_eq_self.mpr fun f hf => by simpa using hfs f hf,
      List.filter_eq_nil_iff.mpr fun g hg => by simpa using hgs g hg, List.append_nil]
  · rw [List.filter_append, List.filter_eq_nil_iff.mpr fun f hf => by simpa using hfs f hf,
      List.filter_eq_self.mpr fun g hg => by simpa using hgs g hg, List.nil_append]

/-- Findings that are moved keep their order. -/
theorem sortByPosition_shift (offset lines : Nat) (fs : List Finding) :
    sortByPosition (fs.map (Finding.shift offset lines))
      = (sortByPosition fs).map (Finding.shift offset lines) := by
  have hplace : ∀ (f : Finding) (gs : List Finding),
      placeByPosition (f.shift offset lines) (gs.map (Finding.shift offset lines))
        = (placeByPosition f gs).map (Finding.shift offset lines) := by
    intro f gs
    induction gs with
    | nil => rfl
    | cons g gs ih =>
        rw [List.map_cons, placeByPosition, placeByPosition, ih]
        refine ite_eq_map ?_ (fun _ => rfl) fun _ => rfl
        show offset + g.position < offset + f.position ↔ _
        omega
  induction fs with
  | nil => rfl
  | cons f fs ih =>
      show placeByPosition _ (sortByPosition (fs.map _)) = _
      rw [ih, hplace]
      rfl

theorem le_position_of_mem_shift {offset lines : Nat} {fs : List Finding} {f : Finding}
    (h : f ∈ fs.map (Finding.shift offset lines)) : offset ≤ f.position := by
  obtain ⟨g, _, rfl⟩ := List.mem_map.mp h
  exact Nat.le_add_right _ _

/-! ## §2. Where findings point. -/

theorem Script.position_lt_size {s : Script} (hsize : 0 < s.size) (i : Nat) :
    (s.tokenAt i).position < s.size := by
  by_cases hi : i < s.size
  · rw [position_tokenAt_of_lt hi]
    exact hi
  · unfold tokenAt get?
    rw [Array.getElem?_eq_none (Nat.le_of_not_lt hi)]
    exact hsize

theorem SwitchBody.Belongs.position_lt {b : SwitchBody} {f : Finding} (h : b.Belongs f)
    (hsize : 0 < b.script.size) : f.position < b.script.size := by
  have hlt := Script.position_lt_size hsize
  cases h with
  | branch _ h =>
      cases h with
      | keyword _ _ hposition => exact hposition ▸ hlt _
      | closer _ _ _ _ hposition => exact hposition ▸ hlt _
      | second _ _ hposition => exact hposition ▸ hlt _
  | keyword _ _ hposition => exact hposition ▸ hlt _
  | brace _ _ hposition => exact hposition ▸ hlt _

/-- A finding points at a token of the script. -/
theorem Rule.position_lt {r : Rule} (hr : r ∈ Ruleset.standard.rules) {s : Script}
    {settings : Settings} {f : Finding} (h : f ∈ r.findings s s.scopeTable settings) :
    f.position < s.size := by
  obtain ⟨i, hi, hf⟩ := List.mem_flatMap.mp h
  obtain ⟨hrange, hkind⟩ := List.mem_filter.mp hi
  have hsize : 0 < s.size := Nat.zero_lt_of_lt (List.mem_range.mp hrange)
  rcases List.mem_cons.mp hr with rfl | hr
  · have hswitch : s.kindAt i = .switchKw := by simpa [SwitchBody.rule] using hkind
    obtain ⟨scope, _, _, hf⟩ := mem_switchCheck hswitch hf
    exact (SwitchBody.belongs_of_findings hf).position_lt hsize
  · obtain rfl := List.mem_singleton.mp hr
    change f ∈ ScopeEnd.check s s.scopeTable settings i at hf
    unfold ScopeEnd.check at hf
    split at hf
    · cases hf
    · split at hf
      · obtain ⟨v, _, rfl⟩ := List.mem_map.mp hf
        exact Script.position_lt_size hsize _
      · cases hf

/-! ## §3. The findings of a stack. -/

namespace Inset

variable {e s : Script} {offset lines i : Nat}

/-- A rule finds in a window what it finds in the script alone. -/
theorem check_inset (hs : Inset e s offset lines) {r : Rule} (hr : r ∈ Ruleset.standard.rules)
    (settings : Settings) (hi : i < e.size) (hkind : r.kinds.contains (e.kindAt i) = true) :
    r.check s s.scopeTable settings (offset + i)
      = (r.check e e.scopeTable settings i).map (Finding.shift offset lines) := by
  rcases List.mem_cons.mp hr with rfl | hr
  · exact hs.switchCheck_inset settings hi (by simpa [SwitchBody.rule] using hkind)
  · obtain rfl := List.mem_singleton.mp hr
    exact hs.closerCheck_inset settings hi

end Inset

namespace Script

variable {s s' : Script} {lines : Nat}

/-- **The findings of a rule on a stack.** -/
theorem findings_stack (h : s.IsUnit) (hw : Window s' (s.stack lines s') s.size lines) {r : Rule}
    (hr : r ∈ Ruleset.standard.rules) (settings : Settings) :
    r.findings (s.stack lines s') (s.stack lines s').scopeTable settings
      = r.findings s s.scopeTable settings
        ++ (r.findings s' s'.scopeTable settings).map (Finding.shift s.size lines) := by
  have habove := inset_above h hw
  have hbelow := inset_below h hw
  have hzero : (r.findings s s.scopeTable settings).map (Finding.shift 0 0)
      = r.findings s s.scopeTable settings := by
    rw [List.map_congr_left fun f _ => f.shift_zero, List.map_id']
  rw [← hzero]
  unfold Rule.findings
  rw [range_stack, List.filter_append, List.flatMap_append]
  refine congr_arg₂ (· ++ ·) ?_ ?_
  · exact habove.flatMap_range r.kinds.contains fun hi hkind =>
      habove.check_inset hr settings hi hkind
  · exact hbelow.flatMap_range r.kinds.contains fun hi hkind =>
      hbelow.check_inset hr settings hi hkind

/-- **The findings of a check on a stack.** -/
theorem flaws_stack (h : s.IsUnit) (hw : Window s' (s.stack lines s') s.size lines)
    (settings : Settings) :
    (s.stack lines s').flaws settings
      = s.flaws settings ++ (s'.flaws settings).map (Finding.shift s.size lines) := by
  have hrules : Ruleset.standard.findings (s.stack lines s') (s.stack lines s').scopeTable settings
      = Ruleset.standard.rules.flatMap fun r => r.findings s s.scopeTable settings
        ++ (r.findings s' s'.scopeTable settings).map (Finding.shift s.size lines) :=
    List.flatMap_congr fun r hr => findings_stack h hw hr settings
  have habove : ∀ r ∈ Ruleset.standard.rules, ∀ f ∈ r.findings s s.scopeTable settings,
      f.position < s.size := fun r hr f hf => Rule.position_lt hr hf
  have hbelow : ∀ (r : Rule),
      ∀ f ∈ (r.findings s' s'.scopeTable settings).map (Finding.shift s.size lines),
        s.size ≤ f.position := fun r f hf => le_position_of_mem_shift hf
  have hfront : (Ruleset.standard.findings (s.stack lines s') (s.stack lines s').scopeTable
      settings).filter (·.position < s.size)
      = Ruleset.standard.findings s s.scopeTable settings := by
    rw [hrules, List.filter_flatMap]
    exact List.flatMap_congr fun r hr => (filter_position (habove r hr) (hbelow r)).1
  have hback : (Ruleset.standard.findings (s.stack lines s') (s.stack lines s').scopeTable
      settings).filter (s.size ≤ ·.position)
      = (Ruleset.standard.findings s' s'.scopeTable settings).map (Finding.shift s.size lines) := by
    rw [hrules, List.filter_flatMap]
    unfold Ruleset.findings
    rw [List.map_flatMap]
    exact List.flatMap_congr fun r hr => (filter_position (habove r hr) (hbelow r)).2
  -- the rules report one behind the other; the order by position parts the two scripts again
  unfold flaws
  rw [sortByPosition_split s.size, List.filter_comm, hfront, List.filter_comm, hback,
    List.filter_map, sortByPosition_shift]
  rfl

end Script

/-! ## §4. Checking. -/

/-- The last lexeme of the code of a unit is no operator. -/
theorem Script.kind_of_code {s : Script} (h : s.IsUnit) :
    ∀ l ∈ s.code.getLast?, l.kind ≠ .other := by
  intro l hl hother
  rw [Option.mem_def, List.getLast?_eq_getElem?, ← getElem?_place] at hl
  obtain ⟨hkind, _, hsize⟩ := lexeme_tokenAt hl
  change s.kindAt _ = l.kind at hkind
  rw [hother] at hkind
  -- code follows, and it has a place behind the last one
  obtain ⟨j, hlt, hj, hend, _⟩ := h.exists_end (goesOn_of_kind hsize hkind (by decide))
  have hcode : s.kindAt j ≠ .whitespace := by
    rcases hend with hend | hend <;> rw [hend] <;> decide
  have hplace : ∃ k < s.code.length, s.place k = j := by
    by_contra hnone
    exact hcode (whitespace_of_ne_place hj fun k hk heq => hnone ⟨k, hk, heq⟩)
  obtain ⟨k, hk, rfl⟩ := hplace
  rcases Nat.eq_or_lt_of_le (show k ≤ s.code.length - 1 by omega) with heq | hback
  · rw [heq] at hlt
    omega
  · have hplaces := s.place_lt hback
    omega

/-- The fault of the text that starts some lines further down. -/
def Fault.below (lines : Nat) : Fault → Fault
  | .lex e => .lex (e.below lines)
  | fault => fault

/-- The last token of a text with a line feed at its end holds the line feed. -/
theorem Script.getLast?_of_read {tabWidth : Nat} {text : String} {s : Script}
    (h : read tabWidth text = .ok s) (hlast : text.toList.getLast? = some '\n') {m : Nat}
    (hm : m + 1 = s.size) : (s.tokenAt m).chars.getLast? = some '\n' := by
  have hsize : m < s.size := by omega
  have hlength : m < s.tokens.toList.length := hsize
  have htoken : s.tokens.toList[m] = s.tokenAt m := by
    simp [tokenAt, get?, show m < s.tokens.size from hsize]
  have htokens : s.tokens.toList = s.tokens.toList.take m ++ [s.tokenAt m] := by
    rw [← htoken, ← List.take_succ_eq_append_getElem hlength, List.take_of_length_le]
    exact Nat.le_of_eq hm.symm
  have hsource := source_read h
  unfold source at hsource
  rw [← hsource, String.toList_ofList, htokens, List.flatMap_append, List.flatMap_singleton,
    List.getLast?_append] at hlast
  rcases Option.or_eq_some_iff.mp hlast with hchars | ⟨hnil, _⟩
  · exact hchars
  · exact absurd (List.getLast?_eq_none_iff.mp hnil) (chars_ne_nil h (get?_of_lt hsize))

/-- The text below starts on a line of its own. -/
theorem Script.window_of_read {tabWidth lines : Nat} {a b : String} {s s' : Script}
    (h : read tabWidth a = .ok s) (hlast : a.toList.getLast? = some '\n')
    (hstack : read tabWidth (a ++ b) = .ok (s.stack lines s')) :
    Window s' (s.stack lines s') s.size lines := by
  refine window_below fun {m i} hm hi => ?_
  have hsize := size_stack s lines s'
  have hnext : (s.stack lines s').lineAt (m + 1)
      = (s.stack lines s').lineAt m + lineBreaks ((s.stack lines s').tokenAt m).chars :=
    line_next hstack (get?_of_lt (by omega)) (get?_of_lt (by omega))
  have hle : (s.stack lines s').lineAt s.size ≤ (s.stack lines s').lineAt (s.size + i) :=
    lineAt_le hstack (Nat.le_add_right _ _) (by omega)
  -- the last token of the unit holds the line feed, and lines only go forward behind it
  have hchars := getLast?_of_read h hlast hm
  have hbreak : lineBreaks (s.tokenAt m).chars ≠ 0 := by
    intro hzero
    exact absurd (all_of_lineBreaks_eq_zero hzero _ (List.mem_of_getLast? hchars)) (by decide)
  rw [tokenAt_above (by omega), hm] at hnext
  omega

/-- **Units are checked on their own.**  Where a text ends in a line feed and is a unit, the
findings on it and a text behind it are its own and then those of the text behind it, moved by its
tokens and its lines; and an error of the text behind it is found as many lines further down. -/
theorem checkText_append {a b : String} {settings : Settings} {s : Script}
    (hindent : 1 ≤ settings.indent) (h : Script.read settings.tabWidth a = .ok s)
    (hlast : a.toList.getLast? = some '\n') (hunit : s.IsUnit)
    (hmark : b.toList.head? ≠ some byteOrderMark) :
    ∃ fs, checkText a settings = .ok fs
      ∧ checkText (a ++ b) settings = match checkText b settings with
        | .ok gs => .ok (fs ++ gs.map (Finding.shift s.size (lineBreaks a.toList)))
        | .error fault => .error (fault.below (lineBreaks a.toList)) := by
  refine ⟨s.flaws settings, checkText_of_read hindent h, ?_⟩
  have hread := Script.read_append h hlast (Script.kind_of_code hunit) hmark
  cases hb : Script.read settings.tabWidth b with
  | ok s' =>
      rw [hb] at hread
      rw [checkText_of_read hindent hread, checkText_of_read hindent hb,
        Script.flaws_stack hunit (Script.window_of_read h hlast hread)]
  | error e =>
      rw [hb] at hread
      unfold checkText
      rw [Settings.validate_eq_ok hindent, hread, hb]
      rfl

/-- Two switches, each with a keyword that is to be put in lower case, and a comment between
them. -/
theorem checkText_append_switches :
    let settings : Settings := ⟨1, 4, []⟩
    let a := "switch ($x) \x7b\n CASE 1:\n  break;\n\x7d // x\n"
    let b := "switch ($y) \x7b\n Default:\n  break;\n\x7d\n"
    let s := Script.ofText 4 a
    (Script.read settings.tabWidth a = .ok s ∧ a.toList.getLast? = some '\n' ∧ s.IsUnit
        ∧ b.toList.head? ≠ some byteOrderMark ∧ s.size = 22 ∧ lineBreaks a.toList = 4)
      ∧ ∃ fs, checkText a settings = .ok fs
        ∧ checkText (a ++ b) settings = match checkText b settings with
          | .ok gs => .ok (fs ++ gs.map (Finding.shift s.size (lineBreaks a.toList)))
          | .error fault => .error (fault.below (lineBreaks a.toList)) := by
  intro settings a b s
  have h : Script.read settings.tabWidth a = .ok s := Script.read_ofText (by decide +kernel)
  have hlast : a.toList.getLast? = some '\n' := by decide +kernel
  have hunit : s.IsUnit := ⟨by decide +kernel, by decide +kernel⟩
  have hmark : b.toList.head? ≠ some byteOrderMark := by decide +kernel
  exact ⟨⟨h, hlast, hunit, hmark, by decide +kernel, by decide +kernel⟩,
    checkText_append (by decide) h hlast hunit hmark⟩

end SwitchLayout
