/-
  SwitchLayout.Proofs.Rendering
  ─────────────────────────────
  **What a round of edits writes, token by token.**

  A round collects its edits in one pass and writes the text in another.  Seen from a token there
  is only one question: which of the proposed edits is the first that goes to this token and takes
  away no more characters than it has (`firstFitting?`).  That edit is made; without one the token
  stays as it is (`rendering`).  Edits that fit nowhere stand in nobody's way.

    • `textOf_eq_rendering` — the text of each token,
    • `size_chosen` — the edits made, as a number of tokens,
    • `size_add_skipped` — what one edit adds to the account, `applied_add_skipped` — a whole round,
    • `firstFitting?_congr` — only the edits of its own position matter to a token.

  Together they say what a round gives (`applyFixes_renders`), and in which orders of the findings
  it gives the same.
-/
import SwitchLayout.Proofs.Rounds

namespace SwitchLayout

/-! ## §1. One token. -/

/-- The first edit that goes to a token and takes away no more than it has. -/
def firstFitting? (edits : List Edit) (t : Token) : Option Edit :=
  edits.find? fun e => e.position = t.position ∧ e.deleted ≤ t.chars.length

/-- The text of a token with that edit made, or as it is. -/
def rendering (edits : List Edit) (t : Token) : List Char :=
  match firstFitting? edits t with
  | some e => e.inserted.toList ++ t.chars.drop e.deleted
  | none => t.chars

/-- The edits that findings propose for one position, in their order. -/
def editsAt (p : Nat) (fs : List Finding) : List Edit :=
  (fs.filterMap Finding.fix).filter (·.position = p)

variable {s : Script} {edits : List Edit}

theorem suits_eq {p : Nat} {t : Token} (ht : s.get? p = some t) :
    Selection.Suits s p
      = fun e => decide (e.position = t.position ∧ e.deleted ≤ t.chars.length) := by
  funext e
  unfold Selection.Suits Selection.fits
  rw [Script.position_of_get? ht]
  by_cases hp : e.position = p
  · rw [hp, ht]
    simp [Edit.fits]
  · simp [hp]

/-- The edit chosen for a token is the first that fits it. -/
theorem getElem?_chosen_eq_firstFitting? {p : Nat} {t : Token} (ht : s.get? p = some t) :
    (edits.foldl (Selection.add s) .start).chosen[p]? = firstFitting? edits t := by
  rw [Selection.getElem?_chosen, suits_eq ht]
  rfl

theorem textOf_eq_rendering {p : Nat} {t : Token} (ht : s.get? p = some t) :
    (edits.foldl (Selection.add s) .start).textOf t = rendering edits t := by
  rw [Script.textOf_eq ht, getElem?_chosen_eq_firstFitting? ht]
  rfl

/-- To a token only the edits of its own position matter. -/
theorem firstFitting?_congr {edits edits' : List Edit} {t : Token}
    (h : edits.filter (·.position = t.position) = edits'.filter (·.position = t.position)) :
    firstFitting? edits t = firstFitting? edits' t := by
  have hsplit : ∀ es : List Edit, firstFitting? es t
      = (es.filter (·.position = t.position)).find? (·.deleted ≤ t.chars.length) := by
    intro es
    unfold firstFitting?
    rw [List.find?_filter]
    simp only [decide_eq_true_eq, Bool.decide_and]
  rw [hsplit, hsplit, h]

/-! ## §2. The account of a round. -/

/-- **One edit** is made or skipped. -/
theorem size_add_skipped (s : Script) (sel : Selection) (e : Edit) :
    (sel.add s e).chosen.size + (sel.add s e).skipped = sel.chosen.size + sel.skipped + 1 := by
  unfold Selection.add
  split
  · rename_i hadd
    have hnew : sel.chosen.contains e.position = false := by
      simpa using (Bool.and_eq_true_iff.mp hadd).2
    show (sel.chosen.insert e.position e).size + sel.skipped = _
    rw [Std.ExtTreeMap.size_insert, if_neg (by simp [hnew])]
    omega
  · show sel.chosen.size + (sel.skipped + 1) = _
    omega

theorem size_foldl_add_skipped (s : Script) (edits : List Edit) (sel : Selection) :
    (edits.foldl (Selection.add s) sel).chosen.size + (edits.foldl (Selection.add s) sel).skipped
      = sel.chosen.size + sel.skipped + edits.length := by
  induction edits generalizing sel with
  | nil => rfl
  | cons e edits ih =>
      rw [List.foldl_cons, ih, size_add_skipped, List.length_cons]
      omega

theorem length_filterMap_fix (fs : List Finding) :
    (fs.filterMap Finding.fix).length = fs.countP Finding.isFixable := by
  rw [List.length_filterMap_eq_countP]
  rfl

/-- **A round** accounts for every finding with an edit. -/
theorem applied_add_skipped (s : Script) (fs : List Finding) :
    (s.applyFixes fs).applied + (s.applyFixes fs).skipped = fs.countP Finding.isFixable := by
  have hround := size_foldl_add_skipped s (fs.filterMap Finding.fix) .start
  rw [length_filterMap_fix] at hround
  have hstart : Selection.start.chosen.size + Selection.start.skipped = 0 := by
    show (∅ : Std.ExtTreeMap Nat Edit).size + 0 = 0
    rw [Std.ExtTreeMap.size_empty]
  rw [hstart, Nat.zero_add] at hround
  exact hround

theorem map_position_tokens (s : Script) :
    s.tokens.toList.map Token.position = List.range s.size := by
  apply List.ext_getElem
  · simp [Script.size]
  · intro i hi _
    rw [List.length_map, Array.length_toList] at hi
    simpa using s.numbered i hi

theorem get?_position_of_mem {t : Token} (ht : t ∈ s.tokens.toList) :
    s.get? t.position = some t := by
  obtain ⟨i, hi⟩ := List.mem_iff_getElem?.mp ht
  have hget : s.get? i = some t := by simpa [Script.get?] using hi
  rw [Script.position_of_get? hget, hget]

/-- The positions with an edit are those of the tokens that some edit fits. -/
theorem keys_chosen_perm (s : Script) (edits : List Edit) :
    (edits.foldl (Selection.add s) .start).chosen.keys.Perm
      ((s.tokens.toList.filter fun t => (firstFitting? edits t).isSome).map Token.position) := by
  have hpositions : (s.tokens.toList.map Token.position).Nodup := by
    rw [map_position_tokens]
    exact List.nodup_range
  refine (List.perm_ext_iff_of_nodup Std.ExtTreeMap.nodup_keys
    (hpositions.sublist (List.filter_sublist.map _))).mpr fun p => ?_
  rw [Std.ExtTreeMap.mem_keys, Std.ExtTreeMap.mem_iff_isSome_getElem?, List.mem_map]
  constructor
  · intro hchosen
    obtain ⟨e, he⟩ := Option.isSome_iff_exists.mp hchosen
    -- an edit that is made fits a token, and that token stands at its position
    have hsuits : e.position = p ∧ Selection.fits s e = true := by
      rw [Selection.getElem?_chosen] at he
      simpa [Selection.Suits] using List.find?_some he
    obtain ⟨t, ht, -⟩ := (Option.any_eq_true _ _).mp hsuits.2
    rw [hsuits.1] at ht
    refine ⟨t, List.mem_filter.mpr ⟨?_, ?_⟩, Script.position_of_get? ht⟩
    · exact Array.mem_toList_iff.mpr (Array.mem_of_getElem? ht)
    · rw [← getElem?_chosen_eq_firstFitting? ht, he]
      rfl
  · intro htoken
    obtain ⟨t, hmem, rfl⟩ := htoken
    obtain ⟨ht, hfirst⟩ := List.mem_filter.mp hmem
    rw [getElem?_chosen_eq_firstFitting? (get?_position_of_mem ht)]
    exact hfirst

/-- As many edits are made as there are tokens that some edit fits. -/
theorem size_chosen (s : Script) (edits : List Edit) :
    (edits.foldl (Selection.add s) .start).chosen.size
      = s.tokens.toList.countP fun t => (firstFitting? edits t).isSome := by
  rw [← Std.ExtTreeMap.length_keys, (keys_chosen_perm s edits).length_eq, List.length_map,
    List.countP_eq_length_filter]

/-! ## §3. A round. -/

theorem source_applyFixes (s : Script) (fs : List Finding) :
    (s.applyFixes fs).source
      = String.ofList (s.tokens.toList.flatMap (rendering (fs.filterMap Finding.fix))) := by
  show String.ofList (s.tokens.toList.flatMap _) = _
  rw [List.flatMap_def, List.flatMap_def]
  congr 2
  apply List.map_congr_left
  intro t ht
  exact textOf_eq_rendering (get?_position_of_mem ht)

theorem applied_applyFixes (s : Script) (fs : List Finding) :
    (s.applyFixes fs).applied
      = s.tokens.toList.countP fun t => (firstFitting? (fs.filterMap Finding.fix) t).isSome :=
  size_chosen s (fs.filterMap Finding.fix)

/-- **The order of the findings** matters among the edits of one position only. -/
theorem applyFixes_perm (s : Script) {fs gs : List Finding} (hperm : gs.Perm fs)
    (hedits : ∀ p, editsAt p gs = editsAt p fs) : s.applyFixes gs = s.applyFixes fs := by
  have hfirst : firstFitting? (gs.filterMap Finding.fix)
      = firstFitting? (fs.filterMap Finding.fix) :=
    funext fun t => firstFitting?_congr (hedits t.position)
  have hsource : (s.applyFixes gs).source = (s.applyFixes fs).source := by
    have hrendering : rendering (gs.filterMap Finding.fix)
        = rendering (fs.filterMap Finding.fix) := by
      funext t
      unfold rendering
      rw [hfirst]
    rw [source_applyFixes, source_applyFixes, hrendering]
  have happlied : (s.applyFixes gs).applied = (s.applyFixes fs).applied := by
    rw [applied_applyFixes, applied_applyFixes, hfirst]
  -- both rounds have the same number of edits to account for
  have hskipped : (s.applyFixes gs).skipped = (s.applyFixes fs).skipped := by
    have hgs := applied_add_skipped s gs
    have hfs := applied_add_skipped s fs
    rw [hperm.countP_eq] at hgs
    omega
  cases hg : s.applyFixes gs
  cases hf : s.applyFixes fs
  rw [hg, hf] at hsource happlied hskipped
  rw [Outcome.mk.injEq]
  exact ⟨hsource, happlied, hskipped⟩

/-- **A round makes the first fitting edit of each token.**  The text is that of the tokens in
their order, each with the first edit in the list that goes to its position and takes away no more
characters than it has, or as it is if there is none.  The tokens with such an edit are counted as
applied, and with the skipped edits they make up the findings that propose one.  Hence findings in
another order give the same outcome, if the edits of each position keep theirs. -/
theorem applyFixes_renders (s : Script) (fs : List Finding) :
    let edits := fs.filterMap Finding.fix
    (s.applyFixes fs).source = String.ofList (s.tokens.toList.flatMap (rendering edits))
      ∧ (s.applyFixes fs).applied
          = s.tokens.toList.countP (fun t => (firstFitting? edits t).isSome)
      ∧ (s.applyFixes fs).applied + (s.applyFixes fs).skipped = fs.countP Finding.isFixable
      ∧ ∀ gs : List Finding, gs.Perm fs → (∀ p, editsAt p gs = editsAt p fs) →
          s.applyFixes gs = s.applyFixes fs := by
  intro edits
  exact ⟨source_applyFixes s fs, applied_applyFixes s fs, applied_add_skipped s fs,
    fun gs hperm hedits => applyFixes_perm s hperm hedits⟩

/-- Five findings on three tokens, one of them beyond ASCII: the edit that comes first for the
first token is too long, the next one is made and the third comes too late; one edit goes nowhere.
In the other order the last token is served first. -/
theorem applyFixes_renders_reordered :
    let s := Script.ofText 4 "ab  été"
    let finding (e : Edit) : Finding := .pointingAt (s.tokenAt 0) .error "Test" .breakIndent "m" e
    let long := finding (.trimStart 0 5)
    let made := finding (.trimStart 0 1)
    let late := finding (.insertBefore 0 "x")
    let away := finding (.insertBefore 9 "x")
    let last := finding ⟨2, 2, "x"⟩
    let fs := [long, made, late, away, last]
    let gs := [last, long, away, made, late]
    (gs.Perm fs ∧ ∀ p, editsAt p gs = editsAt p fs)
      ∧ s.applyFixes gs = s.applyFixes fs
      ∧ (s.applyFixes fs).source = "b  xé"
      ∧ (s.applyFixes fs).applied = 2 ∧ (s.applyFixes fs).skipped = 3 := by
  intro s finding long made late away last fs gs
  have hperm : gs.Perm fs := by decide +kernel
  have hedits : ∀ p, editsAt p gs = editsAt p fs := by
    intro p
    show [(⟨2, 2, "x"⟩ : Edit), ⟨0, 5, ""⟩, ⟨9, 0, "x"⟩, ⟨0, 1, ""⟩, ⟨0, 0, "x"⟩].filter _
      = [(⟨0, 5, ""⟩ : Edit), ⟨0, 1, ""⟩, ⟨0, 0, "x"⟩, ⟨9, 0, "x"⟩, ⟨2, 2, "x"⟩].filter _
    simp only [List.filter_cons, List.filter_nil, decide_eq_true_eq]
    split_ifs <;> first | rfl | omega
  refine ⟨⟨hperm, hedits⟩, (applyFixes_renders s fs).2.2.2 gs hperm hedits, ?_⟩
  decide +kernel

end SwitchLayout
