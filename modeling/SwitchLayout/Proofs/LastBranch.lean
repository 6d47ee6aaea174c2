/-
  SwitchLayout.Proofs.LastBranch
  ──────────────────────────────
  **Which `default` is noticed that is not the last branch.**

  The rule never compares the places of branches.  It takes a `default` for the last branch when
  its scope ends at the brace of the switch; but a `default` that falls through ends where the
  branches below it end, and that may be the brace as well.

    • `RunsOut` — nothing behind a branch leaves it, however far it falls through,
    • `branchEnd?_eq_closer` — a branch that ends with the body runs to its brace or into the next
      branch, and that one ends with the body too,
    • `closer_eq_iff_runsOut` — so a branch ends with the body exactly when it runs out, by
      induction over the branches below,
    • `flaws_default_iff` — a `default` is noticed exactly when it ends elsewhere.

  The whole check: `checkText_notices_default_iff`.
-/
import SwitchLayout.Proofs.Casing
import SwitchLayout.Proofs.Ownership

namespace SwitchLayout

namespace Script

/-! ## §1. Branches that end with the body. -/

/-- Nothing leaves the branch at `b` of the body from `o` to `c`, whose label ends at `e`: no exit
stands behind its label, and every branch below has a plain label, so that it falls through all
of them. -/
structure RunsOut (s : Script) (o c b e : Nat) : Prop where
  exits : ∀ t ∈ s.exits o c, ¬ e < t
  labels : ∀ x ∈ s.branchesIn s.brackets o c, b < x → s.Labelled o c x

/-- Between `e` and `n` nothing on the top level of the body ends a branch. -/
def Clear (s : Script) (o c e n : Nat) : Prop :=
  ∀ t ∈ s.brackets.topLevel (o + 1) c, e < t → t < n → endsBranch (s.kindAt t) = false

section Ends

variable {s : Script} {o c b e n : Nat} {a : Scope}

theorem Clear.le_of_exit (h : s.Clear o c e n) {t : Nat} (ht : t ∈ s.exits o c) (het : e < t) :
    n ≤ t := by
  obtain ⟨htop, hleaves, _⟩ := mem_exits_iff.mp ht
  by_contra htn
  have hends := h t htop het (by omega)
  rw [endsBranch_eq, hleaves] at hends
  cases hends

theorem Clear.le_of_branch (h : s.Clear o c e n) {x : Nat}
    (hx : x ∈ s.branchesIn s.brackets o c) (hex : e < x) : n ≤ x := by
  obtain ⟨htop, hkind⟩ := List.mem_filter.mp hx
  by_contra hxn
  have hends := h x htop hex (by omega)
  rw [endsBranch_eq, hkind, Bool.or_true] at hends
  cases hends

/-- How detection comes to the scope of a branch. -/
theorem branchScope?_parts {front below : List Nat} {later : List Scope}
    (hsplit : s.branchesIn s.brackets o c = front ++ b :: below)
    (h : s.branchScope? s.brackets b (below.head?.getD c) c later = some a) :
    b ∈ s.branchesIn s.brackets o c ∧ s.labelOf? o c b = some a.opener
      ∧ (if s.kindAt a.opener = .openBrace then s.brackets.groupEnd? a.opener
          else s.branchEnd? s.brackets a.opener c later) = some a.closer := by
  rw [branchScope?_eq, ← nextBranch_of_append hsplit] at h
  obtain ⟨opener, hopener, hrest⟩ := Option.bind_eq_some_iff.mp h
  obtain ⟨closer, hcloser, rfl⟩ := Option.map_eq_some_iff.mp hrest
  refine ⟨?_, hopener, hcloser⟩
  rw [hsplit]
  exact List.mem_append_right front List.mem_cons_self

/-- A label that ends in no brace ends in a colon or a semicolon. -/
theorem labelled_of_labelOf? (he : s.labelOf? o c b = some e) (hbrace : s.kindAt e ≠ .openBrace) :
    s.Labelled o c b := by
  refine ⟨e, he, ?_⟩
  have hends := (labelEnd?_eq_some he).2
  revert hends hbrace
  cases s.kindAt e <;> decide

/-- **One branch.**  A branch that ends with the body finds its way to the brace clear, or the way
to another branch, which ends with the body too. -/
theorem branchEnd?_eq_closer {later : List Scope} (hb : b ∈ s.branchesIn s.brackets o c)
    (he : s.labelOf? o c b = some e) (hbrace : s.kindAt e ≠ .openBrace)
    (h : s.branchEnd? s.brackets e c later = some c) :
    s.Clear o c e c
      ∨ ∃ a ∈ later, s.Clear o c e a.condition ∧ a.closer = c := by
  obtain ⟨hbe, hec, hout, _⟩ := labelOf?_eq_some hb he
  have hob := (mem_branchesIn_iff.mp hb).1
  have hway : ∀ {t : Nat}, t ∈ s.brackets.topLevel (o + 1) c → e < t →
      t ∈ s.brackets.topLevel (e + 1) c := fun ht het =>
    (mem_topLevel_behind (opens?_of_endsLabel (labelEnd?_eq_some he).2 hbrace) (by omega) hout
      het).mpr ht
  unfold branchEnd? at h
  split at h
  · rename_i hnone
    refine .inl fun t ht het _ => ?_
    exact Bool.eq_false_iff.mpr (List.find?_eq_none.mp hnone t (hway ht het))
  · rename_i n hfind
    obtain ⟨hen, hnc, _⟩ := (mem_topLevel_iff (wellNested_brackets s) _ _ _).mp
      (List.mem_of_find?_eq_some hfind)
    split at h
    · obtain ⟨a, hfound, hcloser⟩ := Option.map_eq_some_iff.mp h
      obtain rfl : a.condition = n := by simpa using List.find?_some hfound
      refine .inr ⟨a, List.mem_of_find?_eq_some hfound, fun t ht het htn => ?_, hcloser⟩
      -- what ends a branch in front of this one would have been found first
      by_contra hends
      have hle := le_of_find?_eq_some (topLevel_sorted _ _ _).1 hfind (hway ht het)
        (Bool.eq_true_of_not_eq_false hends)
      omega
    · -- the statement found would be the brace of the body
      have heq : n = c := Option.some.inj h
      omega

/-- The scope of the first of the branches comes from that branch. -/
theorem branchScope?_of_condition_eq {below : List Nat}
    (hsorted : (b :: below).Pairwise (· < ·))
    (ha : a ∈ s.branchScopes s.brackets c (b :: below)) (hcond : a.condition = b) :
    s.branchScope? s.brackets b (below.head?.getD c) c (s.branchScopes s.brackets c below)
      = some a := by
  obtain ⟨hhead, htail⟩ := List.pairwise_cons.mp hsorted
  rw [branchScopes, List.mem_append, Option.mem_toList] at ha
  rcases ha with ha | ha
  · have hlt := hhead _ (opener_lt_of_mem_branchScopes htail ha).1
    omega
  · exact ha

/-- A branch with a clear way to the brace runs out. -/
theorem runsOut_of_clear (hb : b ∈ s.branchesIn s.brackets o c) (he : s.labelOf? o c b = some e)
    (hclear : s.Clear o c e c) : s.RunsOut o c b e where
  exits := fun t ht het => by
    have hle := hclear.le_of_exit ht het
    obtain ⟨_, htc, _⟩ := (mem_topLevel_iff (wellNested_brackets s) _ _ _).mp
      (mem_exits_iff.mp ht).1
    omega
  labels := fun x hx hbx => by
    have hle := hclear.le_of_branch hx ((labelOf?_eq_some hb he).2.2.2 x hx hbx)
    have hxc := (mem_branchesIn_iff.mp hx).2.1
    omega

/-- A branch with a clear way to the next one runs out if that one does. -/
theorem RunsOut.step {e' : Nat} (hb : b ∈ s.branchesIn s.brackets o c)
    (he : s.labelOf? o c b = some e) (hn : n ∈ s.branchesIn s.brackets o c)
    (he' : s.labelOf? o c n = some e') (hbrace : s.kindAt e' ≠ .openBrace)
    (hclear : s.Clear o c e n) (h : s.RunsOut o c n e') : s.RunsOut o c b e where
  exits := fun t ht het => by
    -- the label of the next branch holds no exit
    have hle := hclear.le_of_exit ht het
    have hnot := (mem_exits_iff.mp ht).2.2 n hn e' he'
    exact h.exits t ht (by omega)
  labels := fun x hx hbx => by
    have hle := hclear.le_of_branch hx ((labelOf?_eq_some hb he).2.2.2 x hx hbx)
    rcases Nat.eq_or_lt_of_le hle with rfl | hlt
    · exact labelled_of_labelOf? he' hbrace
    · exact h.labels x hx hlt

/-- **A branch that ends with the body runs out.** -/
theorem runsOut_of_closer_eq (hgroup : s.brackets.groupEnd? o = some c) (below : List Nat) :
    ∀ (front : List Nat) (b : Nat) (a : Scope),
      s.branchesIn s.brackets o c = front ++ b :: below →
      s.branchScope? s.brackets b (below.head?.getD c) c (s.branchScopes s.brackets c below)
        = some a →
      s.kindAt a.opener ≠ .openBrace → a.closer = c → s.RunsOut o c b a.opener := by
  -- over the branches below: the next one takes the place of `b`, which moves to the front
  induction below with
  | nil =>
      intro front b a hsplit hscope hbrace hcloser
      obtain ⟨hb, he, hend⟩ := branchScope?_parts hsplit hscope
      rw [if_neg hbrace, hcloser] at hend
      rcases branchEnd?_eq_closer hb he hbrace hend with hclear | ⟨_, hnone, _⟩
      · exact runsOut_of_clear hb he hclear
      · cases hnone
  | cons n rest ih =>
      intro front b a hsplit hscope hbrace hcloser
      obtain ⟨hb, he, hend⟩ := branchScope?_parts hsplit hscope
      rw [if_neg hbrace, hcloser] at hend
      rcases branchEnd?_eq_closer hb he hbrace hend with hclear | ⟨a', ha', hclear, hcloser'⟩
      · exact runsOut_of_clear hb he hclear
      · have hsplit' : s.branchesIn s.brackets o c = (front ++ [b]) ++ n :: rest := by
          rw [hsplit, List.append_assoc]
          rfl
        have hsorted := branchesIn_sorted s o c
        rw [hsplit'] at hsorted
        have htail := (List.pairwise_append.mp hsorted).2.1
        have hbn := (List.pairwise_append.mp hsorted).2.2 b (by simp) n List.mem_cons_self
        have hn : n ∈ s.branchesIn s.brackets o c := by
          rw [hsplit']
          exact List.mem_append_right _ List.mem_cons_self
        -- the branch with the clear way is the next one
        have hcond : a'.condition = n := by
          have hle := hclear.le_of_branch hn ((labelOf?_eq_some hb he).2.2.2 n hn hbn)
          rcases List.mem_cons.mp (opener_lt_of_mem_branchScopes htail ha').1 with heq | hmem
          · exact heq
          · have hnm := (List.pairwise_cons.mp htail).1 _ hmem
            omega
        rw [hcond] at hclear
        have hscope' := branchScope?_of_condition_eq htail ha' hcond
        obtain ⟨_, he', hend'⟩ := branchScope?_parts hsplit' hscope'
        have hbrace' : s.kindAt a'.opener ≠ .openBrace := by
          intro hbrace'
          rw [if_pos hbrace', hcloser'] at hend'
          -- the brace of its block would be the brace of the body
          have heq := groupEnd?_inj hgroup hend'
          have hon := (mem_branchesIn_iff.mp hn).1
          have hno := (labelOf?_eq_some hn he').1
          omega
        exact (ih (front ++ [b]) n a' hsplit' hscope' hbrace' hcloser').step hb he hn he' hbrace'
          hclear

/-- The scope of a branch comes from that branch and the scopes of those below. -/
theorem exists_branchScope? {branches : List Nat}
    (ha : a ∈ s.branchScopes s.brackets c branches) :
    ∃ front below, branches = front ++ a.condition :: below
      ∧ s.branchScope? s.brackets a.condition (below.head?.getD c) c
          (s.branchScopes s.brackets c below) = some a := by
  induction branches with
  | nil => cases ha
  | cons b below ih =>
      rw [branchScopes, List.mem_append, Option.mem_toList] at ha
      rcases ha with ha | ha
      · obtain ⟨front, below', hsplit, hscope⟩ := ih ha
        exact ⟨b :: front, below', by rw [hsplit]; rfl, hscope⟩
      · obtain rfl : a.condition = b := by
          rw [branchScope?_eq] at ha
          obtain ⟨opener, _, hrest⟩ := Option.bind_eq_some_iff.mp ha
          obtain ⟨closer, _, rfl⟩ := Option.map_eq_some_iff.mp hrest
          rfl
        exact ⟨[], below, rfl, ha⟩

/-- **Where a branch with a plain label ends.**  It ends with the body exactly when it runs out. -/
theorem closer_eq_iff_runsOut {q : Nat} {body : Scope}
    (hbody : s.bodyScope? s.brackets q = some body) (ha : a ∈ s.branchScopesOf body)
    (hbrace : s.kindAt a.opener ≠ .openBrace) :
    a.closer = body.closer ↔ s.RunsOut body.opener body.closer a.condition a.opener := by
  obtain ⟨front, below, hsplit, hscope⟩ := exists_branchScope? ha
  constructor
  · exact runsOut_of_closer_eq (bodyScope?_eq_some hbody).2.2 below front _ a hsplit hscope hbrace
  · intro h
    obtain ⟨_, he, _⟩ := branchScope?_parts hsplit hscope
    have hsorted := branchesIn_sorted s body.opener body.closer
    rw [hsplit] at hsorted
    have hlabels : ∀ x ∈ a.condition :: below, s.Labelled body.opener body.closer x := by
      intro x hx
      rcases List.mem_cons.mp hx with rfl | hbelow
      · exact labelled_of_labelOf? he hbrace
      · refine h.labels x ?_ ?_
        · rw [hsplit]
          exact List.mem_append_right front hx
        · exact (List.pairwise_cons.mp (List.pairwise_append.mp hsorted).2.1).1 x hbelow
    have hmem : a ∈ s.branchScopes s.brackets body.closer (a.condition :: below) := by
      rw [branchScopes, List.mem_append, Option.mem_toList]
      exact .inr hscope
    rw [((branchScopes_eq_exitBehind _ hlabels front hsplit).2 a hmem).2]
    rcases s.exitBehind_cases body.opener body.closer a.opener with ⟨hexit, hlt⟩ | ⟨heq, _⟩
    · exact absurd hlt (h.exits _ hexit)
    · exact heq

end Ends

end Script

/-! ## §2. What is found on the end of a `default`. -/

/-- The code is one on the end of a `default`. -/
def Code.OnDefaultEnd (code : Code) : Prop := code = .defaultNoBreak ∨ code = .defaultNotLast

theorem Code.OnDefaultEnd.not_mem {code : Code} {codes : List Code} (h : code.OnDefaultEnd)
    (hbreak : .defaultNoBreak ∉ codes) (hlast : .defaultNotLast ∉ codes) : code ∉ codes := by
  rcases h with rfl | rfl
  · exact hbreak
  · exact hlast

theorem Code.OnDefaultEnd.site {code : Code} (h : code.OnDefaultEnd) : code.site = .branch := by
  rcases h with rfl | rfl <;> rfl

namespace SwitchBody

variable {b : SwitchBody} {i : Nat} {f : Finding} {label : Scope}

theorem mem_branchFindings_of_default {is : List Nat} (hi : i ∈ is)
    (hkind : b.script.kindAt i = .defaultKw) (hf : f ∈ b.defaultFindings i) (seen : Bool) :
    f ∈ b.branchFindings seen is := by
  induction is generalizing seen with
  | nil => cases hi
  | cons j is ih =>
      unfold branchFindings
      rcases List.mem_cons.mp hi with rfl | hi
      · rw [if_pos (show b.isDefault i = true from beq_iff_eq.mpr hkind)]
        exact List.mem_append_left _ (List.mem_append_right _ hf)
      · split
        · exact List.mem_append_right _ (ih hi true)
        · exact List.mem_append_right _ (ih hi seen)

theorem mem_defaultFindings_of_end (hcode : f.code.OnDefaultEnd) (hf : f ∈ b.defaultFindings i) :
    ∃ label, b.table.scopeOf? i = some label ∧ f ∈ b.defaultEndFindings i label := by
  unfold defaultFindings at hf
  rcases List.mem_append.mp hf with hf | hf
  · exact absurd hf (not_mem_of_codes (codes_labelFindings b _ i)
      (hcode.not_mem (by decide) (by decide)))
  · split at hf
    · cases hf
    · rename_i label hlabel
      rcases List.mem_append.mp hf with hf | hf
      · exact absurd hf (not_mem_of_codes (codes_openerFindings b _ i label)
          (hcode.not_mem (by decide) (by decide)))
      · exact ⟨label, hlabel, hf⟩

/-- **The findings on the end of a `default`.** -/
theorem mem_findings_iff_default (hcode : f.code.OnDefaultEnd) :
    f ∈ b.findings ↔ ∃ i ∈ b.branches, b.script.kindAt i = .defaultKw
      ∧ ∃ label, b.table.scopeOf? i = some label ∧ f ∈ b.defaultEndFindings i label := by
  rw [findings_eq, List.mem_append]
  constructor
  · rintro (hf | hf)
    · obtain ⟨i, hi, ⟨hkind, seen, hf⟩ | ⟨_, next, hf⟩⟩ := exists_of_mem_branchFindings hf
      · rcases List.mem_append.mp hf with hf | hf
        · exact absurd hf (not_mem_of_codes (codes_reportIf b seen _ i)
            (hcode.not_mem (by decide) (by decide)))
        · exact ⟨i, hi, hkind, mem_defaultFindings_of_end hcode hf⟩
      · exact absurd hf (not_mem_of_codes (codes_caseFindings b i next)
          (hcode.not_mem (by decide) (by decide)))
    · -- the other findings on the switch point elsewhere
      rcases (belongs_of_frame hf).2 with h | h <;> (rw [hcode.site] at h; cases h)
  · rintro ⟨i, hi, hkind, label, hlabel, hf⟩
    refine .inl (mem_branchFindings_of_default hi hkind ?_ false)
    unfold defaultFindings
    rw [hlabel]
    exact List.mem_append_right _ (List.mem_append_right _ hf)

/-- A `default` that ends at the brace of the switch is not at fault. -/
theorem closer_ne_of_defaultEnd (hbrace : b.script.kindAt b.scope.closer = .closeBrace)
    (hf : f ∈ b.defaultEndFindings i label) :
    label.closer ≠ b.scope.closer ∧ f.position = (b.script.tokenAt i).position := by
  unfold defaultEndFindings at hf
  dsimp only at hf
  split at hf
  · rename_i hbreak
    rw [List.mem_singleton.mp hf]
    refine ⟨fun heq => ?_, rfl⟩
    rw [heq, hbrace] at hbreak
    cases hbreak
  · unfold reportIf at hf
    split at hf
    · rename_i hfound
      rw [Bool.and_eq_true, Bool.and_eq_true, bne_iff_ne] at hfound
      rw [List.mem_singleton.mp hf]
      exact ⟨hfound.1.1, rfl⟩
    · cases hf

/-- A `default` that ends elsewhere is, unless it leaves the switch by another statement than
`break`. -/
theorem exists_defaultEnd (hne : label.closer ≠ b.scope.closer)
    (hstays : b.script.kindAt label.closer ∉
      [TokenKind.throwKw, .exitKw, .continueKw, .returnKw]) :
    ∃ f ∈ b.defaultEndFindings i label,
      f.code.OnDefaultEnd ∧ f.position = (b.script.tokenAt i).position := by
  unfold defaultEndFindings
  dsimp only
  split
  · exact ⟨_, List.mem_singleton_self _, .inl rfl, rfl⟩
  · rename_i hbreak
    have hkind : (b.script.kindAt label.closer).isTerminator = false
        ∧ b.script.kindAt label.closer ≠ .exitKw := by
      revert hbreak hstays
      cases b.script.kindAt label.closer <;> decide
    have hfound : (label.closer != b.scope.closer
        && !(b.script.kindAt label.closer).isTerminator
        && b.script.kindAt label.closer != .exitKw) = true := by
      rw [hkind.1, bne_iff_ne.mpr hne, bne_iff_ne.mpr hkind.2]
      rfl
    rw [hfound]
    exact ⟨_, List.mem_singleton_self _, .inr rfl, rfl⟩

end SwitchBody

/-! ## §3. The check. -/

/-- The `default` at `d`, with the scope `label`, of the switch at `q`, with the scope `body`, is
not its last branch, and no statement but a `break` leaves it. -/
structure Script.EarlyDefault (s : Script) (q d : Nat) (body label : Scope) : Prop where
  switch : s.kindAt q = .switchKw
  scope : s.scopeTable.scopeOf? q = some body
  branch : d ∈ s.branchesIn s.brackets body.opener body.closer
  keyword : s.kindAt d = .defaultKw
  stretch : s.scopeTable.scopeOf? d = some label
  colon : s.kindAt label.opener = .colon
  early : ∃ x ∈ s.branchesIn s.brackets body.opener body.closer, d < x
  stays : s.kindAt label.closer ∉ [TokenKind.throwKw, .exitKw, .continueKw, .returnKw]

namespace Script

variable {s : Script} {settings : Settings} {q d : Nat} {body label : Scope}

/-- **A `default` is noticed exactly when it does not end with the switch.** -/
theorem flaws_default_iff (hall : settings.suppressed = []) (h : s.EarlyDefault q d body label) :
    (∃ f ∈ s.flaws settings, f.position = d ∧ f.code.OnDefaultEnd) ↔
      label.closer ≠ body.closer := by
  obtain ⟨hmem, rfl⟩ := scopeOf?_scopeTable_iff.mp h.scope
  have hswitch : s.IsSwitch body := ⟨hmem, h.switch⟩
  have hd : d ∈ (s.body settings.indent body).branches :=
    mem_branches_of_mem_branchesIn hswitch h.branch
  have hplace : ∀ {i : Nat} {scope : Scope}, i ∈ (s.body settings.indent scope).branches →
      (s.tokenAt i).position = i := fun hi =>
    position_tokenAt_of_lt ((SwitchBody.branchesFrom_spec _ _).2 _ hi).2.2.1
  have hsite : ∀ {f : Finding}, f.code.OnDefaultEnd → f.code.site ≠ .scopeEnd := by
    intro f hcode
    rw [hcode.site]
    nofun
  constructor
  · rintro ⟨f, hf, hposition, hcode⟩
    obtain ⟨scope, hscope, hfound⟩ :=
      (mem_standard_iff_switch (hsite hcode)).mp (mem_flaws_iff.mp hf).1
    obtain ⟨i, hi, _, label', hlabel', hend⟩ :=
      (SwitchBody.mem_findings_iff_default hcode).mp hfound
    obtain ⟨hne, hposition'⟩ := SwitchBody.closer_ne_of_defaultEnd
      (b := s.body settings.indent scope)
      (kindAt_closer_of_body hscope.bodyScope?) hend
    -- the finding is on this `default`, in this switch
    obtain rfl : i = d := (hplace hi).symm.trans (hposition'.symm.trans hposition)
    obtain rfl := scope_eq_of_mem_branches hswitch hscope hd hi
    obtain rfl : label = label' := Option.some.inj (h.stretch.symm.trans hlabel')
    exact hne
  · intro hne
    obtain ⟨f, hf, hcode, hposition⟩ :=
      SwitchBody.exists_defaultEnd (b := s.body settings.indent body) hne h.stays
    refine ⟨f, mem_flaws_iff.mpr ⟨?_, ?_⟩, hposition.trans (hplace hd), hcode⟩
    · exact (mem_standard_iff_switch (hsite hcode)).mpr ⟨body, hswitch,
        (SwitchBody.mem_findings_iff_default hcode).mpr ⟨d, hd, h.keyword, label, h.stretch, hf⟩⟩
    · unfold Settings.suppresses
      rw [hall]
      rfl

/-- Where such a `default` ends. -/
theorem EarlyDefault.closer_eq_iff (h : s.EarlyDefault q d body label) :
    label.closer = body.closer ↔ s.RunsOut body.opener body.closer d label.opener := by
  obtain ⟨hmem, rfl⟩ := scopeOf?_scopeTable_iff.mp h.scope
  obtain ⟨hlabel, rfl⟩ := scopeOf?_scopeTable_iff.mp h.stretch
  have hswitch : s.IsSwitch body := ⟨hmem, h.switch⟩
  have hbranches : label.condition ∈ (s.body 0 body).branches :=
    mem_branches_of_mem_branchesIn hswitch h.branch
  refine closer_eq_iff_runsOut hswitch.bodyScope?
    (mem_branchScopesOf_of_mem_branches hswitch hlabel hbranches) ?_
  rw [h.colon]
  decide

end Script

/-- **Which early `default` is noticed.**  A `default` whose label ends in a colon, which is not the
last branch of its switch and which no statement but a `break` leaves, is reported exactly when
something behind it ends it: a statement on the top level of the switch that leaves a branch, or a
label that ends neither in a colon nor in a semicolon.  If it falls through to the brace of the
switch, nothing is said. -/
theorem checkText_notices_default_iff {settings : Settings} {text : String} {s : Script}
    {q d : Nat} {body label : Scope} (hindent : 1 ≤ settings.indent)
    (hall : settings.suppressed = []) (hread : Script.read settings.tabWidth text = .ok s)
    (h : s.EarlyDefault q d body label) :
    ∃ fs, checkText text settings = .ok fs
      ∧ ((∃ f ∈ fs, f.position = d ∧ (f.code = .defaultNoBreak ∨ f.code = .defaultNotLast)) ↔
          (∃ t ∈ s.exits body.opener body.closer, label.opener < t)
            ∨ ∃ x ∈ s.branchesIn s.brackets body.opener body.closer,
                d < x ∧ ¬ s.Labelled body.opener body.closer x) := by
  refine ⟨s.flaws settings, checkText_of_read hindent hread, ?_⟩
  have hnoticed := Script.flaws_default_iff hall h
  unfold Code.OnDefaultEnd at hnoticed
  rw [hnoticed, ne_eq, h.closer_eq_iff]
  constructor
  · intro hnot
    by_contra hnone
    rw [not_or] at hnone
    refine hnot ⟨fun t ht het => hnone.1 ⟨t, ht, het⟩, fun x hx hdx => ?_⟩
    by_contra hlabel
    exact hnone.2 ⟨x, hx, hdx, hlabel⟩
  · rintro (⟨t, ht, het⟩ | ⟨x, hx, hdx, hlabel⟩) hruns
    · exact hruns.exits t ht het
    · exact hlabel (hruns.labels x hx hdx)

/-- A `default` in front of a case that runs to the brace of the switch.  Nothing is found on it,
nor anything else. -/
theorem checkText_notices_default_iff_fallthrough :
    let settings := Settings.standard
    let text := "switch ($x) \x7b\n    default:\n    case 1:\n        b();\n\x7d\n"
    let s := Script.ofText 4 text
    let body : Scope := ⟨0, 6, 24⟩
    let label : Scope := ⟨9, 10, 24⟩
    (1 ≤ settings.indent ∧ settings.suppressed = []
        ∧ Script.read settings.tabWidth text = .ok s ∧ s.EarlyDefault 0 9 body label)
      ∧ checkText text settings = .ok []
      ∧ ∃ fs, checkText text settings = .ok fs
          ∧ ((∃ f ∈ fs, f.position = 9 ∧ (f.code = .defaultNoBreak ∨ f.code = .defaultNotLast)) ↔
              (∃ t ∈ s.exits body.opener body.closer, label.opener < t)
                ∨ ∃ x ∈ s.branchesIn s.brackets body.opener body.closer,
                    9 < x ∧ ¬ s.Labelled body.opener body.closer x) := by
  intro settings text s body label
  obtain ⟨hok, hclean, hswitch, hscope, hbranch, hkeyword, hstretch, hcolon, hearly, hstays⟩ :
      (Script.read settings.tabWidth text).isOk = true ∧ s.flaws settings = []
        ∧ s.kindAt 0 = .switchKw ∧ s.scopeTable.scopeOf? 0 = some body
        ∧ 9 ∈ s.branchesIn s.brackets body.opener body.closer ∧ s.kindAt 9 = .defaultKw
        ∧ s.scopeTable.scopeOf? 9 = some label ∧ s.kindAt label.opener = .colon
        ∧ (∃ x ∈ s.branchesIn s.brackets body.opener body.closer, 9 < x)
        ∧ s.kindAt label.closer ∉ [TokenKind.throwKw, .exitKw, .continueKw, .returnKw] := by
    decide +kernel
  have hread : Script.read settings.tabWidth text = .ok s := Script.read_ofText hok
  have hdefault : s.EarlyDefault 0 9 body label :=
    ⟨hswitch, hscope, hbranch, hkeyword, hstretch, hcolon, hearly, hstays⟩
  refine ⟨⟨by decide, rfl, hread, hdefault⟩, ?_,
    checkText_notices_default_iff (by decide) rfl hread hdefault⟩
  rw [checkText_of_read (by decide) hread, hclean]

end SwitchLayout
