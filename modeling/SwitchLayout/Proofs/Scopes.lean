/-
  SwitchLayout.Proofs.Scopes
  ──────────────────────────
  **The table of a script loses no scope.**

  Detection hands its scopes to a table that may refuse them.  It never does: a detected scope
  is in order (`ordered_of_mem_detectedScopes`), and no two of them have one condition
  (`nodup_conditions`).  The latter is the point: two switches never see the same label,
  because each has a brace of its own and a label inside the inner braces stands in a group of
  the outer ones.

  The rest follows from what a run of insertions does to the three maps of a table
  (`insertAll_eq_ok`): `scopeOf?_scopeTable_iff` says that the table knows exactly the detected
  scopes, and `checkBounds_scopeTable` that it fits its script.
-/
import SwitchLayout.Proofs.Nesting
import SwitchLayout.Scope.Detect
import Mathlib.Data.List.Nodup

namespace SwitchLayout

/-- A closing bracket is neither layout nor comment. -/
theorem TokenKind.isTrivia_of_closes {k : TokenKind} (h : k.closes?.isSome = true) :
    k.isTrivia = false := by
  revert h
  cases k <;> decide

/-- A keyword that owns a body starts no branch. -/
theorem TokenKind.isBranch_of_ownsBody {k : TokenKind} (h : k.ownsBody = true) :
    k.isBranch = false := by
  revert h
  cases k <;> decide

namespace Script

/-! ## §1. Bodies. -/

theorem next?_eq_some_iff {s : Script} {p : TokenKind → Bool} {start stop i : Nat} :
    s.next? p start stop = some i ↔
      start ≤ i ∧ i < stop ∧ i < s.size ∧ p (s.kindAt i) = true
        ∧ ∀ j, start ≤ j → j < i → p (s.kindAt j) = false := by
  unfold next?
  rw [firstIn?_eq_some_iff, Nat.lt_min]
  constructor
  · rintro ⟨hlo, ⟨hstop, hsize⟩, hi, hleast⟩
    exact ⟨hlo, hstop, hsize, hi, hleast⟩
  · rintro ⟨hlo, hstop, hsize, hi, hleast⟩
    exact ⟨hlo, ⟨hstop, hsize⟩, hi, hleast⟩

/-- The next token that is neither layout nor comment has only such tokens in front of it. -/
theorem significant?_eq_some {s : Script} {i j : Nat} (h : s.significant? i = some j) :
    i ≤ j ∧ (s.kindAt j).isTrivia = false ∧ ∀ k, i ≤ k → k < j → (s.kindAt k).isTrivia = true := by
  obtain ⟨hlo, _, _, hj, hleast⟩ := next?_eq_some_iff.mp h
  refine ⟨hlo, by simpa using hj, fun k hk hkj => ?_⟩
  have hk' := hleast k hk hkj
  simpa using hk'

theorem braceAfter?_eq_some {s : Script} {i o : Nat} (h : s.braceAfter? i = some o) :
    s.significant? (i + 1) = some o ∧ s.kindAt o = .openBrace := by
  unfold braceAfter? at h
  obtain ⟨hsig, hkind⟩ := Option.filter_eq_some_iff.mp h
  exact ⟨hsig, by simpa using hkind⟩

/-- The head of a keyword whose body follows a group in parentheses. -/
theorem braceAfterParens?_eq_some {s : Script} {b : Brackets} {i o : Nat}
    (h : s.braceAfterParens? b i = some o) :
    ∃ p e, s.significant? (i + 1) = some p ∧ s.kindAt p = .openParen
      ∧ b.groupEnd? p = some e ∧ s.braceAfter? e = some o := by
  unfold braceAfterParens? at h
  obtain ⟨p, hp, hrest⟩ := Option.bind_eq_some_iff.mp h
  obtain ⟨e, he, hbrace⟩ := Option.bind_eq_some_iff.mp hrest
  obtain ⟨hsig, hkind⟩ := Option.filter_eq_some_iff.mp hp
  exact ⟨p, e, hsig, by simpa using hkind, he, hbrace⟩

theorem declarationBrace?_eq_some {s : Script} {b : Brackets} {is : List Nat} {o : Nat}
    (h : s.declarationBrace? b is = some o) : o ∈ is ∧ s.kindAt o = .openBrace := by
  induction is with
  | nil => cases h
  | cons i is ih =>
      have hgo : s.declarationBrace? b is = some o → o ∈ i :: is ∧ s.kindAt o = .openBrace := by
        intro hrest
        exact ⟨List.mem_cons_of_mem i (ih hrest).1, (ih hrest).2⟩
      unfold declarationBrace? at h
      split at h
      · rename_i hkind
        cases h
        exact ⟨List.mem_cons_self, hkind⟩
      · split at h
        · exact hgo h
        · cases h
      · split at h
        · exact hgo h
        · cases h
      · cases h
      · cases h
      · cases h
      · cases h
      · split at h
        · cases h
        · exact hgo h
      · exact hgo h

/-- The brace of a body stands behind its keyword. -/
theorem bodyBrace?_eq_some {s : Script} {i o : Nat} (h : s.bodyBrace? s.brackets i = some o) :
    i < o ∧ s.kindAt o = .openBrace := by
  have hafter : ∀ {k : Nat}, i ≤ k → s.braceAfter? k = some o →
      i < o ∧ s.kindAt o = .openBrace := by
    intro k hk hbrace
    obtain ⟨hsig, hkind⟩ := braceAfter?_eq_some hbrace
    have hle := (significant?_eq_some hsig).1
    exact ⟨by omega, hkind⟩
  unfold bodyBrace? at h
  split at h
  · obtain ⟨p, e, hp, _, he, hbrace⟩ := braceAfterParens?_eq_some h
    have hle := (significant?_eq_some hp).1
    have hlt := Brackets.lt_of_groupEnd? he
    exact hafter (by omega) hbrace
  · exact hafter (Nat.le_refl i) h
  · obtain ⟨hmem, hkind⟩ := declarationBrace?_eq_some h
    have hle := (topLevel_sorted s.brackets (i + 1) s.size).2 o hmem
    exact ⟨by omega, hkind⟩

theorem bodyScope?_eq_some {s : Script} {i : Nat} {body : Scope}
    (h : s.bodyScope? s.brackets i = some body) :
    body.condition = i ∧ s.bodyBrace? s.brackets i = some body.opener
      ∧ s.brackets.groupEnd? body.opener = some body.closer := by
  unfold bodyScope? at h
  obtain ⟨o, ho, hrest⟩ := Option.bind_eq_some_iff.mp h
  obtain ⟨c, hc, hbody⟩ := Option.bind_eq_some_iff.mp hrest
  cases hbody
  exact ⟨rfl, ho, hc⟩

/-- The head of a switch: only layout and comments stand beside the group in parentheses. -/
theorem switchHead {s : Script} {i : Nat} {body : Scope} (hkind : s.kindAt i = .switchKw)
    (h : s.bodyScope? s.brackets i = some body) :
    ∃ p e, s.significant? (i + 1) = some p ∧ s.brackets.groupEnd? p = some e
      ∧ s.significant? (e + 1) = some body.opener := by
  obtain ⟨_, hbrace, _⟩ := bodyScope?_eq_some h
  have hform : (s.tokenAt i).bodyForm = .afterParens := by
    unfold Token.bodyForm
    exact if_pos hkind
  unfold bodyBrace? at hbrace
  rw [hform] at hbrace
  obtain ⟨p, e, hp, _, he, hafter⟩ := braceAfterParens?_eq_some hbrace
  exact ⟨p, e, hp, he, (braceAfter?_eq_some hafter).1⟩

/-- **Two switches never share a body.** -/
theorem switch_eq_of_opener_eq {s : Script} {i i' : Nat} {body body' : Scope}
    (hkind : s.kindAt i = .switchKw) (hkind' : s.kindAt i' = .switchKw)
    (h : s.bodyScope? s.brackets i = some body) (h' : s.bodyScope? s.brackets i' = some body')
    (hopener : body.opener = body'.opener) : i = i' := by
  -- of two tokens in front of one, the later would be layout or comment
  have hsame : ∀ {a a' x : Nat}, (s.kindAt a).isTrivia = false → (s.kindAt a').isTrivia = false →
      s.significant? (a + 1) = some x → s.significant? (a' + 1) = some x → a = a' := by
    intro a a' x ha ha' hx hx'
    obtain ⟨hax, _, htrivia⟩ := significant?_eq_some hx
    obtain ⟨hax', _, htrivia'⟩ := significant?_eq_some hx'
    rcases Nat.lt_trichotomy a a' with hlt | heq | hgt
    · have hbad := htrivia a' (by omega) (by omega)
      rw [ha'] at hbad
      cases hbad
    · exact heq
    · have hbad := htrivia' a (by omega) (by omega)
      rw [ha] at hbad
      cases hbad
  have hend : ∀ {p e : Nat}, s.brackets.groupEnd? p = some e → (s.kindAt e).isTrivia = false := by
    intro p e he
    obtain ⟨shape, _, hclose⟩ := groupEnd?_shapes he
    exact TokenKind.isTrivia_of_closes (by rw [hclose]; rfl)
  obtain ⟨p, e, hp, he, ho⟩ := switchHead hkind h
  obtain ⟨p', e', hp', he', ho'⟩ := switchHead hkind' h'
  rw [← hopener] at ho'
  have hee : e = e' := hsame (hend he) (hend he') ho ho'
  rw [← hee] at he'
  have hpp : p = p' := groupEnd?_inj he he'
  rw [← hpp] at hp'
  exact hsame (by rw [hkind]; rfl) (by rw [hkind']; rfl) hp hp'

/-! ## §2. Branches. -/

/-- A branch stands inside the body, outside its groups. -/
theorem mem_branchesIn_iff {s : Script} {opener closer i : Nat} :
    i ∈ s.branchesIn s.brackets opener closer ↔
      opener < i ∧ i < closer ∧ s.brackets.IsOutside (opener + 1) i
        ∧ (s.kindAt i).isBranch = true := by
  unfold branchesIn
  rw [List.mem_filter, mem_topLevel_iff (wellNested_brackets s)]
  constructor
  · rintro ⟨⟨hlo, hhi, hout⟩, hkind⟩
    exact ⟨hlo, hhi, hout, hkind⟩
  · rintro ⟨hlo, hhi, hout, hkind⟩
    exact ⟨⟨hlo, hhi, hout⟩, hkind⟩

theorem branchesIn_sorted (s : Script) (opener closer : Nat) :
    (s.branchesIn s.brackets opener closer).Pairwise (· < ·) :=
  (topLevel_sorted s.brackets (opener + 1) closer).1.filter _

/-- A token of this kind can end a label. -/
def endsLabel : TokenKind → Bool
  | .colon | .semicolon | .openBrace => true
  | _ => false

theorem labelEnd?_eq_some {s : Script} {b : Brackets} {is : List Nat} {pending o : Nat}
    (h : s.labelEnd? b pending is = some o) : o ∈ is ∧ endsLabel (s.kindAt o) = true := by
  induction is generalizing pending with
  | nil => cases h
  | cons i is ih =>
      have hgo : ∀ {n : Nat}, s.labelEnd? b n is = some o →
          o ∈ i :: is ∧ endsLabel (s.kindAt o) = true := by
        intro n hrest
        exact ⟨List.mem_cons_of_mem i (ih hrest).1, (ih hrest).2⟩
      unfold labelEnd? at h
      split at h
      · split at h
        · exact hgo h
        · cases h
      · split at h
        · exact hgo h
        · cases h
      · exact hgo h
      · rename_i hkind
        split at h
        · cases h
          exact ⟨List.mem_cons_self, by rw [hkind]; rfl⟩
        · exact hgo h
      · rename_i hkind
        cases h
        exact ⟨List.mem_cons_self, by rw [hkind]; rfl⟩
      · rename_i hkind
        cases h
        exact ⟨List.mem_cons_self, by rw [hkind]; rfl⟩
      · exact hgo h

/-- The scope is in order: condition, opener and closer follow one another, and the closer is
no later than `last`. -/
def Ordered (last : Nat) (scope : Scope) : Prop :=
  scope.condition < scope.opener ∧ scope.opener < scope.closer ∧ scope.closer ≤ last

/-- A branch that ends somewhere ends behind its label and no later than its body, if the
branches below it do. -/
theorem branchEnd?_eq_some {s : Script} {opener bodyCloser closer : Nat} {later : List Scope}
    (hopener : opener < bodyCloser) (hlater : ∀ scope ∈ later, Ordered bodyCloser scope)
    (h : s.branchEnd? s.brackets opener bodyCloser later = some closer) :
    opener < closer ∧ closer ≤ bodyCloser := by
  unfold branchEnd? at h
  split at h
  · cases h
    exact ⟨hopener, Nat.le_refl _⟩
  · rename_i i hfind
    obtain ⟨hlo, hhi, _⟩ := (mem_topLevel_iff (wellNested_brackets s) _ _ _).mp
      (List.mem_of_find?_eq_some hfind)
    split at h
    · -- a borrowed closer stands behind the branch it is borrowed from
      obtain ⟨scope, hscope, rfl⟩ := Option.map_eq_some_iff.mp h
      obtain ⟨h1, h2, h3⟩ := hlater scope (List.mem_of_find?_eq_some hscope)
      have hcond : scope.condition = i := by simpa using List.find?_some hscope
      exact ⟨by omega, h3⟩
    · cases h
      exact ⟨hlo, Nat.le_of_lt hhi⟩

theorem branchScope?_eq (s : Script) (b : Brackets) (branch limit bodyCloser : Nat)
    (later : List Scope) :
    s.branchScope? b branch limit bodyCloser later
      = (s.labelEnd? b 0 (b.topLevel (branch + 1) limit)).bind fun opener =>
          (if s.kindAt opener = .openBrace then b.groupEnd? opener
            else s.branchEnd? b opener bodyCloser later).map fun closer =>
              ⟨branch, opener, closer⟩ := by
  unfold branchScope?
  cases s.labelEnd? b 0 (b.topLevel (branch + 1) limit) with
  | none => rfl
  | some opener =>
      show (if s.kindAt opener = .openBrace then _ else _) = Option.map _ _
      split
      · cases b.groupEnd? opener <;> rfl
      · cases s.branchEnd? b opener bodyCloser later <;> rfl

/-- The parts of the scope of one branch. -/
theorem branchScope?_eq_some {s : Script} {bodyOpener bodyCloser branch limit : Nat}
    {later : List Scope} {scope : Scope}
    (hbody : s.brackets.groupEnd? bodyOpener = some bodyCloser) (hbranch : bodyOpener < branch)
    (hlimit : limit ≤ bodyCloser) (hlater : ∀ scope ∈ later, Ordered bodyCloser scope)
    (h : s.branchScope? s.brackets branch limit bodyCloser later = some scope) :
    scope.condition = branch ∧ Ordered bodyCloser scope ∧ endsLabel (s.kindAt scope.opener) = true := by
  rw [branchScope?_eq] at h
  obtain ⟨opener, hopener, hrest⟩ := Option.bind_eq_some_iff.mp h
  obtain ⟨closer, hcloser, rfl⟩ := Option.map_eq_some_iff.mp hrest
  obtain ⟨hmem, hkind⟩ := labelEnd?_eq_some hopener
  obtain ⟨hlo, hhi, _⟩ := (mem_topLevel_iff (wellNested_brackets s) _ _ _).mp hmem
  refine ⟨rfl, ?_, hkind⟩
  split at hcloser
  · have hlt := Brackets.lt_of_groupEnd? hcloser
    have hin := wellNested_brackets s bodyOpener bodyCloser opener closer hbody hcloser
      (by omega) (by omega)
    exact ⟨hlo, hlt, Nat.le_of_lt hin⟩
  · obtain ⟨hlt, hle⟩ := branchEnd?_eq_some (by omega) hlater hcloser
    exact ⟨hlo, hlt, hle⟩

/-- What the scopes of the branches of a body have in common. -/
theorem branchScopes_spec {s : Script} {bodyOpener bodyCloser : Nat}
    (hbody : s.brackets.groupEnd? bodyOpener = some bodyCloser) :
    ∀ branches : List Nat, branches.Pairwise (· < ·) →
      (∀ i ∈ branches, bodyOpener < i ∧ i < bodyCloser) →
      (∀ scope ∈ s.branchScopes s.brackets bodyCloser branches,
          Ordered bodyCloser scope ∧ endsLabel (s.kindAt scope.opener) = true)
        ∧ ((s.branchScopes s.brackets bodyCloser branches).map Scope.condition).Sublist
            branches.reverse := by
  intro branches
  induction branches with
  | nil =>
      intro _ _
      exact ⟨fun scope hscope => absurd hscope List.not_mem_nil, List.Sublist.refl _⟩
  | cons branch below ih =>
      intro hsorted hin
      obtain ⟨hlater, hsub⟩ := ih (List.pairwise_cons.mp hsorted).2
        (fun i hi => hin i (List.mem_cons_of_mem branch hi))
      have hlimit : below.head?.getD bodyCloser ≤ bodyCloser := by
        cases below with
        | nil => exact Nat.le_refl _
        | cons next _ => exact Nat.le_of_lt (hin next (by simp)).2
      simp only [branchScopes, List.reverse_cons]
      cases hscope : s.branchScope? s.brackets branch (below.head?.getD bodyCloser) bodyCloser
          (s.branchScopes s.brackets bodyCloser below) with
      | none =>
          simp only [Option.toList_none, List.append_nil]
          exact ⟨hlater, hsub.trans (List.sublist_append_left _ _)⟩
      | some scope =>
          obtain ⟨hcond, hord, hkind⟩ := branchScope?_eq_some hbody
            (hin branch List.mem_cons_self).1 hlimit (fun sc hsc => (hlater sc hsc).1) hscope
          constructor
          · intro sc hsc
            rcases List.mem_append.mp hsc with hsc | hsc
            · exact hlater sc hsc
            · obtain rfl : sc = scope := by simpa using hsc
              exact ⟨hord, hkind⟩
          · simp only [Option.toList_some, List.map_append, List.map_cons, List.map_nil, hcond]
            exact hsub.append (List.Sublist.refl _)

/-! ## §3. The detected scopes. -/

/-- The scopes that a keyword brings in: its body, or a branch of that body. -/
theorem mem_scopesAt {s : Script} {i : Nat} {scope : Scope}
    (h : scope ∈ s.scopesAt s.brackets i) :
    ∃ body, s.bodyScope? s.brackets i = some body ∧ (scope = body
      ∨ (s.kindAt i = .switchKw
          ∧ scope ∈ s.branchScopes s.brackets body.closer
              (s.branchesIn s.brackets body.opener body.closer))) := by
  unfold scopesAt at h
  split at h
  · cases h
  · rename_i body hbody
    refine ⟨body, hbody, ?_⟩
    split at h
    · rename_i hkind
      rcases List.mem_cons.mp h with rfl | h
      · exact Or.inl rfl
      · exact Or.inr ⟨hkind, h⟩
    · exact Or.inl (List.mem_singleton.mp h)

/-- The scopes of the branches of the switch at `i`. -/
theorem branchScopes_of_body {s : Script} {i : Nat} {body : Scope}
    (h : s.bodyScope? s.brackets i = some body) :
    (∀ scope ∈ s.branchScopes s.brackets body.closer
        (s.branchesIn s.brackets body.opener body.closer),
        Ordered body.closer scope ∧ endsLabel (s.kindAt scope.opener) = true
          ∧ scope.condition ∈ s.branchesIn s.brackets body.opener body.closer)
      ∧ ((s.branchScopes s.brackets body.closer
          (s.branchesIn s.brackets body.opener body.closer)).map Scope.condition).Nodup := by
  obtain ⟨_, _, hgroup⟩ := bodyScope?_eq_some h
  have hsorted := branchesIn_sorted s body.opener body.closer
  obtain ⟨hscopes, hsub⟩ := branchScopes_spec hgroup
    (s.branchesIn s.brackets body.opener body.closer) hsorted
    (fun j hj => ⟨(mem_branchesIn_iff.mp hj).1, (mem_branchesIn_iff.mp hj).2.1⟩)
  constructor
  · intro scope hscope
    refine ⟨(hscopes scope hscope).1, (hscopes scope hscope).2, ?_⟩
    have hmem := hsub.subset (List.mem_map_of_mem hscope)
    exact List.mem_reverse.mp hmem
  · have hnodup : (s.branchesIn s.brackets body.opener body.closer).Nodup :=
      hsorted.imp (fun hlt => Nat.ne_of_lt hlt)
    exact hsub.nodup (List.nodup_reverse.mpr hnodup)

/-- A detected scope lies in the script, in order. -/
theorem ordered_of_mem_scopesAt {s : Script} {i : Nat} {scope : Scope}
    (h : scope ∈ s.scopesAt s.brackets i) :
    scope.condition < scope.opener ∧ scope.opener < scope.closer ∧ scope.closer < s.size
      ∧ endsLabel (s.kindAt scope.opener) = true := by
  obtain ⟨body, hbody, hcase⟩ := mem_scopesAt h
  obtain ⟨hcond, hbrace, hgroup⟩ := bodyScope?_eq_some hbody
  have hsize := groupEnd?_lt_size hgroup
  rcases hcase with rfl | ⟨_, hmem⟩
  · obtain ⟨hlt, hkind⟩ := bodyBrace?_eq_some hbrace
    exact ⟨by omega, Brackets.lt_of_groupEnd? hgroup, hsize, by rw [hkind]; rfl⟩
  · obtain ⟨⟨h1, h2, h3⟩, hkind, _⟩ := (branchScopes_of_body hbody).1 scope hmem
    exact ⟨h1, h2, by omega, hkind⟩

/-- The condition of a scope is its keyword, or a branch of the switch at that keyword. -/
theorem condition_of_mem_scopesAt {s : Script} {i : Nat} {scope : Scope}
    (h : scope ∈ s.scopesAt s.brackets i) :
    scope.condition = i ∨ (s.kindAt i = .switchKw ∧ ∃ body, s.bodyScope? s.brackets i = some body
      ∧ scope.condition ∈ s.branchesIn s.brackets body.opener body.closer) := by
  obtain ⟨body, hbody, rfl | ⟨hkind, hmem⟩⟩ := mem_scopesAt h
  · exact Or.inl (bodyScope?_eq_some hbody).1
  · exact Or.inr ⟨hkind, body, hbody, ((branchScopes_of_body hbody).1 scope hmem).2.2⟩

/-- **A position stands on the top level of one switch only.** -/
theorem switch_eq_of_topLevel {s : Script} {i i' x : Nat} {body body' : Scope}
    (hkind : s.kindAt i = .switchKw) (hkind' : s.kindAt i' = .switchKw)
    (h : s.bodyScope? s.brackets i = some body) (h' : s.bodyScope? s.brackets i' = some body')
    (hx : x ∈ s.brackets.topLevel (body.opener + 1) body.closer)
    (hx' : x ∈ s.brackets.topLevel (body'.opener + 1) body'.closer) : i = i' := by
  obtain ⟨hlo, hhi, hout⟩ := (mem_topLevel_iff (wellNested_brackets s) _ _ _).mp hx
  obtain ⟨hlo', hhi', hout'⟩ := (mem_topLevel_iff (wellNested_brackets s) _ _ _).mp hx'
  obtain ⟨_, _, hgroup⟩ := bodyScope?_eq_some h
  obtain ⟨_, _, hgroup'⟩ := bodyScope?_eq_some h'
  rcases Nat.lt_trichotomy body.opener body'.opener with hlt | heq | hgt
  · -- the inner braces are a group of the outer body, and the position stands in it
    have hbad := hout body'.opener body'.closer hlt hlo' hgroup'
    omega
  · exact switch_eq_of_opener_eq hkind hkind' h h' heq
  · have hbad := hout' body.opener body.closer hgt hlo hgroup
    omega

/-- The scopes of two keywords have no condition in common. -/
theorem keyword_eq_of_condition_eq {s : Script} {i i' : Nat} {scope scope' : Scope}
    (hi : (s.kindAt i).ownsBody = true) (hi' : (s.kindAt i').ownsBody = true)
    (h : scope ∈ s.scopesAt s.brackets i) (h' : scope' ∈ s.scopesAt s.brackets i')
    (heq : scope.condition = scope'.condition) : i = i' := by
  -- a branch keyword owns no body
  have hbranch : ∀ {k o c : Nat}, (s.kindAt k).ownsBody = true →
      k ∉ s.branchesIn s.brackets o c := by
    intro k o c hk hmem
    have hkind := (mem_branchesIn_iff.mp hmem).2.2.2
    rw [TokenKind.isBranch_of_ownsBody hk] at hkind
    cases hkind
  rcases condition_of_mem_scopesAt h with hc | ⟨hkind, body, hbody, hmem⟩
  · rcases condition_of_mem_scopesAt h' with hc' | ⟨_, body', _, hmem'⟩
    · omega
    · rw [← heq, hc] at hmem'
      exact absurd hmem' (hbranch hi)
  · rcases condition_of_mem_scopesAt h' with hc' | ⟨hkind', body', hbody', hmem'⟩
    · rw [heq, hc'] at hmem
      exact absurd hmem (hbranch hi')
    · rw [← heq] at hmem'
      exact switch_eq_of_topLevel hkind hkind' hbody hbody' (List.mem_filter.mp hmem).1
        (List.mem_filter.mp hmem').1

theorem mem_detectedScopes_iff {s : Script} {scope : Scope} :
    scope ∈ s.detectedScopes ↔
      ∃ i, i < s.size ∧ (s.kindAt i).ownsBody = true ∧ scope ∈ s.scopesAt s.brackets i := by
  unfold detectedScopes
  simp only [List.mem_flatMap, List.mem_filter, List.mem_range]
  constructor
  · rintro ⟨i, ⟨hsize, hi⟩, hmem⟩
    exact ⟨i, hsize, hi, hmem⟩
  · rintro ⟨i, hsize, hi, hmem⟩
    exact ⟨i, ⟨hsize, hi⟩, hmem⟩

/-- **A detected scope is in order and lies in the script.** -/
theorem ordered_of_mem_detectedScopes {s : Script} {scope : Scope} (h : scope ∈ s.detectedScopes) :
    scope.condition < scope.opener ∧ scope.opener < scope.closer ∧ scope.closer < s.size
      ∧ endsLabel (s.kindAt scope.opener) = true := by
  obtain ⟨i, _, _, hmem⟩ := mem_detectedScopes_iff.mp h
  exact ordered_of_mem_scopesAt hmem

/-- **No two detected scopes have one condition.** -/
theorem nodup_conditions (s : Script) : (s.detectedScopes.map Scope.condition).Nodup := by
  unfold detectedScopes
  rw [List.map_flatMap, List.nodup_flatMap]
  constructor
  · intro i hi
    unfold scopesAt
    split
    · exact List.nodup_nil
    · rename_i body hbody
      split
      · -- the body comes first, and its keyword is none of its branches
        rw [List.map_cons, List.nodup_cons]
        refine ⟨fun hmem => ?_, (branchScopes_of_body hbody).2⟩
        obtain ⟨scope, hscope, hcond⟩ := List.mem_map.mp hmem
        have hin := ((branchScopes_of_body hbody).1 scope hscope).2.2
        have hlo := (mem_branchesIn_iff.mp hin).1
        obtain ⟨hbc, hbrace, _⟩ := bodyScope?_eq_some hbody
        have hlt := (bodyBrace?_eq_some hbrace).1
        omega
      · exact List.nodup_singleton _
  · have hrange : ((List.range s.size).filter fun i => (s.kindAt i).ownsBody).Nodup :=
      List.nodup_range.filter _
    refine (List.Pairwise.and_mem.mp hrange).imp ?_
    rintro i i' ⟨hi, hi', hne⟩
    show List.Disjoint _ _
    rw [List.disjoint_left]
    intro c hc hc'
    obtain ⟨scope, hscope, hcond⟩ := List.mem_map.mp hc
    obtain ⟨scope', hscope', hcond'⟩ := List.mem_map.mp hc'
    exact hne (keyword_eq_of_condition_eq (List.mem_filter.mp hi).2 (List.mem_filter.mp hi').2
      hscope hscope' (hcond.trans hcond'.symm))

end Script

/-! ## §4. Filling a table. -/

namespace ScopeTable

/-- A scope in order whose condition is new is taken. -/
theorem insert_eq_ok {t : ScopeTable} {scope : Scope} (hco : scope.condition ≤ scope.opener)
    (hoc : scope.opener < scope.closer) (hnew : t.scopes[scope.condition]? = none) :
    t.insert scope = .ok
      { scopes := t.scopes.insert scope.condition scope
        openers := t.openers.insertIfNew scope.opener scope.condition
        owners := t.owners.insertIfNew scope.closer scope.condition } := by
  unfold insert
  have hcontains : t.scopes.contains scope.condition = false := by
    rw [Std.ExtTreeMap.contains_eq_isSome_getElem?, hnew]
    rfl
  rw [if_neg (by omega), if_neg (by omega), hcontains]
  rfl

theorem insertAll_cons {t t' : ScopeTable} {scope : Scope} (h : t.insert scope = .ok t')
    (scopes : List Scope) : t.insertAll (scope :: scopes) = t'.insertAll scopes := by
  show (t.insert scope >>= fun t => t.insertAll scopes) = _
  rw [h]
  rfl

theorem insertAccepted_cons {t t' : ScopeTable} {scope : Scope} (h : t.insert scope = .ok t')
    (scopes : List Scope) : t.insertAccepted (scope :: scopes) = t'.insertAccepted scopes := by
  show List.foldl _ (((t.insert scope).toOption).getD t) scopes = _
  rw [h]
  rfl

theorem getElem?_insert_scope (scopes : Std.ExtTreeMap Nat Scope) (scope : Scope) (c : Nat) :
    (scopes.insert scope.condition scope)[c]?
      = if scope.condition = c then some scope else scopes[c]? := by
  rw [Std.ExtTreeMap.getElem?_insert]
  simp only [Nat.compare_eq_eq]

/-- Of the scopes with one key, the first to come is noted. -/
theorem getElem?_insertIfNew_or (conditions : Std.ExtTreeMap Nat Nat) (key : Scope → Nat)
    (scope : Scope) (scopes : List Scope) (c : Nat) :
    (conditions.insertIfNew (key scope) scope.condition)[c]?.or
        ((scopes.find? (key · == c)).map Scope.condition)
      = conditions[c]?.or (((scope :: scopes).find? (key · == c)).map Scope.condition) := by
  rw [Std.ExtTreeMap.getElem?_insertIfNew]
  simp only [Nat.compare_eq_eq, Std.ExtTreeMap.mem_iff_isSome_getElem?]
  by_cases hkey : key scope = c
  · subst hkey
    rw [List.find?_cons_of_pos (by simp)]
    cases conditions[key scope]? <;> simp
  · rw [List.find?_cons_of_neg (by simpa using hkey), if_neg (fun h => hkey h.1)]

/-- No later scope has the condition of this one. -/
theorem or_find?_condition {scope : Scope} {scopes : List Scope}
    (hne : ∀ sc ∈ scopes, scope.condition ≠ sc.condition) (old : Option Scope) (c : Nat) :
    (scopes.find? (·.condition == c)).or (if scope.condition = c then some scope else old)
      = ((scope :: scopes).find? (·.condition == c)).or old := by
  by_cases hc : scope.condition = c
  · have hnone : scopes.find? (·.condition == c) = none := by
      rw [List.find?_eq_none]
      intro sc hsc
      simpa [← hc] using (hne sc hsc).symm
    rw [hnone, if_pos hc, List.find?_cons_of_pos (by simpa using hc)]
    rfl
  · rw [if_neg hc, List.find?_cons_of_neg (by simpa using hc)]

/-- Among scopes with distinct conditions each is found under its own. -/
theorem find?_condition_eq_some_iff {scopes : List Scope}
    (hnodup : (scopes.map Scope.condition).Nodup) {c : Nat} {scope : Scope} :
    scopes.find? (·.condition == c) = some scope ↔ scope ∈ scopes ∧ scope.condition = c := by
  constructor
  · intro h
    exact ⟨List.mem_of_find?_eq_some h, by simpa using List.find?_some h⟩
  · rintro ⟨hmem, rfl⟩
    obtain ⟨found, hfound⟩ : ∃ found,
        scopes.find? (·.condition == scope.condition) = some found := by
      rw [← Option.isSome_iff_exists, List.find?_isSome]
      exact ⟨scope, hmem, by simp⟩
    have hcond : found.condition = scope.condition := by simpa using List.find?_some hfound
    rw [hfound, List.inj_on_of_nodup_map hnodup (List.mem_of_find?_eq_some hfound) hmem hcond]

/-- **A run of insertions.**  Scopes in order with new and distinct conditions are all taken.
A condition then has its own scope, and an opener or a closer the condition that came first. -/
theorem insertAll_eq_ok (scopes : List Scope) :
    ∀ t : ScopeTable, (∀ scope ∈ scopes, scope.condition ≤ scope.opener ∧ scope.opener < scope.closer) →
      (scopes.map Scope.condition).Nodup →
      (∀ scope ∈ scopes, t.scopes[scope.condition]? = none) →
      t.insertAll scopes = .ok (t.insertAccepted scopes)
        ∧ (∀ c : Nat, (t.insertAccepted scopes).scopes[c]?
            = (scopes.find? (·.condition == c)).or t.scopes[c]?)
        ∧ (∀ o : Nat, (t.insertAccepted scopes).openers[o]?
            = t.openers[o]?.or ((scopes.find? (·.opener == o)).map Scope.condition))
        ∧ (∀ c : Nat, (t.insertAccepted scopes).owners[c]?
            = t.owners[c]?.or ((scopes.find? (·.closer == c)).map Scope.condition)) := by
  induction scopes with
  | nil =>
      intro t _ _ _
      refine ⟨rfl, fun c => rfl, fun o => ?_, fun c => ?_⟩
      · simp [insertAccepted]
      · simp [insertAccepted]
  | cons scope scopes ih =>
      intro t hord hnodup hnew
      obtain ⟨hco, hoc⟩ := hord scope List.mem_cons_self
      rw [List.map_cons, List.nodup_cons] at hnodup
      have hins := insert_eq_ok hco hoc (hnew scope List.mem_cons_self)
      have hne : ∀ sc ∈ scopes, scope.condition ≠ sc.condition := by
        intro sc hsc heq
        exact hnodup.1 (heq ▸ List.mem_map_of_mem hsc)
      have hnew' : ∀ sc ∈ scopes,
          (t.scopes.insert scope.condition scope)[sc.condition]? = none := by
        intro sc hsc
        rw [getElem?_insert_scope, if_neg (hne sc hsc)]
        exact hnew sc (List.mem_cons_of_mem scope hsc)
      obtain ⟨hall, hscopes, hopeners, howners⟩ := ih
        { scopes := t.scopes.insert scope.condition scope
          openers := t.openers.insertIfNew scope.opener scope.condition
          owners := t.owners.insertIfNew scope.closer scope.condition }
        (fun sc hsc => hord sc (List.mem_cons_of_mem scope hsc)) hnodup.2 hnew'
      rw [insertAll_cons hins, insertAccepted_cons hins]
      refine ⟨hall, fun c => ?_, fun o => ?_, fun c => ?_⟩
      · rw [hscopes, getElem?_insert_scope, or_find?_condition hne]
      · rw [hopeners, getElem?_insertIfNew_or t.openers Scope.opener]
      · rw [howners, getElem?_insertIfNew_or t.owners Scope.closer]

/-- The same run on the empty table, whose maps have nothing to say. -/
theorem insertAll_empty {scopes : List Scope}
    (hord : ∀ scope ∈ scopes, scope.condition ≤ scope.opener ∧ scope.opener < scope.closer)
    (hnodup : (scopes.map Scope.condition).Nodup) :
    empty.insertAll scopes = .ok (empty.insertAccepted scopes)
      ∧ (∀ c : Nat, (empty.insertAccepted scopes).scopes[c]?
          = scopes.find? (·.condition == c))
      ∧ (∀ o : Nat, (empty.insertAccepted scopes).openers[o]?
          = (scopes.find? (·.opener == o)).map Scope.condition)
      ∧ (∀ c : Nat, (empty.insertAccepted scopes).owners[c]?
          = (scopes.find? (·.closer == c)).map Scope.condition) := by
  have hempty : ∀ {β : Type} (i : Nat), (∅ : Std.ExtTreeMap Nat β)[i]? = none :=
    fun i => Std.ExtTreeMap.getElem?_empty
  obtain ⟨hall, hscopes, hopeners, howners⟩ :=
    insertAll_eq_ok scopes empty hord hnodup (fun scope _ => hempty _)
  refine ⟨hall, fun c => ?_, fun o => ?_, fun c => ?_⟩
  · rw [hscopes, show empty.scopes[c]? = none from hempty c, Option.or_none]
  · rw [hopeners, show empty.openers[o]? = none from hempty o, Option.none_or]
  · rw [howners, show empty.owners[c]? = none from hempty c, Option.none_or]

end ScopeTable

/-! ## §5. The table of a script. -/

namespace Script

/-- What the detected scopes make of the empty table. -/
theorem insertAll_detectedScopes (s : Script) :
    ScopeTable.empty.insertAll s.detectedScopes = .ok s.scopeTable
      ∧ (∀ c : Nat, s.scopeTable.scopes[c]? = s.detectedScopes.find? (·.condition == c))
      ∧ (∀ o : Nat, s.scopeTable.openers[o]?
          = (s.detectedScopes.find? (·.opener == o)).map Scope.condition)
      ∧ (∀ c : Nat, s.scopeTable.owners[c]?
          = (s.detectedScopes.find? (·.closer == c)).map Scope.condition) := by
  refine ScopeTable.insertAll_empty (fun scope hscope => ?_) (nodup_conditions s)
  obtain ⟨h1, h2, _⟩ := ordered_of_mem_detectedScopes hscope
  exact ⟨by omega, h2⟩

/-- **The table knows exactly the detected scopes.** -/
theorem scopeOf?_scopeTable_iff {s : Script} {c : Nat} {scope : Scope} :
    s.scopeTable.scopeOf? c = some scope ↔ scope ∈ s.detectedScopes ∧ scope.condition = c := by
  unfold ScopeTable.scopeOf?
  rw [(insertAll_detectedScopes s).2.1]
  exact ScopeTable.find?_condition_eq_some_iff (nodup_conditions s)

/-- The table of a script fits it. -/
theorem checkBounds_scopeTable (s : Script) : s.scopeTable.checkBounds s.size = .ok () := by
  have hnone : s.scopeTable.toList.find? (fun scope => s.size ≤ scope.closer) = none := by
    rw [List.find?_eq_none]
    intro scope hscope
    obtain ⟨entry, hentry, rfl⟩ := List.mem_map.mp hscope
    have hget := Std.ExtTreeMap.mem_toList_iff_getElem?_eq_some.mp hentry
    obtain ⟨hmem, _⟩ := scopeOf?_scopeTable_iff.mp hget
    have hlt := (ordered_of_mem_detectedScopes hmem).2.2.1
    simpa using hlt
  unfold ScopeTable.checkBounds
  rw [hnone]

/-- **Detection loses no scope and its table fits the script.**  Each insertion in its turn
succeeds, every scope is found again under its condition, and no scope leaves the script. -/
theorem scopeTable_lossless (s : Script) :
    (∀ before scope after, s.detectedScopes = before ++ scope :: after →
        ∃ table, (ScopeTable.empty.insertAccepted before).insert scope = .ok table)
      ∧ (∀ scope ∈ s.detectedScopes, s.scopeTable.scopeOf? scope.condition = some scope)
      ∧ s.scopeTable.checkBounds s.size = .ok () := by
  refine ⟨fun before scope after hsplit => ?_, fun scope hmem => ?_, checkBounds_scopeTable s⟩
  · have hnodup := nodup_conditions s
    rw [hsplit, List.map_append, List.map_cons] at hnodup
    have hord : ∀ sc ∈ before ++ scope :: after,
        sc.condition ≤ sc.opener ∧ sc.opener < sc.closer := by
      intro sc hsc
      rw [← hsplit] at hsc
      obtain ⟨h1, h2, _⟩ := ordered_of_mem_detectedScopes hsc
      exact ⟨by omega, h2⟩
    -- the table so far knows the scopes in front of this one and no others
    obtain ⟨_, hscopes, _⟩ := ScopeTable.insertAll_eq_ok before ScopeTable.empty
      (fun sc hsc => hord sc (List.mem_append_left _ hsc)) (List.nodup_append.mp hnodup).1
      (fun _ _ => Std.ExtTreeMap.getElem?_empty)
    have hnew : before.find? (·.condition == scope.condition) = none := by
      rw [List.find?_eq_none]
      intro sc hsc heq
      exact (List.nodup_append.mp hnodup).2.2 sc.condition (List.mem_map_of_mem hsc)
        scope.condition List.mem_cons_self (by simpa using heq)
    obtain ⟨hco, hoc⟩ := hord scope (by simp)
    refine ⟨_, ScopeTable.insert_eq_ok hco hoc ?_⟩
    rw [hscopes, hnew]
    exact Std.ExtTreeMap.getElem?_empty
  · exact scopeOf?_scopeTable_iff.mpr ⟨hmem, rfl⟩

end Script

end SwitchLayout
