/-
  SwitchLayout.Proofs.BranchWalk
  ──────────────────────────────
  **The walk over the branches, on tables from elsewhere.**

  Behind an inner switch the walk goes on where the table says.  `branchesFrom` takes no jump
  backward, and so ends on any table.  Here the table is taken at its word: `walkStep` makes one
  search and goes wherever the table sends it, which may be anywhere.  On a table that insertions
  and changes of owner have built the walk ends nevertheless, with the same branches:

    • `sentTo_eq_resume` — such a table sends no walk back, be it by a condition or by an opener,
    • `walkStep_some`, `walkStep_none` — what one search does, and what it leaves to be found,
    • `walk_ends` — the walk ends, wherever it starts,
    • `branches_exhaustive` — what it lists, and what alone it can miss.
-/
import Mathlib.Computability.StateTransition
import SwitchLayout.Proofs.Branches
import SwitchLayout.Proofs.Tables

namespace SwitchLayout

namespace SwitchBody

/-! ## §1. The walk, search by search. -/

/-- The variables of the walk. -/
structure Walk where
  /-- Where the next search starts. -/
  start : Nat
  /-- The branches found so far. -/
  found : List Nat

/-- Where the table sends a walk that meets an inner switch, forward or not. -/
def sentTo (b : SwitchBody) (i : Nat) : Nat :=
  match b.table.closerOf? i with
  | none => i + 1
  | some closer => closer + 1

/-- One search of the walk.  A branch is added and the walk goes on behind it; at a switch the
search for the same branch goes on where the table says; if neither is found, the search is the
last. -/
def walkStep (b : SwitchBody) (w : Walk) : Option Walk :=
  match b.script.next? isWaypoint w.start b.scope.closer with
  | none => none
  | some i =>
    if b.script.kindAt i = .switchKw then some { w with start := b.sentTo i }
    else some { start := i + 1, found := w.found ++ [i] }

variable {b : SwitchBody} {w w' : Walk}

/-- A table in order sends the walk where it goes in any case. -/
theorem sentTo_eq_resume (ht : b.table.Ordered) (i : Nat) : b.sentTo i = b.resume i := by
  unfold sentTo resume
  cases hc : b.table.closerOf? i with
  | none => rw [Option.getD_none, Nat.max_self]
  | some c =>
      have hforward := ht.lt_closerOf? hc
      rw [Option.getD_some, Nat.max_eq_right (Nat.le_of_lt hforward)]

/-- The branches from a position on, by what the next search finds. -/
theorem branchesFrom_step (b : SwitchBody) (start : Nat) :
    b.branchesFrom start =
      match b.script.next? isWaypoint start b.scope.closer with
      | none => []
      | some i =>
        if b.script.kindAt i = .switchKw then b.branchesFrom (b.resume i)
        else i :: b.branchesFrom (i + 1) := by
  rw [branchesFrom]
  split
  · rename_i hnone
    rw [hnone]
  · rename_i i hi
    rw [hi]

/-- **One search** starts in front of the closer and moves forward, and what it finds it takes from
the branches that are left. -/
theorem walkStep_some (ht : b.table.Ordered) (h : b.walkStep w = some w') :
    w.start < b.scope.closer ∧ w.start < w'.start
      ∧ w'.found ++ b.branchesFrom w'.start = w.found ++ b.branchesFrom w.start := by
  rw [branchesFrom_step b w.start]
  unfold walkStep at h
  cases hi : b.script.next? isWaypoint w.start b.scope.closer with
  | none =>
      rw [hi] at h
      cases h
  | some i =>
      obtain ⟨hlo, hhi, _⟩ := Script.next?_eq_some_iff.mp hi
      rw [hi] at h
      dsimp only at h ⊢
      split at h
      · -- an inner switch is stepped over, and nothing is added
        rename_i hswitch
        cases h
        rw [if_pos hswitch, sentTo_eq_resume ht]
        exact ⟨Nat.lt_of_le_of_lt hlo hhi, Nat.lt_of_le_of_lt hlo (b.lt_resume i), rfl⟩
      · -- a branch goes from the end of one list to the front of the other
        rename_i hbranch
        cases h
        rw [if_neg hbranch]
        exact ⟨Nat.lt_of_le_of_lt hlo hhi, Nat.lt_succ_of_le hlo, List.append_assoc _ _ _⟩

/-- The last search leaves no branch. -/
theorem walkStep_none (h : b.walkStep w = none) : b.branchesFrom w.start = [] := by
  rw [branchesFrom_step]
  unfold walkStep at h
  cases hi : b.script.next? isWaypoint w.start b.scope.closer with
  | none => rfl
  | some i =>
      rw [hi] at h
      dsimp only at h
      split at h <;> cases h

/-- **The walk ends**, wherever it starts, and has then found the branches from there on. -/
theorem walk_ends (ht : b.table.Ordered) (w : Walk) :
    ∃ last ∈ StateTransition.eval b.walkStep w, last.found = w.found ++ b.branchesFrom w.start := by
  -- by induction on the stretch that is left to search: each search makes it shorter, and what is
  -- found already together with what is left stays the same
  induction hleft : b.scope.closer - w.start using Nat.strong_induction_on generalizing w with
  | _ left ih =>
      cases hstep : b.walkStep w with
      | none =>
          refine ⟨w, StateTransition.mem_eval.mpr ⟨.refl, hstep⟩, ?_⟩
          rw [walkStep_none hstep, List.append_nil]
      | some w' =>
          obtain ⟨hinside, hforward, hkept⟩ := walkStep_some ht hstep
          obtain ⟨last, hlast, hfound⟩ := ih (b.scope.closer - w'.start) (by omega) w' rfl
          have hsame : StateTransition.eval b.walkStep w = StateTransition.eval b.walkStep w' :=
            StateTransition.reaches_eval (.single hstep)
          exact ⟨last, hsame ▸ hlast, hfound.trans hkept⟩

/-! ## §2. What the walk lists and what it misses. -/

/-- **The walk ends and misses nothing but what an inner switch hides.**  Over any table that was
built and fits the script, take a scope of it, with the table at its word.  The walk from behind the
opener ends, and what it has then found are the branches that the rule goes by: positions between
opener and closer, in order, each with a branch keyword.  A branch keyword between the two that is
not among them stands behind an inner switch for which the table has a closer, and no later than
that closer. -/
theorem branches_exhaustive {s : Script} {table : ScopeTable} {scope : Scope} {indent k : Nat}
    (htable : table.Built) (hbounds : table.checkBounds s.size = .ok ())
    (hscope : table.scopeOf? k = some scope) :
    let b : SwitchBody := ⟨s, table, scope, indent⟩
    (∃ last ∈ StateTransition.eval b.walkStep ⟨scope.opener + 1, []⟩, last.found = b.branches)
      ∧ b.branches.Pairwise (· < ·)
      ∧ (∀ i ∈ b.branches, scope.opener < i ∧ i < scope.closer ∧ (s.kindAt i).isBranch = true)
      ∧ ∀ i, scope.opener < i → i < scope.closer → (s.kindAt i).isBranch = true →
          i ∉ b.branches →
            ∃ q c, scope.opener < q ∧ q < scope.closer ∧ s.kindAt q = .switchKw
              ∧ table.closerOf? q = some c ∧ q < i ∧ i ≤ c := by
  intro b
  obtain ⟨hsorted, hbranches⟩ := b.branchesFrom_spec (scope.opener + 1)
  refine ⟨walk_ends (ScopeTable.ordered_of_built htable) _, hsorted, fun i hi => ?_,
    fun i hlo hhi hbranch hi => ?_⟩
  · obtain ⟨hlo, hhi, _, hbranch⟩ := hbranches i hi
    exact ⟨hlo, hhi, hbranch⟩
  · have hsize : i < s.size := Nat.lt_trans hhi (closer_lt_of_checkBounds hbounds hscope)
    obtain ⟨q, c, hoq, hqi, hswitch, hc, hic⟩ :=
      b.hidden_of_not_mem_branchesFrom (scope.opener + 1) hlo hhi hsize hbranch hi
    exact ⟨q, c, hoq, Nat.lt_trans hqi hhi, hswitch, hc, hqi, hic⟩

/-- In a table from elsewhere the inner `switch` is the opener of a scope that reaches beyond the
outer switch.  The walk leaves the outer switch there, and with it the second `case`. -/
theorem branches_exhaustive_crossing :
    let s := Script.ofText 4 "switch ($a) \x7b case 1: switch ($b) \x7b case 2: \x7d case 3: \x7d"
    let table := ScopeTable.empty.insertAccepted [⟨0, 6, 26⟩, ⟨8, 13, 31⟩]
    let b : SwitchBody := ⟨s, table, ⟨0, 6, 26⟩, 4⟩
    (table.Built ∧ table.checkBounds s.size = .ok () ∧ table.scopeOf? 0 = some ⟨0, 6, 26⟩)
      ∧ (∃ last ∈ StateTransition.eval b.walkStep ⟨7, []⟩, last.found = [8])
      ∧ ∃ q c, 6 < q ∧ q < 26 ∧ s.kindAt q = .switchKw ∧ table.closerOf? q = some c
          ∧ q < 21 ∧ 21 ≤ c := by
  intro s table b
  have htable : table.Built := ScopeTable.built_insertAccepted _ .empty
  obtain ⟨hbounds, hscope, hlist, hbranch⟩ :
      table.checkBounds s.size = .ok () ∧ table.scopeOf? 0 = some ⟨0, 6, 26⟩
        ∧ b.branches = [8] ∧ (s.kindAt 21).isBranch = true := by
    decide +kernel
  obtain ⟨⟨last, hlast, hfound⟩, _, _, hmissed⟩ :=
    @branches_exhaustive s table _ 4 0 htable hbounds hscope
  refine ⟨⟨htable, hbounds, hscope⟩, ⟨last, hlast, hfound.trans hlist⟩,
    hmissed 21 (by decide) (by decide) hbranch ?_⟩
  rw [hlist]
  decide

end SwitchBody

end SwitchLayout
