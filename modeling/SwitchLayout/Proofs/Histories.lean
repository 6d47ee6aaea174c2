/-
  SwitchLayout.Proofs.Histories
  ─────────────────────────────
  **What calls make of a scope table, the refused ones included.**

  `insert` and `setOwner` give back a new table or an error.  Here they are run in place instead:
  a call works on the maps of one table step by step, and a call that is refused leaves the table
  as far as it got (`insertInPlace`, `setOwnerInPlace`).  Since every test comes before the first
  write, this is the same (`perform_eq`).

  A history is a list of such calls on the empty table, together with the scopes that they
  recorded.  `Represents` says how the three maps tell of those scopes:

    • `represents_insert`, `represents_setOwner` — what one call keeps,
    • `represents_of` — what holds after any history,
    • `insert_refused_iff`, `setOwner_refused_iff` — which calls are refused.
-/
import SwitchLayout.Proofs.Tables

namespace SwitchLayout.ScopeTable

/-! ## §1. Calls in place. -/

/-- A change that is asked of a table. -/
inductive Change where
  /-- Record a scope. -/
  | insert (scope : Scope)
  /-- Make a condition the owner of a closer. -/
  | setOwner (closer condition : Nat)
deriving DecidableEq

/-- Record a scope in place: three tests, and then the maps one after the other. -/
def insertInPlace (scope : Scope) : ExceptT ScopeError (StateM ScopeTable) Unit := do
  if scope.closer ≤ scope.opener then
    throw (.closerBeforeOpener scope.opener scope.closer)
  if scope.opener < scope.condition then
    throw (.conditionAfterOpener scope.condition scope.opener)
  if (← get).scopes.contains scope.condition then
    throw (.duplicateCondition scope.condition)
  modify fun t => { t with scopes := t.scopes.insert scope.condition scope }
  -- these two keep the entry that they have
  modify fun t => { t with openers := t.openers.insertIfNew scope.opener scope.condition }
  modify fun t => { t with owners := t.owners.insertIfNew scope.closer scope.condition }

/-- Make a condition the owner of a closer in place. -/
def setOwnerInPlace (closer condition : Nat) : ExceptT ScopeError (StateM ScopeTable) Unit := do
  match (← get).scopes[condition]? with
  | some scope =>
    if scope.closer = closer then
      modify fun t => { t with owners := t.owners.insert closer condition }
    else throw (.foreignOwner condition closer)
  | none => throw (.foreignOwner condition closer)

namespace Change

/-- Carry out a change in place: the answer, and the table that the call leaves behind. -/
def perform (change : Change) (t : ScopeTable) : Except ScopeError Unit × ScopeTable :=
  match change with
  | .insert scope => (insertInPlace scope).run.run t
  | .setOwner closer condition => (setOwnerInPlace closer condition).run.run t

/-- The change as a table makes it, out of place. -/
def apply (change : Change) (t : ScopeTable) : Except ScopeError ScopeTable :=
  match change with
  | .insert scope => t.insert scope
  | .setOwner closer condition => t.setOwner closer condition

end Change

/-- What is left in place of a table: the new one, or the old one behind an error. -/
def settle (t : ScopeTable) : Except ScopeError ScopeTable → Except ScopeError Unit × ScopeTable
  | .ok t' => (.ok (), t')
  | .error e => (.error e, t)

theorem run_get_bind (f : ScopeTable → ExceptT ScopeError (StateM ScopeTable) Unit)
    (t : ScopeTable) : (get >>= f).run.run t = (f t).run.run t := rfl

theorem run_insertInPlace (scope : Scope) (t : ScopeTable) :
    (insertInPlace scope).run.run t = settle t (t.insert scope) := by
  unfold insertInPlace ScopeTable.insert
  by_cases hcloser : scope.closer ≤ scope.opener
  · rw [if_pos hcloser, if_pos hcloser]
    rfl
  rw [if_neg hcloser, if_neg hcloser]
  by_cases hcondition : scope.opener < scope.condition
  · rw [if_pos hcondition, if_pos hcondition]
    rfl
  rw [if_neg hcondition, if_neg hcondition, run_get_bind]
  by_cases hknown : t.scopes.contains scope.condition = true
  · rw [if_pos hknown, if_pos hknown]
    rfl
  · rw [if_neg hknown, if_neg hknown]
    rfl

theorem run_setOwnerInPlace (closer condition : Nat) (t : ScopeTable) :
    (setOwnerInPlace closer condition).run.run t = settle t (t.setOwner closer condition) := by
  unfold setOwnerInPlace ScopeTable.setOwner scopeOf?
  rw [run_get_bind]
  cases t.scopes[condition]? with
  | none => rfl
  | some scope =>
      simp only [Option.map_some, Option.some.injEq]
      by_cases hcloser : scope.closer = closer
      · rw [if_pos hcloser, if_pos hcloser]
        rfl
      · rw [if_neg hcloser, if_neg hcloser]
        rfl

/-- **In place or not.**  A call in place answers as the table does, and leaves the new table or,
behind an error, the old one. -/
theorem perform_eq (change : Change) (t : ScopeTable) :
    change.perform t = settle t (change.apply t) := by
  cases change with
  | insert scope => exact run_insertInPlace scope t
  | setOwner closer condition => exact run_setOwnerInPlace closer condition t

/-! ## §2. Histories. -/

/-- A table, and the scopes that were recorded in it in the order of the calls. -/
structure History where
  recorded : List Scope
  table : ScopeTable

/-- The scope that a call has recorded, if the answer says so. -/
def Change.recorded : Change → Except ScopeError Unit → List Scope
  | .insert scope, .ok () => [scope]
  | _, _ => []

namespace History

/-- One more call. -/
def step (h : History) (change : Change) : History :=
  let (answer, table) := change.perform h.table
  ⟨h.recorded ++ change.recorded answer, table⟩

/-- The calls in their order, on the empty table. -/
def of (changes : List Change) : History := changes.foldl step ⟨[], ScopeTable.empty⟩

end History

/-- The three maps of a table tell of the scopes that were recorded in it. -/
structure Represents (t : ScopeTable) (recorded : List Scope) : Prop extends t.Ordered where
  /-- The scopes that are found are those that were recorded. -/
  mem_recorded : ∀ scope, t.scopeOf? scope.condition = some scope ↔ scope ∈ recorded
  /-- What has an owner is the closer of a scope, and each closer has one. -/
  mem_owners : ∀ k, k ∈ t.owners ↔ ∃ c scope, t.scopeOf? c = some scope ∧ scope.closer = k
  /-- What is known as an opener is the opener of a scope, and each opener is known. -/
  mem_openers : ∀ o, o ∈ t.openers ↔ ∃ c scope, t.scopeOf? c = some scope ∧ scope.opener = o
  /-- An opener is known by the condition that was recorded with it first. -/
  first : ∀ o, t.openers[o]? = (recorded.find? (·.opener == o)).map Scope.condition

/-! ## §3. What one call keeps. -/

variable {t t' : ScopeTable} {recorded : List Scope}

theorem represents_empty : ScopeTable.empty.Represents [] where
  toOrdered := ordered_empty
  mem_recorded scope := by
    rw [show ScopeTable.empty.scopeOf? _ = none from Std.ExtTreeMap.getElem?_empty]
    simp
  mem_owners k := by
    simp only [show ∀ c, ScopeTable.empty.scopeOf? c = none from
      fun c => Std.ExtTreeMap.getElem?_empty]
    simp [ScopeTable.empty]
  mem_openers o := by
    simp only [show ∀ c, ScopeTable.empty.scopeOf? c = none from
      fun c => Std.ExtTreeMap.getElem?_empty]
    simp [ScopeTable.empty]
  first o := Std.ExtTreeMap.getElem?_empty

/-- The scopes behind an insertion are those in front of it and the new one. -/
theorem exists_scope_insert {scope : Scope} (h : t.insert scope = .ok t') (p : Scope → Prop) :
    (∃ c found, t'.scopeOf? c = some found ∧ p found)
      ↔ p scope ∨ ∃ c found, t.scopeOf? c = some found ∧ p found := by
  constructor
  · rintro ⟨c, found, hfound, hp⟩
    rw [scopeOf?_insert h] at hfound
    split at hfound
    · cases hfound
      exact .inl hp
    · exact .inr ⟨c, found, hfound, hp⟩
  · rintro (hp | ⟨c, found, hfound, hp⟩)
    · exact ⟨scope.condition, scope, by rw [scopeOf?_insert h, if_pos rfl], hp⟩
    · refine ⟨c, found, ?_, hp⟩
      rw [scopeOf?_insert h, if_neg, hfound]
      -- the condition was new
      rintro rfl
      rw [(insert_cases h).2.2.1] at hfound
      cases hfound

/-- **Recording a scope** keeps the maps in step. -/
theorem represents_insert {scope : Scope} (ht : t.Represents recorded)
    (h : t.insert scope = .ok t') : t'.Represents (recorded ++ [scope]) := by
  obtain ⟨_, _, hnew, rfl⟩ := insert_cases h
  refine ⟨ordered_insert ht.toOrdered h, fun found => ?_, fun k => ?_, fun o => ?_, fun o => ?_⟩
  · rw [scopeOf?_insert h, List.mem_append, List.mem_singleton, ← ht.mem_recorded]
    split
    · rename_i heq
      -- the condition of the new scope is found with the new scope alone
      rw [← heq, hnew]
      simp [eq_comm]
    · rename_i hne
      refine (or_iff_left ?_).symm
      rintro rfl
      exact hne rfl
  · rw [exists_scope_insert h, ← ht.mem_owners, Std.ExtTreeMap.mem_insertIfNew, Nat.compare_eq_eq]
  · rw [exists_scope_insert h, ← ht.mem_openers, Std.ExtTreeMap.mem_insertIfNew,
      Nat.compare_eq_eq]
  · have hindex := getElem?_insertIfNew_or t.openers Scope.opener scope [] o
    rw [List.find?_nil, Option.map_none, Option.or_none] at hindex
    rw [hindex, ht.first, List.find?_append, Option.map_or]

/-- **A change of owner** keeps the maps in step. -/
theorem represents_setOwner {closer condition : Nat} (ht : t.Represents recorded)
    (h : t.setOwner closer condition = .ok t') : t'.Represents recorded := by
  have hordered := ordered_setOwner ht.toOrdered h
  unfold ScopeTable.setOwner at h
  split at h
  · rename_i hends
    cases h
    refine ⟨hordered, ht.mem_recorded, fun k => ?_, ht.mem_openers, ht.first⟩
    show k ∈ t.owners.insert closer condition ↔ ∃ c scope, t.scopeOf? c = some scope ∧ _
    rw [Std.ExtTreeMap.mem_insert, Nat.compare_eq_eq, ← ht.mem_owners]
    refine or_iff_right_of_imp ?_
    rintro rfl
    obtain ⟨scope, hscope, hcloser⟩ := Option.map_eq_some_iff.mp hends
    exact (ht.mem_owners _).mpr ⟨condition, scope, hscope, hcloser⟩
  · cases h

/-- A call keeps the maps in step, whatever its answer is. -/
theorem represents_step {h : History} (hh : h.table.Represents h.recorded) (change : Change) :
    (h.step change).table.Represents (h.step change).recorded := by
  unfold History.step
  rw [perform_eq]
  cases happly : change.apply h.table with
  | error e =>
      -- the table is the old one, and nothing was recorded
      show h.table.Represents (h.recorded ++ change.recorded (.error e))
      rw [show change.recorded (.error e) = [] by cases change <;> rfl, List.append_nil]
      exact hh
  | ok t' =>
      cases change with
      | insert scope => exact represents_insert hh happly
      | setOwner closer condition =>
          show t'.Represents (h.recorded ++ [])
          rw [List.append_nil]
          exact represents_setOwner hh happly

/-- **After any history** the maps tell of the recorded scopes. -/
theorem represents_of (changes : List Change) :
    (History.of changes).table.Represents (History.of changes).recorded := by
  unfold History.of
  have hrun : ∀ h : History, h.table.Represents h.recorded →
      (changes.foldl History.step h).table.Represents (changes.foldl History.step h).recorded := by
    induction changes with
    | nil => exact fun h hh => hh
    | cons change changes ih => exact fun h hh => ih (h.step change) (represents_step hh change)
  exact hrun _ represents_empty

/-! ## §4. Refusals. -/

/-- The call ends in an error. -/
def Change.IsRefused (change : Change) (t : ScopeTable) : Prop :=
  ∃ e, (change.perform t).1 = .error e

theorem isRefused_iff (change : Change) (t : ScopeTable) :
    change.IsRefused t ↔ ∀ t', change.apply t ≠ .ok t' := by
  unfold Change.IsRefused
  rw [perform_eq]
  cases change.apply t with
  | error e => simp [settle]
  | ok t' => simp [settle]

/-- **A refused call leaves no trace.** -/
theorem perform_of_isRefused {change : Change} (h : change.IsRefused t) :
    (change.perform t).2 = t := by
  obtain ⟨e, he⟩ := h
  rw [perform_eq] at he ⊢
  cases happly : change.apply t with
  | error e' => rfl
  | ok t' =>
      rw [happly] at he
      cases he

/-- Which scopes a table does not take. -/
theorem insert_refused_iff (t : ScopeTable) (scope : Scope) :
    (Change.insert scope).IsRefused t
      ↔ scope.closer ≤ scope.opener ∨ scope.opener < scope.condition
        ∨ ∃ known, t.scopeOf? scope.condition = some known := by
  rw [isRefused_iff]
  constructor
  · intro hrefused
    by_contra hall
    simp only [not_or, Nat.not_le, Nat.not_lt, not_exists] at hall
    obtain ⟨hcloser, hcondition, hnew⟩ := hall
    refine hrefused _ (insert_eq_ok hcondition hcloser ?_)
    exact Option.eq_none_iff_forall_ne_some.mpr hnew
  · intro hbad t' hok
    obtain ⟨hcloser, hcondition, hnew, _⟩ := insert_cases hok
    rcases hbad with hbad | hbad | ⟨known, hknown⟩
    · omega
    · omega
    · rw [hnew] at hknown
      cases hknown

/-- Which owners a table does not take. -/
theorem setOwner_refused_iff (t : ScopeTable) (closer condition : Nat) :
    (Change.setOwner closer condition).IsRefused t
      ↔ ¬ ∃ scope, t.scopeOf? condition = some scope ∧ scope.closer = closer := by
  rw [isRefused_iff, ← Option.map_eq_some_iff]
  show (∀ t', t.setOwner closer condition ≠ .ok t') ↔ _
  unfold ScopeTable.setOwner
  split
  · rename_i hends
    simp [hends]
  · rename_i hends
    simp [hends]

/-- **The maps of a table stay in step.**  After any calls on the empty table, refused ones among
them, a scope is found under its own condition with its positions in order, and what is found is
what was recorded; the closers of the scopes are what has an owner, and the owner is a condition
whose scope ends there; the openers are what is known as such, each by the first condition
recorded with it.  A further call that is refused leaves the whole table alone, and which calls
those are is known beforehand.  What a call does in place, the table does out of place. -/
theorem history_keeps_maps (changes : List Change) :
    let t := (History.of changes).table
    t.Represents (History.of changes).recorded
      ∧ (∀ change : Change, change.IsRefused t → (change.perform t).2 = t)
      ∧ (∀ scope, (Change.insert scope).IsRefused t
          ↔ scope.closer ≤ scope.opener ∨ scope.opener < scope.condition
            ∨ ∃ known, t.scopeOf? scope.condition = some known)
      ∧ (∀ closer condition, (Change.setOwner closer condition).IsRefused t
          ↔ ¬ ∃ scope, t.scopeOf? condition = some scope ∧ scope.closer = closer)
      ∧ ∀ change : Change, change.perform t = settle t (change.apply t) := by
  intro t
  exact ⟨represents_of changes, fun change => perform_of_isRefused, insert_refused_iff t,
    setOwner_refused_iff t, fun change => perform_eq change t⟩

end SwitchLayout.ScopeTable
