/-
  SwitchLayout.Proofs.Tables
  ──────────────────────────
  **What a scope table keeps, whatever is done to it.**

  A table grows from the empty one by insertions and changes of owner, be it in detection or at
  the hands of someone else.  Each change keeps the table in order:

    • `ordered_insert`, `ordered_setOwner` — the two steps,
    • `ordered_of_built` — after any history,
    • `Ordered.lt_closerOf?` — the closer of a condition or an opener lies behind it,
    • `checkBounds_cases` — whether a table fits a script, for all positions it mentions.
-/
import SwitchLayout.Proofs.Scopes

namespace SwitchLayout

/-! ## §1. Tables built from nothing. -/

namespace ScopeTable

variable {t t' : ScopeTable}

/-- The tables that insertions and changes of owner make of the empty one.  A refused change
leaves the table as it is. -/
inductive Built : ScopeTable → Prop where
  | empty : Built ScopeTable.empty
  | insert {t t' : ScopeTable} {scope : Scope} (ht : Built t) (h : t.insert scope = .ok t') :
      Built t'
  | setOwner {t t' : ScopeTable} {closer condition : Nat} (ht : Built t)
      (h : t.setOwner closer condition = .ok t') : Built t'

/-- What every change of a table keeps. -/
structure Ordered (t : ScopeTable) : Prop where
  /-- A scope is found under its condition, and its positions are in order. -/
  scopes : ∀ {c : Nat} {scope : Scope}, t.scopeOf? c = some scope →
    scope.condition = c ∧ scope.condition ≤ scope.opener ∧ scope.opener < scope.closer
  /-- An opener is recorded with a scope that it opens. -/
  openers : ∀ {o c : Nat}, t.openers[o]? = some c →
    ∃ scope, t.scopeOf? c = some scope ∧ scope.opener = o
  /-- A closer is owned by a scope that ends there. -/
  owners : ∀ {k c : Nat}, t.owners[k]? = some c →
    ∃ scope, t.scopeOf? c = some scope ∧ scope.closer = k

/-- What an insertion that succeeds has asked for, and what it leaves. -/
theorem insert_cases {scope : Scope} (h : t.insert scope = .ok t') :
    scope.opener < scope.closer ∧ scope.condition ≤ scope.opener
      ∧ t.scopeOf? scope.condition = none
      ∧ t' = { scopes := t.scopes.insert scope.condition scope
               openers := t.openers.insertIfNew scope.opener scope.condition
               owners := t.owners.insertIfNew scope.closer scope.condition } := by
  unfold ScopeTable.insert at h
  split at h
  · cases h
  rename_i hcloser
  split at h
  · cases h
  rename_i hcondition
  split at h
  · cases h
  rename_i hnew
  exact ⟨by omega, by omega, Std.ExtTreeMap.getElem?_eq_none hnew, (Except.ok.inj h).symm⟩

theorem ordered_empty : ScopeTable.empty.Ordered where
  scopes := fun h => by
    rw [show ScopeTable.empty.scopeOf? _ = none from Std.ExtTreeMap.getElem?_empty] at h
    cases h
  openers := fun h => by
    rw [show ScopeTable.empty.openers[_]? = none from Std.ExtTreeMap.getElem?_empty] at h
    cases h
  owners := fun h => by
    rw [show ScopeTable.empty.owners[_]? = none from Std.ExtTreeMap.getElem?_empty] at h
    cases h

/-- A scope that was known before an insertion is known behind it. -/
theorem scopeOf?_insert {scope : Scope} (h : t.insert scope = .ok t') (c : Nat) :
    t'.scopeOf? c = if scope.condition = c then some scope else t.scopeOf? c := by
  obtain ⟨_, _, _, rfl⟩ := insert_cases h
  exact getElem?_insert_scope t.scopes scope c

theorem ordered_insert {scope : Scope} (ht : t.Ordered) (h : t.insert scope = .ok t') :
    t'.Ordered := by
  obtain ⟨hcloser, hcondition, hnew, ht'⟩ := insert_cases h
  have hkept : ∀ {c : Nat} {known : Scope}, t.scopeOf? c = some known →
      t'.scopeOf? c = some known := by
    intro c known hc
    rw [scopeOf?_insert h, if_neg, hc]
    intro heq
    rw [heq, hc] at hnew
    cases hnew
  have hown : t'.scopeOf? scope.condition = some scope := by
    rw [scopeOf?_insert h, if_pos rfl]
  -- the two indices take an entry for the new scope, or keep the one they have
  have hindex : ∀ {entries : Std.ExtTreeMap Nat Nat} {key k c : Nat},
      (entries.insertIfNew key scope.condition)[k]? = some c →
        entries[k]? = some c ∨ (k = key ∧ c = scope.condition) := by
    intro entries key k c hk
    rw [Std.ExtTreeMap.getElem?_insertIfNew] at hk
    split at hk
    · rename_i hcmp
      exact Or.inr ⟨(Std.LawfulEqCmp.eq_of_compare hcmp.1).symm, (Option.some.inj hk).symm⟩
    · exact Or.inl hk
  subst ht'
  constructor
  · intro c found hc
    rw [scopeOf?_insert h] at hc
    split at hc
    · rename_i heq
      cases hc
      exact ⟨heq, hcondition, hcloser⟩
    · exact ht.scopes hc
  · intro o c ho
    rcases hindex ho with hold | ⟨rfl, rfl⟩
    · obtain ⟨found, hc, heq⟩ := ht.openers hold
      exact ⟨found, hkept hc, heq⟩
    · exact ⟨scope, hown, rfl⟩
  · intro k c hk
    rcases hindex hk with hold | ⟨rfl, rfl⟩
    · obtain ⟨found, hc, heq⟩ := ht.owners hold
      exact ⟨found, hkept hc, heq⟩
    · exact ⟨scope, hown, rfl⟩

theorem ordered_setOwner {closer condition : Nat} (ht : t.Ordered)
    (h : t.setOwner closer condition = .ok t') : t'.Ordered := by
  unfold ScopeTable.setOwner at h
  split at h
  · rename_i howns
    cases h
    refine ⟨ht.scopes, ht.openers, ?_⟩
    intro k c hk
    change (t.owners.insert closer condition)[k]? = some c at hk
    rw [Std.ExtTreeMap.getElem?_insert] at hk
    split at hk
    · rename_i hcmp
      cases hk
      obtain ⟨scope, hscope, hcloser⟩ := Option.map_eq_some_iff.mp howns
      exact ⟨scope, hscope, hcloser.trans (Std.LawfulEqCmp.eq_of_compare hcmp)⟩
    · exact ht.owners hk
  · cases h

/-- **Order.**  A table is in order after any history. -/
theorem ordered_of_built (h : t.Built) : t.Ordered := by
  induction h with
  | empty => exact ordered_empty
  | insert _ h ih => exact ordered_insert ih h
  | setOwner _ h ih => exact ordered_setOwner ih h

/-- A walk that meets a condition or an opener is sent forward. -/
theorem Ordered.lt_closerOf? (ht : t.Ordered) {i c : Nat} (h : t.closerOf? i = some c) :
    i < c := by
  unfold closerOf? at h
  obtain ⟨scope, hor, rfl⟩ := Option.map_eq_some_iff.mp h
  rcases Option.or_eq_some_iff.mp hor with hscope | ⟨_, hopener⟩
  · obtain ⟨heq, _, _⟩ := ht.scopes hscope
    have horder := ht.scopes hscope
    omega
  · obtain ⟨condition, ho, hscope⟩ := Option.bind_eq_some_iff.mp hopener
    obtain ⟨found, hfound, heq⟩ := ht.openers ho
    rw [hscope] at hfound
    cases hfound
    have horder := ht.scopes hscope
    omega

theorem built_insertAccepted (scopes : List Scope) (ht : t.Built) :
    (t.insertAccepted scopes).Built := by
  induction scopes generalizing t with
  | nil => exact ht
  | cons scope scopes ih =>
      show (((t.insert scope).toOption.getD t).insertAccepted scopes).Built
      apply ih
      cases h : t.insert scope with
      | error e => exact ht
      | ok t' => exact Built.insert ht h

/-! ## §2. The positions of a table. -/

/-- The table mentions the position: in a scope, or in one of its indices. -/
def Records (t : ScopeTable) (p : Nat) : Prop :=
  (∃ c scope, t.scopeOf? c = some scope
      ∧ (p = scope.condition ∨ p = scope.opener ∨ p = scope.closer))
    ∨ (∃ o c, t.openers[o]? = some c ∧ (p = o ∨ p = c))
    ∨ (∃ k c, t.owners[k]? = some c ∧ (p = k ∨ p = c))

/-- No position that a table mentions lies behind the closers of its scopes. -/
theorem Ordered.le_closer (ht : t.Ordered) {p : Nat} (h : t.Records p) :
    ∃ c scope, t.scopeOf? c = some scope ∧ p ≤ scope.closer := by
  rcases h with ⟨c, scope, hscope, hp⟩ | ⟨o, c, ho, hp⟩ | ⟨k, c, hk, hp⟩
  · have horder := ht.scopes hscope
    exact ⟨c, scope, hscope, by omega⟩
  · obtain ⟨scope, hscope, heq⟩ := ht.openers ho
    have horder := ht.scopes hscope
    exact ⟨c, scope, hscope, by omega⟩
  · obtain ⟨scope, hscope, heq⟩ := ht.owners hk
    have horder := ht.scopes hscope
    exact ⟨c, scope, hscope, by omega⟩

/-- The fit of a table names a closer that lies outside, or there is none. -/
theorem checkBounds_cases (t : ScopeTable) (size : Nat) :
    (t.checkBounds size = .ok ()
        ∧ ∀ {c : Nat} {scope : Scope}, t.scopeOf? c = some scope → scope.closer < size)
      ∨ ∃ p, t.checkBounds size = .error (.outOfBounds p size) ∧ t.Records p ∧ size ≤ p := by
  unfold checkBounds
  cases hfind : t.toList.find? (fun scope => size ≤ scope.closer) with
  | none =>
      refine Or.inl ⟨rfl, ?_⟩
      intro c scope hscope
      have hmem : scope ∈ t.toList :=
        List.mem_map.mpr ⟨(c, scope), Std.ExtTreeMap.mem_toList_iff_getElem?_eq_some.mpr hscope, rfl⟩
      have hinside := List.find?_eq_none.mp hfind scope hmem
      simpa using hinside
  | some scope =>
      obtain ⟨entry, hentry, rfl⟩ := List.mem_map.mp (List.mem_of_find?_eq_some hfind)
      have hscope := Std.ExtTreeMap.mem_toList_iff_getElem?_eq_some.mp hentry
      have houtside : size ≤ entry.2.closer := by simpa using List.find?_some hfind
      exact Or.inr ⟨entry.2.closer, rfl,
        Or.inl ⟨entry.1, entry.2, hscope, Or.inr (Or.inr rfl)⟩, houtside⟩

end ScopeTable

/-- Every scope of a table that fits a script ends inside it. -/
theorem closer_lt_of_checkBounds {table : ScopeTable} {size k : Nat} {scope : Scope}
    (hbounds : table.checkBounds size = .ok ()) (hscope : table.scopeOf? k = some scope) :
    scope.closer < size := by
  rcases table.checkBounds_cases size with ⟨_, hclosers⟩ | ⟨p, hoff, _⟩
  · exact hclosers hscope
  · rw [hbounds] at hoff
    cases hoff

theorem Script.built_scopeTable (s : Script) : s.scopeTable.Built :=
  ScopeTable.built_insertAccepted s.detectedScopes .empty

end SwitchLayout
