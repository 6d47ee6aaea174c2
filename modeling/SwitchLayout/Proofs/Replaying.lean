/-
  SwitchLayout.Proofs.Replaying
  ─────────────────────────────
  **A scope table told again.**

  A table gives out its scopes in the order of their conditions and its closers with their owners.
  Told to the empty table, scopes first and owners after them, these make a table again
  (`retelling`).  The telling cannot go wrong: the scopes are in order and have conditions of their
  own, and by the time an owner is named its scope is known.

    • `run_inserts_eq`, `scopes_inserts` — the scopes are taken and found again,
    • `openers_inserts_iff`, `openers_inserts_eq_iff` — an opener is now known by the least
      condition,
    • `run_setOwners` — the owners are taken one after the other,
    • `replay_exact` — the new table against the old one.

  The order in which scopes were recorded is not told.  It shows where several scopes share an
  opener, and nowhere else.
-/
import SwitchLayout.Proofs.Histories
import SwitchLayout.Proofs.Laminar
import Mathlib.Order.Bounds.Basic

namespace SwitchLayout.ScopeTable

/-! ## §1. What a table tells. -/

/-- Changes in their order, up to the first that is refused. -/
def run (t : ScopeTable) (changes : List Change) : Except ScopeError ScopeTable :=
  changes.foldlM (fun t change => change.apply t) t

/-- The scopes of a table as insertions, in the order of their conditions. -/
def inserts (t : ScopeTable) : List Change := t.toList.map Change.insert

/-- The owners of a table as changes, in the order of the closers. -/
def setOwners (t : ScopeTable) : List Change :=
  t.ownerList.map fun entry => .setOwner entry.1 entry.2

/-- A table as changes that build it up. -/
def retelling (t : ScopeTable) : List Change := t.inserts ++ t.setOwners

/-- The conditions whose scopes start at an opener. -/
def openedAt (t : ScopeTable) (o : Nat) : Set Nat :=
  {c | ∃ scope, t.scopeOf? c = some scope ∧ scope.opener = o}

variable {t r : ScopeTable} {recorded : List Scope}

theorem run_append (t : ScopeTable) (changes changes' : List Change) :
    t.run (changes ++ changes') = t.run changes >>= fun r => r.run changes' := by
  unfold run
  rw [List.foldlM_append]

theorem run_inserts (t r : ScopeTable) : r.run t.inserts = r.insertAll t.toList := by
  unfold run inserts insertAll
  rw [List.foldlM_map]
  rfl

theorem mem_toList_iff {scope : Scope} (ht : t.Ordered) :
    scope ∈ t.toList ↔ t.scopeOf? scope.condition = some scope := by
  unfold toList
  rw [List.mem_map]
  constructor
  · intro hmem
    obtain ⟨⟨c, found⟩, hentry, rfl⟩ := hmem
    have hfound : t.scopeOf? c = some found :=
      Std.ExtTreeMap.mem_toList_iff_getElem?_eq_some.mp hentry
    rw [(ht.scopes hfound).1]
    exact hfound
  · intro hscope
    exact ⟨(scope.condition, scope),
      Std.ExtTreeMap.mem_toList_iff_getElem?_eq_some.mpr hscope, rfl⟩

/-- The scopes are told in the order of their conditions. -/
theorem toList_sorted (ht : t.Ordered) :
    t.toList.Pairwise fun a b => a.condition < b.condition := by
  unfold toList
  rw [List.pairwise_map]
  refine (List.Pairwise.imp_of_mem ?_) Std.ExtTreeMap.ordered_keys_toList
  intro a b ha hb hlt
  -- an entry stands under the condition of its scope
  have ha' := (ht.scopes (Std.ExtTreeMap.mem_toList_iff_getElem?_eq_some.mp ha)).1
  have hb' := (ht.scopes (Std.ExtTreeMap.mem_toList_iff_getElem?_eq_some.mp hb)).1
  rw [ha', hb']
  exact Nat.compare_eq_lt.mp hlt

theorem nodup_toList (ht : t.Ordered) : (t.toList.map Scope.condition).Nodup := by
  unfold List.Nodup
  rw [List.pairwise_map]
  exact (toList_sorted ht).imp fun hlt => Nat.ne_of_lt hlt

/-! ## §2. The scopes. -/

/-- **The scopes are taken,** all of them.  The table then knows each under its condition, and an
opener or a closer by the first that has it. -/
theorem run_inserts_eq (ht : t.Ordered) :
    ScopeTable.empty.run t.inserts = .ok (ScopeTable.empty.insertAccepted t.toList)
      ∧ (∀ c : Nat, (ScopeTable.empty.insertAccepted t.toList).scopes[c]?
          = t.toList.find? (·.condition == c))
      ∧ (∀ o : Nat, (ScopeTable.empty.insertAccepted t.toList).openers[o]?
          = (t.toList.find? (·.opener == o)).map Scope.condition)
      ∧ (∀ k : Nat, (ScopeTable.empty.insertAccepted t.toList).owners[k]?
          = (t.toList.find? (·.closer == k)).map Scope.condition) := by
  rw [run_inserts]
  exact insertAll_empty (fun scope hmem => (ht.scopes ((mem_toList_iff ht).mp hmem)).2)
    (nodup_toList ht)

theorem scopes_inserts (ht : t.Ordered) :
    (ScopeTable.empty.insertAccepted t.toList).scopes = t.scopes := by
  apply Std.ExtTreeMap.ext_getElem?
  intro c
  apply Option.ext
  intro scope
  rw [(run_inserts_eq ht).2.1, find?_condition_eq_some_iff (nodup_toList ht), mem_toList_iff ht]
  constructor
  · rintro ⟨hscope, rfl⟩
    exact hscope
  · intro hscope
    obtain rfl := (ht.scopes hscope).1
    exact ⟨hscope, rfl⟩

/-- **An opener is known by the least condition** once the scopes are told in order. -/
theorem openers_inserts_iff (ht : t.Ordered) {o c : Nat} :
    (ScopeTable.empty.insertAccepted t.toList).openers[o]? = some c
      ↔ IsLeast (t.openedAt o) c := by
  rw [(run_inserts_eq ht).2.2.1, Option.map_eq_some_iff]
  constructor
  · intro hfound
    obtain ⟨scope, hfind, rfl⟩ := hfound
    have hmem := List.mem_of_find?_eq_some hfind
    refine ⟨⟨scope, (mem_toList_iff ht).mp hmem, by simpa using List.find?_some hfind⟩, ?_⟩
    intro c hc
    obtain ⟨other, hother, hopener⟩ := hc
    obtain ⟨rfl, -⟩ := ht.scopes hother
    rcases Script.eq_or_rel_of_find?_eq_some (toList_sorted ht) hfind
      ((mem_toList_iff ht).mpr hother) (by simpa using hopener) with rfl | hlt
    · exact Nat.le_refl _
    · exact Nat.le_of_lt hlt
  · intro hleast
    obtain ⟨⟨scope, hscope, hopener⟩, hle⟩ := hleast
    obtain ⟨rfl, -⟩ := ht.scopes hscope
    -- some scope with this opener is found, and it is not in front of the least one
    have hmem := (mem_toList_iff ht).mpr hscope
    obtain ⟨found, hfind⟩ : ∃ found, t.toList.find? (·.opener == o) = some found := by
      rw [← Option.isSome_iff_exists, List.find?_isSome]
      exact ⟨scope, hmem, by simpa using hopener⟩
    refine ⟨found, hfind, ?_⟩
    have hfound := (mem_toList_iff ht).mp (List.mem_of_find?_eq_some hfind)
    have hge : scope.condition ≤ found.condition :=
      hle ⟨found, hfound, by simpa using List.find?_some hfind⟩
    rcases Script.eq_or_rel_of_find?_eq_some (toList_sorted ht) hfind hmem
      (by simpa using hopener) with rfl | hlt
    · rfl
    · omega

/-! ## §3. The owners. -/

theorem setOwner_eq_ok {closer condition : Nat}
    (h : (t.scopeOf? condition).map Scope.closer = some closer) :
    t.setOwner closer condition = .ok { t with owners := t.owners.insert closer condition } := by
  unfold setOwner
  rw [if_pos h]

/-- **Owners named one after the other.**  Where the scopes are known and no closer comes twice,
each is taken; the other two maps and the closers that are not named stay as they are. -/
theorem run_setOwners (entries : List (Nat × Nat)) :
    ∀ r : ScopeTable,
      (∀ entry ∈ entries, (r.scopeOf? entry.2).map Scope.closer = some entry.1) →
      (entries.map Prod.fst).Nodup →
      ∃ owners : Std.ExtTreeMap Nat Nat,
        r.run (entries.map fun entry => .setOwner entry.1 entry.2) = .ok { r with owners := owners }
          ∧ (∀ entry ∈ entries, owners[entry.1]? = some entry.2)
          ∧ ∀ k, k ∉ entries.map Prod.fst → owners[k]? = r.owners[k]? := by
  induction entries with
  | nil =>
      intro r _ _
      exact ⟨r.owners, rfl, fun entry hentry => absurd hentry List.not_mem_nil, fun k _ => rfl⟩
  | cons entry entries ih =>
      intro r hknown hnodup
      rw [List.map_cons, List.nodup_cons] at hnodup
      obtain ⟨hnew, hnodup⟩ := hnodup
      have hset := setOwner_eq_ok (hknown entry List.mem_cons_self)
      -- naming an owner leaves the scopes alone, so the rest is still known
      obtain ⟨owners, hrun, hnamed, hkept⟩ :=
        ih { r with owners := r.owners.insert entry.1 entry.2 }
          (fun other hother => hknown other (List.mem_cons_of_mem entry hother)) hnodup
      have hinsert : ∀ k, k ∉ entries.map Prod.fst →
          owners[k]? = if entry.1 = k then some entry.2 else r.owners[k]? := by
        intro k hk
        rw [hkept k hk]
        show (r.owners.insert entry.1 entry.2)[k]? = _
        rw [Std.ExtTreeMap.getElem?_insert]
        simp only [Nat.compare_eq_eq]
      refine ⟨owners, ?_, ?_, ?_⟩
      · show (r.setOwner entry.1 entry.2 >>= fun r => r.run _) = _
        rw [hset]
        exact hrun
      · intro other hother
        rcases List.mem_cons.mp hother with rfl | hother
        · rw [hinsert other.1 hnew, if_pos rfl]
        · exact hnamed other hother
      · intro k hk
        rw [List.map_cons, List.mem_cons, not_or] at hk
        rw [hinsert k hk.2, if_neg (Ne.symm hk.1)]

/-! ## §4. The whole table. -/

/-- What the telling makes of a table in step with the scopes recorded in it: the scopes and the
owners as they are, and the openers as the scopes in order leave them. -/
theorem run_retelling (ht : t.Represents recorded) :
    ScopeTable.empty.run t.retelling
      = .ok { t with openers := (ScopeTable.empty.insertAccepted t.toList).openers } := by
  obtain ⟨hinserts, -, -, howners⟩ := run_inserts_eq ht.toOrdered
  have hscopes := scopes_inserts ht.toOrdered
  have hentries : ∀ entry ∈ t.ownerList, t.owners[entry.1]? = some entry.2 :=
    fun entry hentry => Std.ExtTreeMap.mem_toList_iff_getElem?_eq_some.mp hentry
  obtain ⟨owners, hrun, hnamed, hkept⟩ :=
    run_setOwners t.ownerList (ScopeTable.empty.insertAccepted t.toList)
      (fun entry hentry => by
        obtain ⟨scope, hscope, hcloser⟩ := ht.owners (hentries entry hentry)
        show ((ScopeTable.empty.insertAccepted t.toList).scopes[entry.2]?).map _ = _
        rw [hscopes, show t.scopes[entry.2]? = some scope from hscope]
        exact congrArg some hcloser)
      (by
        show (t.owners.toList.map Prod.fst).Nodup
        rw [Std.ExtTreeMap.map_fst_toList_eq_keys]
        exact Std.ExtTreeMap.nodup_keys)
  have hsame : owners = t.owners := by
    apply Std.ExtTreeMap.ext_getElem?
    intro k
    cases hk : t.owners[k]? with
    | some c => exact hnamed (k, c) (Std.ExtTreeMap.mem_toList_iff_getElem?_eq_some.mpr hk)
    | none =>
        -- a closer without owner is the closer of no scope
        have hnot : k ∉ t.ownerList.map Prod.fst := by
          intro hmem
          obtain ⟨entry, hentry, rfl⟩ := List.mem_map.mp hmem
          rw [hentries entry hentry] at hk
          cases hk
        rw [hkept k hnot, howners, Option.map_eq_none_iff, List.find?_eq_none]
        intro scope hmem hcloser
        have hscope := (mem_toList_iff ht.toOrdered).mp hmem
        have howned := (ht.mem_owners k).mpr ⟨_, scope, hscope, by simpa using hcloser⟩
        rw [Std.ExtTreeMap.mem_iff_isSome_getElem?, hk] at howned
        cases howned
  unfold retelling
  rw [run_append, hinserts]
  show (ScopeTable.empty.insertAccepted t.toList).run t.setOwners = _
  unfold setOwners
  rw [hrun, hscopes, hsame]

/-- The telling keeps the openers exactly if each was known by the least condition. -/
theorem openers_inserts_eq_iff (ht : t.Represents recorded) :
    (ScopeTable.empty.insertAccepted t.toList).openers = t.openers
      ↔ ∀ o, (t.openedAt o).Nonempty →
          ∃ c, t.openers[o]? = some c ∧ IsLeast (t.openedAt o) c := by
  constructor
  · intro hopeners o hopened
    -- a scope opens here, so the opener is known; by the least condition, as in the new table
    obtain ⟨c, scope, hscope, hopener⟩ := hopened
    have hknown := (ht.mem_openers o).mpr ⟨c, scope, hscope, hopener⟩
    rw [Std.ExtTreeMap.mem_iff_isSome_getElem?, Option.isSome_iff_exists] at hknown
    obtain ⟨first, hfirst⟩ := hknown
    refine ⟨first, hfirst, (openers_inserts_iff ht.toOrdered).mp ?_⟩
    rw [hopeners, hfirst]
  · intro hleast
    apply Std.ExtTreeMap.ext_getElem?
    intro o
    apply Option.ext
    intro c
    rw [openers_inserts_iff ht.toOrdered]
    constructor
    · intro hc
      obtain ⟨first, hfirst, hleast'⟩ := hleast o hc.nonempty
      rw [hc.unique hleast', hfirst]
    · intro hc
      obtain ⟨first, hfirst, hleast'⟩ := hleast o ⟨c, ht.openers hc⟩
      rw [hc] at hfirst
      cases hfirst
      exact hleast'

/-- **A table told again.**  Whatever calls have made a table of the empty one, refused ones among
them, its scopes in order and then its owners are taken one by one by the empty table.  Scopes
and owners of the new table are those of the old; and the two tables are equal exactly if the old
one knows every opener by the least condition whose scope starts there. -/
theorem replay_exact (changes : List Change) :
    let t := (History.of changes).table
    ∃ r, ScopeTable.empty.run t.retelling = .ok r
      ∧ r.scopes = t.scopes
      ∧ r.owners = t.owners
      ∧ (r = t ↔ ∀ o, (t.openedAt o).Nonempty →
          ∃ c, t.openers[o]? = some c ∧ IsLeast (t.openedAt o) c) := by
  intro t
  have ht : t.Represents (History.of changes).recorded := represents_of changes
  refine ⟨_, run_retelling ht, rfl, rfl, ?_⟩
  rw [← openers_inserts_eq_iff ht]
  constructor
  · intro heq
    have hopeners := congrArg ScopeTable.openers heq
    exact hopeners
  · intro hopeners
    rw [hopeners]

-- the scope of 5 is recorded in front of the scope of 3, and both start at 8
example :
    let t := (History.of [.insert ⟨5, 8, 20⟩, .insert ⟨3, 8, 20⟩]).table
    t.openers[8]? = some 5
      ∧ (ScopeTable.empty.run t.retelling).toOption.map (·.openers[8]?) = some (some 3) := by
  decide +kernel

end SwitchLayout.ScopeTable
