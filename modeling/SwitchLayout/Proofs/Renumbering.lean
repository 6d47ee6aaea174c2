/-
  SwitchLayout.Proofs.Renumbering
  ───────────────────────────────
  **Scope tables under a renumbering of the tokens.**

  `ScopeTable.move` gives every position of a table a new number, in the scopes, in the openers
  and in the owners.  A script that was thinned out has the table of the whole script up to the
  renumbering (`Thins.scopeTable_eq_move`), and two renumberings one behind the other are one
  (`ScopeTable.move_move`).

    • `Script.scopeTable_stripped` — all layout and all comments may go, and the table of the
      script is the table of what is left, moved back to where it stood.
-/
import SwitchLayout.Proofs.Thinning

namespace SwitchLayout

/-! ## §1. Moved tables. -/

/-- The map with its keys moved by `place` and its values by `value`. -/
def moveKeys {α β : Type} (place : Nat → Nat) (value : α → β) (m : Std.ExtTreeMap Nat α) :
    Std.ExtTreeMap Nat β :=
  .ofList (m.toList.map fun entry => (place entry.1, value entry.2))

section Keys

variable {α β : Type} {place : Nat → Nat} {value : α → β} {m : Std.ExtTreeMap Nat α}

/-- What a moved map holds, if no two keys are moved to one place. -/
theorem getElem?_moveKeys (hinj : ∀ {i j : Nat}, i ∈ m → j ∈ m → place i = place j → i = j)
    {k : Nat} {v : β} :
    (moveKeys place value m)[k]? = some v ↔ ∃ i w, m[i]? = some w ∧ place i = k ∧ value w = v := by
  have hmem : ∀ {i : Nat} {w : α}, (i, w) ∈ m.toList → m[i]? = some w :=
    Std.ExtTreeMap.mem_toList_iff_getElem?_eq_some.mp
  have hkey : ∀ {i : Nat} {w : α}, m[i]? = some w → i ∈ m := by
    intro i w hi
    rw [Std.ExtTreeMap.mem_iff_isSome_getElem?, hi]
    rfl
  have hdistinct : (m.toList.map fun entry => (place entry.1, value entry.2)).Pairwise
      fun a b => ¬ compare a.1 b.1 = .eq := by
    rw [List.pairwise_map]
    refine List.Pairwise.imp_of_mem ?_ m.distinct_keys_toList
    intro a b ha hb hne heq
    rw [Nat.compare_eq_eq] at hne heq
    exact hne (hinj (hkey (hmem ha)) (hkey (hmem hb)) heq)
  have hget : ∀ {i : Nat} {w : α}, m[i]? = some w →
      (moveKeys place value m)[place i]? = some (value w) := by
    intro i w hi
    have hin : (i, w) ∈ m.toList := Std.ExtTreeMap.mem_toList_iff_getElem?_eq_some.mpr hi
    exact Std.ExtTreeMap.getElem?_ofList_of_mem (Nat.compare_eq_eq.mpr rfl) hdistinct
      (List.mem_map.mpr ⟨(i, w), hin, rfl⟩)
  constructor
  · intro hk
    by_cases hin : ∃ i w, m[i]? = some w ∧ place i = k
    · obtain ⟨i, w, hi, rfl⟩ := hin
      rw [hget hi] at hk
      exact ⟨i, w, hi, rfl, Option.some.inj hk⟩
    · -- no entry is moved to `k`
      have hnone : (moveKeys place value m)[k]? = none := by
        apply Std.ExtTreeMap.getElem?_ofList_of_contains_eq_false
        rw [← Bool.not_eq_true, List.contains_iff_mem, List.map_map, List.mem_map]
        intro ⟨entry, hentry, heq⟩
        exact hin ⟨entry.1, entry.2, hmem hentry, heq⟩
      rw [hnone] at hk
      cases hk
  · intro ⟨i, w, hi, hplace, hvalue⟩
    rw [← hplace, ← hvalue]
    exact hget hi

/-- A map is known as a moved one by what it holds at the new places, and that it holds nothing
else. -/
theorem eq_moveKeys {m' : Std.ExtTreeMap Nat β} (hplace : place.Injective)
    (hmoved : ∀ i : Nat, m'[place i]? = m[i]?.map value)
    (honly : ∀ {k : Nat} {v : β}, m'[k]? = some v → ∃ i, place i = k) :
    m' = moveKeys place value m := by
  apply Std.ExtTreeMap.ext_getElem?
  intro k
  apply Option.ext
  intro v
  rw [getElem?_moveKeys fun _ _ heq => hplace heq]
  constructor
  · intro hk
    obtain ⟨i, rfl⟩ := honly hk
    rw [hmoved, Option.map_eq_some_iff] at hk
    obtain ⟨w, hw, hvalue⟩ := hk
    exact ⟨i, w, hw, rfl, hvalue⟩
  · intro ⟨i, w, hw, hk, hvalue⟩
    rw [← hk, hmoved, hw, Option.map_some, hvalue]

/-- Two moves one behind the other are one. -/
theorem moveKeys_moveKeys {γ : Type} {place' : Nat → Nat} {value' : β → γ}
    (hplace : place.Injective) (hplace' : (place' ∘ place).Injective) :
    moveKeys place' value' (moveKeys place value m)
      = moveKeys (place' ∘ place) (value' ∘ value) m := by
  have hkey : ∀ {k : Nat}, k ∈ moveKeys place value m → ∃ i, place i = k := by
    intro k hk
    rw [Std.ExtTreeMap.mem_iff_isSome_getElem?, Option.isSome_iff_exists] at hk
    obtain ⟨v, hv⟩ := hk
    obtain ⟨i, _, _, hi, _⟩ := (getElem?_moveKeys fun _ _ heq => hplace heq).mp hv
    exact ⟨i, hi⟩
  apply Std.ExtTreeMap.ext_getElem?
  intro k
  apply Option.ext
  intro v
  rw [getElem?_moveKeys, getElem?_moveKeys fun _ _ heq => hplace' heq]
  · constructor
    · intro ⟨j, u, hj, hk, hv⟩
      obtain ⟨i, w, hi, rfl, rfl⟩ := (getElem?_moveKeys fun _ _ heq => hplace heq).mp hj
      exact ⟨i, w, hi, hk, hv⟩
    · intro ⟨i, w, hi, hk, hv⟩
      exact ⟨place i, value w,
        (getElem?_moveKeys fun _ _ heq => hplace heq).mpr ⟨i, w, hi, rfl, rfl⟩, hk, hv⟩
  · intro j j' hj hj' heq
    obtain ⟨i, rfl⟩ := hkey hj
    obtain ⟨i', rfl⟩ := hkey hj'
    exact congrArg place (hplace' heq)

end Keys

/-- The table with every position moved. -/
def ScopeTable.move (place : Nat → Nat) (t : ScopeTable) : ScopeTable where
  scopes := moveKeys place (Scope.move place) t.scopes
  openers := moveKeys place place t.openers
  owners := moveKeys place place t.owners

theorem ScopeTable.move_move {place place' : Nat → Nat} (hplace : place.Injective)
    (hplace' : (place' ∘ place).Injective) (t : ScopeTable) :
    (t.move place).move place' = t.move (place' ∘ place) := by
  unfold ScopeTable.move
  dsimp only
  rw [moveKeys_moveKeys hplace hplace', moveKeys_moveKeys hplace hplace',
    moveKeys_moveKeys hplace hplace']
  rfl

/-! ## §2. The table of a thinned script. -/

/-- **A thinned script has the table of the whole one, up to the renumbering.** -/
theorem Thins.scopeTable_eq_move {e s : Script} {place : Nat → Nat} (h : Thins e s place) :
    s.scopeTable = e.scopeTable.move place := by
  have hinj : place.Injective := h.embeds.strictMono.injective
  -- what is recorded are positions of detected scopes, and these were moved
  have honly : ∀ {key : Scope → Nat},
      (∀ scope : Scope, key (scope.move place) = place (key scope)) →
      ∀ {k : Nat} {scope : Scope}, s.detectedScopes.find? (key · == k) = some scope →
        ∃ i, place i = k := by
    intro key hkey k scope hfind
    have hmem := List.mem_of_find?_eq_some hfind
    rw [h.detectedScopes_place, List.mem_map] at hmem
    obtain ⟨old, _, rfl⟩ := hmem
    have hk := List.find?_some hfind
    rw [beq_iff_eq, hkey] at hk
    exact ⟨key old, hk⟩
  have hscopes : s.scopeTable.scopes = moveKeys place (Scope.move place) e.scopeTable.scopes := by
    refine eq_moveKeys hinj h.scopeOf?_place fun {k scope} hk => ?_
    rw [(Script.insertAll_detectedScopes s).2.1] at hk
    exact honly (fun _ => rfl) hk
  have hopeners : s.scopeTable.openers = moveKeys place place e.scopeTable.openers := by
    refine eq_moveKeys hinj (fun _ => h.embedsScopes.openers_place trivial) fun {k c} hk => ?_
    rw [(Script.insertAll_detectedScopes s).2.2.1] at hk
    obtain ⟨scope, hscope, _⟩ := Option.map_eq_some_iff.mp hk
    exact honly (fun _ => rfl) hscope
  have howners : s.scopeTable.owners = moveKeys place place e.scopeTable.owners := by
    refine eq_moveKeys hinj (fun _ => h.embedsScopes.owners_place trivial) fun {k c} hk => ?_
    rw [(Script.insertAll_detectedScopes s).2.2.2] at hk
    obtain ⟨scope, hscope, _⟩ := Option.map_eq_some_iff.mp hk
    exact honly (fun _ => rfl) hscope
  show (⟨s.scopeTable.scopes, s.scopeTable.openers, s.scopeTable.owners⟩ : ScopeTable) = _
  rw [hscopes, hopeners, howners]
  rfl

/-! ## §3. Scripts without layout and comments. -/

namespace Script

/-- The positions of the tokens that are neither layout nor comment. -/
def significantPositions (s : Script) : List Nat :=
  (List.range s.size).filter fun i => !(s.kindAt i).isTrivia

/-- The script without its layout and its comments. -/
def stripped (s : Script) : Script :=
  ofTokens (s.tokens.toList.filter fun t => !t.kind.isTrivia)

/-- Where the token number `k` of the stripped script stands; behind its end the numbers go on
from the end of the script. -/
def strippedPlace (s : Script) (k : Nat) : Nat :=
  s.significantPositions.getD k (s.size + (k - s.significantPositions.length))

section Stripped

variable {s : Script} {k : Nat}

theorem toList_tokens (s : Script) : s.tokens.toList = (List.range s.size).map s.tokenAt := by
  apply List.ext_getElem
  · simp [size]
  · intro i hi _
    rw [Array.length_toList] at hi
    simp [tokenAt, get?, hi]

theorem tokens_stripped (s : Script) :
    s.tokens.toList.filter (fun t => !t.kind.isTrivia) = s.significantPositions.map s.tokenAt := by
  rw [toList_tokens, List.filter_map]
  rfl

theorem size_stripped (s : Script) : s.stripped.size = s.significantPositions.length := by
  rw [stripped, size_ofTokens, tokens_stripped, List.length_map]

theorem strippedPlace_of_lt (hk : k < s.significantPositions.length) :
    s.strippedPlace k = s.significantPositions[k] := by
  rw [strippedPlace, List.getD_eq_getElem?_getD, List.getElem?_eq_getElem hk, Option.getD_some]

theorem strippedPlace_of_ge (hk : s.significantPositions.length ≤ k) :
    s.strippedPlace k = s.size + (k - s.significantPositions.length) := by
  rw [strippedPlace, List.getD_eq_getElem?_getD, List.getElem?_eq_none hk, Option.getD_none]

/-- A token that is kept is the one that stood at its place. -/
theorem tokenAt_stripped (hk : k < s.significantPositions.length) :
    s.stripped.tokenAt k = { s.tokenAt (s.strippedPlace k) with position := k } := by
  rw [tokenAt, stripped, get?_ofTokens, tokens_stripped, List.getElem?_map,
    List.getElem?_eq_getElem hk, strippedPlace_of_lt hk]
  rfl

theorem mem_significantPositions {i : Nat} :
    i ∈ s.significantPositions ↔ i < s.size ∧ (s.kindAt i).isTrivia = false := by
  simp [significantPositions]

/-- The kept tokens keep their order. -/
theorem strippedPlace_lt {i j : Nat} (hij : i < j) : s.strippedPlace i < s.strippedPlace j := by
  have hsorted : s.significantPositions.Pairwise (· < ·) := List.pairwise_lt_range.filter _
  by_cases hi : i < s.significantPositions.length
  · rw [strippedPlace_of_lt hi]
    by_cases hj : j < s.significantPositions.length
    · rw [strippedPlace_of_lt hj]
      exact List.pairwise_iff_getElem.mp hsorted i j hi hj hij
    · have hlt := (mem_significantPositions.mp (List.getElem_mem hi)).1
      rw [strippedPlace_of_ge (Nat.le_of_not_lt hj)]
      omega
  · rw [strippedPlace_of_ge (by omega), strippedPlace_of_ge (by omega)]
    omega

/-- A script is thinned out when all its trivia goes. -/
theorem thins_stripped (s : Script) : Thins s.stripped s s.strippedPlace where
  increasing := strippedPlace_lt
  behind := by rw [size_stripped, strippedPlace_of_ge (Nat.le_refl _), Nat.sub_self, Nat.add_zero]
  kind := by
    intro i hi
    rw [size_stripped] at hi
    rw [kindAt, kindAt, tokenAt_stripped hi]
  form := by
    intro i hi _
    rw [size_stripped] at hi
    rw [tokenAt_stripped hi]
    rfl
  assignment := by
    intro i hi _
    rw [size_stripped] at hi
    rw [tokenAt_stripped hi]
  rest := by
    intro k hk hne
    rw [← Bool.not_eq_false]
    intro hcode
    obtain ⟨i, hi, rfl⟩ := List.getElem_of_mem (mem_significantPositions.mpr ⟨hk, hcode⟩)
    exact hne i (by rwa [size_stripped]) (strippedPlace_of_lt hi)

end Stripped

/-- **Scopes know no layout and no comments.**  Take all whitespace and all comments out of any
script, find the scopes of what is left, and put every position back to where its token stood:
this is the table of the script, with the same scopes, the same first condition for each opener
and the same owner for each closer. -/
theorem scopeTable_stripped (s : Script) :
    s.scopeTable = s.stripped.scopeTable.move s.strippedPlace :=
  s.thins_stripped.scopeTable_eq_move

end Script

end SwitchLayout
