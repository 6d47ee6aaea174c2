/-
  SwitchLayout.Proofs.Thinning
  ────────────────────────────
  **Layout and comments have no part in the scopes of a script.**

  A script is thinned out when some of its trivia is taken away (`Thins`).  The tokens that stay
  keep their order, and `place` says where each of them stood.  Every step of detection then
  comes out the same up to `place`:

    • `groupEnd?_place` — brackets have the same partners, so that the thinned script is embedded
      in the other (`embeds`),
    • `bodyBrace?_place` — bodies start at the same brace,
    • `detectedScopes_place` — so all scopes are the same, in the order in which they are recorded,
    • `embedsScopes` — and the tables answer alike.
-/
import SwitchLayout.Proofs.Embedding

namespace SwitchLayout

/-! ## §1. Thinned scripts. -/

/-- The script `e` is `s` with some of its trivia taken away, and its token at `i` stood at
`place i`. -/
structure Thins (e s : Script) (place : Nat → Nat) : Prop where
  /-- The tokens keep their order. -/
  increasing : ∀ {i j : Nat}, i < j → place i < place j
  /-- The ends of the two scripts correspond. -/
  behind : place e.size = s.size
  /-- The tokens keep their kinds. -/
  kind : ∀ {i : Nat}, i < e.size → s.kindAt (place i) = e.kindAt i
  /-- A keyword that owns a body keeps the form of the body. -/
  form : ∀ {i : Nat}, i < e.size → (e.kindAt i).ownsBody = true →
    (s.tokenAt (place i)).bodyForm = (e.tokenAt i).bodyForm
  /-- An operator is an assignment or stays none. -/
  assignment : ∀ {i : Nat}, i < e.size → e.kindAt i = .other →
    ((s.tokenAt (place i)).text = "=" ↔ (e.tokenAt i).text = "=")
  /-- What was taken away is trivia. -/
  rest : ∀ {k : Nat}, k < s.size → (∀ i < e.size, place i ≠ k) → (s.kindAt k).isTrivia = true

namespace Thins

variable {e s : Script} {place : Nat → Nat}

theorem lt_iff (h : Thins e s place) {i j : Nat} : place i < place j ↔ i < j := by
  constructor
  · intro hlt
    by_contra hge
    rcases Nat.eq_or_lt_of_le (Nat.le_of_not_lt hge) with rfl | hgt
    · omega
    · have hback := h.increasing hgt
      omega
  · exact h.increasing

theorem le_iff (h : Thins e s place) {i j : Nat} : place i ≤ place j ↔ i ≤ j := by
  rw [← Nat.not_lt, h.lt_iff, Nat.not_lt]

theorem inj (h : Thins e s place) {i j : Nat} (heq : place i = place j) : i = j := by
  have hij := h.le_iff.mp (Nat.le_of_eq heq)
  have hji := h.le_iff.mp (Nat.le_of_eq heq.symm)
  omega

theorem succ_le_iff (h : Thins e s place) {i j : Nat} : place i + 1 ≤ place j ↔ i + 1 ≤ j := by
  rw [Nat.succ_le_iff, h.lt_iff, Nat.succ_le_iff]

theorem lt_size_iff (h : Thins e s place) {i : Nat} : place i < s.size ↔ i < e.size := by
  rw [← h.behind, h.lt_iff]

/-- The kinds agree behind the ends too. -/
theorem kindAt_place (h : Thins e s place) (i : Nat) : s.kindAt (place i) = e.kindAt i := by
  by_cases hi : i < e.size
  · exact h.kind hi
  · have habsent : ∀ {t : Script} {j : Nat}, ¬ j < t.size → t.kindAt j = .other := by
      intro t j hj
      unfold Script.kindAt Script.tokenAt Script.get?
      rw [Array.getElem?_eq_none (Nat.le_of_not_lt hj)]
      rfl
    rw [habsent hi, habsent (fun hlt => hi (h.lt_size_iff.mp hlt))]

/-- A token that is no trivia stays. -/
theorem exists_place (h : Thins e s place) {k : Nat} (hk : k < s.size)
    (hkind : (s.kindAt k).isTrivia = false) : ∃ i < e.size, place i = k := by
  by_contra hnone
  have htrivia := h.rest hk fun i hi heq => hnone ⟨i, hi, heq⟩
  rw [htrivia] at hkind
  cases hkind

/-- Between two tokens in a row there is nothing but trivia. -/
theorem trivia_between (h : Thins e s place) {i k : Nat} (hi : i < e.size) (hlo : place i < k)
    (hhi : k < place (i + 1)) : (s.kindAt k).isTrivia = true := by
  have hsize : place (i + 1) ≤ s.size := by
    rw [← h.behind]
    exact h.le_iff.mpr hi
  apply h.rest (by omega)
  intro j _ heq
  rw [← heq, h.lt_iff] at hlo hhi
  omega

/-- In front of the first token there is nothing but trivia. -/
theorem trivia_front (h : Thins e s place) {k : Nat} (hk : k < place 0) :
    (s.kindAt k).isTrivia = true := by
  have hsize : place 0 ≤ s.size := by
    rw [← h.behind]
    exact h.le_iff.mpr (Nat.zero_le _)
  apply h.rest (by omega)
  intro j _ heq
  rw [← heq, h.lt_iff] at hk
  omega

end Thins

/-! ## §2. Brackets. -/

namespace Script

/-- The pairing pass over the tokens in front of `n`. -/
def scanTo (s : Script) (n : Nat) : BracketScan :=
  (s.tokens.toList.take n).foldl BracketScan.step .start

theorem scanTo_succ {s : Script} {n : Nat} (hn : n < s.size) :
    s.scanTo (n + 1) = (s.scanTo n).step (s.tokenAt n) := by
  have hlt : n < s.tokens.toList.length := by simpa [size] using hn
  unfold scanTo
  rw [List.take_succ_eq_append_getElem hlt, List.foldl_append]
  have htoken : s.tokens.toList[n] = s.tokenAt n := by
    simp [tokenAt, get?, show n < s.tokens.size from hn]
  rw [htoken]
  rfl

theorem brackets_eq_scanTo (s : Script) : s.brackets = ⟨(s.scanTo s.size).partners⟩ := by
  unfold brackets scanTo
  rw [List.take_of_length_le (by simp [size])]

/-- Trivia passes by without a trace. -/
theorem scanTo_of_trivia {s : Script} {a b : Nat} (hab : a ≤ b) (hb : b ≤ s.size)
    (h : ∀ k, a ≤ k → k < b → (s.kindAt k).isTrivia = true) : s.scanTo b = s.scanTo a := by
  induction b with
  | zero =>
      obtain rfl : a = 0 := by omega
      rfl
  | succ b ih =>
      rcases Nat.eq_or_lt_of_le hab with rfl | hlt
      · rfl
      · obtain ⟨hopens, hcloses⟩ := TokenKind.brackets_of_isTrivia (h b (by omega) (by omega))
        rw [scanTo_succ hb]
        unfold BracketScan.step
        rw [show (s.tokenAt b).kind.opens? = none from hopens,
          show (s.tokenAt b).kind.closes? = none from hcloses]
        exact ih (by omega) (by omega) fun k hlo hhi => h k hlo (by omega)

theorem position_tokenAt_of_lt {s : Script} {i : Nat} (hi : i < s.size) :
    (s.tokenAt i).position = i := by
  unfold tokenAt get?
  rw [Array.getElem?_eq_getElem hi]
  exact s.numbered i hi

end Script

/-- The second pass stands where the first does, up to `place`. -/
structure BracketScan.Mirrors (place : Nat → Nat) (scan scan' : BracketScan) : Prop where
  opened : scan'.opened = scan.opened.map fun b => (place b.1, b.2)
  partners : ∀ i : Nat, scan'.partners[place i]? = scan.partners[i]?.map place

/-- One token is taken into account alike by both passes. -/
theorem BracketScan.mirrors_step {place : Nat → Nat} (hplace : place.Injective)
    {scan scan' : BracketScan} {t t' : Token} (hkind : t'.kind = t.kind)
    (hposition : t'.position = place t.position) (hscan : scan.Mirrors place scan') :
    (scan.step t).Mirrors place (scan'.step t') := by
  unfold BracketScan.step
  rw [hkind, hposition]
  generalize t.position = n
  cases t.kind.opens? with
  | some shape =>
      refine ⟨?_, hscan.partners⟩
      simp only [List.map_cons, hscan.opened]
  | none =>
      cases t.kind.closes? with
      | none => exact hscan
      | some shape =>
          -- the same open bracket is taken
          have hdrop : scan'.opened.dropWhile (fun b => b.2 ≠ shape)
              = (scan.opened.dropWhile (fun b => b.2 ≠ shape)).map
                  (fun b => (place b.1, b.2)) := by
            rw [hscan.opened, List.dropWhile_map]
            rfl
          simp only [hdrop]
          cases scan.opened.dropWhile (fun b => b.2 ≠ shape) with
          | nil => exact hscan
          | cons b outer =>
              refine ⟨rfl, fun i => ?_⟩
              show ((scan'.partners.insert (place b.1) (place n)).insert (place n)
                (place b.1))[place i]? = ((scan.partners.insert b.1 n).insert n b.1)[i]?.map place
              rw [getElem?_insert_pair, getElem?_insert_pair, hscan.partners]
              by_cases hin : i = n
              · rw [if_pos hin, if_pos (congrArg place hin)]
                rfl
              · rw [if_neg hin, if_neg fun heq => hin (hplace heq)]
                by_cases hib : i = b.1
                · rw [if_pos hib, if_pos (congrArg place hib)]
                  rfl
                · rw [if_neg hib, if_neg fun heq => hib (hplace heq)]

/-- Brackets with the same partners open the same groups, where the order is kept. -/
theorem Brackets.groupEnd?_of_partner? {b b' : Brackets} {place : Nat → Nat}
    (hplace : ∀ {i j : Nat}, place i < place j ↔ i < j) {i : Nat}
    (h : b'.partner? (place i) = (b.partner? i).map place) :
    b'.groupEnd? (place i) = (b.groupEnd? i).map place := by
  unfold Brackets.groupEnd?
  rw [h]
  cases b.partner? i with
  | none => rfl
  | some j =>
      simp only [Option.map_some, Option.filter_some, decide_eq_true_eq, hplace]
      split <;> rfl

namespace Thins

variable {e s : Script} {place : Nat → Nat}

/-- The pairing passes go side by side. -/
theorem mirrors_scanTo (h : Thins e s place) (n : Nat) (hn : n ≤ e.size) :
    (e.scanTo n).Mirrors place (s.scanTo (place n)) := by
  have hsize : place n ≤ s.size := by
    rw [← h.behind]
    exact h.le_iff.mpr hn
  induction n with
  | zero =>
      rw [Script.scanTo_of_trivia (Nat.zero_le _) hsize fun k _ hk => h.trivia_front hk]
      refine ⟨rfl, fun i => ?_⟩
      show (∅ : Std.ExtTreeMap Nat Nat)[place i]? = (∅ : Std.ExtTreeMap Nat Nat)[i]?.map place
      rw [Std.ExtTreeMap.getElem?_empty, Std.ExtTreeMap.getElem?_empty]
      rfl
  | succ n ih =>
      have hlt : place n < place (n + 1) := h.increasing (Nat.lt_succ_self n)
      rw [Script.scanTo_of_trivia hlt hsize fun k hlo hhi => h.trivia_between hn hlo hhi,
        Script.scanTo_succ hn, Script.scanTo_succ (by omega)]
      refine BracketScan.mirrors_step (fun _ _ heq => h.inj heq) (h.kind hn) ?_
        (ih (by omega) (by omega))
      rw [Script.position_tokenAt_of_lt hn,
        Script.position_tokenAt_of_lt (h.lt_size_iff.mpr hn)]

/-- **Brackets keep their partners.** -/
theorem groupEnd?_place (h : Thins e s place) (i : Nat) :
    s.brackets.groupEnd? (place i) = (e.brackets.groupEnd? i).map place := by
  refine Brackets.groupEnd?_of_partner? h.lt_iff ?_
  have hmirror := (h.mirrors_scanTo e.size (Nat.le_refl _)).partners i
  rw [h.behind] at hmirror
  rw [Script.brackets_eq_scanTo, Script.brackets_eq_scanTo]
  exact hmirror

/-- **The thinned script is embedded in the other.** -/
theorem embeds (h : Thins e s place) : Embeds e s place where
  increasing := h.increasing
  within := Nat.le_of_eq h.behind
  kind := h.kind
  form := h.form
  assignment := h.assignment
  group := fun {i} _ => h.groupEnd?_place i
  between := h.trivia_between

/-! ## §3. Bodies. -/

/-- A search that passes over what was taken away finds the same token. -/
theorem next?_place (h : Thins e s place) {p : TokenKind → Bool} {start first : Nat}
    (hp : ∀ k < s.size, (∀ i < e.size, place i ≠ k) → p (s.kindAt k) = false)
    (hstart : ∀ y, start ≤ place y ↔ first ≤ y) (stop : Nat) :
    s.next? p start (place stop) = (e.next? p first stop).map place := by
  cases hnext : e.next? p first stop with
  | some x =>
      obtain ⟨hlo, hhi, hsize, hx, hleast⟩ := Script.next?_eq_some_iff.mp hnext
      refine Script.next?_eq_some_iff.mpr ⟨(hstart x).mpr hlo, h.increasing hhi,
        h.lt_size_iff.mpr hsize, by rw [h.kindAt_place]; exact hx, fun k hk hkx => ?_⟩
      by_cases hin : ∃ i < e.size, place i = k
      · obtain ⟨i, _, rfl⟩ := hin
        rw [h.kindAt_place]
        exact hleast i ((hstart i).mp hk) (h.lt_iff.mp hkx)
      · have hsize' := h.lt_size_iff.mpr hsize
        exact hp k (by omega) fun i hi heq => hin ⟨i, hi, heq⟩
  | none =>
      unfold Script.next? at hnext ⊢
      rw [firstIn?_eq_none_iff] at hnext
      rw [Option.map_none, firstIn?_eq_none_iff]
      intro k hlo hhi
      obtain ⟨hstop, hsize⟩ := Nat.lt_min.mp hhi
      by_cases hin : ∃ i < e.size, place i = k
      · obtain ⟨i, hi, rfl⟩ := hin
        rw [h.kindAt_place]
        exact hnext i ((hstart i).mp hlo) (Nat.lt_min.mpr ⟨h.lt_iff.mp hstop, hi⟩)
      · exact hp k hsize fun i hi heq => hin ⟨i, hi, heq⟩

theorem significant?_place (h : Thins e s place) (i : Nat) :
    s.significant? (place i + 1) = (e.significant? (i + 1)).map place := by
  unfold Script.significant?
  rw [← h.behind]
  refine h.next?_place (fun k hk hout => ?_) (fun _ => h.succ_le_iff) e.size
  rw [h.rest hk hout]
  rfl

/-- **Bodies start at the same brace.** -/
theorem bodyBrace?_place (h : Thins e s place) {i : Nat} (hi : i < e.size)
    (howns : (e.kindAt i).ownsBody = true) :
    s.bodyBrace? s.brackets (place i) = (e.bodyBrace? e.brackets i).map place := by
  refine h.embeds.bodyBrace?_place hi howns (h.significant?_place i)
    (fun _ _ => h.significant?_place _) ?_
  rw [← h.behind, h.embeds.declarationBrace?_place i (Nat.le_refl _)]

/-! ## §4. Tables. -/

theorem ownsBody_not_isTrivia {k : TokenKind} (h : k.ownsBody = true) : k.isTrivia = false := by
  revert h
  cases k <;> decide

/-- The positions of the tokens of some kind. -/
theorem filter_range_place (h : Thins e s place) {p : TokenKind → Bool}
    (hp : ∀ {kind : TokenKind}, p kind = true → kind.isTrivia = false) :
    (List.range s.size).filter (fun k => p (s.kindAt k))
      = ((List.range e.size).filter (fun k => p (e.kindAt k))).map place := by
  have hsorted : (((List.range e.size).filter
      (fun k => p (e.kindAt k))).map place).Pairwise (· < ·) := by
    rw [List.pairwise_map]
    exact (List.pairwise_lt_range.filter _).imp fun hlt => h.increasing hlt
  refine List.Pairwise.eq_of_mem_iff (List.pairwise_lt_range.filter _) hsorted fun k => ?_
  rw [List.mem_filter, List.mem_range, List.mem_map]
  constructor
  · intro ⟨hk, hkind⟩
    obtain ⟨i, hi, rfl⟩ := h.exists_place hk (hp hkind)
    rw [h.kindAt_place] at hkind
    exact ⟨i, List.mem_filter.mpr ⟨List.mem_range.mpr hi, hkind⟩, rfl⟩
  · intro ⟨i, hi, hplace⟩
    obtain ⟨hsize, hkind⟩ := List.mem_filter.mp hi
    subst hplace
    rw [h.kindAt_place]
    exact ⟨h.lt_size_iff.mpr (List.mem_range.mp hsize), hkind⟩

/-- **The scopes are the same, in the same order.** -/
theorem detectedScopes_place (h : Thins e s place) :
    s.detectedScopes = e.detectedScopes.map (Scope.move place) := by
  unfold Script.detectedScopes
  dsimp only
  rw [h.filter_range_place ownsBody_not_isTrivia, List.flatMap_map, List.map_flatMap]
  refine List.flatMap_congr fun i hi => ?_
  obtain ⟨hsize, howns⟩ := List.mem_filter.mp hi
  have hi : i < e.size := List.mem_range.mp hsize
  exact h.embeds.scopesAt_place hi (h.bodyBrace?_place hi howns)

/-- **The thinned script is embedded with its scopes.** -/
theorem embedsScopes (h : Thins e s place) : EmbedsScopes e s place fun _ => True where
  toEmbeds := h.embeds
  inside := fun _ => trivial
  condition := fun {i} _ => by
    rw [h.detectedScopes_place, h.embeds.find?_place Scope.condition fun _ => rfl]
  opener := fun {i} _ => by
    rw [h.detectedScopes_place, h.embeds.find?_place Scope.opener fun _ => rfl]
  closer := fun {i} _ => by
    rw [h.detectedScopes_place, h.embeds.find?_place Scope.closer fun _ => rfl]

theorem scopeOf?_place (h : Thins e s place) (i : Nat) :
    s.scopeTable.scopeOf? (place i) = (e.scopeTable.scopeOf? i).map (Scope.move place) :=
  h.embedsScopes.scopeOf?_place trivial

theorem isOwner_place (h : Thins e s place) (i closer : Nat) :
    s.scopeTable.isOwner (place i) (place closer) = e.scopeTable.isOwner i closer :=
  h.embedsScopes.isOwner_place trivial i

theorem branches_place (h : Thins e s place) {scope : Scope} (hcloser : scope.closer < e.size)
    (indent : Nat) :
    (SwitchBody.mk s s.scopeTable (scope.move place) indent).branches
      = (SwitchBody.mk e e.scopeTable scope indent).branches.map place :=
  h.embedsScopes.branches_place hcloser indent

end Thins

end SwitchLayout
