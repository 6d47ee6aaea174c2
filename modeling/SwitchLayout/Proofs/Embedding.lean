/-
  SwitchLayout.Proofs.Embedding
  ─────────────────────────────
  **A script inside of another.**

  The tokens of one script stand in another in the same order, with nothing but trivia between
  them and with the same partners (`Embeds`); `place` says where each of them stands.  What
  detection finds between two tokens of the one is then what it finds between them in the other:

    • `topLevel_place` — a stretch has the same top level, trivia apart,
    • `declarationBrace?_map`, `labelEnd?_map` — heads and labels end at the same token,
    • `branchScopes_place` — the branches of a switch have the same scopes,
    • `scopesAt_place` — so a keyword brings in the same scopes, once its body has the same brace,
    • `branches_place` — and the rule lists the same branches.

  Once the scopes are known to be the same (`EmbedsScopes`), the tables answer alike.

  Where a body starts is not said here: the search for its brace has no end of its own, and what
  follows the embedded script must be known for it.
-/
import SwitchLayout.Proofs.Branches

namespace SwitchLayout

/-- The scope with its positions moved. -/
def Scope.move (place : Nat → Nat) (scope : Scope) : Scope :=
  ⟨place scope.condition, place scope.opener, place scope.closer⟩

/-! ## §1. Embedded scripts. -/

/-- The token of `e` at `i` stands in `s` at `place i`, and between two tokens of `e` there is
only trivia. -/
structure Embeds (e s : Script) (place : Nat → Nat) : Prop where
  /-- The tokens keep their order. -/
  increasing : ∀ {i j : Nat}, i < j → place i < place j
  /-- The embedded script ends inside the other. -/
  within : place e.size ≤ s.size
  /-- The tokens keep their kinds. -/
  kind : ∀ {i : Nat}, i < e.size → s.kindAt (place i) = e.kindAt i
  /-- A keyword that owns a body keeps the form of the body. -/
  form : ∀ {i : Nat}, i < e.size → (e.kindAt i).ownsBody = true →
    (s.tokenAt (place i)).bodyForm = (e.tokenAt i).bodyForm
  /-- An operator is an assignment or stays none. -/
  assignment : ∀ {i : Nat}, i < e.size → e.kindAt i = .other →
    ((s.tokenAt (place i)).text = "=" ↔ (e.tokenAt i).text = "=")
  /-- The brackets keep their partners. -/
  group : ∀ {i : Nat}, i < e.size →
    s.brackets.groupEnd? (place i) = (e.brackets.groupEnd? i).map place
  /-- What stands between two tokens is trivia. -/
  between : ∀ {i k : Nat}, i < e.size → place i < k → k < place (i + 1) →
    (s.kindAt k).isTrivia = true

theorem TokenKind.brackets_of_isTrivia {k : TokenKind} (h : k.isTrivia = true) :
    k.opens? = none ∧ k.closes? = none := by
  revert h
  cases k <;> decide

/-- An opening bracket of a group is no trivia. -/
theorem Script.isTrivia_of_groupEnd? {s : Script} {i j : Nat}
    (h : s.brackets.groupEnd? i = some j) : (s.kindAt i).isTrivia = false := by
  obtain ⟨shape, hopens, _⟩ := groupEnd?_shapes h
  rw [← Bool.not_eq_true]
  intro htrivia
  rw [(TokenKind.brackets_of_isTrivia htrivia).1] at hopens
  cases hopens

namespace Embeds

variable {e s : Script} {place : Nat → Nat}

theorem strictMono (h : Embeds e s place) : StrictMono place := fun _ _ hij => h.increasing hij

theorem lt_iff (h : Embeds e s place) {i j : Nat} : place i < place j ↔ i < j :=
  h.strictMono.lt_iff_lt

theorem le_iff (h : Embeds e s place) {i j : Nat} : place i ≤ place j ↔ i ≤ j :=
  h.strictMono.le_iff_le

/-- What is no trivia inside the embedded script is one of its tokens. -/
theorem exists_place (h : Embeds e s place) {i k : Nat} (hlo : place i ≤ k)
    (hhi : k < place e.size) (hcode : (s.kindAt k).isTrivia = false) :
    ∃ j < e.size, i ≤ j ∧ place j = k := by
  have hi : i < e.size := h.lt_iff.mp (by omega)
  -- by recursion on what is left of the embedded script
  induction hn : e.size - i generalizing i with
  | zero => omega
  | succ n ih =>
      rcases Nat.eq_or_lt_of_le hlo with rfl | hlt
      · exact ⟨i, hi, Nat.le_refl i, rfl⟩
      · by_cases hnext : k < place (i + 1)
        · rw [h.between hi hlt hnext] at hcode
          cases hcode
        · have hnext' : place (i + 1) ≤ k := Nat.le_of_not_lt hnext
          obtain ⟨j, hj, hij, hplace⟩ := ih hnext' (h.lt_iff.mp (by omega)) (by omega)
          exact ⟨j, hj, by omega, hplace⟩

/-! ## §2. Stretches. -/

/-- A position is outside the groups of a stretch in both scripts or in none. -/
theorem isOutside_place (h : Embeds e s place) {i x : Nat} (hx : x ≤ e.size) :
    s.brackets.IsOutside (place i + 1) (place x) ↔ e.brackets.IsOutside (i + 1) x := by
  have hstop : place x ≤ place e.size := h.le_iff.mpr hx
  constructor
  · intro hout j k hj hjx hjk
    have hgroup : s.brackets.groupEnd? (place j) = some (place k) := by
      rw [h.group (by omega), hjk]
      rfl
    exact h.lt_iff.mp (hout _ _ (h.increasing hj) (h.increasing hjx) hgroup)
  · intro hout q r hq hqx hqr
    obtain ⟨j, hj, _, rfl⟩ := h.exists_place (i := i) (by omega) (by omega)
      (Script.isTrivia_of_groupEnd? hqr)
    rw [h.group hj] at hqr
    obtain ⟨k, hjk, rfl⟩ := Option.map_eq_some_iff.mp hqr
    exact h.increasing (hout j k (h.lt_iff.mp hq) (h.lt_iff.mp hqx) hjk)

/-- **The top level of a stretch, trivia apart.** -/
theorem topLevel_place (h : Embeds e s place) (i : Nat) {stop : Nat} (hstop : stop ≤ e.size) :
    (s.brackets.topLevel (place i + 1) (place stop)).filter (fun k => !(s.kindAt k).isTrivia)
      = ((e.brackets.topLevel (i + 1) stop).filter (fun k => !(e.kindAt k).isTrivia)).map
          place := by
  have hend : place stop ≤ place e.size := h.le_iff.mpr hstop
  have hsorted : (((e.brackets.topLevel (i + 1) stop).filter
      (fun k => !(e.kindAt k).isTrivia)).map place).Pairwise (· < ·) := by
    rw [List.pairwise_map]
    exact ((topLevel_sorted _ _ _).1.filter _).imp fun hlt => h.increasing hlt
  refine List.Pairwise.eq_of_mem_iff ((topLevel_sorted _ _ _).1.filter _) hsorted fun k => ?_
  rw [List.mem_filter, mem_topLevel_iff (wellNested_brackets s), List.mem_map]
  constructor
  · intro ⟨⟨hlo, hhi, hout⟩, hcode⟩
    have htrivia : (s.kindAt k).isTrivia = false := by simpa using hcode
    obtain ⟨x, hx, _, rfl⟩ := h.exists_place (i := i) (by omega) (by omega) htrivia
    refine ⟨x, List.mem_filter.mpr ⟨?_, ?_⟩, rfl⟩
    · rw [mem_topLevel_iff (wellNested_brackets e)]
      exact ⟨h.lt_iff.mp hlo, h.lt_iff.mp hhi, (h.isOutside_place (Nat.le_of_lt hx)).mp hout⟩
    · rw [← h.kind hx]
      exact hcode
  · intro ⟨x, hmem, hplace⟩
    obtain ⟨htop, hcode⟩ := List.mem_filter.mp hmem
    rw [mem_topLevel_iff (wellNested_brackets e)] at htop
    obtain ⟨hlo, hhi, hout⟩ := htop
    subst hplace
    rw [h.kind (by omega)]
    have hx : x ≤ e.size := by omega
    exact ⟨⟨h.increasing hlo, h.increasing hhi, (h.isOutside_place hx).mpr hout⟩, hcode⟩

end Embeds

theorem Brackets.mem_topLevel_lt {b : Brackets} {start stop i : Nat}
    (hi : i ∈ b.topLevel start stop) : i < stop := by
  fun_induction b.topLevel start stop with
  | case1 start hlt ih =>
      rcases List.mem_cons.mp hi with rfl | hi
      · exact hlt
      · exact ih hi
  | case2 start hge => cases hi

/-! ## §3. Heads and labels. -/

namespace Script

/-- Trivia does not end the head of a declaration. -/
theorem declarationBrace?_filter (s : Script) (b : Brackets) (is : List Nat) :
    s.declarationBrace? b (is.filter fun k => !(s.kindAt k).isTrivia)
      = s.declarationBrace? b is := by
  induction is with
  | nil => rfl
  | cons i is ih =>
      rw [List.filter_cons]
      cases htrivia : (s.kindAt i).isTrivia with
      | true =>
          rw [if_neg (by simp), ih]
          conv => rhs; unfold declarationBrace?
          cases hkind : s.kindAt i <;> rw [hkind] at htrivia <;> first | rfl | cases htrivia
      | false =>
          rw [if_pos (by simp)]
          conv => lhs; unfold declarationBrace?
          conv => rhs; unfold declarationBrace?
          rw [ih]

/-- Trivia does not end a label. -/
theorem labelEnd?_filter (s : Script) (b : Brackets) (is : List Nat) (pending : Nat) :
    s.labelEnd? b pending (is.filter fun k => !(s.kindAt k).isTrivia)
      = s.labelEnd? b pending is := by
  induction is generalizing pending with
  | nil => rfl
  | cons i is ih =>
      rw [List.filter_cons]
      cases htrivia : (s.kindAt i).isTrivia with
      | true =>
          rw [if_neg (by simp), ih]
          conv => rhs; unfold labelEnd?
          cases hkind : s.kindAt i <;> rw [hkind] at htrivia <;> first | rfl | cases htrivia
      | false =>
          rw [if_pos (by simp)]
          conv => lhs; unfold labelEnd?
          conv => rhs; unfold labelEnd?
          simp only [ih]

end Script

namespace Embeds

variable {e s : Script} {place : Nat → Nat}

theorem declarationBrace?_map (h : Embeds e s place) {is : List Nat} (his : ∀ i ∈ is, i < e.size) :
    s.declarationBrace? s.brackets (is.map place)
      = (e.declarationBrace? e.brackets is).map place := by
  induction is with
  | nil => rfl
  | cons i is ih =>
      have hi := his i List.mem_cons_self
      have hlater := ih fun j hj => his j (List.mem_cons_of_mem i hj)
      rw [List.map_cons]
      unfold Script.declarationBrace?
      rw [h.kind hi, h.group hi, Option.isSome_map, hlater]
      cases hkind : e.kindAt i with
      | openParen | openBracket =>
          dsimp only
          split <;> rfl
      | other =>
          dsimp only
          simp only [h.assignment hi hkind]
          split <;> rfl
      | _ => rfl

theorem labelEnd?_map (h : Embeds e s place) {is : List Nat} (his : ∀ i ∈ is, i < e.size)
    (pending : Nat) :
    s.labelEnd? s.brackets pending (is.map place)
      = (e.labelEnd? e.brackets pending is).map place := by
  induction is generalizing pending with
  | nil => rfl
  | cons i is ih =>
      have hi := his i List.mem_cons_self
      have hlater := ih fun j hj => his j (List.mem_cons_of_mem i hj)
      rw [List.map_cons]
      unfold Script.labelEnd?
      rw [h.kind hi, h.group hi, Option.isSome_map]
      simp only [hlater]
      cases e.kindAt i with
      | openParen | openBracket | colon =>
          dsimp only
          split <;> rfl
      | _ => rfl

/-- The head of a declaration, searched up to a token of the embedded script. -/
theorem declarationBrace?_place (h : Embeds e s place) (i : Nat) {stop : Nat}
    (hstop : stop ≤ e.size) :
    s.declarationBrace? s.brackets (s.brackets.topLevel (place i + 1) (place stop))
      = (e.declarationBrace? e.brackets (e.brackets.topLevel (i + 1) stop)).map place := by
  rw [← s.declarationBrace?_filter, h.topLevel_place i hstop, h.declarationBrace?_map,
    e.declarationBrace?_filter]
  intro j hj
  have hlt := Brackets.mem_topLevel_lt (List.mem_of_mem_filter hj)
  omega

/-- A label, searched up to a token of the embedded script. -/
theorem labelEnd?_place (h : Embeds e s place) (i : Nat) {stop : Nat} (hstop : stop ≤ e.size) :
    s.labelEnd? s.brackets 0 (s.brackets.topLevel (place i + 1) (place stop))
      = (e.labelEnd? e.brackets 0 (e.brackets.topLevel (i + 1) stop)).map place := by
  rw [← s.labelEnd?_filter, h.topLevel_place i hstop, h.labelEnd?_map, e.labelEnd?_filter]
  intro j hj
  have hlt := Brackets.mem_topLevel_lt (List.mem_of_mem_filter hj)
  omega

end Embeds

/-! ## §4. Branches. -/

/-- A choice of a kind that is no trivia may leave the trivia out. -/
theorem Script.filter_filter_trivia (s : Script) {p : TokenKind → Bool}
    (hp : ∀ {kind : TokenKind}, p kind = true → kind.isTrivia = false) (is : List Nat) :
    (is.filter fun k => !(s.kindAt k).isTrivia).filter (fun k => p (s.kindAt k))
      = is.filter fun k => p (s.kindAt k) := by
  rw [List.filter_filter]
  refine List.filter_congr fun k _ => ?_
  cases hk : p (s.kindAt k) with
  | false => rfl
  | true =>
      rw [hp hk]
      rfl

theorem isTrivia_of_endsBranch {k : TokenKind} (h : Script.endsBranch k = true) :
    k.isTrivia = false := by
  revert h
  cases k <;> decide

namespace Embeds

variable {e s : Script} {place : Nat → Nat}

/-- The tokens of some kind on the top level of a stretch. -/
theorem filter_topLevel_place (h : Embeds e s place) {p : TokenKind → Bool}
    (hp : ∀ {kind : TokenKind}, p kind = true → kind.isTrivia = false) (i : Nat) {stop : Nat}
    (hstop : stop ≤ e.size) :
    (s.brackets.topLevel (place i + 1) (place stop)).filter (fun k => p (s.kindAt k))
      = ((e.brackets.topLevel (i + 1) stop).filter (fun k => p (e.kindAt k))).map place := by
  rw [← s.filter_filter_trivia hp, ← e.filter_filter_trivia hp, h.topLevel_place i hstop,
    List.filter_map]
  refine congrArg (List.map place) (List.filter_congr fun k hk => ?_)
  have hlt := Brackets.mem_topLevel_lt (List.mem_of_mem_filter hk)
  show p (s.kindAt (place k)) = _
  rw [h.kind (by omega)]

theorem branchesIn_place (h : Embeds e s place) (opener : Nat) {closer : Nat}
    (hcloser : closer ≤ e.size) :
    s.branchesIn s.brackets (place opener) (place closer)
      = (e.branchesIn e.brackets opener closer).map place :=
  h.filter_topLevel_place (fun hbranch => (TokenKind.plain_of_isBranch hbranch).1) opener hcloser

theorem find?_endsBranch_place (h : Embeds e s place) (opener : Nat) {closer : Nat}
    (hcloser : closer ≤ e.size) :
    (s.brackets.topLevel (place opener + 1) (place closer)).find?
        (fun k => Script.endsBranch (s.kindAt k))
      = ((e.brackets.topLevel (opener + 1) closer).find?
          (fun k => Script.endsBranch (e.kindAt k))).map place := by
  rw [← List.head?_filter, ← List.head?_filter,
    h.filter_topLevel_place isTrivia_of_endsBranch opener hcloser, List.head?_map]

/-- A scope is found by one of its positions in both lists or in none. -/
theorem find?_place (h : Embeds e s place) (key : Scope → Nat)
    (hkey : ∀ scope : Scope, key (scope.move place) = place (key scope)) (scopes : List Scope)
    (i : Nat) :
    (scopes.map (Scope.move place)).find? (key · == place i)
      = (scopes.find? (key · == i)).map (Scope.move place) := by
  rw [List.find?_map]
  refine congrArg (Option.map _) (congrArg (fun p => List.find? p scopes) (funext fun scope => ?_))
  show (key (scope.move place) == place i) = (key scope == i)
  rw [hkey, Bool.eq_iff_iff, beq_iff_eq, beq_iff_eq]
  exact h.strictMono.injective.eq_iff

theorem branchEnd?_place (h : Embeds e s place) (opener : Nat) {bodyCloser : Nat}
    (hcloser : bodyCloser ≤ e.size) (later : List Scope) :
    s.branchEnd? s.brackets (place opener) (place bodyCloser) (later.map (Scope.move place))
      = (e.branchEnd? e.brackets opener bodyCloser later).map place := by
  unfold Script.branchEnd?
  rw [h.find?_endsBranch_place opener hcloser]
  cases hfind : (e.brackets.topLevel (opener + 1) bodyCloser).find?
      (fun k => Script.endsBranch (e.kindAt k)) with
  | none => rfl
  | some i =>
      have hi := Brackets.mem_topLevel_lt (List.mem_of_find?_eq_some hfind)
      simp only [Option.map_some, h.kind (show i < e.size by omega),
        h.find?_place Scope.condition fun _ => rfl]
      split
      · rw [Option.map_map, Option.map_map]
        rfl
      · rfl

theorem branchScope?_place (h : Embeds e s place) (branch : Nat) {limit bodyCloser : Nat}
    (hlimit : limit ≤ e.size) (hcloser : bodyCloser ≤ e.size) (later : List Scope) :
    s.branchScope? s.brackets (place branch) (place limit) (place bodyCloser)
        (later.map (Scope.move place))
      = (e.branchScope? e.brackets branch limit bodyCloser later).map (Scope.move place) := by
  unfold Script.branchScope?
  rw [h.labelEnd?_place branch hlimit]
  cases hlabel : e.labelEnd? e.brackets 0 (e.brackets.topLevel (branch + 1) limit) with
  | none => rfl
  | some opener =>
      have hopener := Brackets.mem_topLevel_lt (Script.labelEnd?_eq_some hlabel).1
      have hsize : opener < e.size := by omega
      simp only [Option.map_some, Option.bind_eq_bind, Option.bind_some, h.kind hsize,
        h.group hsize, h.branchEnd?_place opener hcloser]
      split
      · cases e.brackets.groupEnd? opener <;> rfl
      · cases e.branchEnd? e.brackets opener bodyCloser later <;> rfl

/-- **Branches keep their places.** -/
theorem branchScopes_place (h : Embeds e s place) {bodyCloser : Nat} (hcloser : bodyCloser ≤ e.size)
    {branches : List Nat} (hbranches : ∀ i ∈ branches, i < e.size) :
    s.branchScopes s.brackets (place bodyCloser) (branches.map place)
      = (e.branchScopes e.brackets bodyCloser branches).map (Scope.move place) := by
  induction branches with
  | nil => rfl
  | cons branch below ih =>
      have hlater := ih fun j hj => hbranches j (List.mem_cons_of_mem branch hj)
      have hlimit : below.head?.getD bodyCloser ≤ e.size := by
        cases below with
        | nil => exact hcloser
        | cons next _ =>
            exact Nat.le_of_lt (hbranches next (List.mem_cons_of_mem _ List.mem_cons_self))
      have hplace : (below.map place).head?.getD (place bodyCloser)
          = place (below.head?.getD bodyCloser) := by
        cases below <;> rfl
      rw [List.map_cons, Script.branchScopes, Script.branchScopes, hlater, hplace,
        h.branchScope?_place branch hlimit hcloser, List.map_append, Option.toList_map]

/-! ## §5. Bodies. -/

/-- A kind that is asked for right away is found in both scripts or in none. -/
theorem filter_kind_place (h : Embeds e s place) {found : Option Nat}
    (hfound : ∀ i ∈ found, i < e.size) (kind : TokenKind) :
    (found.map place).filter (s.kindAt · = kind)
      = (found.filter (e.kindAt · = kind)).map place := by
  cases found with
  | none => rfl
  | some i =>
      simp only [Option.map_some, Option.filter_some, h.kind (hfound i rfl)]
      split <;> rfl

/-- The brace behind a token, if the code behind it is the same. -/
theorem braceAfter?_place (h : Embeds e s place) {i : Nat}
    (hnext : s.significant? (place i + 1) = (e.significant? (i + 1)).map place) :
    s.braceAfter? (place i) = (e.braceAfter? i).map place := by
  unfold Script.braceAfter?
  rw [hnext, h.filter_kind_place]
  intro j hj
  exact (Script.next?_eq_some_iff.mp hj).2.2.1

/-- The brace behind the parentheses behind a token, if the code behind both is the same. -/
theorem braceAfterParens?_place (h : Embeds e s place) {i : Nat}
    (hnext : s.significant? (place i + 1) = (e.significant? (i + 1)).map place)
    (hclose : ∀ {paren close : Nat}, e.kindAt paren = .openParen →
      e.brackets.groupEnd? paren = some close →
      s.significant? (place close + 1) = (e.significant? (close + 1)).map place) :
    s.braceAfterParens? s.brackets (place i) = (e.braceAfterParens? e.brackets i).map place := by
  unfold Script.braceAfterParens?
  have hsize : ∀ j ∈ e.significant? (i + 1), j < e.size :=
    fun j hj => (Script.next?_eq_some_iff.mp hj).2.2.1
  rw [hnext, h.filter_kind_place hsize]
  cases hparen : (e.significant? (i + 1)).filter (e.kindAt · = .openParen) with
  | none => rfl
  | some paren =>
      obtain ⟨hfound, hkind⟩ := Option.filter_eq_some_iff.mp hparen
      show ((s.brackets.groupEnd? (place paren)).bind s.braceAfter?)
        = ((e.brackets.groupEnd? paren).bind e.braceAfter?).map place
      rw [h.group (hsize paren hfound)]
      cases hend : e.brackets.groupEnd? paren with
      | none => rfl
      | some close => exact h.braceAfter?_place (hclose (by simpa using hkind) hend)

/-- A body has the same brace, once the code behind its keyword and behind the parentheses is the
same and the head of a declaration ends alike. -/
theorem bodyBrace?_place (h : Embeds e s place) {i : Nat} (hi : i < e.size)
    (howns : (e.kindAt i).ownsBody = true)
    (hnext : s.significant? (place i + 1) = (e.significant? (i + 1)).map place)
    (hclose : ∀ {paren close : Nat}, e.kindAt paren = .openParen →
      e.brackets.groupEnd? paren = some close →
      s.significant? (place close + 1) = (e.significant? (close + 1)).map place)
    (hhead : s.declarationBrace? s.brackets (s.brackets.topLevel (place i + 1) s.size)
      = (e.declarationBrace? e.brackets (e.brackets.topLevel (i + 1) e.size)).map place) :
    s.bodyBrace? s.brackets (place i) = (e.bodyBrace? e.brackets i).map place := by
  unfold Script.bodyBrace?
  rw [h.form hi howns]
  cases (e.tokenAt i).bodyForm with
  | afterParens => exact h.braceAfterParens?_place hnext hclose
  | direct => exact h.braceAfter?_place hnext
  | declaration => exact hhead

/-- A body has the same end, once it has the same brace. -/
theorem bodyScope?_place (h : Embeds e s place) {i : Nat}
    (hbrace : s.bodyBrace? s.brackets (place i) = (e.bodyBrace? e.brackets i).map place) :
    s.bodyScope? s.brackets (place i)
      = (e.bodyScope? e.brackets i).map (Scope.move place) := by
  unfold Script.bodyScope?
  rw [hbrace]
  cases hopener : e.bodyBrace? e.brackets i with
  | none => rfl
  | some opener =>
      have hsize : opener < e.size := by
        by_contra hge
        have hkind := (Script.bodyBrace?_eq_some hopener).2
        unfold Script.kindAt Script.tokenAt Script.get? at hkind
        rw [Array.getElem?_eq_none (Nat.le_of_not_lt hge)] at hkind
        cases hkind
      show ((s.brackets.groupEnd? (place opener)).bind _) = Option.map _
        ((e.brackets.groupEnd? opener).bind _)
      rw [h.group hsize]
      cases e.brackets.groupEnd? opener <;> rfl

/-- **A keyword brings in the same scopes**, once its body has the same brace. -/
theorem scopesAt_place (h : Embeds e s place) {i : Nat} (hi : i < e.size)
    (hbrace : s.bodyBrace? s.brackets (place i) = (e.bodyBrace? e.brackets i).map place) :
    s.scopesAt s.brackets (place i) = (e.scopesAt e.brackets i).map (Scope.move place) := by
  unfold Script.scopesAt
  rw [h.bodyScope?_place hbrace, h.kind hi]
  cases hbody : e.bodyScope? e.brackets i with
  | none => rfl
  | some body =>
      have hcloser := groupEnd?_lt_size (Script.bodyScope?_eq_some hbody).2.2
      simp only [Option.map_some]
      split
      · show _ :: s.branchScopes s.brackets (place body.closer)
          (s.branchesIn s.brackets (place body.opener) (place body.closer)) = _
        rw [h.branchesIn_place body.opener (Nat.le_of_lt hcloser),
          h.branchScopes_place (Nat.le_of_lt hcloser) ?_]
        · rfl
        · intro j hj
          have hlt := Brackets.mem_topLevel_lt (List.mem_of_mem_filter hj)
          omega
      · rfl

/-! ## §6. The branches that the rule lists. -/

/-- An inner switch hides the same branches, once it has the same closer. -/
theorem hidden_place (h : Embeds e s place)
    (htable : ∀ {i : Nat}, i < e.size →
      s.scopeTable.closerOf? (place i) = (e.scopeTable.closerOf? i).map place)
    {scope : Scope} {indent x : Nat} (hx : x < e.size) :
    (SwitchBody.mk s s.scopeTable (scope.move place) indent).Hidden (place x)
      ↔ (SwitchBody.mk e e.scopeTable scope indent).Hidden x := by
  have hend := h.increasing hx
  constructor
  · intro ⟨q, c, hopener, hqx, hswitch, hc, hxc⟩
    change place scope.opener < q at hopener
    change s.kindAt q = .switchKw at hswitch
    change s.scopeTable.closerOf? q = some c at hc
    obtain ⟨y, hy, _, rfl⟩ := h.exists_place (i := scope.opener) (Nat.le_of_lt hopener) (by omega)
      (by rw [hswitch]; rfl)
    rw [htable hy] at hc
    obtain ⟨d, hd, rfl⟩ := Option.map_eq_some_iff.mp hc
    exact ⟨y, d, h.lt_iff.mp hopener, h.lt_iff.mp hqx, (h.kind hy).symm.trans hswitch, hd,
      h.le_iff.mp hxc⟩
  · intro ⟨q, c, hopener, hqx, hswitch, hc, hxc⟩
    have hq : q < e.size := by omega
    refine ⟨place q, place c, h.increasing hopener, h.increasing hqx, (h.kind hq).trans hswitch,
      ?_, h.le_iff.mpr hxc⟩
    show s.scopeTable.closerOf? (place q) = some (place c)
    rw [htable hq, show e.scopeTable.closerOf? q = some c from hc]
    rfl

/-- **A switch keeps its branches**, once inner switches have the same closers. -/
theorem branches_place (h : Embeds e s place)
    (htable : ∀ {i : Nat}, i < e.size →
      s.scopeTable.closerOf? (place i) = (e.scopeTable.closerOf? i).map place)
    {scope : Scope} (hcloser : scope.closer < e.size) (indent : Nat) :
    (SwitchBody.mk s s.scopeTable (scope.move place) indent).branches
      = (SwitchBody.mk e e.scopeTable scope indent).branches.map place := by
  have hsize : place scope.closer < place e.size := h.increasing hcloser
  have hend := h.within
  have hsorted : ((SwitchBody.mk e e.scopeTable scope indent).branches.map place).Pairwise
      (· < ·) := by
    rw [List.pairwise_map]
    exact (SwitchBody.branchesFrom_spec _ _).1.imp fun hlt => h.increasing hlt
  refine List.Pairwise.eq_of_mem_iff (SwitchBody.branchesFrom_spec _ _).1 hsorted fun k => ?_
  have hmove : (scope.move place).closer ≤ s.size := by
    show place scope.closer ≤ s.size
    omega
  rw [SwitchBody.mem_branches_iff hmove, List.mem_map]
  constructor
  · intro ⟨hlo, hhi, hbranch, hnot⟩
    change place scope.opener < k at hlo
    change k < place scope.closer at hhi
    obtain ⟨x, hx, _, rfl⟩ := h.exists_place (i := scope.opener) (Nat.le_of_lt hlo) (by omega)
      (TokenKind.plain_of_isBranch hbranch).1
    refine ⟨x, (SwitchBody.mem_branches_iff (Nat.le_of_lt hcloser)).mpr ⟨h.lt_iff.mp hlo,
      h.lt_iff.mp hhi, by rw [← h.kind hx]; exact hbranch, ?_⟩, rfl⟩
    rw [← h.hidden_place htable hx]
    exact hnot
  · intro ⟨x, hx, hplace⟩
    subst hplace
    obtain ⟨hlo, hhi, hbranch, hnot⟩ := (SwitchBody.mem_branches_iff (Nat.le_of_lt hcloser)).mp hx
    have hxsize : x < e.size := by omega
    refine ⟨h.increasing hlo, h.increasing hhi, by rw [h.kind hxsize]; exact hbranch, ?_⟩
    rw [h.hidden_place htable hxsize]
    exact hnot

end Embeds

/-! ## §7. Tables. -/

/-- The script `e` is embedded in `s` with its scopes: at the places of the positions of `region`
the scopes of `s` are those of `e`. -/
structure EmbedsScopes (e s : Script) (place : Nat → Nat) (region : Nat → Prop) : Prop extends
    Embeds e s place where
  inside : ∀ {i : Nat}, i < e.size → region i
  condition : ∀ {i : Nat}, region i → s.detectedScopes.find? (·.condition == place i)
    = (e.detectedScopes.find? (·.condition == i)).map (Scope.move place)
  opener : ∀ {i : Nat}, region i → s.detectedScopes.find? (·.opener == place i)
    = (e.detectedScopes.find? (·.opener == i)).map (Scope.move place)
  closer : ∀ {i : Nat}, region i → s.detectedScopes.find? (·.closer == place i)
    = (e.detectedScopes.find? (·.closer == i)).map (Scope.move place)

namespace EmbedsScopes

variable {e s : Script} {place : Nat → Nat} {region : Nat → Prop} {i : Nat}

/-- **The tables have the same scopes.** -/
theorem scopeOf?_place (h : EmbedsScopes e s place region) (hi : region i) :
    s.scopeTable.scopeOf? (place i) = (e.scopeTable.scopeOf? i).map (Scope.move place) := by
  unfold ScopeTable.scopeOf?
  rw [(Script.insertAll_detectedScopes s).2.1, (Script.insertAll_detectedScopes e).2.1,
    h.condition hi]

/-- An opener has the same first condition. -/
theorem openers_place (h : EmbedsScopes e s place region) (hi : region i) :
    s.scopeTable.openers[place i]? = e.scopeTable.openers[i]?.map place := by
  rw [(Script.insertAll_detectedScopes s).2.2.1, (Script.insertAll_detectedScopes e).2.2.1,
    h.opener hi, Option.map_map, Option.map_map]
  rfl

/-- A closer has the same owner. -/
theorem owners_place (h : EmbedsScopes e s place region) (hi : region i) :
    s.scopeTable.owners[place i]? = e.scopeTable.owners[i]?.map place := by
  rw [(Script.insertAll_detectedScopes s).2.2.2, (Script.insertAll_detectedScopes e).2.2.2,
    h.closer hi, Option.map_map, Option.map_map]
  rfl

/-- A closer is reached from the same conditions and openers. -/
theorem closerOf?_place (h : EmbedsScopes e s place region) (hi : region i) :
    s.scopeTable.closerOf? (place i) = (e.scopeTable.closerOf? i).map place := by
  have hbind : (e.scopeTable.openers[i]?.map place).bind s.scopeTable.scopeOf?
      = (e.scopeTable.openers[i]?.bind e.scopeTable.scopeOf?).map (Scope.move place) := by
    cases hopener : e.scopeTable.openers[i]? with
    | none => rfl
    | some c =>
        -- the condition that was recorded with the opener is one of the script
        rw [(Script.insertAll_detectedScopes e).2.2.1] at hopener
        obtain ⟨scope, hfind, rfl⟩ := Option.map_eq_some_iff.mp hopener
        obtain ⟨hco, hoc, hsize, _⟩ :=
          Script.ordered_of_mem_detectedScopes (List.mem_of_find?_eq_some hfind)
        exact h.scopeOf?_place (h.inside (by omega))
  unfold ScopeTable.closerOf?
  rw [h.scopeOf?_place hi, h.openers_place hi, hbind, ← Option.map_or, Option.map_map,
    Option.map_map]
  rfl

/-- **Closers have the same owners.** -/
theorem isOwner_place (h : EmbedsScopes e s place region) {closer : Nat} (hcloser : region closer)
    (i : Nat) : s.scopeTable.isOwner (place i) (place closer) = e.scopeTable.isOwner i closer := by
  unfold ScopeTable.isOwner ScopeTable.ownerOf?
  rw [h.owners_place hcloser, Bool.eq_iff_iff, beq_iff_eq, beq_iff_eq]
  cases e.scopeTable.owners[closer]? with
  | none => simp
  | some owner =>
      simp only [Option.map_some, Option.some.injEq]
      exact h.strictMono.injective.eq_iff

/-- **A switch keeps its branches.** -/
theorem branches_place (h : EmbedsScopes e s place region) {scope : Scope}
    (hcloser : scope.closer < e.size) (indent : Nat) :
    (SwitchBody.mk s s.scopeTable (scope.move place) indent).branches
      = (SwitchBody.mk e e.scopeTable scope indent).branches.map place :=
  h.toEmbeds.branches_place (fun hi => h.closerOf?_place (h.inside hi)) hcloser indent

end EmbedsScopes

end SwitchLayout
