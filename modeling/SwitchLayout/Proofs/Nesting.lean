/-
  SwitchLayout.Proofs.Nesting
  ───────────────────────────
  **Matched brackets nest.**

  The pairing pass keeps one invariant, `BracketScan.Nests`: every pair joins an opening to a
  closing bracket of its shape, no two pairs cross, and no pair reaches over a bracket that is
  still open.  One step keeps it (`nests_step`), so the whole pass does (`nests_scan`),
  whatever brackets are missing or mixed up.

  From there the stretches between brackets are understood:

    • `Brackets.WellNested` — a group that starts inside a group ends inside it,
    • `mem_topLevel_iff` — the walk over a stretch meets exactly the positions that stand in
      no group of the stretch,
    • `topLevel_sorted` — and it meets them in order,
    • `groupEnd?_of_balanced` — the brackets around a balanced stretch are partners,
    • `isOutside_of_balanced` — and no group of such a stretch reaches out of it.
-/
import SwitchLayout.Brackets

namespace SwitchLayout

/-! ## §1. The invariant of the pairing pass. -/

/-- What holds after the tokens in front of `n` were taken into account, where `kind` gives the
kinds of the tokens. -/
structure BracketScan.Nests (scan : BracketScan) (kind : Nat → TokenKind) (n : Nat) : Prop where
  /-- The open brackets lie in front of `n`. -/
  opened_lt : ∀ b ∈ scan.opened, b.1 < n
  /-- An open bracket has the shape it is noted with. -/
  opened_kind : ∀ b ∈ scan.opened, (kind b.1).opens? = some b.2
  /-- The innermost open bracket stands first. -/
  opened_sorted : scan.opened.Pairwise (fun a b => b.1 < a.1)
  /-- Partners are known to each other. -/
  symm : ∀ i j : Nat, scan.partners[i]? = some j → scan.partners[j]? = some i
  /-- Paired brackets lie in front of `n`. -/
  paired_lt : ∀ i j : Nat, scan.partners[i]? = some j → i < n
  /-- The smaller of two partners opens what the larger closes. -/
  shapes : ∀ i j : Nat, scan.partners[i]? = some j →
    (i < j ∧ ∃ shape, (kind i).opens? = some shape ∧ (kind j).closes? = some shape)
      ∨ (j < i ∧ ∃ shape, (kind j).opens? = some shape ∧ (kind i).closes? = some shape)
  /-- No pair reaches over an open bracket. -/
  opened_free : ∀ b ∈ scan.opened, ∀ i j : Nat,
    scan.partners[i]? = some j → i < j → b.1 < i ∨ j < b.1
  /-- No two pairs cross. -/
  crossless : ∀ i j k l : Nat, scan.partners[i]? = some j → i < j →
    scan.partners[k]? = some l → k < l → i < k → k < j → l < j

theorem nests_start (kind : Nat → TokenKind) : BracketScan.start.Nests kind 0 := by
  have hopen : BracketScan.start.opened = [] := rfl
  have hpair : ∀ i : Nat, BracketScan.start.partners[i]? = none := by
    intro i
    show (∅ : Std.ExtTreeMap Nat Nat)[i]? = none
    exact Std.ExtTreeMap.getElem?_empty
  constructor <;> simp [hopen, hpair]

/-- A later bound serves as well. -/
theorem BracketScan.Nests.mono {scan : BracketScan} {kind : Nat → TokenKind} {n m : Nat}
    (h : scan.Nests kind n) (hnm : n ≤ m) : scan.Nests kind m where
  opened_lt := fun b hb => Nat.lt_of_lt_of_le (h.opened_lt b hb) hnm
  opened_kind := h.opened_kind
  opened_sorted := h.opened_sorted
  symm := h.symm
  paired_lt := fun i j hij => Nat.lt_of_lt_of_le (h.paired_lt i j hij) hnm
  shapes := h.shapes
  opened_free := h.opened_free
  crossless := h.crossless

/-- An opening bracket at `n` becomes the innermost open one. -/
theorem nests_push {scan : BracketScan} {kind : Nat → TokenKind} {n : Nat} {shape : BracketShape}
    (h : scan.Nests kind n) (hshape : (kind n).opens? = some shape) :
    ({ scan with opened := (n, shape) :: scan.opened } : BracketScan).Nests kind (n + 1) where
  opened_lt := by
    intro b hb
    rcases List.mem_cons.mp hb with rfl | hb
    · exact Nat.lt_succ_self n
    · exact Nat.lt_succ_of_lt (h.opened_lt b hb)
  opened_kind := by
    intro b hb
    rcases List.mem_cons.mp hb with rfl | hb
    · exact hshape
    · exact h.opened_kind b hb
  opened_sorted := List.pairwise_cons.mpr ⟨h.opened_lt, h.opened_sorted⟩
  symm := h.symm
  paired_lt := (h.mono (Nat.le_succ n)).paired_lt
  shapes := h.shapes
  opened_free := by
    intro b hb i j hij hlt
    rcases List.mem_cons.mp hb with rfl | hb
    · have hj := h.paired_lt j i (h.symm i j hij)
      exact Or.inr hj
    · exact h.opened_free b hb i j hij hlt
  crossless := h.crossless

/-- The partners, with those of a new pair. -/
theorem getElem?_insert_pair (partners : Std.ExtTreeMap Nat Nat) (p n i : Nat) :
    ((partners.insert p n).insert n p)[i]?
      = if i = n then some p else if i = p then some n else partners[i]? := by
  rw [Std.ExtTreeMap.getElem?_insert, Std.ExtTreeMap.getElem?_insert]
  simp only [Nat.compare_eq_eq, eq_comm (b := i)]

/-- An open bracket has no partner yet. -/
theorem not_paired_of_opened {scan : BracketScan} {kind : Nat → TokenKind} {n j : Nat}
    {b : Nat × BracketShape} (h : scan.Nests kind n) (hb : b ∈ scan.opened) :
    scan.partners[b.1]? ≠ some j := by
  intro hj
  rcases h.shapes b.1 j hj with ⟨hlt, _⟩ | ⟨hlt, _⟩
  · rcases h.opened_free b hb b.1 j hj hlt with hlt' | hlt' <;> omega
  · rcases h.opened_free b hb j b.1 (h.symm b.1 j hj) hlt with hlt' | hlt' <;> omega

/-- A pair is the new one, read from either end, or an old one. -/
theorem pair_cases {scan : BracketScan} {kind : Nat → TokenKind} {n p : Nat}
    {shape : BracketShape} (h : scan.Nests kind n) (hp : (p, shape) ∈ scan.opened) {i j : Nat}
    (hij : ((scan.partners.insert p n).insert n p)[i]? = some j) :
    (i = n ∧ j = p) ∨ (i = p ∧ j = n)
      ∨ (scan.partners[i]? = some j ∧ i < n ∧ j < n ∧ i ≠ p ∧ j ≠ p) := by
  rw [getElem?_insert_pair] at hij
  by_cases hin : i = n
  · rw [if_pos hin] at hij
    exact Or.inl ⟨hin, (Option.some.inj hij).symm⟩
  · by_cases hip : i = p
    · rw [if_neg hin, if_pos hip] at hij
      exact Or.inr (Or.inl ⟨hip, (Option.some.inj hij).symm⟩)
    · rw [if_neg hin, if_neg hip] at hij
      have hji := h.symm i j hij
      refine Or.inr (Or.inr ⟨hij, h.paired_lt i j hij, h.paired_lt j i hji, hip, ?_⟩)
      rintro rfl
      exact not_paired_of_opened h hp hji

/-- A closing bracket at `n` takes the open bracket `p` of its shape; what was opened behind
`p` is given up. -/
theorem nests_close {scan : BracketScan} {kind : Nat → TokenKind} {n p : Nat}
    {shape : BracketShape} {inner outer : List (Nat × BracketShape)}
    (h : scan.Nests kind n) (hshape : (kind n).closes? = some shape)
    (hsplit : scan.opened = inner ++ (p, shape) :: outer) :
    ({ opened := outer
       partners := (scan.partners.insert p n).insert n p } : BracketScan).Nests kind (n + 1) := by
  have hp : (p, shape) ∈ scan.opened := by rw [hsplit]; simp
  have hpn : p < n := h.opened_lt _ hp
  have hsub : ∀ b ∈ outer, b ∈ scan.opened := by
    intro b hb
    rw [hsplit]
    simp [hb]
  have hsorted : ((p, shape) :: outer).Pairwise (fun a b => b.1 < a.1) := by
    have hall := h.opened_sorted
    rw [hsplit] at hall
    exact (List.pairwise_append.mp hall).2.1
  have hbelow : ∀ b ∈ outer, b.1 < p := (List.pairwise_cons.mp hsorted).1
  constructor
  · intro b hb
    exact Nat.lt_succ_of_lt (h.opened_lt b (hsub b hb))
  · intro b hb
    exact h.opened_kind b (hsub b hb)
  · exact (List.pairwise_cons.mp hsorted).2
  · intro i j hij
    rw [getElem?_insert_pair]
    rcases pair_cases h hp hij with ⟨rfl, rfl⟩ | ⟨rfl, rfl⟩ | ⟨hold, _, hjn, _, hjp⟩
    · simp [Nat.ne_of_lt hpn]
    · simp
    · rw [if_neg (Nat.ne_of_lt hjn), if_neg hjp]
      exact h.symm i j hold
  · intro i j hij
    rcases pair_cases h hp hij with ⟨rfl, rfl⟩ | ⟨rfl, rfl⟩ | ⟨_, hin, _⟩ <;> omega
  · intro i j hij
    rcases pair_cases h hp hij with ⟨rfl, rfl⟩ | ⟨rfl, rfl⟩ | ⟨hold, _⟩
    · exact Or.inr ⟨hpn, shape, h.opened_kind _ hp, hshape⟩
    · exact Or.inl ⟨hpn, shape, h.opened_kind _ hp, hshape⟩
    · exact h.shapes i j hold
  · intro b hb i j hij hlt
    have hbp := hbelow b hb
    rcases pair_cases h hp hij with ⟨rfl, rfl⟩ | ⟨rfl, rfl⟩ | ⟨hold, _⟩
    · omega
    · exact Or.inl hbp
    · exact h.opened_free b (hsub b hb) i j hold hlt
  · -- an old pair cannot reach over `p`, which was open until now
    intro i j k l hij hijlt hkl hkllt hik hkj
    rcases pair_cases h hp hij with ⟨rfl, rfl⟩ | ⟨rfl, rfl⟩ | ⟨hold, _, hjn, _, _⟩
    · omega
    · rcases pair_cases h hp hkl with ⟨rfl, rfl⟩ | ⟨rfl, rfl⟩ | ⟨_, _, hln, _, _⟩ <;> omega
    · rcases pair_cases h hp hkl with ⟨rfl, rfl⟩ | ⟨rfl, rfl⟩ | ⟨hold', _⟩
      · omega
      · rcases h.opened_free _ hp i j hold hijlt with hlt | hlt <;> omega
      · exact h.crossless i j k l hold hijlt hold' hkllt hik hkj

/-- **One step keeps the invariant.** -/
theorem nests_step {scan : BracketScan} {kind : Nat → TokenKind} {n : Nat} {t : Token}
    (h : scan.Nests kind n) (hpos : t.position = n) (hkind : t.kind = kind n) :
    (scan.step t).Nests kind (n + 1) := by
  unfold BracketScan.step
  rw [hkind, hpos]
  split
  · rename_i shape _ hopen
    exact nests_push h hopen
  · exact h.mono (Nat.le_succ n)
  · rename_i shape _ hclose
    split
    · exact h.mono (Nat.le_succ n)
    · rename_i p shape' outer hdrop
      have hshape : shape' = shape := by
        have hhead := List.head?_dropWhile_not (fun b => b.2 ≠ shape) scan.opened
        rw [hdrop] at hhead
        simpa using hhead
      have hsplit := List.takeWhile_append_dropWhile (p := fun b => b.2 ≠ shape) (l := scan.opened)
      rw [hdrop, hshape] at hsplit
      exact nests_close h hclose hsplit.symm

/-- **The pass keeps the invariant.** -/
theorem nests_scan (s : Script) :
    ∀ n, n ≤ s.size →
      ((s.tokens.toList.take n).foldl BracketScan.step .start).Nests s.kindAt n := by
  intro n
  induction n with
  | zero => intro _; simpa using nests_start s.kindAt
  | succ n ih =>
      intro hn
      have hsize : n < s.tokens.size := hn
      have hlt : n < s.tokens.toList.length := by simpa using hsize
      rw [List.take_succ_eq_append_getElem hlt, List.foldl_append]
      refine nests_step (ih (by omega)) ?_ ?_
      · simpa using s.numbered n hsize
      · simp [Script.kindAt, Script.tokenAt, Script.get?, hsize]

/-! ## §2. The pairs of a script. -/

theorem nests_brackets (s : Script) :
    (s.tokens.toList.foldl BracketScan.step .start).Nests s.kindAt s.size := by
  have h := nests_scan s s.size (Nat.le_refl _)
  have htake : s.tokens.toList.take s.size = s.tokens.toList :=
    List.take_of_length_le (by simp [Script.size])
  rwa [htake] at h

theorem Brackets.groupEnd?_eq_some_iff {b : Brackets} {i j : Nat} :
    b.groupEnd? i = some j ↔ b.partner? i = some j ∧ i < j := by
  unfold Brackets.groupEnd?
  rw [Option.filter_eq_some_iff]
  simp

/-- The two ends of a group are brackets of one shape. -/
theorem groupEnd?_shapes {s : Script} {i j : Nat} (h : s.brackets.groupEnd? i = some j) :
    ∃ shape, (s.kindAt i).opens? = some shape ∧ (s.kindAt j).closes? = some shape := by
  obtain ⟨hij, hlt⟩ := Brackets.groupEnd?_eq_some_iff.mp h
  rcases (nests_brackets s).shapes i j hij with ⟨_, hshape⟩ | ⟨hlt', _⟩
  · exact hshape
  · omega

/-- A group ends inside the script. -/
theorem groupEnd?_lt_size {s : Script} {i j : Nat} (h : s.brackets.groupEnd? i = some j) :
    j < s.size := by
  have hij := (Brackets.groupEnd?_eq_some_iff.mp h).1
  exact (nests_brackets s).paired_lt j i ((nests_brackets s).symm i j hij)

/-- Two groups that end at one bracket are one group. -/
theorem groupEnd?_inj {s : Script} {i i' j : Nat} (h : s.brackets.groupEnd? i = some j)
    (h' : s.brackets.groupEnd? i' = some j) : i = i' := by
  have hji := (nests_brackets s).symm i j (Brackets.groupEnd?_eq_some_iff.mp h).1
  have hji' := (nests_brackets s).symm i' j (Brackets.groupEnd?_eq_some_iff.mp h').1
  rw [hji] at hji'
  exact Option.some.inj hji'

/-- A group that starts inside a group ends inside it. -/
def Brackets.WellNested (b : Brackets) : Prop :=
  ∀ i j k l, b.groupEnd? i = some j → b.groupEnd? k = some l → i < k → k ≤ j → l < j

theorem wellNested_brackets (s : Script) : s.brackets.WellNested := by
  intro i j k l hij hkl hik hkj
  obtain ⟨hpij, hijlt⟩ := Brackets.groupEnd?_eq_some_iff.mp hij
  obtain ⟨hpkl, hkllt⟩ := Brackets.groupEnd?_eq_some_iff.mp hkl
  rcases Nat.eq_or_lt_of_le hkj with rfl | hlt
  · -- the closing bracket of a group opens none
    have hpki := (nests_brackets s).symm i k hpij
    have hli : l = i := Option.some.inj (hpkl.symm.trans hpki)
    omega
  · exact (nests_brackets s).crossless i j k l hpij hijlt hpkl hkllt hik hlt

/-! ## §3. The top level of a stretch. -/

/-- No group that opens at `start` or behind reaches `i` from in front of it. -/
def Brackets.IsOutside (b : Brackets) (start i : Nat) : Prop :=
  ∀ j k, start ≤ j → j < i → b.groupEnd? j = some k → k < i

/-- **The walk over a stretch meets exactly the positions outside its groups.** -/
theorem mem_topLevel_iff {b : Brackets} (hb : b.WellNested) (start stop i : Nat) :
    i ∈ b.topLevel start stop ↔ start ≤ i ∧ i < stop ∧ b.IsOutside start i := by
  fun_induction b.topLevel start stop with
  | case1 start hlt ih =>
      rw [List.mem_cons, ih]
      have hover := b.lt_stepOver start
      constructor
      · rintro (rfl | ⟨hlo, hhi, hout⟩)
        · exact ⟨Nat.le_refl _, hlt, fun j k hj hji _ => by omega⟩
        · refine ⟨by omega, hhi, fun j k hj hji hjk => ?_⟩
          by_cases hjo : b.stepOver start ≤ j
          · exact hout j k hjo hji hjk
          · -- `j` opens inside the group that was stepped over, or is its opening bracket
            unfold Brackets.stepOver at hjo hlo
            cases hend : b.groupEnd? start with
            | none =>
                simp only [hend, Option.getD_none] at hjo
                have hjs : j = start := by omega
                rw [hjs, hend] at hjk
                cases hjk
            | some e =>
                simp only [hend, Option.getD_some] at hjo hlo
                rcases Nat.eq_or_lt_of_le hj with rfl | hsj
                · rw [hend] at hjk
                  cases hjk
                  omega
                · have hke := hb start e j k hend hjk hsj (by omega)
                  omega
      · rintro ⟨hlo, hhi, hout⟩
        rcases Nat.eq_or_lt_of_le hlo with rfl | hsi
        · exact Or.inl rfl
        · refine Or.inr ⟨?_, hhi, fun j k hj hji hjk => hout j k (by omega) hji hjk⟩
          unfold Brackets.stepOver
          cases hend : b.groupEnd? start with
          | none => exact hsi
          | some e =>
              have hei := hout start e (Nat.le_refl _) hsi hend
              exact hei
  | case2 start hge =>
      simp only [List.not_mem_nil, false_iff]
      rintro ⟨_, _, _⟩
      omega

/-- The walk goes forward. -/
theorem topLevel_sorted (b : Brackets) (start stop : Nat) :
    (b.topLevel start stop).Pairwise (· < ·) ∧ ∀ i ∈ b.topLevel start stop, start ≤ i := by
  fun_induction b.topLevel start stop with
  | case1 start hlt ih =>
      have hover := b.lt_stepOver start
      refine ⟨List.pairwise_cons.mpr ⟨fun i hi => ?_, ih.1⟩, fun i hi => ?_⟩
      · exact Nat.lt_of_lt_of_le hover (ih.2 i hi)
      · rcases List.mem_cons.mp hi with rfl | hi
        · exact Nat.le_refl _
        · have hle := ih.2 i hi
          omega
  | case2 start hge => exact ⟨List.Pairwise.nil, fun i hi => by cases hi⟩

/-! ## §4. Balanced stretches. -/

/-- Kinds of tokens among which every bracket has its partner. -/
inductive Balanced : List TokenKind → Prop
  | nil : Balanced []
  /-- A token that is no bracket. -/
  | plain {kind : TokenKind} {kinds : List TokenKind} (hopens : kind.opens? = none)
      (hcloses : kind.closes? = none) (rest : Balanced kinds) : Balanced (kind :: kinds)
  /-- A group and what follows it. -/
  | group {opener closer : TokenKind} {shape : BracketShape} {inner kinds : List TokenKind}
      (hopens : opener.opens? = some shape) (hcloses : closer.closes? = some shape)
      (inside : Balanced inner) (rest : Balanced kinds) :
      Balanced (opener :: (inner ++ closer :: kinds))

theorem Balanced.append {ks ls : List TokenKind} (hks : Balanced ks) (hls : Balanced ls) :
    Balanced (ks ++ ls) := by
  induction hks with
  | nil => exact hls
  | plain hopens hcloses _ ih => exact .plain hopens hcloses ih
  | group hopens hcloses inside _ _ ih =>
      rw [List.cons_append, List.append_assoc, List.cons_append]
      exact .group hopens hcloses inside ih

/-- A group with nothing in it. -/
theorem Balanced.pair {opener closer : TokenKind} {shape : BracketShape} {kinds : List TokenKind}
    (hopens : opener.opens? = some shape) (hcloses : closer.closes? = some shape)
    (hrest : Balanced kinds) : Balanced (opener :: closer :: kinds) :=
  .group hopens hcloses .nil hrest

theorem balanced_of_plain {kinds : List TokenKind}
    (h : ∀ kind ∈ kinds, kind.opens? = none ∧ kind.closes? = none) : Balanced kinds := by
  induction kinds with
  | nil => exact .nil
  | cons kind kinds ih =>
      have hkind := h kind List.mem_cons_self
      exact .plain hkind.1 hkind.2 (ih fun k hk => h k (List.mem_cons_of_mem _ hk))

/-- A closing bracket opens nothing. -/
theorem TokenKind.opens?_of_closes? {kind : TokenKind} {shape : BracketShape}
    (h : kind.closes? = some shape) : kind.opens? = none := by
  cases kind <;> first | rfl | cases h

namespace BracketScan

theorem step_plain {scan : BracketScan} {t : Token} (hopens : t.kind.opens? = none)
    (hcloses : t.kind.closes? = none) : scan.step t = scan := by
  unfold step
  rw [hopens, hcloses]

theorem step_opens {scan : BracketScan} {t : Token} {shape : BracketShape}
    (hopens : t.kind.opens? = some shape) :
    scan.step t = { scan with opened := (t.position, shape) :: scan.opened } := by
  unfold step
  rw [hopens]

/-- A closing bracket meets the innermost open one, and the shapes agree. -/
theorem step_closes {scan : BracketScan} {t : Token} {shape : BracketShape} {p : Nat}
    {outer : List (Nat × BracketShape)} (hcloses : t.kind.closes? = some shape)
    (hopened : scan.opened = (p, shape) :: outer) :
    scan.step t = { opened := outer
                    partners := (scan.partners.insert p t.position).insert t.position p } := by
  unfold step
  rw [TokenKind.opens?_of_closes? hcloses, hcloses, hopened]
  simp

/-- **A balanced stretch leaves the open brackets as they were.** -/
theorem opened_of_balanced {kinds : List TokenKind} (h : Balanced kinds) :
    ∀ (scan : BracketScan) (ts : List Token), ts.map Token.kind = kinds →
      (ts.foldl step scan).opened = scan.opened := by
  induction h with
  | nil =>
      intro scan ts hts
      rw [List.map_eq_nil_iff.mp hts]
      rfl
  | plain hopens hcloses _ ih =>
      intro scan ts hts
      obtain ⟨t, ts, rfl, rfl, hrest⟩ := List.map_eq_cons_iff.mp hts
      rw [List.foldl_cons, step_plain hopens hcloses]
      exact ih scan ts hrest
  | group hopens hcloses _ _ ihinner ihrest =>
      intro scan ts hts
      obtain ⟨t, ts, rfl, rfl, hrest⟩ := List.map_eq_cons_iff.mp hts
      obtain ⟨us, vs, rfl, hus, hclose⟩ := List.map_eq_append_iff.mp hrest
      obtain ⟨v, vs, rfl, rfl, hvs⟩ := List.map_eq_cons_iff.mp hclose
      rw [List.foldl_cons, List.foldl_append, List.foldl_cons, ihrest _ vs hvs]
      -- behind the group's inside the opening bracket is the innermost open one again
      have hinner := ihinner (scan.step t) us hus
      rw [step_opens hopens] at hinner ⊢
      rw [step_closes hcloses hinner]

/-- A pair that was found stays. -/
theorem partners_step {scan : BracketScan} {kind : Nat → TokenKind} {n : Nat} {t : Token}
    (h : scan.Nests kind n) (hpos : t.position = n) {i j : Nat}
    (hij : scan.partners[i]? = some j) : (scan.step t).partners[i]? = some j := by
  have hin : i < n := h.paired_lt i j hij
  unfold step
  split
  · exact hij
  · exact hij
  · rename_i shape _ hclose
    split
    · exact hij
    · rename_i p shape' outer hdrop
      -- the open bracket that is taken was not paired
      have hmem : (p, shape') ∈ scan.opened := by
        refine (List.dropWhile_suffix (fun b => b.2 ≠ shape)).subset ?_
        rw [hdrop]
        exact List.mem_cons_self
      have hne : i ≠ p := by
        rintro rfl
        rcases h.shapes i j hij with ⟨hlt, _⟩ | ⟨hlt, _⟩
        · rcases h.opened_free _ hmem i j hij hlt with hlt' | hlt' <;> omega
        · rcases h.opened_free _ hmem j i (h.symm i j hij) hlt with hlt' | hlt' <;> omega
      rw [Std.ExtTreeMap.getElem?_insert, Std.ExtTreeMap.getElem?_insert, hpos]
      simp only [Nat.compare_eq_eq]
      rw [if_neg (by omega), if_neg (fun heq => hne heq.symm)]
      exact hij

end BracketScan

theorem position_of_tokens {s : Script} {before after : List Token} {t : Token}
    (hs : s.tokens.toList = before ++ t :: after) : t.position = before.length := by
  refine s.position_of_get? (i := before.length) ?_
  show s.tokens[before.length]? = some t
  rw [← Array.getElem?_toList, hs]
  simp

/-- A pair that was found is a pair of the script. -/
theorem partner?_of_scan {s : Script} {i j : Nat} (after : List Token) :
    ∀ before : List Token, s.tokens.toList = before ++ after →
      (before.foldl BracketScan.step .start).partners[i]? = some j →
      s.brackets.partner? i = some j := by
  induction after with
  | nil =>
      intro before hs hij
      rw [List.append_nil] at hs
      unfold Brackets.partner? Script.brackets
      rw [hs]
      exact hij
  | cons t after ih =>
      intro before hs hij
      have hlen : before.length ≤ s.size := by
        have := congrArg List.length hs
        rw [List.length_append, Array.length_toList] at this
        unfold Script.size
        omega
      have hnests := nests_scan s before.length hlen
      rw [hs, List.take_left] at hnests
      refine ih (before ++ [t]) (by simpa using hs) ?_
      rw [List.foldl_append]
      exact BracketScan.partners_step hnests (position_of_tokens hs) hij

/-- **The brackets around a balanced stretch are partners.** -/
theorem groupEnd?_of_balanced {s : Script} {before inner after : List Token} {t u : Token}
    {shape : BracketShape} (hs : s.tokens.toList = before ++ t :: (inner ++ u :: after))
    (hopens : t.kind.opens? = some shape) (hcloses : u.kind.closes? = some shape)
    (hinner : Balanced (inner.map Token.kind)) :
    s.brackets.groupEnd? before.length = some (before.length + inner.length + 1) := by
  have hsplit : s.tokens.toList = (before ++ t :: inner) ++ u :: after := by
    rw [hs, List.append_assoc, List.cons_append]
  have ht := position_of_tokens hs
  have hu : u.position = before.length + inner.length + 1 := by
    rw [position_of_tokens hsplit, List.length_append, List.length_cons, Nat.add_assoc]
  -- the opening bracket is the innermost open one when the closing one comes
  have hopened := BracketScan.opened_of_balanced hinner
    ((before.foldl BracketScan.step .start).step t) inner rfl
  have hscan : ((before ++ t :: inner ++ [u]).foldl BracketScan.step .start).partners[before.length]?
      = some (before.length + inner.length + 1) := by
    rw [BracketScan.step_opens hopens, ht] at hopened
    simp only [List.foldl_append, List.foldl_cons, List.foldl_nil]
    rw [BracketScan.step_opens hopens, ht, BracketScan.step_closes hcloses hopened, hu,
      Std.ExtTreeMap.getElem?_insert, Std.ExtTreeMap.getElem?_insert]
    simp only [Nat.compare_eq_eq, if_true]
    rw [if_neg (by omega)]
  have hpartner := partner?_of_scan after _ (by rw [hsplit]; simp) hscan
  exact Brackets.groupEnd?_eq_some_iff.mpr ⟨hpartner, by omega⟩

/-- A position whose token opens nothing starts no group. -/
theorem groupEnd?_of_plain {s : Script} {before after : List Token} {t : Token}
    (hs : s.tokens.toList = before ++ t :: after) (hopens : t.kind.opens? = none) :
    s.brackets.groupEnd? before.length = none := by
  rw [Option.eq_none_iff_forall_ne_some]
  intro k hk
  obtain ⟨shape, hshape, _⟩ := groupEnd?_shapes hk
  have hkind : s.kindAt before.length = t.kind := by
    unfold Script.kindAt Script.tokenAt Script.get?
    rw [← Array.getElem?_toList, hs]
    simp
  rw [hkind, hopens] at hshape
  cases hshape

/-- **No group of a balanced stretch reaches out of it.** -/
theorem isOutside_of_balanced {kinds : List TokenKind} (h : Balanced kinds) {s : Script} :
    ∀ before ts after : List Token, s.tokens.toList = before ++ (ts ++ after) →
      ts.map Token.kind = kinds →
      s.brackets.IsOutside before.length (before.length + ts.length) := by
  induction h with
  | nil =>
      intro before ts after _ hts j k hlo hhi _
      rw [List.map_eq_nil_iff.mp hts] at hhi
      simp at hhi
      omega
  | plain hopens _ _ ih =>
      intro before ts after hs hts j k hlo hhi hjk
      obtain ⟨t, ts, rfl, rfl, hrest⟩ := List.map_eq_cons_iff.mp hts
      have hout := ih (before ++ [t]) ts after (by simpa using hs) hrest
      rw [List.length_append, List.length_singleton] at hout
      rw [List.length_cons] at hhi ⊢
      rcases Nat.eq_or_lt_of_le hlo with rfl | hlt
      · rw [groupEnd?_of_plain hs hopens] at hjk
        cases hjk
      · have := hout j k hlt (by omega) hjk
        omega
  | group hopens hcloses hinside _ ihinner ihrest =>
      intro before ts after hs hts j k hlo hhi hjk
      obtain ⟨t, ts, rfl, rfl, hrest⟩ := List.map_eq_cons_iff.mp hts
      obtain ⟨us, vs, rfl, hus, hclose⟩ := List.map_eq_append_iff.mp hrest
      obtain ⟨v, vs, rfl, rfl, hvs⟩ := List.map_eq_cons_iff.mp hclose
      have hopener : s.tokens.toList = before ++ t :: (us ++ v :: (vs ++ after)) := by
        simpa using hs
      have hcloser : s.tokens.toList = (before ++ t :: us) ++ v :: (vs ++ after) := by
        simpa using hs
      have hgroup := groupEnd?_of_balanced hopener hopens hcloses (hus ▸ hinside)
      have hplain := groupEnd?_of_plain hcloser (TokenKind.opens?_of_closes? hcloses)
      have hinner := ihinner (before ++ [t]) us (v :: (vs ++ after)) (by simpa using hs) hus
      have hbehind := ihrest (before ++ t :: (us ++ [v])) vs after (by simpa using hs) hvs
      simp only [List.length_append, List.length_cons, List.length_nil] at hinner hbehind hplain hhi ⊢
      -- `j` opens the group, stands inside it, closes it, or stands behind it
      rcases Nat.eq_or_lt_of_le hlo with rfl | hlt
      · rw [hgroup] at hjk
        cases hjk
        omega
      · rcases Nat.lt_trichotomy j (before.length + us.length + 1) with hj | rfl | hj
        · have := hinner j k (by omega) (by omega) hjk
          omega
        · rw [← Nat.add_assoc, hjk] at hplain
          cases hplain
        · have := hbehind j k (by omega) (by omega) hjk
          omega

/-- Where nothing opens, no group reaches out. -/
theorem isOutside_of_opens {s : Script} {start i : Nat}
    (h : ∀ j, start ≤ j → j < i → (s.kindAt j).opens? = none) :
    s.brackets.IsOutside start i := by
  intro j k hlo hji hjk
  obtain ⟨shape, hshape, _⟩ := groupEnd?_shapes hjk
  rw [h j hlo hji] at hshape
  cases hshape

/-- Stretches that no group leaves make up one. -/
theorem Brackets.IsOutside.trans {b : Brackets} {start mid i : Nat} (h : b.IsOutside start mid)
    (h' : b.IsOutside mid i) (hle : mid ≤ i) : b.IsOutside start i := by
  intro j k hlo hji hjk
  by_cases hj : j < mid
  · exact Nat.lt_of_lt_of_le (h j k hlo hj hjk) hle
  · exact h' j k (by omega) hji hjk

end SwitchLayout
