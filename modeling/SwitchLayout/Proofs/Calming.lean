/-
  SwitchLayout.Proofs.Calming
  ───────────────────────────
  **What stays in order through a repair.**

  What is in order at one place is not put out of order by an edit made there or next to it
  (`Calms`): the space behind a `case`, the colon that directly follows its label, and the line
  breaks from one piece of code to the next.

    • `spacedAt_repaired`, `place_succ_repaired`, `place_succ_le_repaired` — the spaces of a label
      through one round, token by token,
    • `EditsLayout`, `EditsLayout.place` — where a round edits the layout,
    • `relaidFrom_eq`, `column_after_relaidFrom` — what it leaves of the layout elsewhere, and of
      the column behind it,
    • `lineBreaks_relaidFrom_le`, `lineBreaks_relaidFrom_eq` — line breaks: none comes in,
    • `calms_repaired` — what stays in order through one round.
-/
import SwitchLayout.Proofs.Retouching

namespace SwitchLayout

open Text

namespace Script

variable {settings : Settings} {text : String} {s : Script} {p : Nat}

/-! ## §1. Reading the token behind a piece of code. -/

section Reading

variable {tabWidth : Nat}

theorem textFrom_eq (hp : p < s.size) :
    s.textFrom p = (s.tokenAt p).chars ++ s.textFrom (p + 1) := by
  unfold textFrom
  rw [lexemes_drop_eq hp]
  rfl

/-- A token behind the first one, with the text behind it. -/
theorem token_form (h : read tabWidth text = .ok s) (hp : p + 1 < s.size) :
    ∃ member c t, (s.tokenAt (p + 1)).chars = c :: t
      ∧ extent member c (t ++ s.textFrom (p + 2)) = .ok (s.kindAt (p + 1), t.length)
      ∧ LexemeForm member c t (s.kindAt (p + 1)) := by
  obtain ⟨member, hread⟩ := lexemes_textFrom h p
  unfold textFrom at hread
  rw [lexemes_drop_eq hp] at hread
  obtain ⟨c, t, hchars, hextent, hform, _⟩ := lexemes_flatMap_cons hread
  exact ⟨member, c, t, hchars, hextent, hform⟩

/-- The token behind a token is read off the text that follows. -/
theorem token_behind (h : read tabWidth text = .ok s) {c : Char} {w : List Char}
    (htext : s.textFrom (p + 1) = c :: w) :
    p + 1 < s.size ∧ ∃ member t, (s.tokenAt (p + 1)).chars = c :: t
      ∧ w = t ++ s.textFrom (p + 2) ∧ extent member c w = .ok (s.kindAt (p + 1), t.length)
      ∧ LexemeForm member c t (s.kindAt (p + 1)) := by
  have hp : p + 1 < s.size := by
    by_contra hge
    unfold textFrom at htext
    rw [List.drop_eq_nil_of_le (by rw [length_lexemes]; omega)] at htext
    cases htext
  obtain ⟨member, d, t, hchars, hextent, hform⟩ := token_form h hp
  rw [textFrom_eq hp, hchars] at htext
  obtain ⟨rfl, rfl⟩ := List.cons.inj htext
  exact ⟨hp, member, t, hchars, rfl, hextent, hform⟩

/-- Code does not start with layout. -/
theorem isLayout_head {member : Bool} {c : Char} {t : List Char} {kind : TokenKind}
    (hform : LexemeForm member c t kind) (hkind : kind ≠ .whitespace) : isLayout c = false := by
  rw [← Bool.not_eq_true]
  exact fun hc => hkind (hform.whitespace_iff.mpr hc)

theorem isBlank_of_isLayout {c : Char} (h : isLayout c = false) : isBlank c = false := by
  unfold isLayout at h
  exact (Bool.or_eq_false_iff.mp h).1

theorem runLength_eq_zero_iff {q : Char → Bool} {cs : List Char} :
    runLength q cs = 0 ↔ ∀ d ∈ cs.head?, q d = false := by
  unfold runLength
  cases cs with
  | nil => simp
  | cons c cs =>
      rw [List.takeWhile_cons]
      split <;> simp_all

end Reading

/-! ## §2. The colon of a label. -/

section Colon

variable {u : List Char} {indent : Nat}

theorem chars_colon {tabWidth : Nat} (h : read tabWidth text = .ok s) (hp : p + 1 < s.size)
    (hkind : s.kindAt (p + 1) = .colon) : (s.tokenAt (p + 1)).chars = [':'] := by
  obtain ⟨member, c, t, hchars, _, hform⟩ := token_form h hp
  obtain ⟨rfl, rfl⟩ := hform.colon_iff.mp hkind
  exact hchars

theorem lt_size_of_colon (hkind : s.kindAt p = .colon) : p < s.size := by
  obtain ⟨t, ht, _⟩ := get?_of_kindAt hkind (by decide)
  exact (Array.getElem?_eq_some_iff.mp ht).1

/-- A colon stays, and comes to stand behind a space at most if a `case` is in front of it. -/
theorem Retouched.colon {tabWidth : Nat} (h : read tabWidth text = .ok s)
    (hkind : s.kindAt (p + 1) = .colon) (hu : s.Retouched indent (p + 1) u) :
    u = [':'] ∨ (u = [' ', ':'] ∧ s.kindAt p = .caseKw) := by
  have hchars := chars_colon h (lt_size_of_colon hkind) hkind
  cases hu with
  | kept => exact .inl hchars
  | lowered hbranch =>
      rw [hkind] at hbranch
      cases hbranch
  | single hspace =>
      rw [hkind] at hspace
      cases hspace
  | parted _ hcase =>
      right
      rw [hchars]
      exact ⟨rfl, hcase⟩
  | joined hspace =>
      rw [hkind] at hspace
      cases hspace
  | trimmed count hspace =>
      rw [hkind] at hspace
      cases hspace
  | indented count _ hdue => exact absurd hkind (hdue.kindAt_ne rfl)

end Colon

/-! ## §3. The space behind a `case`. -/

/-- The token at `i` is the last one, or one space follows it. -/
def SpacedAt (s : Script) (i : Nat) : Prop :=
  ∀ t, s.get? (i + 1) = some t → t.kind = .whitespace ∧ t.text = " "

section Space

variable {i indent : Nat} {u : List Char}

/-- A statement behind a `case` on the same line is not indented. -/
theorem not_lineStart_behind_case {tabWidth : Nat} (h : read tabWidth text = .ok s)
    (hcase : s.kindAt i = .caseKw) (hsize : i + 2 < s.size)
    (hspace : (s.tokenAt (i + 1)).chars = [' ']) : s.lineStart? (i + 2) ≠ some (i + 2) := by
  intro hstart
  have hclosed := isClosed_before_indentation h (get?_of_lt hsize) (get?_of_lt (by omega))
    (get?_of_lt (by omega)) (by rw [hspace]; rfl) hstart
  have hkind : (s.tokenAt i).lexeme.kind = .caseKw := hcase
  unfold Lexeme.isClosed at hclosed
  simp [hkind] at hclosed

/-- The space behind a `case` stays one. -/
theorem Retouched.space {tabWidth : Nat} (h : read tabWidth text = .ok s)
    (hcase : s.kindAt i = .caseKw) (hkind : s.kindAt (i + 1) = .whitespace)
    (hspace : (s.tokenAt (i + 1)).chars = [' ']) (hu : s.Retouched indent (i + 1) u) :
    u = [' '] := by
  cases hu with
  | kept => exact hspace
  | lowered hbranch =>
      rw [hkind] at hbranch
      cases hbranch
  | single => rfl
  | parted hcode => exact absurd hkind hcode
  | joined _ _ hnot => exact absurd hcase hnot
  | trimmed count _ _ _ hstart =>
      have hsize : i + 2 < s.size := by
        by_contra hge
        unfold lineStart? at hstart
        rw [if_neg hge] at hstart
        cases hstart
      exact absurd hstart (not_lineStart_behind_case h hcase hsize hspace)
  | indented count _ hdue => exact absurd hkind (hdue.kindAt_ne rfl)

/-- No blank comes to the space behind a `case`. -/
theorem head_behind_space (h : read settings.tabWidth text = .ok s)
    (hcase : s.kindAt i = .caseKw) (hsize : i + 1 < s.size)
    (hkind : s.kindAt (i + 1) = .whitespace) (hspace : (s.tokenAt (i + 1)).chars = [' ']) :
    ∀ d ∈ (s.repairedFrom settings (i + 2)).head?, isBlank d = false := by
  -- the run of blanks ended there already
  have hend : ∀ d ∈ (s.textFrom (i + 2)).head?, isBlank d = false := by
    obtain ⟨member, c, t, hchars, hextent, _⟩ := token_form h hsize
    rw [hspace] at hchars
    obtain ⟨rfl, rfl⟩ := List.cons.inj hchars
    rw [extent_blank rfl] at hextent
    exact runLength_eq_zero_iff.mp (Prod.mk.inj (Except.ok.inj hextent)).2
  by_cases hnext : i + 2 < s.size
  · obtain ⟨v, hv, htext⟩ := exists_retouched h hnext
    obtain ⟨member, c, t, hchars, _, hform⟩ := token_form h hnext
    have hc : isBlank c = false := by
      apply hend
      rw [textFrom_eq hnext, hchars]
      rfl
    rw [htext]
    cases hv with
    | kept =>
        rw [hchars]
        intro d hd
        obtain rfl : c = d := by simpa using hd
        exact hc
    | lowered hbranch =>
        obtain ⟨e, w, hw, he⟩ := exists_branch_letter (hform.of_isBranch hbranch).2.1 hbranch
        rw [hchars, hw]
        intro d hd
        obtain rfl : e = d := by simpa using hd
        rcases he with rfl | rfl <;> rfl
    | single _ hbehind =>
        change s.kindAt (i + 1) = .caseKw at hbehind
        rw [hkind] at hbehind
        cases hbehind
    | parted _ hbehind =>
        change s.kindAt (i + 1) = .caseKw at hbehind
        rw [hkind] at hbehind
        cases hbehind
    | joined hwhite hlabel _ =>
        -- the colon comes up to the space
        have hcolon := hlabel.1
        have hlast := lt_size_of_colon hcolon
        obtain ⟨v', hv', htext'⟩ := exists_retouched h hlast
        rcases hv'.colon h hcolon with rfl | ⟨_, hbefore⟩
        · rw [List.nil_append, htext']
          intro d hd
          obtain rfl : ':' = d := by simpa using hd
          rfl
        · rw [hwhite] at hbefore
          cases hbefore
    | trimmed count _ hblanks =>
        have hcblank := hblanks c (by rw [hchars]; exact List.mem_cons_self)
        rw [hcblank] at hc
        cases hc
    | indented count hstart =>
        exact absurd hstart (not_lineStart_behind_case h hcase hnext hspace)
  · rw [repairedFrom_of_ge (by omega)]
    intro d hd
    cases hd

/-- **A space behind a `case` stays through a round.** -/
theorem spacedAt_repaired (h : read settings.tabWidth text = .ok s)
    (hfree : ¬ s.Glues (s.selection settings)) {s₁ : Script}
    (h₁ : read settings.tabWidth (s.repaired settings) = .ok s₁) {k : Nat}
    (hk : k < s.code.length) (hcase : s.kindAt (s.place k) = .caseKw)
    (hspaced : s.SpacedAt (s.place k)) : s₁.SpacedAt (s₁.place k) := by
  have htext := textFrom_repaired h hfree h₁ hk
  intro t ht
  have hsize₁ : s₁.place k + 1 < s₁.size := (Array.getElem?_eq_some_iff.mp ht).1
  by_cases hsize : s.place k + 1 < s.size
  · obtain ⟨hkind, hchars⟩ := hspaced _ (get?_of_lt hsize)
    have hspace : (s.tokenAt (s.place k + 1)).chars = [' '] := congrArg String.toList hchars
    obtain ⟨u, hu, hrest⟩ := exists_retouched h hsize
    obtain rfl := hu.space h hcase hkind hspace
    rw [hrest, List.cons_append, List.nil_append] at htext
    obtain ⟨_, member, w, hchars₁, _, hextent, _⟩ := token_behind h₁ htext
    -- the token ends where the run of blanks does
    rw [extent_blank rfl] at hextent
    obtain ⟨hkind₁, hlength⟩ := Prod.mk.inj (Except.ok.inj hextent)
    have hzero := runLength_eq_zero_iff.mpr (head_behind_space h hcase hsize hkind hspace)
    rw [hzero] at hlength
    rw [List.eq_nil_of_length_eq_zero hlength.symm] at hchars₁
    have htoken := get?_of_lt hsize₁
    rw [ht] at htoken
    obtain rfl := Option.some.inj htoken
    exact ⟨hkind₁.symm, String.toList_inj.mp hchars₁⟩
  · -- nothing stood behind the keyword, and nothing does
    exfalso
    rw [repairedFrom_of_ge (by omega), textFrom_eq hsize₁] at htext
    obtain ⟨member, c, w, hchars, _⟩ := token_form h₁ hsize₁
    rw [hchars] at htext
    cases htext

end Space

/-! ## §4. The whitespace in front of a colon. -/

section BeforeColon

variable {s₁ : Script} {k : Nat}

/-- A colon that is read behind a piece of code is the next one. -/
theorem place_succ_of_colon {tabWidth : Nat} (h : read tabWidth text = .ok s) {w : List Char}
    (htext : s.textFrom (s.place k + 1) = ':' :: w) : s.place (k + 1) = s.place k + 1 := by
  obtain ⟨hsize, member, t, _, _, _, hform⟩ := token_behind h htext
  refine place_succ_eq (Nat.lt_succ_self _) hsize ?_ (fun i hlo hhi => by omega)
  intro hspace
  exact absurd (hform.whitespace_iff.mp hspace) (by decide)

/-- A piece of whitespace and a colon that are read behind a piece of code. -/
theorem place_succ_of_space_colon {tabWidth : Nat} (h : read tabWidth text = .ok s) {c : Char}
    {t w : List Char} (htext : s.textFrom (s.place k + 1) = c :: (t ++ ':' :: w))
    (hextent : ∀ member, extent member c (t ++ ':' :: w) = .ok (.whitespace, t.length)) :
    s.place (k + 1) = s.place k + 2 := by
  obtain ⟨_, member, t', _, hsplit, hextent', _⟩ := token_behind h htext
  rw [hextent] at hextent'
  obtain ⟨hkind, hlength⟩ := Prod.mk.inj (Except.ok.inj hextent')
  have hbehind : s.textFrom (s.place k + 2) = ':' :: w :=
    (List.append_inj hsplit hlength).2.symm
  obtain ⟨hsize, member', t'', _, _, _, hform⟩ := token_behind h hbehind
  refine place_succ_eq (by omega) hsize ?_ ?_
  · intro hspace
    exact absurd (hform.whitespace_iff.mp hspace) (by decide)
  · intro i hlo hhi
    obtain rfl : i = s.place k + 1 := by omega
    exact hkind.symm

theorem place_succ_of_one_space {tabWidth : Nat} (h : read tabWidth text = .ok s) {w : List Char}
    (htext : s.textFrom (s.place k + 1) = ' ' :: ':' :: w) : s.place (k + 1) = s.place k + 2 := by
  apply place_succ_of_space_colon h (t := []) htext
  intro member
  rw [extent_blank rfl, List.nil_append, runLength_eq_zero_iff.mpr]
  · rfl
  · intro d hd
    obtain rfl : ':' = d := by simpa using hd
    rfl

/-- Whitespace that was read as one token is read so in front of any code. -/
theorem extent_before_code {member : Bool} {c : Char} {t rest : List Char}
    (h : extent member c (t ++ rest) = .ok (.whitespace, t.length)) (hc : isLayout c = true)
    {d : Char} (hd : isLayout d = false) (w : List Char) (member' : Bool) :
    extent member' c (t ++ d :: w) = .ok (.whitespace, t.length) := by
  have hcases : isBlank c = true ∨ c = '\n' ∨ c = '\r' := by
    simpa [isLayout, isLineBreak] using hc
  rcases hcases with hblank | rfl | rfl
  · rw [extent_blank hblank] at h ⊢
    have hlength := (Prod.mk.inj (Except.ok.inj h)).2
    have hall : ∀ e ∈ t, isBlank e = true := by
      have htake := take_runLength isBlank (t ++ rest)
      rw [hlength, List.take_left] at htake
      intro e he
      rw [htake] at he
      exact List.all_eq_true.mp List.all_takeWhile e he
    have hrun : runLength isBlank (t ++ d :: w) = t.length := by
      unfold runLength
      rw [List.takeWhile_append_of_pos hall,
        List.takeWhile_cons_of_neg (by simp [isBlank_of_isLayout hd]), List.append_nil]
    rw [hrun]
  · rw [extent_newline] at h ⊢
    exact h
  · rw [extent_return] at h ⊢
    have hlength := (Prod.mk.inj (Except.ok.inj h)).2
    have hne : d ≠ '\n' := by
      rintro rfl
      exact absurd hd (by decide)
    cases t with
    | nil => simp [hne]
    | cons e t =>
        rw [List.cons_append] at hlength ⊢
        rw [List.head?_cons] at hlength ⊢
        rw [hlength]

/-- **A colon that directly follows its label stays there through a round.** -/
theorem place_succ_repaired (h : read settings.tabWidth text = .ok s)
    (hfree : ¬ s.Glues (s.selection settings))
    (h₁ : read settings.tabWidth (s.repaired settings) = .ok s₁) (hk : k < s.code.length)
    (hcolon : s.kindAt (s.place (k + 1)) = .colon) (hcase : s.kindAt (s.place k) ≠ .caseKw)
    (hdirect : s.place (k + 1) = s.place k + 1) : s₁.place (k + 1) = s₁.place k + 1 := by
  have htext := textFrom_repaired h hfree h₁ hk
  rw [hdirect] at hcolon
  obtain ⟨u, hu, hrest⟩ := exists_retouched h (lt_size_of_colon hcolon)
  rcases hu.colon h hcolon with rfl | ⟨_, hbefore⟩
  · rw [hrest] at htext
    exact place_succ_of_colon h₁ htext
  · exact absurd hbefore hcase

/-- **A `case` without a label keeps at most one piece of whitespace in front of its colon.** -/
theorem place_succ_le_repaired (h : read settings.tabWidth text = .ok s)
    (hfree : ¬ s.Glues (s.selection settings))
    (h₁ : read settings.tabWidth (s.repaired settings) = .ok s₁) (hk : k < s.code.length)
    (hcolon : s.kindAt (s.place (k + 1)) = .colon) (hcase : s.kindAt (s.place k) = .caseKw)
    (hnear : s.place (k + 1) ≤ s.place k + 2) : s₁.place (k + 1) ≤ s₁.place k + 2 := by
  have htext := textFrom_repaired h hfree h₁ hk
  have hlt : s.place k < s.place (k + 1) := s.place_lt (Nat.lt_succ_self k)
  rcases Nat.eq_or_lt_of_le hnear with heq | hless
  · rw [heq] at hcolon
    have hlast := lt_size_of_colon hcolon
    have hsize : s.place k + 1 < s.size := by omega
    have hspace : s.kindAt (s.place k + 1) = .whitespace :=
      whitespace_between hk (Nat.lt_succ_self _) (by omega)
    obtain ⟨u, hu, hrest⟩ := exists_retouched h hsize
    obtain ⟨v, hv, hrest'⟩ := exists_retouched h hlast
    have hv' : v = [':'] := by
      rcases hv.colon h hcolon with hv' | ⟨_, hbefore⟩
      · exact hv'
      · rw [hspace] at hbefore
        cases hbefore
    rw [hrest, hrest', hv'] at htext
    obtain ⟨member, c, t, hchars, hextent, hform⟩ := token_form h hsize
    have hlayout := hform.whitespace_iff.mp hspace
    rw [hspace] at hextent
    -- the whitespace stays or becomes one space, and is read as one token again
    cases hu with
    | kept =>
        rw [hchars] at htext
        apply Nat.le_of_eq
        apply place_succ_of_space_colon h₁ htext
        exact fun member' => extent_before_code hextent hlayout (by decide) _ member'
    | lowered hbranch =>
        rw [hspace] at hbranch
        cases hbranch
    | single => exact Nat.le_of_eq (place_succ_of_one_space h₁ htext)
    | parted hcode => exact absurd hspace hcode
    | joined _ _ hnot => exact absurd hcase hnot
    | trimmed count _ _ _ _ hdue => exact absurd hcolon (hdue.kindAt_ne rfl)
    | indented count _ hdue => exact absurd hspace (hdue.kindAt_ne rfl)
  · have hdirect : s.place (k + 1) = s.place k + 1 := by omega
    rw [hdirect] at hcolon
    obtain ⟨u, hu, hrest⟩ := exists_retouched h (lt_size_of_colon hcolon)
    rcases hu.colon h hcolon with rfl | ⟨rfl, _⟩
    · rw [hrest] at htext
      have hplace := place_succ_of_colon h₁ htext
      omega
    · rw [hrest] at htext
      exact Nat.le_of_eq (place_succ_of_one_space h₁ htext)

end BeforeColon

/-! ## §5. Edits of the layout. -/

/-- A round edits the layout that the token at `i` starts with: it makes other whitespace of
whitespace, or puts spaces in front of code. -/
def EditsLayout (s : Script) (settings : Settings) (i : Nat) : Prop :=
  ((s.selection settings).textOf (s.tokenAt i)).takeWhile isLayout
    ≠ (s.tokenAt i).chars.takeWhile isLayout

/-- The layout that the text from the token at `p` on starts with. -/
def layoutFrom (s : Script) (p : Nat) : List Char := (s.textFrom p).takeWhile isLayout

/-- The layout that a round leaves there. -/
def relaidFrom (s : Script) (settings : Settings) (p : Nat) : List Char :=
  (s.repairedFrom settings p).takeWhile isLayout

section Layout

variable {tabWidth indent : Nat} {u : List Char}

theorem takeWhile_layout_append {w v : List Char} (hw : ∀ c ∈ w, isLayout c = true) :
    (w ++ v).takeWhile isLayout = w ++ v.takeWhile isLayout :=
  List.takeWhile_append_of_pos hw

theorem takeWhile_layout_self {w : List Char} (hw : ∀ c ∈ w, isLayout c = true) :
    w.takeWhile isLayout = w := by
  have htake := takeWhile_layout_append (v := []) hw
  rwa [List.append_nil, List.takeWhile_nil, List.append_nil] at htake

theorem takeWhile_layout_code {c : Char} {v : List Char} (hc : isLayout c = false) :
    (c :: v).takeWhile isLayout = [] := by
  rw [List.takeWhile_cons_of_neg]
  rw [hc]
  exact Bool.false_ne_true

theorem isLayout_of_mem_replicate {n : Nat} {c : Char} (h : c ∈ List.replicate n ' ') :
    isLayout c = true := by
  rw [List.eq_of_mem_replicate h]
  rfl

/-- Spaces stay on their line. -/
theorem lineBreaks_replicate (n : Nat) : lineBreaks (List.replicate n ' ') = 0 :=
  lineBreaks_append_spaces [] n

/-- Whitespace behind the first token is layout as a whole. -/
theorem isLayout_of_whitespace (h : read tabWidth text = .ok s) (hp : p + 1 < s.size)
    (hkind : s.kindAt (p + 1) = .whitespace) :
    ∀ c ∈ (s.tokenAt (p + 1)).chars, isLayout c = true := by
  obtain ⟨member, c, t, hchars, _, hform⟩ := token_form h hp
  rw [hchars]
  exact List.all_eq_true.mp (hform.all_isLayout hkind)

/-- **What a round makes of whitespace.**  It stays, or one space comes behind a `case`, or so many
spaces come in front of code: none if this is the colon of a label, and else fewer. -/
theorem Retouched.whitespace_cases (hkind : s.kindAt p = .whitespace)
    (hu : s.Retouched indent p u) :
    u = (s.tokenAt p).chars
      ∨ (u = [' '] ∧ s.BehindCase p)
      ∨ ((∃ n, u = List.replicate n ' ') ∧ p + 1 < s.size ∧ s.kindAt (p + 1) ≠ .whitespace
        ∧ (s.EndsLabel (p + 1) ∨ ∀ c ∈ (s.tokenAt p).chars, c = ' ')) := by
  cases hu with
  | kept => exact .inl rfl
  | lowered hbranch =>
      rw [hkind] at hbranch
      cases hbranch
  | single _ hcase => exact .inr (.inl ⟨rfl, hcase⟩)
  | parted hcode => exact absurd hkind hcode
  | joined _ hlabel =>
      have hcode : s.kindAt (p + 1) ≠ .whitespace := by
        rw [hlabel.1]
        decide
      exact .inr (.inr ⟨⟨0, rfl⟩, lt_size_of_colon hlabel.1, hcode, .inl hlabel⟩)
  | trimmed count _ hblanks _ hstart hdue =>
      have hsize : p + 1 < s.size := by
        by_contra hge
        unfold lineStart? at hstart
        rw [if_neg hge] at hstart
        cases hstart
      have hspaces : (s.tokenAt p).chars.drop count = List.replicate _ ' ' :=
        List.eq_replicate_of_mem fun c hc => hblanks c (List.mem_of_mem_drop hc)
      exact .inr (.inr ⟨⟨_, hspaces⟩, hsize, hdue.kindAt_ne rfl, .inr hblanks⟩)
  | indented count _ hdue => exact absurd hkind (hdue.kindAt_ne rfl)

/-- Whitespace is made of layout still. -/
theorem Retouched.all_isLayout (hkind : s.kindAt p = .whitespace)
    (hlayout : ∀ c ∈ (s.tokenAt p).chars, isLayout c = true) (hu : s.Retouched indent p u) :
    ∀ c ∈ u, isLayout c = true := by
  rcases hu.whitespace_cases hkind with rfl | ⟨rfl, _⟩ | ⟨⟨n, rfl⟩, _⟩
  · exact hlayout
  · exact List.forall_mem_singleton.mpr rfl
  · exact fun c hc => isLayout_of_mem_replicate hc

theorem layoutFrom_whitespace (h : read tabWidth text = .ok s) (hp : p + 1 < s.size)
    (hkind : s.kindAt (p + 1) = .whitespace) :
    s.layoutFrom (p + 1) = (s.tokenAt (p + 1)).chars ++ s.layoutFrom (p + 2) := by
  unfold layoutFrom
  rw [textFrom_eq hp, takeWhile_layout_append (isLayout_of_whitespace h hp hkind)]

theorem relaidFrom_whitespace (h : read settings.tabWidth text = .ok s) (hp : p + 1 < s.size)
    (hkind : s.kindAt (p + 1) = .whitespace) :
    s.relaidFrom settings (p + 1)
      = (s.selection settings).textOf (s.tokenAt (p + 1)) ++ s.relaidFrom settings (p + 2) := by
  have hu := retouched_selection h (get?_of_lt hp)
  unfold relaidFrom
  rw [repairedFrom_eq hp,
    takeWhile_layout_append (hu.all_isLayout hkind (isLayout_of_whitespace h hp hkind))]

/-- Whitespace that is not edited stays. -/
theorem textOf_whitespace (h : read settings.tabWidth text = .ok s) (hp : p + 1 < s.size)
    (hkind : s.kindAt (p + 1) = .whitespace) (hstay : ¬ s.EditsLayout settings (p + 1)) :
    (s.selection settings).textOf (s.tokenAt (p + 1)) = (s.tokenAt (p + 1)).chars := by
  have hlayout := isLayout_of_whitespace h hp hkind
  have hu := (retouched_selection h (get?_of_lt hp)).all_isLayout hkind hlayout
  have heq := not_not.mp hstay
  rwa [takeWhile_layout_self hu, takeWhile_layout_self hlayout] at heq

theorem layoutFrom_code (h : read tabWidth text = .ok s) (hp : p + 1 < s.size)
    (hcode : s.kindAt (p + 1) ≠ .whitespace) : s.layoutFrom (p + 1) = [] := by
  obtain ⟨member, c, t, hchars, _, hform⟩ := token_form h hp
  unfold layoutFrom
  rw [textFrom_eq hp, hchars]
  exact takeWhile_layout_code (isLayout_head hform hcode)

/-- In front of a piece of code a round puts spaces at most, and none unless it edits there. -/
theorem relaidFrom_code (h : read settings.tabWidth text = .ok s) (hp : p + 1 < s.size)
    (hcode : s.kindAt (p + 1) ≠ .whitespace) :
    ∃ n, s.relaidFrom settings (p + 1) = List.replicate n ' '
      ∧ (¬ s.EditsLayout settings (p + 1) → n = 0) := by
  obtain ⟨member, c, t, hchars, _, hform⟩ := token_form h hp
  have hc := isLayout_head hform hcode
  have hu := retouched_selection h (get?_of_lt hp)
  -- the spaces are those that the new text of the token starts with
  suffices hspaces : ∃ n d v, (s.selection settings).textOf (s.tokenAt (p + 1))
      = List.replicate n ' ' ++ d :: v ∧ isLayout d = false by
    obtain ⟨n, d, v, htext, hd⟩ := hspaces
    have htake : ∀ rest : List Char,
        ((List.replicate n ' ' ++ d :: v) ++ rest).takeWhile isLayout
          = List.replicate n ' ' := by
      intro rest
      rw [List.append_assoc, takeWhile_layout_append fun c hc => isLayout_of_mem_replicate hc,
        List.cons_append, takeWhile_layout_code hd, List.append_nil]
    refine ⟨n, ?_, fun hstay => ?_⟩
    · unfold relaidFrom
      rw [repairedFrom_eq hp, htext, htake]
    · have heq := not_not.mp hstay
      have hnone := htake []
      rw [List.append_nil] at hnone
      rw [htext, hnone, hchars, takeWhile_layout_code hc] at heq
      rw [← List.length_replicate (n := n) (a := ' '), heq, List.length_nil]
  generalize (s.selection settings).textOf (s.tokenAt (p + 1)) = u at hu
  cases hu with
  | kept => exact ⟨0, c, t, hchars, hc⟩
  | lowered hbranch =>
      obtain ⟨e, w, hw, he⟩ := exists_branch_letter (hform.of_isBranch hbranch).2.1 hbranch
      refine ⟨0, e, w, ?_, ?_⟩
      · rw [hchars, hw]
        rfl
      · rcases he with rfl | rfl <;> rfl
  | single hspace => exact absurd hspace hcode
  | parted => exact ⟨1, c, t, congrArg (' ' :: ·) hchars, hc⟩
  | joined hspace => exact absurd hspace hcode
  | trimmed count hspace => exact absurd hspace hcode
  | indented count => exact ⟨count, c, t, congrArg (_ ++ ·) hchars, hc⟩

/-- Tokens part no line break. -/
theorem layoutFrom_parts (h : read tabWidth text = .ok s) (hp : p + 1 < s.size)
    (hkind : s.kindAt (p + 1) = .whitespace)
    (hlast : (s.tokenAt (p + 1)).chars.getLast? = some '\r') :
    (s.layoutFrom (p + 2)).head? ≠ some '\n' := by
  obtain ⟨member, c, t, hchars, hextent, hform⟩ := token_form h hp
  rw [hkind] at hextent
  rw [hchars] at hlast
  exact lexeme_parts_no_break hextent (hform.whitespace_iff.mp hkind) hlast

/-- No layout comes to start with a line feed. -/
theorem head_relaidFrom (h : read settings.tabWidth text = .ok s) (hp : p + 1 < s.size)
    (hhead : (s.relaidFrom settings (p + 1)).head? = some '\n') :
    (s.layoutFrom (p + 1)).head? = some '\n' := by
  have hspaces : ∀ n, (List.replicate n ' ').head? ≠ some '\n' := by
    intro n hn
    cases n with
    | zero => cases hn
    | succ n => cases hn
  by_cases hkind : s.kindAt (p + 1) = .whitespace
  · obtain ⟨member, c, t, hchars, _⟩ := token_form h hp
    rw [relaidFrom_whitespace h hp hkind] at hhead
    rw [layoutFrom_whitespace h hp hkind, hchars]
    rcases (retouched_selection h (get?_of_lt hp)).whitespace_cases hkind with
      heq | ⟨heq, _⟩ | ⟨⟨n, heq⟩, hsize, hcode, _⟩
    · rw [heq, hchars] at hhead
      exact hhead
    · rw [heq] at hhead
      cases hhead
    · obtain ⟨m, hm, _⟩ := relaidFrom_code h hsize hcode
      rw [heq, hm, List.replicate_append_replicate] at hhead
      exact absurd hhead (hspaces _)
  · obtain ⟨n, hn, _⟩ := relaidFrom_code h hp hkind
    rw [hn] at hhead
    exact absurd hhead (hspaces n)

/-- A text without line breaks has none to count. -/
theorem all_of_lineBreaks_eq_zero {cs : List Char} (h : lineBreaks cs = 0) :
    ∀ c ∈ cs, isLineBreak c = false := by
  induction cs with
  | nil =>
      intro c hc
      cases hc
  | cons d cs ih =>
      rw [lineBreaks] at h
      split at h
      · cases h
      · rename_i hd
        have hrest := ih h
        have hnext : cs.head? ≠ some '\n' := by
          intro hhead
          exact absurd (hrest '\n' (List.mem_of_head? hhead)) (by decide)
        have hplain : d ≠ '\n' ∧ d ≠ '\r' := by
          constructor
          · exact fun heq => hd (.inl heq)
          · exact fun heq => hd (.inr ⟨heq, hnext⟩)
        intro c hc
        rcases List.mem_cons.mp hc with rfl | hc
        · simp [isLineBreak, hplain]
        · exact hrest c hc

/-- A text that ends with a carriage return has a line break. -/
theorem getLast?_ne_of_lineBreaks_eq_zero {cs : List Char} (h : lineBreaks cs = 0) :
    cs.getLast? ≠ some '\r' := by
  intro hlast
  exact absurd (all_of_lineBreaks_eq_zero h '\r' (List.mem_of_getLast? hlast)) (by decide)

/-- What an edit makes of whitespace has no line break. -/
theorem lineBreaks_textOf (h : read settings.tabWidth text = .ok s) (hp : p < s.size)
    (hkind : s.kindAt p = .whitespace) (hedit : s.EditsLayout settings p) :
    lineBreaks ((s.selection settings).textOf (s.tokenAt p)) = 0 := by
  rcases (retouched_selection h (get?_of_lt hp)).whitespace_cases hkind with
    heq | ⟨heq, _⟩ | ⟨⟨n, heq⟩, _⟩
  · unfold EditsLayout at hedit
    rw [heq] at hedit
    exact absurd rfl hedit
  · rw [heq]
    rfl
  · rw [heq]
    exact lineBreaks_replicate n

/-- **Where a round edits the layout**: behind a `case`, in front of the colon of a label, and at a
statement that ends a case. -/
theorem EditsLayout.place (h : read settings.tabWidth text = .ok s) (hp : p + 1 < s.size)
    (hedit : s.EditsLayout settings (p + 1)) :
    s.BehindCase (p + 1) ∨ (∃ column, s.Due settings.indent (p + 1) column)
      ∨ s.kindAt (p + 1) = .whitespace
        ∧ (s.EndsLabel (p + 2) ∨ ∃ column, s.Due settings.indent (p + 2) column) := by
  obtain ⟨member, c, t, hchars, _, hform⟩ := token_form h hp
  have hu := retouched_selection h (get?_of_lt hp)
  unfold EditsLayout at hedit
  generalize (s.selection settings).textOf (s.tokenAt (p + 1)) = u at hu hedit
  cases hu with
  | kept => exact absurd rfl hedit
  | lowered hbranch =>
      -- in lower case the keyword starts with a letter still
      obtain ⟨e, w, hw, he⟩ := exists_branch_letter (hform.of_isBranch hbranch).2.1 hbranch
      have hhead : isLayout e = false := by rcases he with rfl | rfl <;> rfl
      have hcode : isLayout c = false := by
        apply isLayout_head hform
        intro hspace
        rw [hspace] at hbranch
        cases hbranch
      rw [hchars, hw, takeWhile_layout_code hhead, takeWhile_layout_code hcode] at hedit
      exact absurd rfl hedit
  | single _ hcase => exact .inl hcase
  | parted _ hcase => exact .inl hcase
  | joined hspace hlabel => exact .inr (.inr ⟨hspace, .inl hlabel⟩)
  | trimmed count hspace _ _ _ hdue => exact .inr (.inr ⟨hspace, .inr ⟨_, hdue⟩⟩)
  | indented count _ hdue => exact .inr (.inl ⟨_, hdue⟩)

/-- Where no edit is made, the layout stays. -/
theorem relaidFrom_eq (h : read settings.tabWidth text = .ok s) {i q : Nat} (hiq : i < q)
    (hq : q < s.size) (hcode : s.kindAt q ≠ .whitespace)
    (hspace : ∀ j, i < j → j < q → s.kindAt j = .whitespace)
    (hstay : ∀ j, i < j → j ≤ q → ¬ s.EditsLayout settings j) :
    s.relaidFrom settings (i + 1) = s.layoutFrom (i + 1) := by
  induction hn : q - (i + 1) generalizing i with
  | zero =>
      obtain rfl : q = i + 1 := by omega
      obtain ⟨n, hspaces, hnone⟩ := relaidFrom_code h hq hcode
      rw [hspaces, hnone (hstay _ (Nat.lt_succ_self i) (Nat.le_refl _)), layoutFrom_code h hq hcode]
      rfl
  | succ n ih =>
      have hp : i + 1 < s.size := by omega
      have hkind := hspace (i + 1) (by omega) (by omega)
      have hbehind : s.relaidFrom settings (i + 2) = s.layoutFrom (i + 2) :=
        ih (i := i + 1) (by omega) (fun j hlo hhi => hspace j (by omega) hhi)
          (fun j hlo hhi => hstay j (by omega) hhi) (by omega)
      rw [relaidFrom_whitespace h hp hkind, layoutFrom_whitespace h hp hkind, hbehind,
        textOf_whitespace h hp hkind (hstay _ (Nat.lt_succ_self i) (by omega))]

/-- The line breaks of the layout, from its first token on. -/
theorem lineBreaks_layoutFrom (h : read tabWidth text = .ok s) (hp : p + 1 < s.size)
    (hkind : s.kindAt (p + 1) = .whitespace) :
    lineBreaks (s.layoutFrom (p + 1))
      = lineBreaks (s.tokenAt (p + 1)).chars + lineBreaks (s.layoutFrom (p + 2)) := by
  rw [layoutFrom_whitespace h hp hkind, lineBreaks_append (layoutFrom_parts h hp hkind)]

/-- Behind a round they part none either. -/
theorem relaidFrom_parts (h : read settings.tabWidth text = .ok s) (hp : p + 2 < s.size)
    (hkind : s.kindAt (p + 1) = .whitespace)
    (hlast : ((s.selection settings).textOf (s.tokenAt (p + 1))).getLast? = some '\r') :
    (s.relaidFrom settings (p + 2)).head? ≠ some '\n' := by
  have hfirst : p + 1 < s.size := Nat.lt_of_succ_lt hp
  intro hhead
  by_cases hedit : s.EditsLayout settings (p + 1)
  · exact getLast?_ne_of_lineBreaks_eq_zero (lineBreaks_textOf h hfirst hkind hedit) hlast
  · rw [textOf_whitespace h hfirst hkind hedit] at hlast
    exact layoutFrom_parts h hfirst hkind hlast (head_relaidFrom h hp hhead)

/-- The line breaks that a round leaves of the layout, from its first token on. -/
theorem lineBreaks_relaidFrom (h : read settings.tabWidth text = .ok s) (hp : p + 2 < s.size)
    (hkind : s.kindAt (p + 1) = .whitespace) :
    lineBreaks (s.relaidFrom settings (p + 1))
      = lineBreaks ((s.selection settings).textOf (s.tokenAt (p + 1)))
        + lineBreaks (s.relaidFrom settings (p + 2)) := by
  rw [relaidFrom_whitespace h (Nat.lt_of_succ_lt hp) hkind,
    lineBreaks_append (relaidFrom_parts h hp hkind)]

/-- **No line break comes in**: what an edit makes of whitespace has none. -/
theorem lineBreaks_relaidFrom_le (h : read settings.tabWidth text = .ok s) {i q : Nat} (hiq : i < q)
    (hq : q < s.size) (hcode : s.kindAt q ≠ .whitespace)
    (hspace : ∀ j, i < j → j < q → s.kindAt j = .whitespace) :
    lineBreaks (s.relaidFrom settings (i + 1)) ≤ lineBreaks (s.layoutFrom (i + 1)) := by
  induction hn : q - (i + 1) generalizing i with
  | zero =>
      obtain rfl : q = i + 1 := by omega
      obtain ⟨n, hspaces, _⟩ := relaidFrom_code h hq hcode
      rw [hspaces, lineBreaks_replicate]
      exact Nat.zero_le _
  | succ n ih =>
      have hp : i + 1 < s.size := by omega
      have hkind := hspace (i + 1) (by omega) (by omega)
      have hbehind := ih (i := i + 1) (by omega) (fun j hlo hhi => hspace j (by omega) hhi) (by omega)
      rw [lineBreaks_relaidFrom h (by omega) hkind, lineBreaks_layoutFrom h hp hkind]
      refine Nat.add_le_add ?_ hbehind
      by_cases hedit : s.EditsLayout settings (i + 1)
      · rw [lineBreaks_textOf h hp hkind hedit]
        exact Nat.zero_le _
      · rw [textOf_whitespace h hp hkind hedit]

/-- **Line breaks stay**, if no edit of the layout is made where they stand. -/
theorem lineBreaks_relaidFrom_eq (h : read settings.tabWidth text = .ok s) {i q : Nat} (hiq : i < q)
    (hq : q < s.size) (hcode : s.kindAt q ≠ .whitespace)
    (hspace : ∀ j, i < j → j < q → s.kindAt j = .whitespace)
    (hstay : ∀ j, i < j → j < q → s.EditsLayout settings j →
      lineBreaks (s.tokenAt j).chars = 0) :
    lineBreaks (s.relaidFrom settings (i + 1)) = lineBreaks (s.layoutFrom (i + 1)) := by
  induction hn : q - (i + 1) generalizing i with
  | zero =>
      obtain rfl : q = i + 1 := by omega
      obtain ⟨n, hspaces, _⟩ := relaidFrom_code h hq hcode
      rw [hspaces, layoutFrom_code h hq hcode]
      exact lineBreaks_replicate n
  | succ n ih =>
      have hp : i + 1 < s.size := by omega
      have hkind := hspace (i + 1) (by omega) (by omega)
      have hbehind := ih (i := i + 1) (by omega) (fun j hlo hhi => hspace j (by omega) hhi)
        (fun j hlo hhi => hstay j (by omega) hhi) (by omega)
      rw [lineBreaks_relaidFrom h (by omega) hkind, lineBreaks_layoutFrom h hp hkind, hbehind]
      by_cases hedit : s.EditsLayout settings (i + 1)
      · -- neither the old whitespace nor the new one has a line break
        rw [lineBreaks_textOf h hp hkind hedit, hstay (i + 1) (by omega) (by omega) hedit]
      · rw [textOf_whitespace h hp hkind hedit]

/-- **The column behind the layout stays**, if behind every edit of it there is a line break: then
the layout stays as it is, or the column does not hang on what is in front of it. -/
theorem column_after_relaidFrom (h : read settings.tabWidth text = .ok s) {i q : Nat} (hiq : i < q)
    (hq : q < s.size) (hcode : s.kindAt q ≠ .whitespace)
    (hspace : ∀ j, i < j → j < q → s.kindAt j = .whitespace)
    (hstay : ¬ s.EditsLayout settings q)
    (hbreak : ∀ j, i < j → j < q → s.EditsLayout settings j →
      0 < lineBreaks (s.layoutFrom (j + 1))) :
    s.relaidFrom settings (i + 1) = s.layoutFrom (i + 1)
      ∨ 0 < lineBreaks (s.relaidFrom settings (i + 1)) ∧ ∀ l l' : Location,
        (l'.after settings.tabWidth (s.relaidFrom settings (i + 1))).column
          = (l.after settings.tabWidth (s.layoutFrom (i + 1))).column := by
  induction hn : q - (i + 1) generalizing i with
  | zero =>
      obtain rfl : q = i + 1 := by omega
      obtain ⟨n, hspaces, hnone⟩ := relaidFrom_code h hq hcode
      rw [hspaces, hnone hstay, layoutFrom_code h hq hcode]
      exact .inl rfl
  | succ n ih =>
      have hp : i + 1 < s.size := by omega
      have hkind := hspace (i + 1) (by omega) (by omega)
      have hparts := layoutFrom_parts h hp hkind
      have hparts' : ((s.selection settings).textOf (s.tokenAt (i + 1))).getLast? = some '\r' →
          (s.relaidFrom settings (i + 2)).head? ≠ some '\n' :=
        relaidFrom_parts h (by omega) hkind
      have hbehind : s.relaidFrom settings (i + 2) = s.layoutFrom (i + 2) ∨ _ :=
        ih (i := i + 1) (by omega) (fun j hlo hhi => hspace j (by omega) hhi)
          (fun j hlo hhi => hbreak j (by omega) hhi) (by omega)
      rw [lineBreaks_relaidFrom h (by omega) hkind, relaidFrom_whitespace h hp hkind,
        layoutFrom_whitespace h hp hkind]
      by_cases hedit : s.EditsLayout settings (i + 1)
      · -- a line break follows, and the column is counted from there
        right
        have hline : 0 < lineBreaks (s.layoutFrom (i + 2)) :=
          hbreak (i + 1) (by omega) (by omega) hedit
        rcases hbehind with heq | ⟨hlines, hcolumn⟩
        · refine ⟨by rw [heq]; omega, fun l l' => ?_⟩
          rw [Location.after_append _ _ hparts', Location.after_append _ _ hparts, heq]
          exact Location.column_after_of_lineBreaks _ _ _ hline
        · refine ⟨Nat.lt_of_lt_of_le hlines (Nat.le_add_left _ _), fun l l' => ?_⟩
          rw [Location.after_append _ _ hparts', Location.after_append _ _ hparts]
          exact hcolumn _ _
      · rcases hbehind with heq | ⟨hlines, hcolumn⟩
        · left
          rw [textOf_whitespace h hp hkind hedit, heq]
        · right
          refine ⟨Nat.lt_of_lt_of_le hlines (Nat.le_add_left _ _), fun l l' => ?_⟩
          rw [Location.after_append _ _ hparts', Location.after_append _ _ hparts]
          exact hcolumn _ _

end Layout

/-! ## §6. What stays in order. -/

section Same

variable {tabWidth : Nat} {text' : String} {s' : Script}

theorem SameProgram.length_code (h : s.SameProgram s') : s'.code.length = s.code.length :=
  (List.Forall₂.length_eq h).symm

theorem SameProgram.kindAt_place (h : s.SameProgram s') (k : Nat) :
    s'.kindAt (s'.place k) = s.kindAt (s.place k) := by
  rw [(thins_of_sameProgram h).kindAt_place, (thins_bare s).kindAt_place]

/-- A piece of code stays, or is a branch keyword and goes to lower case. -/
theorem SameProgram.same_place (h : s.SameProgram s') {k : Nat} (hk : k < s.code.length) :
    (s.tokenAt (s.place k)).lexeme.Same (s'.tokenAt (s'.place k)).lexeme := by
  have hk' : k < s'.code.length := by
    rw [h.length_code]
    exact hk
  have hget : ∀ {t : Script} (ht : k < t.code.length),
      (t.tokenAt (t.place k)).lexeme = t.code[k] := by
    intro t ht
    have hplace := t.getElem?_place k
    rw [getElem?_lexemes_tokenAt (place_lt_size ht), List.getElem?_eq_getElem ht] at hplace
    exact Option.some.inj hplace
  rw [hget hk, hget hk']
  exact List.Forall₂.get h hk hk'

/-- A branch keyword has no line break. -/
theorem isInline_of_isBranch (h : read tabWidth text = .ok s) {i : Nat} (hi : i < s.size)
    (hbranch : (s.kindAt i).isBranch = true) :
    (s.tokenAt i).chars.all (!isLineBreak ·) = true := by
  by_contra hbreak
  have hclosed := isClosed_of_lineBreak h (get?_of_lt hi) hbreak
  have hkind : (s.tokenAt i).lexeme.kind ≠ .whitespace ∧ (s.tokenAt i).lexeme.kind ≠ .string
      ∧ (s.tokenAt i).lexeme.kind ≠ .comment := by
    show s.kindAt i ≠ .whitespace ∧ s.kindAt i ≠ .string ∧ s.kindAt i ≠ .comment
    revert hbranch
    cases s.kindAt i <;> decide
  unfold Lexeme.isClosed at hclosed
  simp [hkind] at hclosed

/-- What is counted of the line breaks of a piece of code stays the same. -/
theorem SameProgram.congr_inline (hsame : s.SameProgram s') (h : read tabWidth text = .ok s)
    (h' : read tabWidth text' = .ok s') {k : Nat} (hk : k < s.code.length) {f : List Char → Nat}
    (hf : ∀ cs : List Char, cs.all (!isLineBreak ·) = true → f cs = 0) :
    f (s'.tokenAt (s'.place k)).chars = f (s.tokenAt (s.place k)).chars := by
  rcases (hsame.same_place hk).2 with heq | ⟨hbranch, _⟩
  · exact congrArg f heq
  · have hk' : k < s'.code.length := by
      rw [hsame.length_code]
      exact hk
    have hbranch' : (s'.kindAt (s'.place k)).isBranch = true := by
      rw [hsame.kindAt_place]
      exact hbranch
    rw [hf _ (isInline_of_isBranch h (place_lt_size hk) hbranch),
      hf _ (isInline_of_isBranch h' (place_lt_size hk') hbranch')]

/-- A piece of code ends a label in both. -/
theorem SameProgram.endsLabel_iff (h : s.SameProgram s') (k : Nat) :
    s'.EndsLabel (s'.place k) ↔ s.EndsLabel (s.place k) := by
  rw [(thins_of_sameProgram h).endsLabel_place, (thins_bare s).endsLabel_place]

/-- What is in order in `s` about its pieces of code is in order in `s'`. -/
structure Calms (s s' : Script) : Prop where
  /-- The program is the same. -/
  program : s.SameProgram s'
  /-- One space behind a `case` stays. -/
  spaced : ∀ k < s.code.length, s.kindAt (s.place k) = .caseKw →
    s.SpacedAt (s.place k) → s'.SpacedAt (s'.place k)
  /-- A colon that directly follows other code than a `case` still does. -/
  direct : ∀ k < s.code.length, s.kindAt (s.place (k + 1)) = .colon →
    s.kindAt (s.place k) ≠ .caseKw → s.place (k + 1) = s.place k + 1 →
    s'.place (k + 1) = s'.place k + 1
  /-- At most one piece of whitespace between a `case` and a colon stays at most one. -/
  near : ∀ k < s.code.length, s.kindAt (s.place (k + 1)) = .colon →
    s.kindAt (s.place k) = .caseKw → s.place (k + 1) ≤ s.place k + 2 →
    s'.place (k + 1) ≤ s'.place k + 2
  /-- Between two pieces of code no line break comes in. -/
  fewer : ∀ k, k + 1 < s.code.length → s'.breaksBehind k ≤ s.breaksBehind k
  /-- The line breaks stay, except behind a `case` and in front of the colon of a label. -/
  lines : ∀ k, k + 1 < s.code.length → s.kindAt (s.place k) ≠ .caseKw →
    ¬ s.EndsLabel (s.place (k + 1)) → s'.breaksBehind k = s.breaksBehind k

namespace Calms

variable {s'' : Script} {k : Nat}

theorem refl (s : Script) : s.Calms s where
  program := .refl s
  spaced _ _ _ hspaced := hspaced
  direct _ _ _ _ hdirect := hdirect
  near _ _ _ _ hnear := hnear
  fewer _ _ := Nat.le_refl _
  lines _ _ _ _ := rfl

theorem trans (h : s.Calms s') (h' : s'.Calms s'') : s.Calms s'' := by
  have hlength := h.program.length_code
  refine ⟨h.program.trans h'.program, ?_, ?_, ?_, ?_, ?_⟩
  · intro k hk hcase hspaced
    exact h'.spaced k (by omega) (by rwa [h.program.kindAt_place]) (h.spaced k hk hcase hspaced)
  · intro k hk hcolon hcase hdirect
    refine h'.direct k (by omega) ?_ ?_ (h.direct k hk hcolon hcase hdirect)
    · rwa [h.program.kindAt_place]
    · rwa [h.program.kindAt_place]
  · intro k hk hcolon hcase hnear
    refine h'.near k (by omega) ?_ ?_ (h.near k hk hcolon hcase hnear)
    · rwa [h.program.kindAt_place]
    · rwa [h.program.kindAt_place]
  · intro k hk
    exact Nat.le_trans (h'.fewer k (by omega)) (h.fewer k hk)
  · intro k hk hcase hlabel
    rw [h'.lines k (by omega) (by rwa [h.program.kindAt_place])
      (by rwa [h.program.endsLabel_iff]), h.lines k hk hcase hlabel]

end Calms

end Same

section Round

variable {s₁ : Script}

/-- The layout between two pieces of code behind a round. -/
theorem gap_eq_relaidFrom (h : read settings.tabWidth text = .ok s)
    (hfree : ¬ s.Glues (s.selection settings))
    (h₁ : read settings.tabWidth (s.repaired settings) = .ok s₁) {k : Nat}
    (hk : k < s.code.length) : s₁.gap k = s.relaidFrom settings (s.place k + 1) := by
  unfold gap relaidFrom
  rw [textFrom_repaired h hfree h₁ hk]

/-- Between two pieces of code a round brings no line break in. -/
theorem breaksBehind_repaired_le (h : read settings.tabWidth text = .ok s)
    (hfree : ¬ s.Glues (s.selection settings))
    (h₁ : read settings.tabWidth (s.repaired settings) = .ok s₁) {k : Nat}
    (hk : k + 1 < s.code.length) : s₁.breaksBehind k ≤ s.breaksBehind k := by
  unfold breaksBehind
  rw [gap_eq_relaidFrom h hfree h₁ (Nat.lt_of_succ_lt hk)]
  exact lineBreaks_relaidFrom_le h (s.place_lt (Nat.lt_succ_self k)) (place_lt_size hk)
    (kindAt_place_ne hk) fun j hlo hhi => whitespace_between (by omega) hlo hhi

/-- A round keeps the line breaks between two pieces of code, if it makes no edit where one of them
stands. -/
theorem breaksBehind_repaired_eq (h : read settings.tabWidth text = .ok s)
    (hfree : ¬ s.Glues (s.selection settings))
    (h₁ : read settings.tabWidth (s.repaired settings) = .ok s₁) {k : Nat}
    (hk : k + 1 < s.code.length)
    (hstay : ∀ j, s.place k < j → j < s.place (k + 1) → s.EditsLayout settings j →
      lineBreaks (s.tokenAt j).chars = 0) : s₁.breaksBehind k = s.breaksBehind k := by
  unfold breaksBehind
  rw [gap_eq_relaidFrom h hfree h₁ (Nat.lt_of_succ_lt hk)]
  exact lineBreaks_relaidFrom_eq h (s.place_lt (Nat.lt_succ_self k)) (place_lt_size hk)
    (kindAt_place_ne hk) (fun j hlo hhi => whitespace_between (by omega) hlo hhi) hstay

/-- **One round.**  A round that glues nothing leaves in order what is in order. -/
theorem calms_repaired (h : read settings.tabWidth text = .ok s)
    (hfree : ¬ s.Glues (s.selection settings))
    (h₁ : read settings.tabWidth (s.repaired settings) = .ok s₁) : s.Calms s₁ := by
  obtain ⟨s₂, h₂, hsame⟩ := code_repaired h hfree
  obtain rfl : s₁ = s₂ := Except.ok.inj (h₁.symm.trans h₂)
  refine ⟨hsame, ?_, ?_, ?_, ?_, ?_⟩
  · intro k hk hcase hspaced
    exact spacedAt_repaired h hfree h₁ hk hcase hspaced
  · intro k hk hcolon hcase hdirect
    exact place_succ_repaired h hfree h₁ hk hcolon hcase hdirect
  · intro k hk hcolon hcase hnear
    exact place_succ_le_repaired h hfree h₁ hk hcolon hcase hnear
  · exact fun k hk => breaksBehind_repaired_le h hfree h₁ hk
  · intro k hk hcase hlabel
    apply breaksBehind_repaired_eq h hfree h₁ hk
    intro j hlo hhi hedit
    have hsize := place_lt_size hk
    have hspace : ∀ p, s.place k < p → p < s.place (k + 1) → s.kindAt p = .whitespace :=
      fun p hlo hhi => whitespace_between (by omega) hlo hhi
    rcases (retouched_selection h (get?_of_lt (by omega))).whitespace_cases (hspace j hlo hhi) with
      heq | ⟨_, hbehind⟩ | ⟨_, _, hcode, hends | hblanks⟩
    · unfold EditsLayout at hedit
      rw [heq] at hedit
      exact absurd rfl hedit
    · -- the `case` would be the first of the two pieces of code
      obtain ⟨i, rfl⟩ : ∃ i, j = i + 1 := ⟨j - 1, by omega⟩
      change s.kindAt i = .caseKw at hbehind
      rcases Nat.eq_or_lt_of_le (Nat.le_of_lt_succ hlo) with rfl | hlt
      · exact absurd hbehind hcase
      · rw [hspace i hlt (by omega)] at hbehind
        cases hbehind
    · -- the colon would be the second
      have hnext : j + 1 = s.place (k + 1) := by
        by_contra hne
        exact hcode (hspace (j + 1) (by omega) (by omega))
      rw [hnext] at hends
      exact absurd hends hlabel
    · rw [List.eq_replicate_of_mem hblanks]
      exact lineBreaks_replicate _

end Round

/-- One round that glues nothing, from the script `s` to the script `s₁`. -/
structure Round (settings : Settings) (s s₁ : Script) : Prop where
  before : read settings.tabWidth s.source = .ok s
  free : ¬ s.Glues (s.selection settings)
  behind : read settings.tabWidth (s.repaired settings) = .ok s₁

/-- Two scripts as they are read.  What is in order in the first is in order in the second. -/
structure Calmed (tabWidth : Nat) (s s' : Script) : Prop where
  before : read tabWidth s.source = .ok s
  behind : read tabWidth s'.source = .ok s'
  calms : s.Calms s'

namespace Calmed

variable {tabWidth : Nat} {s' s'' : Script}

theorem refl (h : read tabWidth s.source = .ok s) : Calmed tabWidth s s := ⟨h, h, .refl s⟩

theorem trans (h : Calmed tabWidth s s') (h' : Calmed tabWidth s' s'') : Calmed tabWidth s s'' :=
  ⟨h.before, h'.behind, h.calms.trans h'.calms⟩

theorem thins (h : Calmed tabWidth s s') : Thins s.bare s' s'.place :=
  thins_of_sameProgram h.calms.program

theorem length_code (h : Calmed tabWidth s s') : s'.code.length = s.code.length :=
  h.calms.program.length_code

end Calmed

namespace Round

variable {s₁ : Script}

theorem calms (hr : Round settings s s₁) : s.Calms s₁ :=
  calms_repaired hr.before hr.free hr.behind

theorem thins (hr : Round settings s s₁) : Thins s.bare s₁ s₁.place :=
  thins_of_sameProgram hr.calms.program

theorem calmed (hr : Round settings s s₁) : Calmed settings.tabWidth s s₁ := by
  refine ⟨hr.before, ?_, hr.calms⟩
  rw [source_read hr.behind]
  exact hr.behind

end Round

end Script

end SwitchLayout
