/-
  SwitchLayout.Proofs.Turns
  ─────────────────────────
  **Reading as a loop.**

  `Script.read` cuts a text by recursion on what is left of it.  Seen from inside this is a loop
  over a cursor: the tokens made so far, the text ahead, and the location at which that starts.
  A turn makes one token of the text ahead, or finds the end, or stands in front of a literal that
  stays open.

    • `turn_cases` — what a turn does,
    • `Turns.preserves` — what every turn keeps holds at the end of a run,
    • `Turns.length_le`, `Turns.text_eq` — turns go forward and lose nothing,
    • `exists_stop` — the loop stops, and where it stops is what `read` gives back.

  The main statement is `read_lossless`.
-/
import SwitchLayout.Proofs.Reading

namespace SwitchLayout

/-! ## §1. The cursor. -/

/-- How far a text has been read. -/
structure Cursor where
  /-- The tokens made so far; their positions are for the script to give. -/
  made : List Token
  /-- The text that is still to be read. -/
  ahead : List Char
  /-- Where that text starts. -/
  location : Location

namespace Cursor

/-- In front of a text.  The byte order mark is made a token at once and takes no column. -/
def start (text : List Char) : Cursor :=
  ⟨(Script.splitMark text).1.map Script.markToken, (Script.splitMark text).2, .origin⟩

/-- The text that has been read. -/
def behind (k : Cursor) : List Char := k.made.flatMap Token.chars

/-- Whether a word that comes next names a member.  One looks back over whitespace for an operator
that a member name follows. -/
def member (k : Cursor) : Bool :=
  (k.made.reverse.find? (·.kind ≠ .whitespace)).any (·.lexeme.isMemberAccess)

/-- A token more, of the characters in front of `rest`. -/
def push (tabWidth : Nat) (k : Cursor) (kind : TokenKind) (chars rest : List Char) : Cursor :=
  ⟨k.made ++ [⟨kind, String.ofList chars, k.location, 0⟩], rest, k.location.after tabWidth chars⟩

/-- One turn of the loop: a token more, or nothing at the end of the text. -/
def turn (tabWidth : Nat) (k : Cursor) : Except LexError (Option Cursor) :=
  match k.ahead with
  | [] => .ok none
  | c :: cs =>
    match extent k.member c cs with
    | .error literal => .error ⟨literal, k.location⟩
    | .ok (kind, extra) =>
      .ok (some (k.push tabWidth kind (c :: cs.take extra) (cs.drop extra)))

/-- The loop stops here with this outcome. -/
def Stops (tabWidth : Nat) (k : Cursor) : Except LexError Script → Prop
  | .ok s => k.turn tabWidth = .ok none ∧ s = Script.ofTokens k.made
  | .error e => k.turn tabWidth = .error e

end Cursor

/-- So many turns lead from one cursor to another. -/
inductive Turns (tabWidth : Nat) : Nat → Cursor → Cursor → Prop
  | zero (k : Cursor) : Turns tabWidth 0 k k
  | succ {n : Nat} {k k' last : Cursor} (hturn : k.turn tabWidth = .ok (some k'))
      (hturns : Turns tabWidth n k' last) : Turns tabWidth (n + 1) k last

/-! ## §2. One turn. -/

section Turn

variable {tabWidth : Nat} {k k' : Cursor}

/-- **What a turn does.**  It takes one lexeme off the text ahead, which lies inside of it. -/
theorem turn_cases (h : k.turn tabWidth = .ok (some k')) :
    ∃ c t rest kind, k.ahead = c :: (t ++ rest)
      ∧ extent k.member c (t ++ rest) = .ok (kind, t.length)
      ∧ k' = k.push tabWidth kind (c :: t) rest := by
  unfold Cursor.turn at h
  split at h
  · cases h
  · rename_i c cs hahead
    split at h
    · cases h
    · rename_i kind extra hread
      cases h
      have hlen : (cs.take extra).length = extra := by
        rw [List.length_take]
        exact Nat.min_eq_left (extent_form hread).1
      refine ⟨c, cs.take extra, cs.drop extra, kind, ?_, ?_, rfl⟩
      · rw [hahead, List.take_append_drop]
      · rw [List.take_append_drop, hlen]
        exact hread

/-- A turn that fails does so at a lexeme that cannot be read. -/
theorem turn_error {e : LexError} (h : k.turn tabWidth = .error e) :
    ∃ c cs, k.ahead = c :: cs ∧ extent k.member c cs = .error e.literal
      ∧ e.location = k.location := by
  unfold Cursor.turn at h
  split at h
  · cases h
  · rename_i c cs hahead
    split at h
    · rename_i literal hread
      cases h
      exact ⟨c, cs, hahead, hread, rfl⟩
    · cases h

/-- A turn finds the end where no text is left. -/
theorem turn_end (h : k.turn tabWidth = .ok none) : k.ahead = [] := by
  unfold Cursor.turn at h
  split at h
  · assumption
  · split at h <;> cases h

/-- A token behind a push was there before, or it is the new one. -/
theorem getElem?_push_cases {kind : TokenKind} {chars rest : List Char} {i : Nat} {t : Token}
    (h : (k.push tabWidth kind chars rest).made[i]? = some t) :
    (i < k.made.length ∧ k.made[i]? = some t)
      ∨ (i = k.made.length ∧ t = ⟨kind, String.ofList chars, k.location, 0⟩) := by
  change (k.made ++ [_])[i]? = some t at h
  rcases Nat.lt_trichotomy i k.made.length with hlt | rfl | hgt
  · rw [List.getElem?_append_left hlt] at h
    exact .inl ⟨hlt, h⟩
  · rw [List.getElem?_concat_length] at h
    exact .inr ⟨rfl, (Option.some.inj h).symm⟩
  · rw [List.getElem?_eq_none (by simp only [List.length_append, List.length_singleton]; omega)]
      at h
    cases h

/-- The text behind grows by the text of the new token. -/
theorem behind_push (k : Cursor) (kind : TokenKind) (chars rest : List Char) :
    (k.push tabWidth kind chars rest).behind = k.behind ++ chars := by
  unfold Cursor.push Cursor.behind
  rw [List.flatMap_append]
  simp [Token.chars]

theorem text_turn (h : k.turn tabWidth = .ok (some k')) :
    k'.behind ++ k'.ahead = k.behind ++ k.ahead := by
  obtain ⟨c, t, rest, kind, hahead, _, rfl⟩ := turn_cases h
  rw [behind_push, hahead, List.append_assoc]
  rfl

theorem length_turn (h : k.turn tabWidth = .ok (some k')) :
    k'.ahead.length + 1 ≤ k.ahead.length := by
  obtain ⟨c, t, rest, kind, hahead, _, rfl⟩ := turn_cases h
  show rest.length + 1 ≤ k.ahead.length
  rw [hahead, List.length_cons, List.length_append]
  omega

/-- Looking back over the new token. -/
theorem member_push (k : Cursor) (kind : TokenKind) (chars rest : List Char) :
    (k.push tabWidth kind chars rest).member = Lexeme.memberNext k.member ⟨kind, chars⟩ := by
  unfold Cursor.push Cursor.member Lexeme.memberNext
  rw [List.reverse_append, List.reverse_singleton, List.singleton_append]
  by_cases hspace : kind = .whitespace
  · rw [List.find?_cons_of_neg (by simpa using hspace), if_pos hspace]
  · rw [List.find?_cons_of_pos (by simpa using hspace), if_neg hspace]
    simp [Token.lexeme, Token.chars]

end Turn

/-! ## §3. Runs. -/

namespace Turns

variable {tabWidth n : Nat} {k k' : Cursor}

/-- What every turn keeps holds at the end of a run. -/
theorem preserves {p : Cursor → Prop}
    (hstep : ∀ {k k' : Cursor}, k.turn tabWidth = .ok (some k') → p k → p k')
    (h : Turns tabWidth n k k') (hk : p k) : p k' := by
  induction h with
  | zero k => exact hk
  | succ hturn _ ih => exact ih (hstep hturn hk)

/-- **Progress.**  Each turn takes at least one character. -/
theorem length_le (h : Turns tabWidth n k k') : n + k'.ahead.length ≤ k.ahead.length := by
  induction h with
  | zero k => simp
  | succ hturn _ ih =>
      have hlength := length_turn hturn
      omega

/-- **Nothing is lost.**  What was read and what is ahead make up the text at all times. -/
theorem text_eq (h : Turns tabWidth n k k') : k'.behind ++ k'.ahead = k.behind ++ k.ahead :=
  h.preserves (p := fun m => m.behind ++ m.ahead = k.behind ++ k.ahead)
    (fun hturn hm => (text_turn hturn).trans hm) rfl

end Turns

/-- The turns that a text takes: one for each of its lexemes. -/
theorem turns_lexemes (tabWidth : Nat) {k : Cursor} {ls : List Lexeme} {o : Option OpenLiteral}
    (h : lexemes k.member k.ahead = (ls, o)) :
    ∃ last, Turns tabWidth ls.length k last
      ∧ last.made = k.made ++ locate tabWidth k.location ls
      ∧ last.location = locationBehind tabWidth k.location ls
      ∧ lexemes last.member last.ahead = ([], o) := by
  induction ls generalizing k with
  | nil => exact ⟨k, .zero k, (List.append_nil _).symm, rfl, h⟩
  | cons l ls ih =>
      obtain ⟨c, t, rest, hahead, hchars, hextent, hrest⟩ := lexemes_eq_cons h
      have hturn : k.turn tabWidth = .ok (some (k.push tabWidth l.kind l.chars rest)) := by
        unfold Cursor.turn
        rw [hahead]
        simp only [hextent, List.take_left, List.drop_left, hchars]
      obtain ⟨last, hturns, hmade, hlocation, hstop⟩ :=
        ih (k := k.push tabWidth l.kind l.chars rest) (by rw [member_push]; exact hrest)
      refine ⟨last, .succ hturn hturns, ?_, hlocation, hstop⟩
      rw [hmade]
      exact List.append_assoc _ _ _

/-- In front of a text no word names a member. -/
theorem member_start (text : List Char) : (Cursor.start text).member = false := by
  unfold Cursor.start Cursor.member
  rcases Script.splitMark_cases text with hmark | hmark
  · rw [hmark]
    rfl
  · rw [hmark]
    rfl

theorem behind_start (text : List Char) :
    (Cursor.start text).behind ++ (Cursor.start text).ahead = text := by
  unfold Cursor.start Cursor.behind
  rw [Script.chars_markToken, Script.append_splitMark]

/-- **The loop stops** after some turns, and what it has come to then is what reading gives. -/
theorem exists_stop (tabWidth : Nat) (text : String) :
    ∃ n k, Turns tabWidth n (.start text.toList) k
      ∧ k.Stops tabWidth (Script.read tabWidth text) := by
  obtain ⟨ls, o, hread⟩ : ∃ ls o, lexemes false (Script.splitMark text.toList).2 = (ls, o) :=
    ⟨_, _, rfl⟩
  have hstart : lexemes (Cursor.start text.toList).member (Cursor.start text.toList).ahead
      = (ls, o) := by
    rw [member_start]
    exact hread
  obtain ⟨last, hturns, hmade, hlocation, hstop⟩ := turns_lexemes tabWidth hstart
  refine ⟨ls.length, last, hturns, ?_⟩
  unfold Script.read
  dsimp only
  rw [hread]
  -- no lexeme is left: the text is at its end, or a literal stays open
  cases hahead : last.ahead with
  | nil =>
      rw [hahead, lexemes] at hstop
      obtain rfl : o = none := (Prod.mk.inj hstop).2.symm
      exact ⟨by unfold Cursor.turn; rw [hahead], by rw [hmade]; rfl⟩
  | cons c cs =>
      rw [hahead, lexemes] at hstop
      split at hstop
      · rename_i literal herror
        obtain rfl : o = some literal := (Prod.mk.inj hstop).2.symm
        show last.turn tabWidth = .error ⟨literal, locationBehind tabWidth .origin ls⟩
        unfold Cursor.turn
        rw [hahead]
        simp only [herror]
        rw [hlocation]
        rfl
      · cases (Prod.mk.inj hstop).1

/-! ## §4. Lossless reading. -/

/-- **Reading is lossless and always makes progress.**  A run of the loop never has more turns than
the text has characters.  At each cursor the tokens made spell the text up to there, and what a reader
takes next lies inside the text ahead.  Some run comes to the point where the loop stops with what
`read` gives.  When that is a script, its tokens are not empty, each stands at its position, and the
script has the text it was read from. -/
theorem read_lossless (tabWidth : Nat) (text : String) :
    (∀ n k, Turns tabWidth n (.start text.toList) k →
        n ≤ text.length ∧ k.behind ++ k.ahead = text.toList
          ∧ ∀ c cs kind extra, k.ahead = c :: cs → extent k.member c cs = .ok (kind, extra) →
              extra ≤ cs.length)
      ∧ (∃ n k, Turns tabWidth n (.start text.toList) k
          ∧ k.Stops tabWidth (Script.read tabWidth text))
      ∧ ∀ s, Script.read tabWidth text = .ok s →
          s.source = text ∧ ∀ i t, s.get? i = some t → t.text ≠ "" ∧ t.position = i := by
  refine ⟨fun n k hturns => ?_, exists_stop tabWidth text, fun s hread => ?_⟩
  · have hlength := hturns.length_le
    have htext := hturns.text_eq
    rw [behind_start] at htext
    refine ⟨?_, htext, fun c cs kind extra _ hextent => (extent_form hextent).1⟩
    have hstart := congrArg List.length (behind_start text.toList)
    rw [List.length_append, String.length_toList] at hstart
    omega
  · refine ⟨Script.source_read hread, fun i t ht => ⟨?_, Script.position_of_get? ht⟩⟩
    intro hempty
    refine Script.chars_ne_nil hread ht ?_
    rw [Token.chars, hempty]
    rfl

end SwitchLayout
