/-
  SwitchLayout.Text.Lowercase
  ───────────────────────────
  Full lowercasing of a text.  A character maps to its simple lowercase image, with two
  exceptions that only a whole text can show: the capital I with a dot above becomes two
  characters, and a capital sigma that ends a word becomes the final form.

  Main statement: `lowercase_eq_map_toLower` — on a text of ASCII characters the result is
  the letter-by-letter one.
-/
import SwitchLayout.Text.CaseData

namespace SwitchLayout.Text

/-! ## §1. One character. -/

/-- The Greek capital sigma. -/
def capitalSigma : Char := '\u03A3'

/-- The Greek small sigma. -/
def smallSigma : Char := '\u03C3'

/-- The Greek small sigma in the form it takes at the end of a word. -/
def finalSigma : Char := '\u03C2'

/-- The lowercase form of a character by itself.  The capital I with a dot above (`U+0130`)
is the one character whose form has two characters. -/
def lowerChar (c : Char) : List Char :=
  if c.toNat < 128 then [c.toLower]
  else if c.toNat = 0x130 then ['i', '\u0307']
  else
    match imageRuns.find? (·.holds c.toNat) with
    | some r => [Char.ofNat (r.image + (c.toNat - r.first))]
    | none => [c]

/-! ## §2. Final sigma. -/

/-- Whether a text goes on with a cased character, once the characters that case context
looks through are left out. -/
def meetsCased (cs : List Char) : Bool :=
  match cs.dropWhile (fun c => inRanges transparentRanges c.toNat) with
  | [] => false
  | c :: _ => inRanges casedRanges c.toNat

/-! ## §3. A whole text. -/

/-- Lowercase the text `cs` that follows `before`, which is given in reverse. -/
def lowercaseAfter (before : List Char) : List Char → List Char
  | [] => []
  | c :: cs =>
    let image :=
      if c = capitalSigma then
        [if meetsCased before && !meetsCased cs then finalSigma else smallSigma]
      else lowerChar c
    image ++ lowercaseAfter (c :: before) cs

/-- The lowercase form of a text. -/
def lowercase (cs : List Char) : List Char := lowercaseAfter [] cs

/-- An ASCII character is lowered to itself or to its small letter. -/
theorem lowerChar_of_ascii {c : Char} (h : c.toNat < 128) : lowerChar c = [c.toLower] := by
  simp [lowerChar, h]

theorem lowercaseAfter_eq_map_toLower (before cs : List Char)
    (h : ∀ c ∈ cs, c.toNat < 128) : lowercaseAfter before cs = cs.map Char.toLower := by
  induction cs generalizing before with
  | nil => rfl
  | cons c cs ih =>
      have hc : c.toNat < 128 := h c (by simp)
      have hsigma : c ≠ capitalSigma := by
        rintro rfl
        revert hc
        decide
      rw [lowercaseAfter, if_neg hsigma, lowerChar_of_ascii hc,
        ih (c :: before) fun d hd => h d (List.mem_cons_of_mem c hd)]
      rfl

/-- **ASCII text.**  A text of ASCII characters is lowered letter by letter. -/
theorem lowercase_eq_map_toLower (cs : List Char) (h : ∀ c ∈ cs, c.toNat < 128) :
    lowercase cs = cs.map Char.toLower :=
  lowercaseAfter_eq_map_toLower [] cs h

end SwitchLayout.Text
