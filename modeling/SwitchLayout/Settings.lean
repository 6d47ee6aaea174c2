/-
  SwitchLayout.Settings
  ─────────────────────
  The settings of a run: the width of an indentation level, the distance of tab stops, and the
  codes to keep silent about.

  The type `Nat` stands for unsigned machine integers, without their bound.  What an indentation
  level or a tab stop near the largest machine integer leads to is left out: sums of columns that
  overflow, and runs of spaces beyond the capacity of a string.
-/
import SwitchLayout.Finding
import SwitchLayout.Script.Read

namespace SwitchLayout

/-- Settings that every rule of a run shares. -/
structure Settings where
  /-- The columns of one indentation level. -/
  indent : Nat
  /-- The distance of tab stops; with 0 a tab is one column wide. -/
  tabWidth : Nat
  /-- The codes whose findings are dropped, each by its short or its full name. -/
  suppressed : List String
deriving DecidableEq

/-- Why settings cannot be used. -/
inductive SettingsError where
  /-- An indentation level has no width. -/
  | zeroIndent
deriving DecidableEq

/-- The error in words. -/
def SettingsError.message : SettingsError → String
  | .zeroIndent => "indent must be at least 1 column"

namespace Settings

/-- Four columns for a level, tab stops every four columns, and no code silenced. -/
def standard : Settings := ⟨4, Script.defaultTabWidth, []⟩

/-- The settings with one more code silenced. -/
def suppress (s : Settings) (code : String) : Settings :=
  { s with suppressed := s.suppressed ++ [code] }

/-- Refuse settings that cannot be used. -/
def validate (s : Settings) : Except SettingsError Unit :=
  if s.indent = 0 then .error .zeroIndent else .ok ()

/-- Whether the finding is to be dropped. -/
def suppresses (s : Settings) (f : Finding) : Bool :=
  s.suppressed.any fun code => code == f.code.name || code == f.fullCode

end Settings

end SwitchLayout
