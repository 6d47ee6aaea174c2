import SwitchLayout.Text.Character
import SwitchLayout.Text.CaseData
import SwitchLayout.Text.Lowercase
import SwitchLayout.Location
import SwitchLayout.Token
import SwitchLayout.Lexeme
import SwitchLayout.Search
import SwitchLayout.Script
import SwitchLayout.Script.Read
import SwitchLayout.Brackets
import SwitchLayout.Scope.Table
import SwitchLayout.Scope.Detect
import SwitchLayout.Finding
import SwitchLayout.Settings
import SwitchLayout.Rule
import SwitchLayout.Rule.Violation
import SwitchLayout.Rule.ScopeEnd
import SwitchLayout.Rule.SwitchBody
import SwitchLayout.Ruleset
import SwitchLayout.Repair
import SwitchLayout.Proofs.Nesting
import SwitchLayout.Proofs.Scopes
import SwitchLayout.Proofs.Branches
import SwitchLayout.Proofs.Tables
import SwitchLayout.Proofs.BranchWalk
import SwitchLayout.Proofs.Histories
import SwitchLayout.Proofs.Guarded
import SwitchLayout.Proofs.Embedding
import SwitchLayout.Proofs.Thinning
import SwitchLayout.Proofs.Renumbering
import SwitchLayout.Proofs.Laminar
import SwitchLayout.Proofs.Replaying
import SwitchLayout.Proofs.Lexing
import SwitchLayout.Proofs.Relayout
import SwitchLayout.Proofs.Reading
import SwitchLayout.Proofs.Turns
import SwitchLayout.Proofs.Fixes
import SwitchLayout.Proofs.Rounds
import SwitchLayout.Proofs.Rendering
import SwitchLayout.Proofs.Stability
import SwitchLayout.Proofs.Outcomes
import SwitchLayout.Proofs.Preservation
import SwitchLayout.Proofs.SwitchText
import SwitchLayout.Proofs.Lines
import SwitchLayout.Proofs.Placement
import SwitchLayout.Proofs.WrittenScopes
import SwitchLayout.Proofs.WrittenFindings
import SwitchLayout.Proofs.Tidying
import SwitchLayout.Proofs.Gaps
import SwitchLayout.Proofs.LineStarts
import SwitchLayout.Proofs.Retouching
import SwitchLayout.Proofs.Calming
import SwitchLayout.Proofs.CodeNumbers
import SwitchLayout.Proofs.Columns
import SwitchLayout.Proofs.Reach
import SwitchLayout.Proofs.Tallies
import SwitchLayout.Proofs.Uniqueness
import SwitchLayout.Proofs.Casing
import SwitchLayout.Proofs.Structure
import SwitchLayout.Proofs.Windows
import SwitchLayout.Proofs.WindowFindings
import SwitchLayout.Proofs.Seams
import SwitchLayout.Proofs.EndLines
import SwitchLayout.Proofs.Locations
import SwitchLayout.Proofs.Literals
import SwitchLayout.Proofs.Stacking
import SwitchLayout.Proofs.Units
import SwitchLayout.Proofs.LetterCase
import SwitchLayout.Proofs.Fallthrough
import SwitchLayout.Proofs.Ownership
import SwitchLayout.Proofs.Suppression
import SwitchLayout.Proofs.Independence
import SwitchLayout.Proofs.Collisions
import SwitchLayout.Proofs.LastBranch
import SwitchLayout.Proofs.SecondBreak
import SwitchLayout.Proofs.Realigning
import SwitchLayout.Proofs.Pairing
import SwitchLayout.Proofs.Respacing
import SwitchLayout.Proofs.ClosingLines
import SwitchLayout.Proofs.Agreement
