import ScriptEmbed.Build.Cpp
import ScriptEmbed.Build.Failure
import ScriptEmbed.Build.Pipeline
import ScriptEmbed.Build.Run
import ScriptEmbed.Build.Sources
import ScriptEmbed.Command.Arguments
import ScriptEmbed.Command.Invocation
import ScriptEmbed.Command.Listing
import ScriptEmbed.Command.Run
import ScriptEmbed.Comments
import ScriptEmbed.Config.Basic
import ScriptEmbed.Config.File
import ScriptEmbed.Config.Reading
import ScriptEmbed.Config.Setting
import ScriptEmbed.Config.Yaml.Cursor
import ScriptEmbed.Config.Yaml.Node
import ScriptEmbed.Config.Yaml.Reading
import ScriptEmbed.Config.Yaml.Scalar
import ScriptEmbed.Config.Yaml.Tag
import ScriptEmbed.Config.Yaml.Token
import ScriptEmbed.Definitions.Basic
import ScriptEmbed.Definitions.Declaration
import ScriptEmbed.Definitions.Line
import ScriptEmbed.Definitions.Reader
import ScriptEmbed.Expansion.Arguments
import ScriptEmbed.Expansion.Constants
import ScriptEmbed.Expansion.Error
import ScriptEmbed.Expansion.Invocations
import ScriptEmbed.Expr.Basic
import ScriptEmbed.Expr.Eval
import ScriptEmbed.Expr.Parser
import ScriptEmbed.Expr.Scope
import ScriptEmbed.Expr.Token
import ScriptEmbed.Files.Path
import ScriptEmbed.Files.Store
import ScriptEmbed.Forbidden
import ScriptEmbed.Macro.Basic
import ScriptEmbed.Macro.Computed
import ScriptEmbed.Macro.Template
import ScriptEmbed.Main
import ScriptEmbed.Number.Binary64
import ScriptEmbed.Number.Decimal
import ScriptEmbed.Number.FloatReading
import ScriptEmbed.Number.Shortest
import ScriptEmbed.Number.Word
import ScriptEmbed.Pattern.Basic
import ScriptEmbed.Pattern.CharSet
import ScriptEmbed.Pattern.Class
import ScriptEmbed.Pattern.Escape
import ScriptEmbed.Pattern.Part
import ScriptEmbed.Pattern.Reader
import ScriptEmbed.Proofs.Build.CppLiterals
import ScriptEmbed.Proofs.Build.CppReading
import ScriptEmbed.Proofs.Build.Effects
import ScriptEmbed.Proofs.Build.Process
import ScriptEmbed.Proofs.Comments.Bare
import ScriptEmbed.Proofs.Comments.Gaps
import ScriptEmbed.Proofs.Comments.Passes
import ScriptEmbed.Proofs.Comments.SingleScan
import ScriptEmbed.Proofs.Comments.Trailing
import ScriptEmbed.Proofs.Config.Names
import ScriptEmbed.Proofs.Definitions.Layout
import ScriptEmbed.Proofs.Definitions.LineGrammar
import ScriptEmbed.Proofs.Definitions.Names
import ScriptEmbed.Proofs.Definitions.Tables
import ScriptEmbed.Proofs.Definitions.Written
import ScriptEmbed.Proofs.Expansion.ArgumentList
import ScriptEmbed.Proofs.Expansion.ArgumentSplit
import ScriptEmbed.Proofs.Expansion.Balance
import ScriptEmbed.Proofs.Expansion.Boundary
import ScriptEmbed.Proofs.Expansion.CallCount
import ScriptEmbed.Proofs.Expansion.ConstantPlaces
import ScriptEmbed.Proofs.Expansion.ConstantScan
import ScriptEmbed.Proofs.Expansion.Depth
import ScriptEmbed.Proofs.Expansion.Failures
import ScriptEmbed.Proofs.Expansion.Fixpoint
import ScriptEmbed.Proofs.Expansion.Idempotence
import ScriptEmbed.Proofs.Expansion.Locality
import ScriptEmbed.Proofs.Expansion.Nesting
import ScriptEmbed.Proofs.Expansion.Reports
import ScriptEmbed.Proofs.Expansion.Shadowing
import ScriptEmbed.Proofs.Expansion.Sweep
import ScriptEmbed.Proofs.Expansion.Walk
import ScriptEmbed.Proofs.Expansion.WholeWords
import ScriptEmbed.Proofs.Expr.Arithmetic
import ScriptEmbed.Proofs.Expr.Extremum
import ScriptEmbed.Proofs.Expr.Grammar
import ScriptEmbed.Proofs.Expr.IntegerText
import ScriptEmbed.Proofs.Expr.Reading
import ScriptEmbed.Proofs.Expr.RoundTrip
import ScriptEmbed.Proofs.Expr.Scoped
import ScriptEmbed.Proofs.Expr.Spelling
import ScriptEmbed.Proofs.Files.Writes
import ScriptEmbed.Proofs.Forbidden.Calls
import ScriptEmbed.Proofs.Macro.Capture
import ScriptEmbed.Proofs.Macro.Tokens
import ScriptEmbed.Proofs.Number.Division
import ScriptEmbed.Proofs.Number.Numeral
import ScriptEmbed.Proofs.Pattern.Matching
import ScriptEmbed.Proofs.Results
import ScriptEmbed.Proofs.Text.Balance
import ScriptEmbed.Proofs.Text.Closed
import ScriptEmbed.Proofs.Text.Pieces
import ScriptEmbed.Proofs.Text.Substitution
import ScriptEmbed.Proofs.Text.Utf8
import ScriptEmbed.Text.Basic
import ScriptEmbed.Text.Blank
import ScriptEmbed.Text.CaseFolding
import ScriptEmbed.Text.CodePoints
import ScriptEmbed.Text.Digit
import ScriptEmbed.Text.Word
import ScriptEmbed.Value.Basic
import ScriptEmbed.Value.Builtins
import ScriptEmbed.Value.Error
import ScriptEmbed.Value.Operators
