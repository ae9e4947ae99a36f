import Stylesheet.Color.Basic
import Stylesheet.Color.Names
import Stylesheet.Command.Arguments
import Stylesheet.Command.Run
import Stylesheet.Comment
import Stylesheet.Compile.Basic
import Stylesheet.Compile.Directive
import Stylesheet.Compile.Run
import Stylesheet.Compile.Statement
import Stylesheet.Compile.Value
import Stylesheet.Cursor.Basic
import Stylesheet.Cursor.Lazy
import Stylesheet.Cursor.LazyReading
import Stylesheet.Cursor.Nesting
import Stylesheet.Cursor.Reading
import Stylesheet.Decimal.Binary
import Stylesheet.Decimal.Numeral
import Stylesheet.Decimal.Shortest
import Stylesheet.Describe
import Stylesheet.Error
import Stylesheet.Expr.Basic
import Stylesheet.Expr.Eval
import Stylesheet.Expr.Grammar
import Stylesheet.Expr.Lexeme
import Stylesheet.File.Input
import Stylesheet.File.Loader
import Stylesheet.File.Path
import Stylesheet.File.Tree
import Stylesheet.Finding
import Stylesheet.Function.Builtin
import Stylesheet.Function.Call
import Stylesheet.Function.Native
import Stylesheet.Log
import Stylesheet.Main
import Stylesheet.Mixin
import Stylesheet.Options
import Stylesheet.Scope
import Stylesheet.Selector
import Stylesheet.Sheet.Basic
import Stylesheet.Sheet.Render
import Stylesheet.Template
import Stylesheet.Text.Basic
import Stylesheet.Text.Described
import Stylesheet.Text.Quoting
import Stylesheet.Text.Shown
import Stylesheet.Text.Splitting
import Stylesheet.Token.Basic
import Stylesheet.Token.Lexer
import Stylesheet.Variable
import Stylesheet.Watch
import Stylesheet.Proofs.AddressCalls
import Stylesheet.Proofs.Alike
import Stylesheet.Proofs.BlockScopes
import Stylesheet.Proofs.Bracing
import Stylesheet.Proofs.Branches
import Stylesheet.Proofs.BuiltinResults
import Stylesheet.Proofs.CallPositions
import Stylesheet.Proofs.Calls
import Stylesheet.Proofs.ClosedValues
import Stylesheet.Proofs.ClosingBraces
import Stylesheet.Proofs.Complete
import Stylesheet.Proofs.Consumption
import Stylesheet.Proofs.ExpressionGrammar
import Stylesheet.Proofs.FunctionCalls
import Stylesheet.Proofs.Imports
import Stylesheet.Proofs.KeptCalls
import Stylesheet.Proofs.Layout
import Stylesheet.Proofs.LazyCursor
import Stylesheet.Proofs.LexicalScopes
import Stylesheet.Proofs.Lockstep
import Stylesheet.Proofs.MixinHistory
import Stylesheet.Proofs.OpaqueAddresses
import Stylesheet.Proofs.Page
import Stylesheet.Proofs.Parentheses
import Stylesheet.Proofs.Progress
import Stylesheet.Proofs.Rebuilds
import Stylesheet.Proofs.Reports
import Stylesheet.Proofs.ResolvedCalls
import Stylesheet.Proofs.RoundTrip
import Stylesheet.Proofs.Semicolons
import Stylesheet.Proofs.SheetGroups
import Stylesheet.Proofs.SourceGroups
import Stylesheet.Proofs.SourcesBelow
import Stylesheet.Proofs.StatementEnds
import Stylesheet.Proofs.Substitution
import Stylesheet.Proofs.Termination
import Stylesheet.Proofs.Tree
import Stylesheet.Proofs.TreeCompile
import Stylesheet.Proofs.TreeCorrectness
import Stylesheet.Proofs.VariableNames
import Stylesheet.Proofs.WatchedPlaces
import Stylesheet.Proofs.CommentGrammar
import Stylesheet.Proofs.CommentReading
import Stylesheet.Proofs.NestedSelectors
import Stylesheet.Proofs.DebugMarkers
import Stylesheet.Proofs.LocatedImports
import Stylesheet.Proofs.MixinFindings
import Stylesheet.Proofs.Unwatching
import Stylesheet.Proofs.LineReading
import Stylesheet.Proofs.ColorText
import Stylesheet.Proofs.CommaLists
import Stylesheet.Proofs.NormalText
