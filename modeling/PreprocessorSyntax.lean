import PreprocessorSyntax.Text.WhiteSpace
import PreprocessorSyntax.Location
import PreprocessorSyntax.Token
import PreprocessorSyntax.Lexer
import PreprocessorSyntax.LogicalLine
import PreprocessorSyntax.Rule
import PreprocessorSyntax.Tree
import PreprocessorSyntax.Spacing
import PreprocessorSyntax.Cursor
import PreprocessorSyntax.Path
import PreprocessorSyntax.FileRegistry
import PreprocessorSyntax.Fault
import PreprocessorSyntax.IncludeBody
import PreprocessorSyntax.MacroDefinition
import PreprocessorSyntax.MacroTable
import PreprocessorSyntax.Directive
import PreprocessorSyntax.Grammar.Failures
import PreprocessorSyntax.Grammar.Pattern
import PreprocessorSyntax.Grammar.MacroCall
import PreprocessorSyntax.Grammar.MacroDefinition
import PreprocessorSyntax.Grammar.Inclusion
import PreprocessorSyntax.Grammar.Condition
import PreprocessorSyntax.Grammar.Line
import PreprocessorSyntax.Grammar.Rules
import PreprocessorSyntax.Grammar.Parse
import PreprocessorSyntax.Scan
import PreprocessorSyntax.SExpression
import PreprocessorSyntax.Json
import PreprocessorSyntax.Json.Encoding
import PreprocessorSyntax.Json.Printing
import PreprocessorSyntax.CommandLine.Options
import PreprocessorSyntax.CommandLine.Run
import PreprocessorSyntax.CommandLine.Arguments
import PreprocessorSyntax.CommandLine.Program
import PreprocessorSyntax.FileSystem
import PreprocessorSyntax.Main
import PreprocessorSyntax.Proofs.Grammar.Coverage
import PreprocessorSyntax.Proofs.Grammar.Memory
import PreprocessorSyntax.Proofs.Grammar.Reading
import PreprocessorSyntax.Proofs.Condition.Expression
import PreprocessorSyntax.Proofs.Condition.RoundTrip
import PreprocessorSyntax.Proofs.Grammar.FirstToken
import PreprocessorSyntax.Proofs.Scan.Lines
import PreprocessorSyntax.Proofs.Scan.Prefilter
import PreprocessorSyntax.Proofs.Scan.Locations
import PreprocessorSyntax.Proofs.Scan.Concatenation
import PreprocessorSyntax.Proofs.Lexer.Spelling
import PreprocessorSyntax.Proofs.Lexer.Locations
import PreprocessorSyntax.Proofs.LogicalLine.Texts
import PreprocessorSyntax.Proofs.LogicalLine.TokenLines
import PreprocessorSyntax.Proofs.LogicalLine.Splicing
import PreprocessorSyntax.Proofs.LogicalLine.Numbering
import PreprocessorSyntax.Proofs.SExpression.Trees
import PreprocessorSyntax.Proofs.Grammar.Simulation
import PreprocessorSyntax.Proofs.Line.Content
import PreprocessorSyntax.Proofs.Line.Head
import PreprocessorSyntax.Proofs.Line.Dispatch
import PreprocessorSyntax.Proofs.Directive.Shapes
import PreprocessorSyntax.Proofs.Directive.Totality
import PreprocessorSyntax.Proofs.Directive.Names
import PreprocessorSyntax.Proofs.Directive.Readings
import PreprocessorSyntax.Proofs.Condition.Precedence
import PreprocessorSyntax.Proofs.Grammar.Calls
import PreprocessorSyntax.Proofs.Depth.Harmless
import PreprocessorSyntax.Proofs.Depth.Literals
import PreprocessorSyntax.Proofs.Depth.Lockstep
import PreprocessorSyntax.Proofs.Depth.Arguments
import PreprocessorSyntax.Proofs.Depth.Acceptance
import PreprocessorSyntax.Proofs.Grammar.Leaves
import PreprocessorSyntax.Proofs.Grammar.Levels
import PreprocessorSyntax.Proofs.Lexer.Context
import PreprocessorSyntax.Proofs.Lexer.Lines
import PreprocessorSyntax.Proofs.Lexer.Respacing
import PreprocessorSyntax.Proofs.Lexer.Delimiting
import PreprocessorSyntax.Proofs.Lexer.Calls
import PreprocessorSyntax.Proofs.MacroDefinition.Parameters
import PreprocessorSyntax.Proofs.MacroDefinition.Replacement
import PreprocessorSyntax.Proofs.MacroDefinition.Lines
import PreprocessorSyntax.Proofs.MacroDefinition.Listing
import PreprocessorSyntax.Proofs.MacroDefinition.Acceptance
import PreprocessorSyntax.Proofs.MacroDefinition.Segments
import PreprocessorSyntax.Proofs.MacroDefinition.Operators
import PreprocessorSyntax.Proofs.Line.Isolation
import PreprocessorSyntax.Proofs.MacroCall.Nesting
import PreprocessorSyntax.Proofs.MacroCall.Arguments
import PreprocessorSyntax.Proofs.MacroCall.Calls
import PreprocessorSyntax.Proofs.Grammar.Correspondence
import PreprocessorSyntax.Proofs.Condition.Layout
import PreprocessorSyntax.Proofs.Line.Conditions
import PreprocessorSyntax.Proofs.Grammar.Occurrences
import PreprocessorSyntax.Proofs.Condition.Defined
import PreprocessorSyntax.Proofs.Grammar.Spacing
import PreprocessorSyntax.Proofs.Trailing.Places
import PreprocessorSyntax.Proofs.Trailing.Operands
import PreprocessorSyntax.Proofs.Trailing.Lines
import PreprocessorSyntax.Proofs.Trailing.Directives
import PreprocessorSyntax.Proofs.Depth.Limit
import PreprocessorSyntax.Proofs.Module.RoundTrip
import PreprocessorSyntax.Proofs.Inclusion.Display
import PreprocessorSyntax.Proofs.MacroTable.Replay
import PreprocessorSyntax.Proofs.FileRegistry.Calls
import PreprocessorSyntax.Proofs.CommandLine.Output
import PreprocessorSyntax.Proofs.Tree.Queries
import PreprocessorSyntax.Proofs.Grammar.Edges
