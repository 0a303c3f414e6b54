import PreprocessorSyntax.Grammar.Condition
import PreprocessorSyntax.Grammar.MacroDefinition

/-!
# The grammar as a table

`Rule.pattern` says what each rule accepts.  It is all there is to the
grammar; the patterns themselves stand in the modules for the different
kinds of directives.
-/

namespace PreprocessorSyntax

/-- What a rule accepts. -/
def Rule.pattern : Rule → Pattern
  | .preprocessorLine => .preprocessorLine
  | .defineLine => .defineLine
  | .includeLine => .includeLine
  | .ppImport => .ppImport
  | .ppModule => .ppModule
  | .ifLine => .conditionLine "if"
  | .ifdefLine => .nameLine ["ifdef", "ifndef"]
  | .elifLine => .conditionLine "elif"
  | .elseLine => .freeLine "else"
  | .endifLine => .freeLine "endif"
  | .undefLine => .nameLine ["undef"]
  | .lineLine => .lineLine
  | .errorLine => .freeLine "error"
  | .pragmaLine => .freeLine "pragma"
  | .warningLine => .freeLine "warning"
  | .miscLine => .miscLine
  | .functionlikeMacroDefinition => .functionlikeMacroDefinition
  | .objectlikeMacroDefinition => .objectlikeMacroDefinition
  | .parameterList => .parameterList
  | .variadicParameter => .variadicParameter
  | .replacementList => .replacementList
  | .stringizing => .stringizing
  | .tokenPasting => .symbol .hashHash
  | .ppToken => .token Token.isContent
  | .argumentList => .argumentList
  | .argument => .argument
  | .somethingContainingParentheses => .somethingContainingParentheses
  | .somethingWithoutParentheses => .somethingWithoutParentheses
  | .includeBody => .includeBody
  | .expandedIncludeBody => .headerName
  | .includeBodyBracketed => .includeBodyBracketed
  | .includeBodyQuoted => .includeBodyQuoted
  | .includeBodyFreeform => .includeBodyFreeform
  | .moduleName => .moduleName
  | .constantExpression => .rule .conditionalExpression
  | .conditionalExpression => .conditionalExpression
  | .expression => .layer .conditionalExpression [.comma]
  | .logicalOrExpression => .layer .logicalAndExpression [.pipePipe]
  | .logicalAndExpression => .layer .inclusiveOrExpression [.ampAmp]
  | .inclusiveOrExpression => .layer .exclusiveOrExpression [.pipe]
  | .exclusiveOrExpression => .layer .andExpression [.caret]
  | .andExpression => .layer .equalityExpression [.amp]
  | .equalityExpression => .layer .relationalExpression [.equalEqual, .bangEqual]
  | .relationalExpression => .layer .shiftExpression [.less, .greater, .lessEqual, .greaterEqual]
  | .shiftExpression => .layer .additiveExpression [.lessLess, .greaterGreater]
  | .additiveExpression => .layer .multiplicativeExpression [.plus, .minus]
  | .multiplicativeExpression => .layer .unaryExpression [.star, .slash, .percent]
  | .unaryExpression => .unaryExpression
  | .unaryOperator => .unaryOperator
  | .primaryExpression => .primaryExpression
  | .literal => .token Token.isLiteral
  | .definedExpression => .definedExpression
  | .hasIncludeExpression => .hasIncludeExpression
  | .functionlikeMacro => .functionlikeMacro

/--
The node that a rule makes of the trees it read.  A layer of the expression
grammar that read a single node is that node.
-/
def Rule.build (rule : Rule) (children : List Tree) : Node :=
  match children with
  | [.node inner grandchildren] =>
    if rule.collapses then ⟨inner, grandchildren⟩ else ⟨rule, children⟩
  | _ => ⟨rule, children⟩

end PreprocessorSyntax
