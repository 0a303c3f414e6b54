import PreprocessorSyntax.Grammar.Inclusion
import PreprocessorSyntax.Grammar.MacroCall

/-!
# Conditions

The constant expressions of conditional directives, one rule for each level
of precedence.  White space and comments between operands belong to the layer
whose operator follows them.
-/

namespace PreprocessorSyntax
namespace Pattern

/-- Operands of the next tighter layer, joined by the operators of this one. -/
def layer (operand : Rule) (operators : List Punctuator) : Pattern :=
  .rule operand ++
    .many (trivia ++ .token (Token.isAnyPunctuator operators) ++ trivia ++ .rule operand)

/-- A condition with an optional choice behind it; its middle may be left out. -/
def conditionalExpression : Pattern :=
  .rule .logicalOrExpression ++
    optional (trivia ++ symbol .question ++ trivia ++ optional (.rule .expression ++ trivia) ++
      symbol .colon ++ trivia ++ .rule .conditionalExpression)

/-- An operator in front of an operand, or a primary expression. -/
def unaryExpression : Pattern :=
  .rule .unaryOperator ++ trivia ++ .rule .unaryExpression <|> .rule .primaryExpression

/-- The operators that stand in front of their operand. -/
def unaryOperator : Pattern :=
  .token (Token.isAnyPunctuator [.plus, .minus, .bang, .tilde])

/-- Operands without operators around them, in the order in which they are tried. -/
def primaryExpression : Pattern :=
  firstOf .literal [.hasIncludeExpression, .definedExpression, .functionlikeMacro] <|>
    symbol .leftParen ++ trivia ++ .rule .expression ++ trivia ++ symbol .rightParen <|>
    symbol .leftParen ++ trivia ++ symbol .rightParen <|>
    identifier

/-- The test whether a macro is defined; its name may stand in parentheses. -/
def definedExpression : Pattern :=
  word ["defined"] ++ trivia ++
    (symbol .leftParen ++ trivia ++ identifier ++ trivia ++ symbol .rightParen <|> identifier)

/-- The test whether a header can be included. -/
def hasIncludeExpression : Pattern :=
  word ["__has_include", "__has_include_next"] ++ trivia ++ symbol .leftParen ++ trivia ++
    headerName ++ trivia ++ symbol .rightParen

end Pattern
end PreprocessorSyntax
