import PreprocessorSyntax.Grammar.Pattern

/-!
# Directive lines

What the rules for directive lines have in common: the number sign and name
in front, and the two ways a line can end.  Some directives allow nothing
but white space and comments behind their operands, others take the rest of
the line whatever it is.
-/

namespace PreprocessorSyntax
namespace Pattern

/-- A number sign and one of the given directive names. -/
def directiveHead (names : List String) : Pattern :=
  trivia ++ symbol .hash ++ trivia ++ word names

/-- White space and comments up to the end of the line. -/
def endOfLine : Pattern :=
  trivia ++ ahead TokenKind.isLineEnd

/-- Everything up to the end of the line. -/
def restOfLine : Pattern :=
  .many (.token fun found => !found.isLineEnd)

/-- The line rules in the order in which they are tried. -/
def preprocessorLine : Pattern :=
  firstOf .defineLine
    [.includeLine, .ppImport, .ppModule, .ifLine, .ifdefLine, .elifLine, .elseLine, .endifLine,
     .undefLine, .lineLine, .errorLine, .pragmaLine, .warningLine, .miscLine]

/-- A directive that has a condition and nothing behind it. -/
def conditionLine (name : String) : Pattern :=
  directiveHead [name] ++ trivia ++ .rule .constantExpression ++ endOfLine

/-- A directive that has a name as its operand; what follows is ignored. -/
def nameLine (names : List String) : Pattern :=
  directiveHead names ++ trivia ++ identifier ++ restOfLine

/-- A directive whose operands are any tokens, or none. -/
def freeLine (name : String) : Pattern :=
  directiveHead [name] ++ restOfLine

/-- A directive whose operands are any tokens, but at least one. -/
def lineLine : Pattern :=
  directiveHead ["line"] ++ trivia ++ .token Token.isContent ++ restOfLine

/-- Any other line that starts with a number sign. -/
def miscLine : Pattern :=
  trivia ++ symbol .hash ++ restOfLine

end Pattern
end PreprocessorSyntax
