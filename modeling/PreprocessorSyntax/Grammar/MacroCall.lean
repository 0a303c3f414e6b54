import PreprocessorSyntax.Grammar.Pattern

/-!
# Macro calls

The arguments of a macro call are any tokens.  They are separated by the
commas outside inner parentheses, and only the nesting of parentheses is
followed.  Arguments may be empty.
-/

namespace PreprocessorSyntax
namespace Pattern

/-- A comma with white space and comments around it. -/
def separator : Pattern :=
  trivia ++ symbol .comma ++ trivia

/-- A comma and the argument behind it, which may be empty. -/
def furtherArgument : Pattern :=
  separator ++ optional (.rule .argument)

/-- Arguments; one empty argument without any comma is no argument list. -/
def argumentList : Pattern :=
  (.rule .argument <|> furtherArgument) ++ .many furtherArgument

/-- A run of tokens with or without parentheses. -/
def argumentPiece : Pattern :=
  firstOf .somethingContainingParentheses [.somethingWithoutParentheses]

/-- Runs of tokens up to the comma or parenthesis that ends the argument. -/
def argument : Pattern :=
  argumentPiece ++ .many (trivia ++ argumentPiece)

/-- An argument list in parentheses. -/
def parenthesizedArguments : Pattern :=
  symbol .leftParen ++ trivia ++ optional (.rule .argumentList) ++ trivia ++ symbol .rightParen

/-- Parentheses, and the run of other tokens directly in front of them. -/
def somethingContainingParentheses : Pattern :=
  optional (.rule .somethingWithoutParentheses ++ trivia) ++ parenthesizedArguments

/-- A content token other than a comma or a parenthesis. -/
def plain : Pattern :=
  .token fun found =>
    found.isContent && !found.isAnyPunctuator [.comma, .leftParen, .rightParen]

/-- Tokens up to the next comma or parenthesis, without white space around them. -/
def somethingWithoutParentheses : Pattern :=
  plain ++ .many (trivia ++ plain)

/-- A macro name and its arguments.  The operator `defined` names no macro. -/
def functionlikeMacro : Pattern :=
  .token (fun found => found.isIdentifier && found.text != "defined") ++ trivia ++
    parenthesizedArguments

end Pattern
end PreprocessorSyntax
