import PreprocessorSyntax.Grammar.Line
import PreprocessorSyntax.Grammar.MacroCall

/-!
# Macro definitions

A macro takes parameters exactly if an opening parenthesis stands directly
behind its name.  Its replacement list is cut into stringizing operators,
token pasting operators and single tokens.
-/

namespace PreprocessorSyntax
namespace Pattern

/-- A definition with parameters or, where that fails, one without. -/
def defineLine : Pattern :=
  firstOf .functionlikeMacroDefinition [.objectlikeMacroDefinition]

/-- The directive and the name of the macro. -/
def definitionHead : Pattern :=
  directiveHead ["define"] ++ trivia ++ identifier

/-- The definition of a macro with parameters. -/
def functionlikeMacroDefinition : Pattern :=
  definitionHead ++ symbol .leftParen ++ trivia ++ optional (.rule .parameterList) ++ trivia ++
    symbol .rightParen ++ trivia ++ .rule .replacementList ++ endOfLine

/-- The definition of a macro without parameters. -/
def objectlikeMacroDefinition : Pattern :=
  definitionHead ++ ahead (fun kind => kind != .punctuator .leftParen) ++ trivia ++
    .rule .replacementList ++ endOfLine

/-- Parameters; only the last one may be variadic. -/
def parameterList : Pattern :=
  .rule .variadicParameter <|>
    identifier ++ .many (separator ++ absent .variadicParameter ++ identifier) ++
      optional (separator ++ .rule .variadicParameter)

/-- An ellipsis, or a name with an ellipsis behind it. -/
def variadicParameter : Pattern :=
  optional (identifier ++ trivia) ++ symbol .ellipsis

/-- One element of a replacement list. -/
def replacementElement : Pattern :=
  ahead (fun kind => !kind.isLineEnd) ++ firstOf .stringizing [.tokenPasting, .ppToken]

/-- The elements up to the end of the line, without white space around them. -/
def replacementList : Pattern :=
  optional (replacementElement ++ .many (trivia ++ replacementElement))

/-- A number sign and a name, with an encoding prefix if one stands directly before. -/
def stringizing : Pattern :=
  optional (.token (fun found =>
      found.isIdentifier && (EncodingPrefix.ofSpelling? found.text).isSome) ++
    ahead (fun kind => kind == .punctuator .hash)) ++
  symbol .hash ++ trivia ++ identifier

end Pattern
end PreprocessorSyntax
