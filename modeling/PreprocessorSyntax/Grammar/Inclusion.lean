import PreprocessorSyntax.Grammar.Line

/-!
# Inclusion, imports and modules

The body of an inclusion is a name in angle brackets, a plain string literal,
or something that macro replacement turns into one of these.
-/

namespace PreprocessorSyntax
namespace Pattern

/-- An inclusion of either kind. -/
def includeLine : Pattern :=
  directiveHead ["include", "include_next"] ++ trivia ++ .rule .includeBody ++ endOfLine

/-- A header name in angle brackets or quotes. -/
def headerName : Pattern :=
  firstOf .includeBodyBracketed [.includeBodyQuoted]

/-- A header name, or something that macro replacement turns into one. -/
def includeBody : Pattern :=
  firstOf .includeBodyBracketed [.includeBodyQuoted, .includeBodyFreeform]

/-- Anything but a closing angle bracket on the same line. -/
def bracketed : Pattern :=
  .token fun found => !found.isPunctuator .greater && !found.isLineEnd

/-- At least one token in angle brackets. -/
def includeBodyBracketed : Pattern :=
  symbol .less ++ atLeastOnce bracketed ++ symbol .greater

/-- A string literal without encoding prefix. -/
def includeBodyQuoted : Pattern :=
  .token fun found => found.kind == .string .none

/-- A macro call or a single name. -/
def includeBodyFreeform : Pattern :=
  .rule .functionlikeMacro <|> identifier

/-- Names joined by dots, without white space. -/
def moduleName : Pattern :=
  identifier ++ .many (symbol .dot ++ identifier)

/-- The keyword that makes a declaration visible to importers. -/
def exported : Pattern :=
  optional (word ["export"] ++ trivia)

/-- The import of a header, a module or a partition; a header needs no semicolon. -/
def ppImport : Pattern :=
  trivia ++ exported ++ word ["import"] ++ trivia ++
    (headerName ++ optional (trivia ++ symbol .semicolon) <|>
      optional (symbol .colon ++ trivia) ++ .rule .moduleName ++ trivia ++ symbol .semicolon) ++
    endOfLine

/-- The start of the global module fragment. -/
def globalFragment : Pattern :=
  word ["module"] ++ trivia ++ symbol .semicolon

/-- The start of the private module fragment. -/
def privateFragment : Pattern :=
  word ["module"] ++ trivia ++ symbol .colon ++ trivia ++ word ["private"] ++ trivia ++
    symbol .semicolon

/-- The declaration of a module or of one of its partitions. -/
def namedModule : Pattern :=
  exported ++ word ["module"] ++ trivia ++ .rule .moduleName ++
    optional (trivia ++ symbol .colon ++ trivia ++ .rule .moduleName) ++ trivia ++
    symbol .semicolon

/-- A module declaration of any kind. -/
def ppModule : Pattern :=
  trivia ++ (globalFragment <|> privateFragment <|> namedModule) ++ endOfLine

end Pattern
end PreprocessorSyntax
