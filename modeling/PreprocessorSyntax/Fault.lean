import PreprocessorSyntax.FileRegistry
import PreprocessorSyntax.Tree

/-!
# Faults

Everything that can go wrong between a source text and its directives: a
comment that is not closed, a text that a rule does not match, a tree that has
no reading as a directive, and a file that cannot be read.
-/

namespace PreprocessorSyntax

/-- Why a tree has no reading as a directive. -/
inductive ShapeFault where
  | emptyIncludeBody (rule : Rule)
  | unquotedIncludeBody (rule : Rule)
  | notIncludeBody (rule : Rule)
  | emptyLine (rule : Rule)
  | missingIncludeBody (rule : Rule)
  | missingCondition (rule : Rule)
  | missingOperand (rule : Rule)
  | missingImportTarget (rule : Rule)
  | notDirectiveLine (rule : Rule)
  | emptyDefinition
  | notDefinition
  | missingMacroName
  | missingReplacementList
  deriving DecidableEq, Repr

/-- The wording of a shape fault. -/
def ShapeFault.message : ShapeFault → String
  | .emptyIncludeBody rule => rule.name ++ ": empty include body"
  | .unquotedIncludeBody rule => rule.name ++ ": quoted include without quotes"
  | .notIncludeBody rule => rule.name ++ ": not an include body"
  | .emptyLine rule => rule.name ++ ": empty preprocessor line"
  | .missingIncludeBody rule => rule.name ++ ": include without a body"
  | .missingCondition rule => rule.name ++ ": conditional without an expression"
  | .missingOperand rule => rule.name ++ ": directive without an operand"
  | .missingImportTarget rule => rule.name ++ ": import without a target"
  | .notDirectiveLine rule => rule.name ++ ": not a directive line"
  | .emptyDefinition => "defineLine without a definition"
  | .notDefinition => "not a macro definition"
  | .missingMacroName => "macro definition without a name"
  | .missingReplacementList => "macro definition without a replacement list"

/-- Why a file cannot be opened or read. -/
inductive FileFault where
  | notFound
  | notADirectory
  | isADirectory
  | invalidText
  | other (cause : String)
  deriving DecidableEq, Repr

/-- The wording of a file fault. -/
def FileFault.message : FileFault → String
  | .notFound => "No such file or directory (os error 2)"
  | .notADirectory => "Not a directory (os error 20)"
  | .isADirectory => "Is a directory (os error 21)"
  | .invalidText => "stream did not contain valid UTF-8"
  | .other cause => cause

/-- Why a source text yields no directives. -/
inductive Fault where
  | unterminatedComment (location : Location)
  | noMatch (location : Location) (rule : Rule)
  | unexpectedShape (location : Location) (fault : ShapeFault)
  | unreadable (path : String) (fault : FileFault)
  deriving DecidableEq, Repr

namespace Fault

/-- A shape fault at the first token of a node. -/
def ofShape (node : Node) (fault : ShapeFault) : Fault :=
  .unexpectedShape ((node.firstToken?.map Token.location).getD .unknown) fault

/-- The place of a fault; an unreadable file has none. -/
def location? : Fault → Option Location
  | .unterminatedComment location => some location
  | .noMatch location _ => some location
  | .unexpectedShape location _ => some location
  | .unreadable _ _ => none

/-- What is said about a fault behind its place. -/
def description : Fault → String
  | .unterminatedComment _ => "lexer error: unterminated block comment"
  | .noMatch _ rule => "parse error: input does not match rule '" ++ rule.name ++ "'"
  | .unexpectedShape _ fault => "parse error: unexpected parse tree shape: " ++ fault.message
  | .unreadable path fault => "I/O error reading " ++ path ++ ": " ++ fault.message

/-- The message of a fault, with its file given by number. -/
def message (fault : Fault) : String :=
  match fault.location? with
  | some location =>
    toString location.file.toNat ++ ":" ++ location.lineColumn ++ ": " ++ fault.description
  | none => fault.description

/-- The message of a fault, with its file given by name. -/
def describe (fault : Fault) (registry : FileRegistry) : String :=
  match fault.location? with
  | some location => registry.describe location ++ ": " ++ fault.description
  | none => fault.description

end Fault
end PreprocessorSyntax
