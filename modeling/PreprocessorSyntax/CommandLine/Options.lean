import PreprocessorSyntax.Scan

/-!
# Command line options

What a command line asks for, once it has been read.
-/

namespace PreprocessorSyntax
namespace CommandLine

/-- What a command line asks for. -/
structure Options where
  /-- The file whose directives are scanned. -/
  input : Option String
  /-- A text to be parsed in place of a file. -/
  expression : Option String
  /-- The name of the rule that the text is parsed by. -/
  rule : Option String
  /-- Whether to print JSON. -/
  json : Bool
  /-- Whether to print S-expressions on one line. -/
  compact : Bool
  /-- Whether S-expressions show white space and comments. -/
  trivia : Bool
  /-- Whether to list macros in place of trees. -/
  listMacros : Bool
  /-- How deeply rules may be nested. -/
  maxDepth : Option Nat
  /-- The file that takes the output. -/
  output : Option String
  deriving DecidableEq, Repr

namespace Options

/-- The options of an empty command line. -/
def initial : Options :=
  { input := none, expression := none, rule := none, json := false, compact := false,
    trivia := false, listMacros := false, maxDepth := none, output := none }

/-- The configuration of the grammar that was asked for. -/
def grammar (options : Options) : Grammar :=
  match options.maxDepth with
  | none => .standard
  | some depth => { Grammar.standard with maxDepth := depth }

end Options

end CommandLine
end PreprocessorSyntax
