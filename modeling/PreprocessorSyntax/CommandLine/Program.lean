import PreprocessorSyntax.CommandLine.Arguments
import PreprocessorSyntax.Json.Printing

/-!
# The command line of the program

Runs with a reader of command lines and a printer of JSON put in.
-/

namespace PreprocessorSyntax
namespace CommandLine

/-- The reader of arguments and the printer of documents that come with the program. -/
def libraries : Libraries where
  parse arguments := (Options.ofArguments arguments).mapError Stop.outcome
  pretty := Json.pretty

/-- Carry out a command line. -/
def run {m : Type → Type} [Monad m] (access : FileAccess m) (arguments : List String) :
    m Outcome :=
  libraries.run access arguments

end CommandLine
end PreprocessorSyntax
