import PreprocessorSyntax.CommandLine.Options
import PreprocessorSyntax.Json.Encoding
import PreprocessorSyntax.SExpression

/-!
# Running a command line

A run opens its output, reads its input, and writes what it found.  It takes
from outside a way to create, read and write files, so the same run can be
carried out on real files and on a `FileSystem`.  From outside it also takes
what libraries do: one that reads command lines and one that writes JSON.

The output file is created before anything else happens.  A run that fails
later leaves it empty, unless it fails while it writes.
-/

namespace PreprocessorSyntax
namespace CommandLine

/-- Why a text was not written to its end. -/
structure WriteFault where
  /-- The part of the text that was written. -/
  written : String
  /-- What went wrong then. -/
  fault : FileFault
  deriving DecidableEq, Repr

/-- The part of a text that has been written. -/
def written (text : String) : Except WriteFault Unit → String
  | .ok () => text
  | .error broken => broken.written

/-- How files are created, read and written. -/
structure FileAccess (m : Type → Type) where
  /-- Create an empty file, or empty the file that is there. -/
  create : String → m (Except FileFault Unit)
  /-- The text of a file. -/
  read : String → m (Except FileFault String)
  /-- Put a text into a file that was created. -/
  write : String → String → m (Except WriteFault Unit)
  /-- Put a text on standard output. -/
  print : String → m (Except WriteFault Unit)

/-- What a run leaves behind, apart from files. -/
structure Outcome where
  /-- The exit status: zero for success, two for a wrong command line, one for other failures. -/
  status : Nat
  /-- The text on standard output. -/
  output : String
  /-- The text on standard error. -/
  errors : String
  deriving DecidableEq, Repr

namespace Outcome

/-- A run that printed something. -/
def success (output : String) : Outcome :=
  { status := 0, output, errors := "" }

/-- A run that failed for a stated reason. -/
def failure (message : String) : Outcome :=
  { status := 1, output := "", errors := "Error: " ++ message ++ "\n" }

/-- A run that wrote all that it had to write, or did not. -/
def ofWriting (output : String) : Except WriteFault Unit → Outcome
  | .ok () => success output
  | .error broken => { failure broken.fault.message with output }

end Outcome

/-- The libraries that the program is built with. -/
structure Libraries where
  /-- The options of a command line, or what is left behind by one that is not carried out. -/
  parse : List String → Except Outcome Options
  /-- A JSON document as indented text. -/
  pretty : Json → String

namespace Options

/-- The layout of S-expressions that was asked for. -/
def layout (options : Options) : SExpression.Layout :=
  if options.compact then .compact else .pretty

/-- An S-expression on lines of its own. -/
def display (options : Options) (expression : SExpression) : String :=
  expression.render options.layout ++ "\n"

/-- What is printed for a text given on the command line. -/
def parseText (pretty : Json → String) (options : Options) (text : String) :
    Except String String :=
  let name := options.rule.getD Rule.preprocessorLine.name
  match Rule.ofName? name with
  | none => .error ("unknown rule '" ++ name ++ "'")
  | some rule =>
    match options.grammar.parse rule text 0 1 with
    | .error fault => .error fault.message
    | .ok node =>
      .ok (if options.json then pretty (Json.ofNode node) ++ "\n"
        else options.display (.ofNode options.trivia node))

/-- What is printed for the directives of a file. -/
def report (pretty : Json → String) (options : Options) (directives : List ScannedDirective) :
    String :=
  if options.listMacros then
    let definitions := (collectMacros directives).sorted
    if options.json then pretty (Json.ofList Json.ofMacroDefinition definitions) ++ "\n"
    else String.join (definitions.map fun definition => definition.listing ++ "\n")
  else if options.json then pretty (Json.ofList Json.ofScanned directives) ++ "\n"
  else String.join (directives.map fun scanned =>
    options.display (.ofScanned options.trivia scanned))

/-- What is printed for a file, given what came of reading it. -/
def scanContent (pretty : Json → String) (options : Options) (path : String)
    (content : Except FileFault String) : Except String String :=
  match scanFile options.grammar .empty path content with
  | (.error fault, registry) => .error (fault.describe registry)
  | (.ok directives, _) => .ok (options.report pretty directives)

end Options

variable {m : Type → Type} [Monad m]

/-- The text that a run is to write, or the reason why there is none. -/
def respond (pretty : Json → String) (access : FileAccess m) (options : Options) :
    m (Except String String) :=
  match options.expression with
  | some text => pure (options.parseText pretty text)
  | none =>
    match options.input with
    | none => pure (.error "Input file or --expr is required")
    | some path => do
      let content ← access.read path
      pure (options.scanContent pretty path content)

/-- Carry out some options. -/
def Options.run (pretty : Json → String) (access : FileAccess m) (options : Options) :
    m Outcome :=
  match options.output with
  | none => do
    match ← respond pretty access options with
    | .error message => pure (.failure message)
    | .ok text => do
      let result ← access.print text
      pure (.ofWriting (written text result) result)
  | some path => do
    match ← access.create path with
    | .error fault => pure (.failure fault.message)
    | .ok () =>
      match ← respond pretty access options with
      | .error message => pure (.failure message)
      | .ok text => do
        let result ← access.write path text
        pure (.ofWriting "" result)

/-- Carry out a command line. -/
def Libraries.run (libraries : Libraries) (access : FileAccess m) (arguments : List String) :
    m Outcome :=
  match libraries.parse arguments with
  | .error outcome => pure outcome
  | .ok options => options.run libraries.pretty access

end CommandLine
end PreprocessorSyntax
