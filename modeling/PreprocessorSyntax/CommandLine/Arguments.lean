import PreprocessorSyntax.CommandLine.Run

/-!
# Arguments

A command line has at most one input file and each option at most once.  The
value of an option stands behind an equals sign or is the next argument; as
the next argument it cannot start with a dash, unless it is a dash.  Behind
two dashes nothing is an option.  Arguments are read from left to right, and
the first one that settles the outcome does so.
-/

namespace PreprocessorSyntax
namespace CommandLine

/-- Why a command line is not carried out. -/
inductive Stop where
  | help
  | version
  | usage
  deriving DecidableEq, Repr

/-- The name of the program. -/
def programName : String :=
  "cxx-ppgrammar"

/-- A summary of the options. -/
def usageText : String :=
  "Usage: " ++ programName ++ " [OPTIONS] [INPUT]\n\n" ++
  "  --expr <TEXT>       parse a text in place of a file\n" ++
  "  --rule <NAME>       the rule for --expr [default: preprocessorLine]\n" ++
  "  --json              print JSON\n" ++
  "  --compact           print S-expressions on one line\n" ++
  "  --trivia            show white space and comments\n" ++
  "  --macros            list macro definitions\n" ++
  "  --max-depth <N>     limit the nesting of rules\n" ++
  "  -o, --output <FILE> write to a file\n" ++
  "  -h, --help          print this help\n" ++
  "  -V, --version       print the version\n"

/-- The outcome of a command line that is not carried out. -/
def Stop.outcome : Stop → Outcome
  | .help => .success usageText
  | .version => .success (programName ++ " 0.1.0\n")
  | .usage => { status := 2, output := "", errors := usageText }

/-- The options that have a value. -/
inductive ValueOption where
  | expression
  | rule
  | maxDepth
  | output
  deriving DecidableEq, Repr

/-- The options that have none. -/
inductive Switch where
  | json
  | compact
  | trivia
  | listMacros
  deriving DecidableEq, Repr

/-- What a name behind two dashes stands for. -/
inductive LongOption where
  | value (option : ValueOption)
  | switch (switch : Switch)
  | stop (stop : Stop)

/-- The options by their long names. -/
def longOption? : String → Option LongOption
  | "expr" => some (.value .expression)
  | "rule" => some (.value .rule)
  | "max-depth" => some (.value .maxDepth)
  | "output" => some (.value .output)
  | "json" => some (.switch .json)
  | "compact" => some (.switch .compact)
  | "trivia" => some (.switch .trivia)
  | "macros" => some (.switch .listMacros)
  | "help" => some (.stop .help)
  | "version" => some (.stop .version)
  | _ => none

/-- The value of some decimal digits. -/
def digits? : List Char → Option Nat
  | [] => none
  | digits =>
    if digits.all Char.isDigit then
      some (digits.foldl (fun value digit => 10 * value + (digit.toNat - '0'.toNat)) 0)
    else none

/-- A number of at most 64 bits, with or without a plus sign. -/
def depth? (text : String) : Option Nat :=
  let digits := match text.toList with
    | '+' :: rest => rest
    | all => all
  (digits? digits).filter fun value => value < UInt64.size

/-- Give a path to a place that has none; paths are not empty. -/
def givePath (current : Option String) (path : String) : Except Stop (Option String) :=
  if current.isSome || path.isEmpty then .error .usage else .ok (some path)

/-- Give a value to an option that has none. -/
def give (options : Options) (option : ValueOption) (value : String) : Except Stop Options :=
  match option with
  | .expression =>
    if options.expression.isSome then .error .usage
    else .ok { options with expression := some value }
  | .rule =>
    if options.rule.isSome then .error .usage else .ok { options with rule := some value }
  | .maxDepth =>
    match depth? value with
    | none => .error .usage
    | some depth =>
      if options.maxDepth.isSome then .error .usage
      else .ok { options with maxDepth := some depth }
  | .output => (givePath options.output value).map fun output => { options with output }

/-- Turn on a switch that is off. -/
def turnOn (options : Options) (switch : Switch) : Except Stop Options :=
  match switch with
  | .json => if options.json then .error .usage else .ok { options with json := true }
  | .compact => if options.compact then .error .usage else .ok { options with compact := true }
  | .trivia => if options.trivia then .error .usage else .ok { options with trivia := true }
  | .listMacros =>
    if options.listMacros then .error .usage else .ok { options with listMacros := true }

/-- Take an argument as the input file. -/
def takeInput (options : Options) (path : String) : Except Stop Options :=
  (givePath options.input path).map fun input => { options with input }

/-- What a single argument means. -/
inductive Argument where
  /-- From here on nothing is an option. -/
  | escape
  | input (path : String)
  | switch (switch : Switch)
  | stop (stop : Stop)
  | attached (option : ValueOption) (value : String)
  /-- An option whose value is the next argument. -/
  | awaiting (option : ValueOption)

/-- An argument that starts with two dashes, without them. -/
def longArgument (text : List Char) : Argument :=
  let name := String.ofList (text.takeWhile (· != '='))
  match longOption? name, text.dropWhile (· != '=') with
  | some (.value option), [] => .awaiting option
  | some (.value option), _ :: value => .attached option (String.ofList value)
  | some (.switch switch), [] => .switch switch
  | some (.stop stop), [] => .stop stop
  | _, _ => .stop .usage

/-- An argument that starts with one dash, without it. -/
def shortArgument : List Char → Argument
  | ['o'] => .awaiting .output
  | 'o' :: '=' :: value => .attached .output (String.ofList value)
  | 'o' :: value => .attached .output (String.ofList value)
  | 'h' :: _ => .stop .help
  | 'V' :: _ => .stop .version
  | _ => .stop .usage

/-- What a single argument means. -/
def Argument.ofString (text : String) : Argument :=
  match text.toList with
  | ['-', '-'] => .escape
  | '-' :: '-' :: rest => longArgument rest
  | ['-'] => .input text
  | '-' :: rest => shortArgument rest
  | _ => .input text

/-- Whether an argument cannot be the value of the option in front of it. -/
def startsWithDash (text : String) : Bool :=
  match text.toList with
  | '-' :: _ :: _ => true
  | _ => false

/-- Take some arguments as input files; there can be only one. -/
def takeInputs (options : Options) : List String → Except Stop Options
  | [] => .ok options
  | path :: paths =>
    match takeInput options path with
    | .error stop => .error stop
    | .ok options => takeInputs options paths

/-- The options that some arguments add. -/
def readArguments (options : Options) : List String → Except Stop Options
  | [] => .ok options
  | text :: rest =>
    match Argument.ofString text with
    | .escape => takeInputs options rest
    | .stop stop => .error stop
    | .input path =>
      match takeInput options path with
      | .error stop => .error stop
      | .ok options => readArguments options rest
    | .switch switch =>
      match turnOn options switch with
      | .error stop => .error stop
      | .ok options => readArguments options rest
    | .attached option value =>
      match give options option value with
      | .error stop => .error stop
      | .ok options => readArguments options rest
    | .awaiting option =>
      match rest with
      | [] => .error .usage
      | value :: rest =>
        if startsWithDash value then .error .usage
        else
          match give options option value with
          | .error stop => .error stop
          | .ok options => readArguments options rest

/-- The options of a command line. -/
def Options.ofArguments (arguments : List String) : Except Stop Options :=
  readArguments .initial arguments

end CommandLine
end PreprocessorSyntax
