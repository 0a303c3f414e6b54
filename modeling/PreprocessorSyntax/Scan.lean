import PreprocessorSyntax.Directive
import PreprocessorSyntax.Grammar.Parse
import PreprocessorSyntax.LogicalLine
import PreprocessorSyntax.MacroTable

/-!
# Scanning a source

A scan visits the logical lines of a source and collects their directives.
Lines that cannot be directives are passed over without being read, so what
stands in ordinary code is not even lexed.
-/

namespace PreprocessorSyntax

namespace Grammar

/-- The tree of one rule that covers a whole text. -/
def parse (grammar : Grammar) (rule : Rule) (source : String) (file : FileId) (line : UInt32) :
    Except Fault Node :=
  match tokenize source file line with
  | .error fault => .error (.unterminatedComment fault.location)
  | .ok tokens =>
    match grammar.parseTokens rule tokens with
    | some node => .ok node
    | none => .error (.noMatch (Location.start file line) rule)

/-- Whether a rule matches a whole text. -/
def accepts (grammar : Grammar) (rule : Rule) (source : String) : Bool :=
  (grammar.parse rule source 0 1).toOption.isSome

end Grammar

/-- A directive with its tree and the place of its first significant token. -/
structure ScannedDirective where
  /-- Where the directive starts. -/
  location : Location
  /-- The tree of the whole line. -/
  node : Node
  /-- What the line means. -/
  directive : Directive
  deriving DecidableEq

/-- Characters of the words that are looked for in front of a line. -/
def isWordPart (c : Char) : Bool :=
  c.isAlphanum || c == '_'

/--
Whether a line can be a directive: apart from white space it starts with a
number sign or with one of the words that start imports and modules.
-/
def looksLikeDirective (text : String) : Bool :=
  let visible := trimStart text.toList
  visible.head? == some '#' ||
    ["import", "export", "module"].contains (String.ofList (visible.takeWhile isWordPart))

/-- The directive of one logical line, if it has one. -/
def scanLine (grammar : Grammar) (file : FileId) (line : LogicalLine) :
    Except Fault (Option ScannedDirective) :=
  if looksLikeDirective line.text then
    match tokenize line.text file line.line with
    | .error fault => .error (.unterminatedComment fault.location)
    | .ok tokens =>
      match grammar.parseTokens .preprocessorLine tokens with
      | none => .ok none
      | some node =>
        match Directive.ofNode node with
        | .error fault => .error fault
        | .ok directive =>
          let location := (node.significantTokens.head?.map Token.location).getD
            (Location.start file line.line)
          .ok (some { location, node, directive })
  else .ok none

/-- The directives of some logical lines; the first fault ends the scan. -/
def scanLines (grammar : Grammar) (file : FileId) :
    List LogicalLine → Except Fault (List ScannedDirective)
  | [] => .ok []
  | line :: lines =>
    match scanLine grammar file line with
    | .error fault => .error fault
    | .ok found => (scanLines grammar file lines).map (found.toList ++ ·)

/-- The directives of a source. -/
def scanSource (grammar : Grammar) (source : String) (file : FileId) :
    Except Fault (List ScannedDirective) :=
  scanLines grammar file (logicalLines source)

/--
The directives of a file, given what came of reading it.  A file that was
read is registered even if its scan fails.
-/
def scanFile (grammar : Grammar) (registry : FileRegistry) (path : String)
    (content : Except FileFault String) : Except Fault (List ScannedDirective) × FileRegistry :=
  match content with
  | .error fault => (.error (.unreadable path fault), registry)
  | .ok source =>
    match registry.register path with
    | (file, registry) => (scanSource grammar source file, registry)

/-- The table after one more directive. -/
def MacroTable.apply (table : MacroTable) (scanned : ScannedDirective) : MacroTable :=
  match scanned.directive with
  | .define definition => (table.define definition scanned.location).2
  | .undefine name => (table.undefine name).2
  | _ => table

/-- The macros that are defined after some directives. -/
def collectMacros (directives : List ScannedDirective) : MacroTable :=
  directives.foldl MacroTable.apply .empty

end PreprocessorSyntax
