import PreprocessorSyntax.Scan

/-!
# S-expressions

Trees are shown as S-expressions: a node is a list headed by the name of its
rule, a token is an atom.  Identifiers and numbers are written as they are,
all other tokens in double quotes.  The pretty layout puts every item on a
line of its own; the compact one differs from it in nothing but the separators.
-/

namespace PreprocessorSyntax

/-- An atom, or a list with a head that is an atom. -/
inductive SExpression where
  | atom (text : String)
  | list (head : String) (items : List SExpression)
  deriving Repr

namespace SExpression

/-- How the items of a list are set apart. -/
inductive Layout where
  | compact
  | pretty
  deriving DecidableEq, Repr

/-- What stands in front of an item within a number of open lists. -/
def Layout.separator (layout : Layout) (depth : Nat) : String :=
  match layout with
  | .compact => " "
  | .pretty => "\n" ++ String.ofList (List.replicate (2 * depth) ' ')

mutual

/-- Some text followed by an expression that stands within a number of open lists. -/
def write (layout : Layout) (depth : Nat) (written : String) : SExpression → String
  | .atom text => written ++ text
  | .list head items => writeItems layout (depth + 1) (written ++ "(" ++ head) items ++ ")"

/-- Some text followed by the items of a list, each with its separator. -/
def writeItems (layout : Layout) (depth : Nat) (written : String) : List SExpression → String
  | [] => written
  | item :: items =>
    writeItems layout depth
      (write layout depth (written ++ layout.separator depth) item) items

end

/-- An expression as text. -/
def render (layout : Layout) (expression : SExpression) : String :=
  write layout 0 "" expression

/-- A character as it is written within double quotes. -/
def escape (c : Char) : String :=
  if c = '"' then "\\\""
  else if c = '\\' then "\\\\"
  else if c = '\n' then "\\n"
  else if c = '\t' then "\\t"
  else String.singleton c

/-- A text within double quotes. -/
def quote (text : String) : String :=
  "\"" ++ String.join (text.toList.map escape) ++ "\""

/-- The atoms that show a token: none for line ends and, unless asked for, for trivia. -/
def ofToken (showTrivia : Bool) (token : Token) : List SExpression :=
  if token.isLineEnd || token.isTrivia && !showTrivia then []
  else if token.kind = .identifier ∨ token.kind = .number then [.atom token.text]
  else [.atom (quote token.text)]

mutual

/-- The expressions that show a tree. -/
def ofTree (showTrivia : Bool) : Tree → List SExpression
  | .leaf token => ofToken showTrivia token
  | .node rule children => [.list rule.name (ofTrees showTrivia children)]

/-- The expressions that show some neighbouring trees. -/
def ofTrees (showTrivia : Bool) : List Tree → List SExpression
  | [] => []
  | tree :: trees => ofTree showTrivia tree ++ ofTrees showTrivia trees

end

/-- The expression that shows a node. -/
def ofNode (showTrivia : Bool) (node : Node) : SExpression :=
  .list node.rule.name (ofTrees showTrivia node.children)

/-- The expression that shows a scanned directive, with its line and its name. -/
def ofScanned (showTrivia : Bool) (scanned : ScannedDirective) : SExpression :=
  .list "directive"
    [.atom (":line " ++ toString scanned.location.line),
     .atom (":kind " ++ scanned.directive.name),
     ofNode showTrivia scanned.node]

end SExpression
end PreprocessorSyntax
