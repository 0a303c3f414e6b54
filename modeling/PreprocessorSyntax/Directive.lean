import PreprocessorSyntax.IncludeBody
import PreprocessorSyntax.MacroDefinition
import PreprocessorSyntax.Text.WhiteSpace

/-!
# Directives

A syntax tree keeps every token of a line; a directive keeps what the line
means.  `Directive.ofNode` reads the one from the other.
-/

namespace PreprocessorSyntax

/-- What an import names. -/
inductive ImportTarget where
  | header (body : IncludeBody)
  | module (name : String)
  /-- A partition of the module that the import belongs to. -/
  | partition (name : String)
  deriving DecidableEq, Repr

/-- An import. -/
structure ImportDeclaration where
  /-- Whether the import is visible to importers. -/
  exported : Bool
  /-- What is imported. -/
  target : ImportTarget
  deriving DecidableEq, Repr

/-- A module declaration. -/
inductive ModuleDeclaration where
  /-- The start of the global module fragment. -/
  | globalFragment
  /-- The start of the private module fragment. -/
  | privateFragment
  | named (exported : Bool) (name : String) (partition : Option String)
  deriving DecidableEq, Repr

/-- What a directive line means. -/
inductive Directive where
  | define (definition : MacroDefinition)
  | undefine (name : String)
  /-- An inclusion; `next` asks for the next header of the same name. -/
  | inclusion (next : Bool) (body : IncludeBody)
  | importing (declaration : ImportDeclaration)
  | moduleUnit (declaration : ModuleDeclaration)
  | ifTrue (condition : Node)
  | elifTrue (condition : Node)
  /-- A test whether a macro is defined or, if negated, undefined. -/
  | ifDefined (name : String) (negated : Bool)
  | otherwise
  | endIf
  | line (tokens : List Token)
  | error (message : Option String)
  | warning (message : Option String)
  | pragma (tokens : List Token)
  | misc (tokens : List Token)
  deriving DecidableEq

namespace Directive

/-- The name by which a directive is known. -/
def name : Directive → String
  | .define _ => "define"
  | .undefine _ => "undef"
  | .inclusion next _ => if next then "include_next" else "include"
  | .importing _ => "import"
  | .moduleUnit _ => "module"
  | .ifTrue _ => "if"
  | .elifTrue _ => "elif"
  | .ifDefined _ negated => if negated then "ifndef" else "ifdef"
  | .otherwise => "else"
  | .endIf => "endif"
  | .line _ => "line"
  | .error _ => "error"
  | .warning _ => "warning"
  | .pragma _ => "pragma"
  | .misc _ => "misc"

/-- Whether the name behind the number sign has a given spelling. -/
def isNamed (node : Node) (spelling : String) : Bool :=
  node.identifiers.head?.any fun name => name.text == spelling

/-- The name behind the name of the directive. -/
def operand (node : Node) : Except Fault String :=
  match node.identifiers[1]? with
  | some name => .ok name.text
  | none => .error (.ofShape node (.missingOperand node.rule))

/-- The significant tokens of a line behind the first few. -/
def tokensBehind (node : Node) (skipped : Nat) : List Token :=
  (node.tokens.filter Token.isContent).drop skipped

/-- The text behind the name of the directive, trimmed; `none` if nothing is left. -/
def message (node : Node) : Option String :=
  let behind := ((node.tokens.filter fun token => !token.isLineEnd).dropWhile
    fun token => !token.isIdentifier).drop 1
  let text := trim (String.join (behind.map Token.text)).toList
  if text.isEmpty then none else some (String.ofList text)

/-- Whether a word stands directly below a node. -/
def hasWord (node : Node) (word : String) : Bool :=
  node.childTokens.any (Token.isWord word)

/-- The import that a node declares. -/
def importOfNode (node : Node) : Except Fault ImportDeclaration :=
  let exported := hasWord node "export"
  match (node.child? .includeBodyBracketed).or (node.child? .includeBodyQuoted) with
  | some header => (IncludeBody.ofNode header).map fun body => ⟨exported, .header body⟩
  | none =>
    match node.child? .moduleName with
    | none => .error (.ofShape node (.missingImportTarget node.rule))
    | some name =>
      .ok ⟨exported,
        if node.childTokens.any (Token.isPunctuator .colon) then .partition name.significantText
        else .module name.significantText⟩

/-- The module that a node declares. -/
def moduleOfNode (node : Node) : ModuleDeclaration :=
  match node.childNodes.filter fun child => child.rule == .moduleName with
  | [] => if hasWord node "private" then .privateFragment else .globalFragment
  | name :: partitions =>
    .named (hasWord node "export") name.significantText
      (partitions.head?.map Node.significantText)

/-- The directive that a node of one of the line rules stands for. -/
def ofLine (node : Node) : Except Fault Directive :=
  match node.rule with
  | .defineLine | .functionlikeMacroDefinition | .objectlikeMacroDefinition =>
    (MacroDefinition.ofNode node).map .define
  | .undefLine => (operand node).map .undefine
  | .includeLine =>
    match node.child? .includeBody with
    | none => .error (.ofShape node (.missingIncludeBody node.rule))
    | some body => (IncludeBody.ofNode body).map (.inclusion (isNamed node "include_next"))
  | .ppImport => (importOfNode node).map .importing
  | .ppModule => .ok (.moduleUnit (moduleOfNode node))
  | .ifLine | .elifLine =>
    match node.child? .constantExpression with
    | none => .error (.ofShape node (.missingCondition node.rule))
    | some condition =>
      .ok (if node.rule = .ifLine then .ifTrue condition else .elifTrue condition)
  | .ifdefLine => (operand node).map fun name => .ifDefined name (isNamed node "ifndef")
  | .elseLine => .ok .otherwise
  | .endifLine => .ok .endIf
  | .lineLine => .ok (.line (tokensBehind node 2))
  | .errorLine => .ok (.error (message node))
  | .warningLine => .ok (.warning (message node))
  | .pragmaLine => .ok (.pragma (tokensBehind node 2))
  | .miscLine => .ok (.misc (tokensBehind node 1))
  | _ => .error (.ofShape node (.notDirectiveLine node.rule))

/-- The directive that a node stands for, whether it wraps a line or is one. -/
def ofNode (node : Node) : Except Fault Directive :=
  match node.rule with
  | .preprocessorLine =>
    match node.childNodes with
    | [] => .error (.ofShape node (.emptyLine node.rule))
    | inner :: _ => ofLine inner
  | _ => ofLine node

end Directive
end PreprocessorSyntax
