import PreprocessorSyntax.Json
import PreprocessorSyntax.Scan

/-!
# Trees and directives as JSON

The JSON form of everything that a parse or a scan produces.  A variant
without contents is its name, a variant with contents is an object with the
name as its only key, and the variants of trees and directives carry their
name in a member of their own.
-/

namespace PreprocessorSyntax

/-- The name of an encoding prefix. -/
def EncodingPrefix.label : EncodingPrefix → String
  | .none => "None"
  | .wide => "Wide"
  | .utf8 => "Utf8"
  | .utf16 => "Utf16"
  | .utf32 => "Utf32"

/-- The name of a comment style. -/
def CommentStyle.label : CommentStyle → String
  | .line => "Line"
  | .block => "Block"

/-- The name of a punctuator. -/
def Punctuator.label : Punctuator → String
  | .ellipsis => "Ellipsis"
  | .lessLessEqual => "LtLtEq"
  | .greaterGreaterEqual => "GtGtEq"
  | .hashHash => "HashHash"
  | .lessLess => "LtLt"
  | .greaterGreater => "GtGt"
  | .ampAmp => "AmpAmp"
  | .pipePipe => "PipePipe"
  | .lessEqual => "LtEq"
  | .greaterEqual => "GtEq"
  | .equalEqual => "EqEq"
  | .bangEqual => "BangEq"
  | .plusEqual => "PlusEq"
  | .minusEqual => "MinusEq"
  | .starEqual => "StarEq"
  | .slashEqual => "SlashEq"
  | .percentEqual => "PercentEq"
  | .ampEqual => "AmpEq"
  | .pipeEqual => "PipeEq"
  | .caretEqual => "CaretEq"
  | .plusPlus => "PlusPlus"
  | .minusMinus => "MinusMinus"
  | .arrow => "Arrow"
  | .colonColon => "ColonColon"
  | .plus => "Plus"
  | .minus => "Minus"
  | .star => "Star"
  | .slash => "Slash"
  | .percent => "Percent"
  | .amp => "Amp"
  | .pipe => "Pipe"
  | .caret => "Caret"
  | .tilde => "Tilde"
  | .bang => "Bang"
  | .less => "Lt"
  | .greater => "Gt"
  | .equal => "Eq"
  | .question => "Question"
  | .colon => "Colon"
  | .dot => "Dot"
  | .comma => "Comma"
  | .semicolon => "Semi"
  | .leftParen => "LParen"
  | .rightParen => "RParen"
  | .leftBracket => "LBracket"
  | .rightBracket => "RBracket"
  | .leftBrace => "LBrace"
  | .rightBrace => "RBrace"
  | .hash => "Hash"

/-- The name of a token kind and, for literals and comments, of its variant. -/
def TokenKind.label : TokenKind → String × Option String
  | .identifier => ("Ident", none)
  | .number => ("Number", none)
  | .character encoding => ("CharLit", some encoding.label)
  | .string encoding => ("StringLit", some encoding.label)
  | .punctuator symbol => (symbol.label, none)
  | .other => ("Other", none)
  | .whitespace => ("Whitespace", none)
  | .comment style => ("Comment", some style.label)
  | .newline => ("Newline", none)
  | .endOfInput => ("Eof", none)

namespace Json

/-- The string of an optional text, or null. -/
def ofString? : Option String → Json
  | none => .null
  | some text => .string text

/-- An array of encoded items. -/
def ofList {Item : Type} (encode : Item → Json) (items : List Item) : Json :=
  .array (items.map encode)

/-- The JSON form of a location. -/
def ofLocation (location : Location) : Json :=
  .object
    [("file_id", .number location.file), ("line", .number location.line),
     ("column", .number location.column), ("offset", .number location.offset)]

/-- The JSON form of a token kind. -/
def ofTokenKind (kind : TokenKind) : Json :=
  match kind.label with
  | (name, none) => .string name
  | (name, some variant) => .object [(name, .string variant)]

/-- The members that describe a token. -/
def tokenMembers (token : Token) : List (String × Json) :=
  [("kind", ofTokenKind token.kind), ("text", .string token.text),
   ("loc", ofLocation token.location)]

/-- The JSON form of a token. -/
def ofToken (token : Token) : Json :=
  .object (tokenMembers token)

mutual

/-- The JSON form of a tree below a node. -/
def ofTree : Tree → Json
  | .leaf token => .object (("type", .string "token") :: tokenMembers token)
  | .node rule children =>
    .object
      [("type", .string "node"), ("rule", .string rule.name),
       ("children", .array (ofTrees children))]

/-- The JSON forms of some neighbouring trees below a node. -/
def ofTrees : List Tree → List Json
  | [] => []
  | tree :: trees => ofTree tree :: ofTrees trees

end

/-- The JSON form of a node on its own. -/
def ofNode (node : Node) : Json :=
  .object [("rule", .string node.rule.name), ("children", .array (ofTrees node.children))]

/-- The JSON form of an include body. -/
def ofIncludeBody : IncludeBody → Json
  | .bracketed path => .object [("Bracketed", .string path)]
  | .quoted path => .object [("Quoted", .string path)]
  | .freeform tokens => .object [("Macro", ofList ofToken tokens)]

/-- The JSON form of an optional variadic parameter. -/
def ofVariadic? : Option VariadicParameter → Json
  | none => .null
  | some .anonymous => .string "Anonymous"
  | some (.named name) => .object [("Named", .string name)]

/-- The JSON form of the shape of a macro. -/
def ofMacroShape : MacroShape → Json
  | .object => .string "Object"
  | .function parameters variadic =>
    .object
      [("Function",
        .object [("params", ofList .string parameters), ("variadic", ofVariadic? variadic)])]

/-- The members that describe a macro definition. -/
def definitionMembers (definition : MacroDefinition) : List (String × Json) :=
  [("name", .string definition.name), ("kind", ofMacroShape definition.shape),
   ("replacement", ofList ofToken definition.replacement),
   ("has_stringizing", .bool definition.hasStringizing),
   ("has_token_pasting", .bool definition.hasTokenPasting)]

/-- The JSON form of a macro definition. -/
def ofMacroDefinition (definition : MacroDefinition) : Json :=
  .object (definitionMembers definition)

/-- The JSON form of the target of an import. -/
def ofImportTarget : ImportTarget → Json
  | .header body => .object [("Header", ofIncludeBody body)]
  | .module name => .object [("Module", .string name)]
  | .partition name => .object [("Partition", .string name)]

/-- The members that describe a module declaration. -/
def moduleMembers : ModuleDeclaration → List (String × Json)
  | .globalFragment => [("kind", .string "global")]
  | .privateFragment => [("kind", .string "private")]
  | .named exported name partition =>
    [("kind", .string "named"), ("exported", .bool exported), ("name", .string name),
     ("partition", ofString? partition)]

/-- The tag under which a directive is written. -/
def directiveTag : Directive → String
  | .define _ => "define"
  | .undefine _ => "undef"
  | .inclusion _ _ => "include"
  | .importing _ => "import"
  | .moduleUnit _ => "module"
  | .ifTrue _ => "if"
  | .elifTrue _ => "elif"
  | .ifDefined _ _ => "ifdef"
  | .otherwise => "else"
  | .endIf => "endif"
  | .line _ => "line"
  | .error _ => "error"
  | .warning _ => "warning"
  | .pragma _ => "pragma"
  | .misc _ => "misc"

/-- The members that describe a directive behind its tag. -/
def directiveMembers : Directive → List (String × Json)
  | .define definition => definitionMembers definition
  | .undefine name => [("name", .string name)]
  | .inclusion next body => [("next", .bool next), ("body", ofIncludeBody body)]
  | .importing declaration =>
    [("exported", .bool declaration.exported), ("target", ofImportTarget declaration.target)]
  | .moduleUnit declaration => moduleMembers declaration
  | .ifTrue condition => [("condition", ofNode condition)]
  | .elifTrue condition => [("condition", ofNode condition)]
  | .ifDefined name negated => [("name", .string name), ("negated", .bool negated)]
  | .otherwise => []
  | .endIf => []
  | .line tokens => [("tokens", ofList ofToken tokens)]
  | .error message => [("message", ofString? message)]
  | .warning message => [("message", ofString? message)]
  | .pragma tokens => [("tokens", ofList ofToken tokens)]
  | .misc tokens => [("tokens", ofList ofToken tokens)]

/-- The JSON form of a directive. -/
def ofDirective (directive : Directive) : Json :=
  .object (("directive", .string (directiveTag directive)) :: directiveMembers directive)

/-- The JSON form of a scanned directive. -/
def ofScanned (scanned : ScannedDirective) : Json :=
  .object
    [("loc", ofLocation scanned.location), ("node", ofNode scanned.node),
     ("directive", ofDirective scanned.directive)]

end Json
end PreprocessorSyntax
