/-!
# Grammar rules

The nonterminals of the grammar.  Every node of a syntax tree carries the
rule that produced it, and rules are known to users by their names.
-/

namespace PreprocessorSyntax

/-- The rules of the grammar of directive lines. -/
inductive Rule where
  | preprocessorLine
  | defineLine
  | includeLine
  | ppImport
  | ppModule
  | ifLine
  | ifdefLine
  | elifLine
  | elseLine
  | endifLine
  | undefLine
  | lineLine
  | errorLine
  | pragmaLine
  | warningLine
  | miscLine
  | functionlikeMacroDefinition
  | objectlikeMacroDefinition
  | parameterList
  | variadicParameter
  | replacementList
  | stringizing
  | tokenPasting
  | ppToken
  | argumentList
  | argument
  | somethingContainingParentheses
  | somethingWithoutParentheses
  | includeBody
  | expandedIncludeBody
  | includeBodyBracketed
  | includeBodyQuoted
  | includeBodyFreeform
  | moduleName
  | constantExpression
  | conditionalExpression
  | expression
  | logicalOrExpression
  | logicalAndExpression
  | inclusiveOrExpression
  | exclusiveOrExpression
  | andExpression
  | equalityExpression
  | relationalExpression
  | shiftExpression
  | additiveExpression
  | multiplicativeExpression
  | unaryExpression
  | unaryOperator
  | primaryExpression
  | literal
  | definedExpression
  | hasIncludeExpression
  | functionlikeMacro
  deriving DecidableEq, Repr

namespace Rule

/-- Every rule, in the order of declaration. -/
def all : List Rule :=
  [.preprocessorLine, .defineLine, .includeLine, .ppImport, .ppModule, .ifLine, .ifdefLine,
   .elifLine, .elseLine, .endifLine, .undefLine, .lineLine, .errorLine, .pragmaLine,
   .warningLine, .miscLine, .functionlikeMacroDefinition, .objectlikeMacroDefinition,
   .parameterList, .variadicParameter, .replacementList, .stringizing, .tokenPasting, .ppToken,
   .argumentList, .argument, .somethingContainingParentheses, .somethingWithoutParentheses,
   .includeBody, .expandedIncludeBody, .includeBodyBracketed, .includeBodyQuoted,
   .includeBodyFreeform, .moduleName, .constantExpression, .conditionalExpression, .expression,
   .logicalOrExpression, .logicalAndExpression, .inclusiveOrExpression, .exclusiveOrExpression,
   .andExpression, .equalityExpression, .relationalExpression, .shiftExpression,
   .additiveExpression, .multiplicativeExpression, .unaryExpression, .unaryOperator,
   .primaryExpression, .literal, .definedExpression, .hasIncludeExpression, .functionlikeMacro]

/-- The name of a rule. -/
def name : Rule → String
  | .preprocessorLine => "preprocessorLine"
  | .defineLine => "defineLine"
  | .includeLine => "includeLine"
  | .ppImport => "ppImport"
  | .ppModule => "ppModule"
  | .ifLine => "ifLine"
  | .ifdefLine => "ifdefLine"
  | .elifLine => "elifLine"
  | .elseLine => "elseLine"
  | .endifLine => "endifLine"
  | .undefLine => "undefLine"
  | .lineLine => "lineLine"
  | .errorLine => "errorLine"
  | .pragmaLine => "pragmaLine"
  | .warningLine => "warningLine"
  | .miscLine => "miscLine"
  | .functionlikeMacroDefinition => "functionlikeMacroDefinition"
  | .objectlikeMacroDefinition => "objectlikeMacroDefinition"
  | .parameterList => "parameterList"
  | .variadicParameter => "variadicParameter"
  | .replacementList => "replacementList"
  | .stringizing => "stringizing"
  | .tokenPasting => "tokenPasting"
  | .ppToken => "ppToken"
  | .argumentList => "argumentList"
  | .argument => "argument"
  | .somethingContainingParentheses => "somethingContainingParentheses"
  | .somethingWithoutParentheses => "somethingWithoutParentheses"
  | .includeBody => "includeBody"
  | .expandedIncludeBody => "expandedIncludeBody"
  | .includeBodyBracketed => "includeBodyBracketed"
  | .includeBodyQuoted => "includeBodyQuoted"
  | .includeBodyFreeform => "includeBodyFreeform"
  | .moduleName => "moduleName"
  | .constantExpression => "constantExpression"
  | .conditionalExpression => "conditionalExpression"
  | .expression => "expression"
  | .logicalOrExpression => "logicalOrExpression"
  | .logicalAndExpression => "logicalAndExpression"
  | .inclusiveOrExpression => "inclusiveOrExpression"
  | .exclusiveOrExpression => "exclusiveOrExpression"
  | .andExpression => "andExpression"
  | .equalityExpression => "equalityExpression"
  | .relationalExpression => "relationalExpression"
  | .shiftExpression => "shiftExpression"
  | .additiveExpression => "additiveExpression"
  | .multiplicativeExpression => "multiplicativeExpression"
  | .unaryExpression => "unaryExpression"
  | .unaryOperator => "unaryOperator"
  | .primaryExpression => "primaryExpression"
  | .literal => "literal"
  | .definedExpression => "definedExpression"
  | .hasIncludeExpression => "hasIncludeExpression"
  | .functionlikeMacro => "functionlikeMacro"

/-- The rule with a given name. -/
def ofName? (name : String) : Option Rule :=
  all.find? fun rule => rule.name == name

/-- The position of a rule among all rules. -/
def index (rule : Rule) : Nat :=
  rule.ctorIdx

/--
The layers of the expression grammar.  A layer whose operator does not occur
stands for its only child and leaves no node of its own.
-/
def collapses : Rule → Bool
  | .conditionalExpression => true
  | .expression => true
  | .logicalOrExpression => true
  | .logicalAndExpression => true
  | .inclusiveOrExpression => true
  | .exclusiveOrExpression => true
  | .andExpression => true
  | .equalityExpression => true
  | .relationalExpression => true
  | .shiftExpression => true
  | .additiveExpression => true
  | .multiplicativeExpression => true
  | .unaryExpression => true
  | _ => false

/-- Every rule is listed. -/
theorem mem_all (rule : Rule) : rule ∈ all := by
  cases rule <;> decide

theorem getElem?_all_index (rule : Rule) : all[rule.index]? = some rule := by
  cases rule <;> rfl

theorem index_lt (rule : Rule) : rule.index < 54 := by
  cases rule <;> decide

/-- A rule is determined by its position. -/
theorem index_injective {first second : Rule} (equal : first.index = second.index) :
    first = second := by
  have listed := getElem?_all_index first
  rw [equal, getElem?_all_index second] at listed
  exact (Option.some.inj listed).symm

/-- A rule is found under its own name. -/
theorem ofName?_name (rule : Rule) : ofName? rule.name = some rule := by
  cases rule <;> decide

end Rule
end PreprocessorSyntax
