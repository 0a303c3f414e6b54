import PreprocessorSyntax.Fault
import PreprocessorSyntax.Spacing

/-!
# Macro definitions

What a definition says about a macro: its name, its parameters if it has any,
and the tokens that replace it.
-/

namespace PreprocessorSyntax

/-- The last parameter of a macro that takes any number of arguments. -/
inductive VariadicParameter where
  | anonymous
  | named (name : String)
  deriving DecidableEq, Repr

/-- How a macro is used. -/
inductive MacroShape where
  | object
  | function (parameters : List String) (variadic : Option VariadicParameter)
  deriving DecidableEq, Repr

/-- A macro as it was defined. -/
structure MacroDefinition where
  /-- The name of the macro. -/
  name : String
  /-- Whether the macro takes arguments, and which. -/
  shape : MacroShape
  /-- The tokens that replace the macro, without white space and comments. -/
  replacement : List Token
  /-- Whether the replacement makes a string of an argument. -/
  hasStringizing : Bool
  /-- Whether the replacement joins tokens. -/
  hasTokenPasting : Bool
  deriving DecidableEq, Repr

/-- The identifiers directly below a node. -/
def Node.identifiers (node : Node) : List Token :=
  node.childTokens.filter Token.isIdentifier

namespace MacroDefinition

/-- The shape that a parameter list describes. -/
def shapeOfParameters (list : Node) : MacroShape :=
  .function (list.identifiers.map Token.text)
    ((list.child? .variadicParameter).map fun variadic =>
      match variadic.identifiers with
      | [] => .anonymous
      | name :: _ => .named name.text)

/-- The shape of a macro that is defined by a node. -/
def shapeOf (definition : Node) : MacroShape :=
  if definition.rule = .functionlikeMacroDefinition then
    match definition.child? .parameterList with
    | some list => shapeOfParameters list
    | none => .function [] none
  else .object

/-- The macro that is defined by a node of one of the two kinds of definition. -/
def ofDefinition (definition : Node) : Except Fault MacroDefinition :=
  match definition.identifiers[1]? with
  | none => .error (.ofShape definition .missingMacroName)
  | some name =>
    match definition.child? .replacementList with
    | none => .error (.ofShape definition .missingReplacementList)
    | some list =>
      .ok { name := name.text
            shape := shapeOf definition
            replacement := list.significantTokens
            hasStringizing := (list.child? .stringizing).isSome
            hasTokenPasting := (list.child? .tokenPasting).isSome }

/-- The macro that is defined by a line or by one of the two kinds of definition. -/
def ofNode (node : Node) : Except Fault MacroDefinition :=
  match node.rule with
  | .defineLine =>
    match (node.child? .functionlikeMacroDefinition).or
        (node.child? .objectlikeMacroDefinition) with
    | some definition => ofDefinition definition
    | none => .error (.ofShape node .emptyDefinition)
  | .functionlikeMacroDefinition | .objectlikeMacroDefinition => ofDefinition node
  | _ => .error (.ofShape node .notDefinition)

/-- Whether the macro takes arguments. -/
def isFunction (definition : MacroDefinition) : Bool :=
  match definition.shape with
  | .object => false
  | .function _ _ => true

/-- The number of parameters without the variadic one. -/
def parameterCount (definition : MacroDefinition) : Nat :=
  match definition.shape with
  | .object => 0
  | .function parameters _ => parameters.length

/-- Whether the macro takes any number of arguments. -/
def isVariadic (definition : MacroDefinition) : Bool :=
  match definition.shape with
  | .object => false
  | .function _ variadic => variadic.isSome

/-- The replacement on one line. -/
def replacementText (definition : MacroDefinition) : String :=
  significantText definition.replacement

/-- The parameters as they are written, the variadic one last. -/
def parameterNames (parameters : List String) (variadic : Option VariadicParameter) :
    List String :=
  parameters ++
    match variadic with
    | none => []
    | some .anonymous => ["..."]
    | some (.named name) => [name ++ "..."]

/-- The parenthesized parameters of a macro that takes arguments. -/
def parameterText (definition : MacroDefinition) : String :=
  match definition.shape with
  | .object => ""
  | .function parameters variadic =>
    "(" ++ ", ".intercalate (parameterNames parameters variadic) ++ ")"

/-- A definition on one line: the name, the parameters and the replacement. -/
def listing (definition : MacroDefinition) : String :=
  definition.name ++ definition.parameterText ++ " " ++ definition.replacementText

end MacroDefinition
end PreprocessorSyntax
