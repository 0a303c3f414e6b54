import PreprocessorSyntax.Fault
import PreprocessorSyntax.Spacing

/-!
# Include bodies

What an inclusion names: a header in angle brackets, a header in quotes, or
tokens that macro replacement has to turn into one of these.
-/

namespace PreprocessorSyntax

/-- What an inclusion names. -/
inductive IncludeBody where
  | bracketed (path : String)
  | quoted (path : String)
  /-- A name or a macro call. -/
  | freeform (tokens : List Token)
  deriving DecidableEq, Repr

namespace IncludeBody

/-- The text between two quotes. -/
def unquote? (text : String) : Option String :=
  match text.toList with
  | '"' :: rest => if rest.getLast? = some '"' then some (String.ofList rest.dropLast) else none
  | _ => none

/-- The body that a node of one of the three forms stands for. -/
def ofForm (node : Node) : Except Fault IncludeBody :=
  match node.rule with
  | .includeBodyBracketed =>
    .ok (.bracketed (String.join (((node.tokens.drop 1).dropLast).map Token.text)))
  | .includeBodyQuoted =>
    match unquote? node.text with
    | some path => .ok (.quoted path)
    | none => .error (.ofShape node (.unquotedIncludeBody node.rule))
  | .includeBodyFreeform => .ok (.freeform node.significantTokens)
  | _ => .error (.ofShape node (.notIncludeBody node.rule))

/-- The body that a node stands for, whether it wraps one of the forms or is one. -/
def ofNode (node : Node) : Except Fault IncludeBody :=
  match node.rule with
  | .includeBody | .expandedIncludeBody =>
    match node.childNodes with
    | [] => .error (.ofShape node (.emptyIncludeBody node.rule))
    | form :: _ => ofForm form
  | _ => ofForm node

/-- An include body as it would be written. -/
def display : IncludeBody → String
  | .bracketed path => "<" ++ path ++ ">"
  | .quoted path => "\"" ++ path ++ "\""
  | .freeform tokens => significantText tokens

end IncludeBody
end PreprocessorSyntax
