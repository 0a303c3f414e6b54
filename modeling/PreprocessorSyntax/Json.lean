/-!
# JSON documents

Documents keep the order of their object members.
-/

namespace PreprocessorSyntax

/-- A JSON document without fractional or negative numbers. -/
inductive Json where
  | null
  | bool (value : Bool)
  | number (value : Nat)
  | string (text : String)
  | array (items : List Json)
  | object (members : List (String × Json))
  deriving Repr

end PreprocessorSyntax
