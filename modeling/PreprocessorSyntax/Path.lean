/-!
# Paths

A path is kept as it was written, but two paths are the same if they have the
same components: repeated and trailing slashes do not count, and neither does
a dot, except as the first component of a relative path.
-/

namespace PreprocessorSyntax

/-- One step of a path. -/
inductive PathComponent where
  /-- The slash in front of an absolute path. -/
  | root
  /-- The dot in front of a relative path. -/
  | here
  /-- A name; two dots are a name like any other. -/
  | named (name : List Char)
  deriving DecidableEq, Repr

instance : Hashable PathComponent where
  hash
    | .root => 0
    | .here => 1
    | .named name => (String.ofList name).hash

namespace Path

/-- The pieces of a text between its slashes. -/
def segments : List Char → List (List Char)
  | [] => [[]]
  | c :: rest =>
    if c = '/' then [] :: segments rest
    else
      match segments rest with
      | [] => [[c]]
      | first :: others => (c :: first) :: others

/-- The components that are names: not empty and not a dot. -/
def names (pieces : List (List Char)) : List PathComponent :=
  (pieces.filter fun piece => piece != [] && piece != ['.']).map .named

/-- The components of a path. -/
def components (path : String) : List PathComponent :=
  match segments path.toList with
  | [] => []
  | [only] => if only = ['.'] then [.here] else names [only]
  | first :: others =>
    if first = [] then .root :: names others
    else if first = ['.'] then .here :: names others
    else names (first :: others)

end Path
end PreprocessorSyntax
