import PreprocessorSyntax.Location
import PreprocessorSyntax.Path
import Std.Data.HashMap

/-!
# The file registry

Files are numbered in the order in which their paths are first registered.  A
path that was registered before, in whatever spelling, keeps its number and
its first spelling.

A registry keeps its paths twice: in a row, to find a path by its number, and
in a map, to find the number of a path.
-/

namespace PreprocessorSyntax

/-- The registered paths. -/
structure FileRegistry where
  /-- The first spelling of each path, in the order of registration. -/
  paths : Array String
  /-- The number of each path.  Paths are told apart by their components. -/
  numbers : Std.HashMap (List PathComponent) FileId

namespace FileRegistry

/-- No path is registered. -/
def empty : FileRegistry :=
  ⟨#[], ∅⟩

/--
The number of a path, and the registry that knows it.  A new path gets the
last 32 bits of the number of paths that were there before it.
-/
def register (registry : FileRegistry) (path : String) : FileId × FileRegistry :=
  match registry.numbers[Path.components path]? with
  | some known => (known, registry)
  | none =>
    let next : FileId := registry.paths.size
    (next, ⟨registry.paths.push path, registry.numbers.insert (Path.components path) next⟩)

/-- The path that is registered under a number. -/
def path? (registry : FileRegistry) (file : FileId) : Option String :=
  registry.paths[file.toNat]?

/-- The number of registered paths. -/
def size (registry : FileRegistry) : Nat :=
  registry.paths.size

/-- Whether no path is registered. -/
def isEmpty (registry : FileRegistry) : Bool :=
  registry.paths.isEmpty

/-- A location with the name of its file, as it is written in messages. -/
def describe (registry : FileRegistry) (location : Location) : String :=
  (registry.path? location.file).getD "<input>" ++ ":" ++ location.lineColumn

end FileRegistry
end PreprocessorSyntax
