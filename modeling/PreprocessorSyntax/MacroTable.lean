import PreprocessorSyntax.MacroDefinition
import Std.Data.HashMap

/-!
# The macro table

The macros that are defined at some point of a file, each with the place of
its definition.  A new definition replaces the old one of the same name.
-/

namespace PreprocessorSyntax

/-- The current definition of every defined macro, with its location. -/
structure MacroTable where
  /-- The definitions by name. -/
  entries : Std.HashMap String (MacroDefinition × Location)

namespace MacroTable

/-- No macro is defined. -/
def empty : MacroTable :=
  ⟨∅⟩

/-- The definition of a macro. -/
def get? (table : MacroTable) (name : String) : Option MacroDefinition :=
  table.entries[name]?.map Prod.fst

/-- Where a macro was defined. -/
def location? (table : MacroTable) (name : String) : Option Location :=
  table.entries[name]?.map Prod.snd

/-- Whether a macro is defined. -/
def isDefined (table : MacroTable) (name : String) : Bool :=
  table.entries.contains name

/-- Define a macro; the definition that it replaces is returned with the new table. -/
def define (table : MacroTable) (definition : MacroDefinition) (location : Location) :
    Option MacroDefinition × MacroTable :=
  (table.get? definition.name,
    ⟨table.entries.insert definition.name (definition, location)⟩)

/-- Remove a macro; its definition is returned with the new table. -/
def undefine (table : MacroTable) (name : String) : Option MacroDefinition × MacroTable :=
  (table.get? name, ⟨table.entries.erase name⟩)

/-- All definitions with their locations, in no order that could be relied on. -/
def values (table : MacroTable) : List (MacroDefinition × Location) :=
  table.entries.toList.map Prod.snd

/-- All definitions, sorted by their names. -/
def sorted (table : MacroTable) : List MacroDefinition :=
  (table.values.map Prod.fst).mergeSort fun first second =>
    (compare first.name second.name).isLE

/-- The sorted definitions, each with its location. -/
def toList (table : MacroTable) : List (MacroDefinition × Location) :=
  table.sorted.filterMap fun definition => table.entries[definition.name]?

/-- The number of defined macros. -/
def size (table : MacroTable) : Nat :=
  table.entries.size

/-- Whether no macro is defined. -/
def isEmpty (table : MacroTable) : Bool :=
  table.entries.isEmpty

end MacroTable
end PreprocessorSyntax
