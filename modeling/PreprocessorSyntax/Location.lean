/-!
# Source locations

A location says where a token starts: the file it belongs to, a one-based
line and column, and the number of bytes before it.  Columns count code
points and offsets count bytes of the UTF-8 encoding, so a location can be
moved over a text one character at a time.

Files, lines and columns are numbered with 32 bits.  What is counted beyond the
last of these numbers starts again from zero; offsets have no such end.
-/

namespace PreprocessorSyntax

/-- A number of 32 bits as a natural number. -/
instance coeToNat : Coe UInt32 Nat := ⟨UInt32.toNat⟩

/-- The last 32 bits of a natural number. -/
instance coeOfNat : Coe Nat UInt32 := ⟨UInt32.ofNat⟩

/-- A sum that has 32 bits is not cut. -/
theorem toNat_add_ofNat
    {number : UInt32}
    {count : Nat}
    (fits : number.toNat + count < UInt32.size) :
    (number + UInt32.ofNat count).toNat = number.toNat + count := by
  rw [UInt32.toNat_add, UInt32.toNat_ofNat', Nat.add_mod_mod]
  exact Nat.mod_eq_of_lt fits

/-- The number under which a source file is registered. -/
abbrev FileId := UInt32

/-- The place of a character in a source text. -/
structure Location where
  /-- The file the text belongs to. -/
  file : FileId
  /-- The line, counted from one. -/
  line : UInt32
  /-- The column in code points, counted from one. -/
  column : UInt32
  /-- The number of bytes before the character. -/
  offset : Nat
  deriving DecidableEq, Repr

namespace Location

/-- The first character of a text that starts at the given line of a file. -/
def start (file : FileId) (line : UInt32) : Location :=
  { file, line, column := 1, offset := 0 }

/-- The location of a construct that owns no character. -/
def unknown : Location :=
  { file := 0, line := 0, column := 0, offset := 0 }

/-- The location just after one character that stands at this location. -/
def step (location : Location) (c : Char) : Location :=
  if c = '\n' then
    { location with line := location.line + 1, column := 1, offset := location.offset + c.utf8Size }
  else
    { location with column := location.column + 1, offset := location.offset + c.utf8Size }

/-- The location just after a whole run of characters. -/
def advance (location : Location) (text : List Char) : Location :=
  text.foldl step location

@[simp] theorem advance_nil (location : Location) : location.advance [] = location := rfl

@[simp] theorem advance_cons (location : Location) (c : Char) (text : List Char) :
    location.advance (c :: text) = (location.step c).advance text := rfl

theorem advance_append (location : Location) (first second : List Char) :
    location.advance (first ++ second) = (location.advance first).advance second := by
  simp [advance]

/-- Line and column as they are written in messages. -/
def lineColumn (location : Location) : String :=
  toString location.line.toNat ++ ":" ++ toString location.column.toNat

end Location
end PreprocessorSyntax
