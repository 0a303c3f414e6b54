import PreprocessorSyntax.Json

/-!
# Printing JSON documents

Printing is indented by two spaces a level; empty arrays and objects take no
lines.
-/

namespace PreprocessorSyntax
namespace Json

/-- The lower-case hexadecimal digit of a number below sixteen. -/
def hexDigit (value : Nat) : Char :=
  if value < 10 then Char.ofNat ('0'.toNat + value) else Char.ofNat ('a'.toNat + (value - 10))

/-- A character as it is written in a JSON string. -/
def escape (c : Char) : String :=
  if c = '"' then "\\\""
  else if c = '\\' then "\\\\"
  else if c = '\x08' then "\\b"
  else if c = '\t' then "\\t"
  else if c = '\n' then "\\n"
  else if c = '\x0c' then "\\f"
  else if c = '\r' then "\\r"
  else if c.toNat < 0x20 then
    String.ofList ['\\', 'u', '0', '0', hexDigit (c.toNat / 16), hexDigit (c.toNat % 16)]
  else String.singleton c

/-- A JSON string. -/
def quote (text : String) : String :=
  "\"" ++ String.join (text.toList.map escape) ++ "\""

/-- A new line within a number of open brackets. -/
def newLine (depth : Nat) : String :=
  "\n" ++ String.ofList (List.replicate (2 * depth) ' ')

mutual

/-- Some text followed by a document that stands within a number of open brackets. -/
def write (depth : Nat) (written : String) : Json → String
  | .null => written ++ "null"
  | .bool value => written ++ (if value then "true" else "false")
  | .number value => written ++ toString value
  | .string text => written ++ quote text
  | .array [] => written ++ "[]"
  | .array (item :: items) =>
    writeItems (depth + 1) (write (depth + 1) (written ++ "[" ++ newLine (depth + 1)) item) items ++
      newLine depth ++ "]"
  | .object [] => written ++ "\x7b\x7d"
  | .object ((key, value) :: members) =>
    writeMembers (depth + 1)
      (write (depth + 1) (written ++ "\x7b" ++ newLine (depth + 1) ++ quote key ++ ": ") value)
      members ++ newLine depth ++ "\x7d"

/-- Some text followed by further items of an array. -/
def writeItems (depth : Nat) (written : String) : List Json → String
  | [] => written
  | item :: items =>
    writeItems depth (write depth (written ++ "," ++ newLine depth) item) items

/-- Some text followed by further members of an object. -/
def writeMembers (depth : Nat) (written : String) : List (String × Json) → String
  | [] => written
  | (key, value) :: members =>
    writeMembers depth (write depth (written ++ "," ++ newLine depth ++ quote key ++ ": ") value)
      members

end

/-- A document as indented text. -/
def pretty (document : Json) : String :=
  write 0 "" document

end Json
end PreprocessorSyntax
