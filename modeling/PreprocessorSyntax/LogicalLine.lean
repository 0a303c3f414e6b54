/-!
# Logical lines

A logical line is a source line after splicing: a backslash directly before
a line feed, or before a carriage return and a line feed, is removed together
with them.  A block comment keeps the line feeds inside it, so the line that
opens a comment also holds everything up to where the comment is closed.

The splitter reads the text once.  All it has to know about what came before
is its `Region`: string literals and comments hide the openings of each other.
-/

namespace PreprocessorSyntax

/-- A line of source text with its continuations joined. -/
structure LogicalLine where
  /-- The characters of the line without its terminator. -/
  text : String
  /-- The number of the physical line on which the logical line starts. -/
  line : UInt32
  deriving DecidableEq, Repr

namespace LogicalLine

/-- What the characters at the current place belong to. -/
inductive Region where
  | code
  | string
  | lineComment
  | blockComment
  deriving DecidableEq, Repr

/--
What becomes of the next character and a number of characters behind it.  A
character that is kept joins the text of the line, one that is spliced does
not, and a line end finishes the line.
-/
inductive Cut where
  | keep (more : Nat) (region : Region)
  | splice (more : Nat)
  | endLine (more : Nat)
  deriving DecidableEq, Repr

/-- How the front of a nonempty text is cut within a region. -/
def cut (region : Region) : List Char → Cut
  | '\\' :: '\n' :: _ => .splice 1
  | '\\' :: '\r' :: '\n' :: _ => .splice 2
  | '\\' :: '\r' :: _ => .keep 0 region
  | '\\' :: _ => .keep (if region = .string then 1 else 0) region
  | '\n' :: _ => if region = .blockComment then .keep 0 region else .endLine 0
  | '\r' :: '\n' :: _ => if region = .blockComment then .keep 0 region else .endLine 1
  | '"' :: _ =>
    match region with
    | .code => .keep 0 .string
    | .string => .keep 0 .code
    | _ => .keep 0 region
  | '/' :: '/' :: _ => if region = .code then .keep 1 .lineComment else .keep 0 region
  | '/' :: '*' :: _ => if region = .code then .keep 1 .blockComment else .keep 0 region
  | '*' :: '/' :: _ => if region = .blockComment then .keep 1 .code else .keep 0 region
  | _ => .keep 0 region

/--
The lines of the remaining text.  The line under way has already kept some
characters, latest first, and started on physical line `start`; the next
character stands on physical line `line`.
-/
def split (region : Region) (kept : List Char) (start line : UInt32) (text : List Char) :
    List LogicalLine :=
  match text with
  | [] => if kept.isEmpty then [] else [⟨String.ofList kept.reverse, start⟩]
  | c :: rest =>
    match cut region (c :: rest) with
    | .keep more region =>
      split region ((c :: rest.take more).reverse ++ kept) start
        (if c = '\n' then line + 1 else line) (rest.drop more)
    | .splice more => split region kept start (line + 1) (rest.drop more)
    | .endLine more =>
      ⟨String.ofList kept.reverse, start⟩ :: split .code [] (line + 1) (line + 1) (rest.drop more)
termination_by text.length
decreasing_by all_goals simp only [List.length_drop, List.length_cons]; omega

end LogicalLine

/-- The logical lines of a text.  A last line without characters is no line. -/
def logicalLines (source : String) : List LogicalLine :=
  LogicalLine.split .code [] 1 1 source.toList

end PreprocessorSyntax
