/-!
# White space in the sense of Unicode

Messages are trimmed, and lines are inspected, without regard to any
character that has the Unicode property `White_Space`.
-/

namespace PreprocessorSyntax

/-- The ranges of code points that have the Unicode property `White_Space`. -/
def whiteSpaceRanges : List (Nat × Nat) :=
  [(0x09, 0x0d), (0x20, 0x20), (0x85, 0x85), (0xa0, 0xa0), (0x1680, 0x1680), (0x2000, 0x200a),
   (0x2028, 0x2029), (0x202f, 0x202f), (0x205f, 0x205f), (0x3000, 0x3000)]

/-- Whether a character has the Unicode property `White_Space`. -/
def isWhiteSpace (c : Char) : Bool :=
  whiteSpaceRanges.any fun range => range.1 ≤ c.toNat && c.toNat ≤ range.2

/-- A text without the white space in front of it. -/
def trimStart (text : List Char) : List Char :=
  text.dropWhile isWhiteSpace

/-- A text without the white space around it. -/
def trim (text : List Char) : List Char :=
  (trimStart (trimStart text).reverse).reverse

end PreprocessorSyntax
