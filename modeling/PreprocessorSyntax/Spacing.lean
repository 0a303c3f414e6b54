import PreprocessorSyntax.Tree

/-!
# Significant text

The significant text of some tokens is their spelling on one line, with one
space wherever white space or a comment stood between two of them.  A gap
between the offsets of two tokens counts as white space too, so the text is
the same when white space and comments were filtered out before.
-/

namespace PreprocessorSyntax

/--
The pieces of the significant text that some more tokens add.  `started` says
whether there is any text yet, `pending` whether a space is owed, and `lastEnd`
is the end of the token written last.
-/
def significantPieces (started pending : Bool) (lastEnd : Option Nat) : List Token → List String
  | [] => []
  | token :: tokens =>
    if token.isTrivia || token.isLineEnd then significantPieces started started lastEnd tokens
    else
      let spaced := pending || lastEnd.any fun last => last < token.location.offset
      (if spaced then [" ", token.text] else [token.text]) ++
        significantPieces (started || spaced || !token.text.isEmpty) false
          (some token.endOffset) tokens

/-- The spelling of some tokens with single spaces for white space and comments. -/
def significantText (tokens : List Token) : String :=
  String.join (significantPieces false false none tokens)

/-- The significant text of all leaves below a node. -/
def Node.significantText (node : Node) : String :=
  PreprocessorSyntax.significantText node.tokens

end PreprocessorSyntax
