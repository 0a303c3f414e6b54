import PreprocessorSyntax.Token

/-!
# Cursors

A cursor is a place in a token list: what is still to be read, and how many
tokens came before.  Cursors are values, so going back to an earlier place is
keeping the earlier cursor.  The token for the end of the input is never read;
it looks like the end of the list.
-/

namespace PreprocessorSyntax

/-- A place in a token list. -/
structure Cursor where
  /-- The number of tokens before the place. -/
  position : Nat
  /-- The tokens behind the place. -/
  rest : List Token
  deriving DecidableEq, Repr

namespace Cursor

/-- The place before the first of some tokens. -/
def ofTokens (tokens : List Token) : Cursor :=
  { position := 0, rest := tokens }

/-- The next token, if the input does not end here. -/
def peek? (cursor : Cursor) : Option Token :=
  match cursor.rest with
  | [] => none
  | token :: _ => if token.kind = .endOfInput then none else some token

/-- The kind of the next token. -/
def peekKind (cursor : Cursor) : TokenKind :=
  match cursor.peek? with
  | none => .endOfInput
  | some token => token.kind

/-- The next token and the place behind it. -/
def bump? (cursor : Cursor) : Option (Token × Cursor) :=
  match cursor.rest with
  | [] => none
  | token :: rest =>
    if token.kind = .endOfInput then none
    else some (token, { position := cursor.position + 1, rest })

/-- What is looked at is what is read next. -/
theorem peek?_eq_map_bump? (cursor : Cursor) : cursor.peek? = cursor.bump?.map Prod.fst := by
  unfold peek? bump?
  split
  next => rfl
  next => split <;> rfl

/-- Reading a token takes it off the front of what is still to be read. -/
theorem rest_of_bump? {cursor after : Cursor} {token : Token}
    (read : cursor.bump? = some (token, after)) : cursor.rest = token :: after.rest := by
  unfold bump? at read
  split at read
  next => contradiction
  next equal =>
    split at read
    next => contradiction
    next =>
      cases read
      exact equal

/-- Whether a line ends at this place. -/
def atLineEnd (cursor : Cursor) : Bool :=
  cursor.peekKind.isLineEnd

/-- Whether the input ends at this place. -/
def atEnd (cursor : Cursor) : Bool :=
  cursor.peek?.isNone

/-- The white space and comments at this place, and the place behind them. -/
def trivia (cursor : Cursor) : List Token × Cursor :=
  let skipped := cursor.rest.takeWhile Token.isTrivia
  (skipped, { position := cursor.position + skipped.length
              rest := cursor.rest.dropWhile Token.isTrivia })

/-- Skipping loses no token. -/
theorem trivia_append (cursor : Cursor) : cursor.trivia.1 ++ cursor.trivia.2.rest = cursor.rest :=
  List.takeWhile_append_dropWhile

/-- All that is skipped is white space or a comment. -/
theorem isTrivia_of_mem_trivia {cursor : Cursor} {token : Token}
    (skipped : token ∈ cursor.trivia.1) : token.isTrivia = true :=
  List.all_eq_true.1 List.all_takeWhile token skipped

end Cursor
end PreprocessorSyntax
