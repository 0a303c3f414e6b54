import PreprocessorSyntax.Cursor
import PreprocessorSyntax.Rule
import PreprocessorSyntax.Tree

/-!
# Patterns

The right-hand side of a grammar rule is a `Pattern`: tokens, other rules,
sequences, ordered choice, repetition and look-ahead.  `Pattern.read` is the
one interpreter for all of them.  It is given the reading of rules as an
argument, so it recurs on the pattern alone.  Whatever the reading of rules
keeps in mind from one attempt to the next is handed through unseen.

Choice is ordered and committed: the second pattern of a choice is read only
where the first one fails, and repetition takes as many items as there are.
-/

namespace PreprocessorSyntax

/-- What a rule accepts. -/
inductive Pattern where
  /-- One token that passes a test. -/
  | token (accepts : Token → Bool)
  /-- A node of another rule. -/
  | rule (called : Rule)
  /-- Nothing, provided the kind of the next token passes a test. -/
  | ahead (accepts : TokenKind → Bool)
  /-- Nothing, provided a rule does not match here. -/
  | absent (refused : Rule)
  /-- Nothing. -/
  | empty
  /-- One pattern and another one behind it. -/
  | sequence (first second : Pattern)
  /-- One pattern or, where that fails, another one. -/
  | choice (preferred alternative : Pattern)
  /-- A pattern as often as it matches. -/
  | many (item : Pattern)

namespace Pattern

instance : Append Pattern := ⟨.sequence⟩

instance : OrElse Pattern := ⟨fun preferred alternative => .choice preferred (alternative ())⟩

theorem append_eq (first second : Pattern) : first ++ second = .sequence first second := rfl

theorem orElse_eq (preferred alternative : Pattern) :
    (preferred <|> alternative) = .choice preferred alternative := rfl

/-- What was read, and the place behind it; `none` where nothing matches. -/
abbrev Reading (Result : Type) := Option (Result × Cursor)

/-- A reading at a place, with what is kept in mind before and after it. -/
abbrev Reader (State Result : Type) := Cursor → State → Reading Result × State

variable {State : Type}

/--
Read items until one fails.  Every item of this grammar takes a token, so the
list of the tokens still to be read bounds the number of items.
-/
def readMany (item : Reader State (List Tree)) :
    List Token → Cursor → State → (List Tree × Cursor) × State
  | bound, cursor, state =>
    match item cursor state with
    | (none, state) => (([], cursor), state)
    | (some (trees, after), state) =>
      match bound with
      | [] => ((trees, after), state)
      | _ :: bound =>
        match readMany item bound after state with
        | ((more, last), state) => ((trees ++ more, last), state)

/-- Read a pattern, given how rules are read. -/
def read (readRule : Rule → Reader State Node) : Pattern → Reader State (List Tree)
  | .token accepts, cursor, state =>
    match cursor.bump? with
    | none => (none, state)
    | some (found, after) =>
      if accepts found then (some ([.leaf found], after), state) else (none, state)
  | .rule called, cursor, state =>
    match readRule called cursor state with
    | (none, state) => (none, state)
    | (some (node, after), state) => (some ([node.toTree], after), state)
  | .ahead accepts, cursor, state =>
    (if accepts cursor.peekKind then some ([], cursor) else none, state)
  | .absent refused, cursor, state =>
    match readRule refused cursor state with
    | (none, state) => (some ([], cursor), state)
    | (some _, state) => (none, state)
  | .empty, cursor, state => (some ([], cursor), state)
  | .sequence first second, cursor, state =>
    match first.read readRule cursor state with
    | (none, state) => (none, state)
    | (some (trees, middle), state) =>
      match second.read readRule middle state with
      | (none, state) => (none, state)
      | (some (more, after), state) => (some (trees ++ more, after), state)
  | .choice preferred alternative, cursor, state =>
    match preferred.read readRule cursor state with
    | (some result, state) => (some result, state)
    | (none, state) => alternative.read readRule cursor state
  | .many item, cursor, state =>
    match readMany (item.read readRule) cursor.rest cursor state with
    | (result, state) => (some result, state)

theorem read_rule
    (readRule : Rule → Reader State Node)
    (called : Rule)
    (cursor : Cursor)
    (state : State) :
    (Pattern.rule called).read readRule cursor state =
      ((readRule called cursor state).1.map fun found => ([found.1.toTree], found.2),
        (readRule called cursor state).2) := by
  rw [read]
  split
  next failed => rw [failed]; rfl
  next found => rw [found]; rfl

theorem read_absent
    (readRule : Rule → Reader State Node)
    (refused : Rule)
    (cursor : Cursor)
    (state : State) :
    (Pattern.absent refused).read readRule cursor state =
      (if (readRule refused cursor state).1.isNone then some ([], cursor) else none,
        (readRule refused cursor state).2) := by
  rw [read]
  split
  next failed => rw [failed]; rfl
  next found => rw [found]; rfl

/-- A pattern, or nothing where it fails. -/
def optional (item : Pattern) : Pattern :=
  .choice item .empty

/-- A pattern once or more often. -/
def atLeastOnce (item : Pattern) : Pattern :=
  item ++ .many item

/-- White space and comments, as much as there is. -/
def trivia : Pattern :=
  .many (.token Token.isTrivia)

/-- A punctuator. -/
def symbol (expected : Punctuator) : Pattern :=
  .token (Token.isPunctuator expected)

/-- An identifier of any spelling. -/
def identifier : Pattern :=
  .token Token.isIdentifier

/-- An identifier with one of the given spellings. -/
def word (expected : List String) : Pattern :=
  .token fun found => found.isIdentifier && expected.contains found.text

/-- The first rule of some that matches. -/
def firstOf (preferred : Rule) : List Rule → Pattern
  | [] => .rule preferred
  | next :: others => .choice (.rule preferred) (firstOf next others)

end Pattern
end PreprocessorSyntax
