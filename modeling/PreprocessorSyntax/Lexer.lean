import PreprocessorSyntax.Token

/-!
# Lexical analysis

The lexer cuts a text into tokens by maximal munch: `munch` looks at the
front of the remaining characters and says what kind of token starts there
and how many characters it has.  Taking that many characters is all a step
does, so no character is lost and every step but the last makes progress.

The only lexical error is a block comment that is never closed.
-/

namespace PreprocessorSyntax

/-- White space within a line. -/
def isBlank (c : Char) : Bool :=
  c == ' ' || c == '\t' || c == '\r' || c == '\x0b' || c == '\x0c'

/-- Letters, the underscore and every character outside ASCII. -/
def isIdentifierStart (c : Char) : Bool :=
  c.isAlpha || c == '_' || 0x80 ≤ c.toNat

/-- Characters that continue an identifier. -/
def isIdentifierPart (c : Char) : Bool :=
  c.isAlphanum || c == '_' || 0x80 ≤ c.toNat

/-- The two quotes that open literals. -/
def isQuote (c : Char) : Bool :=
  c == '"' || c == '\''

/-- Letters after which a sign belongs to a number. -/
def isExponentLetter (c : Char) : Bool :=
  c == 'e' || c == 'E' || c == 'p' || c == 'P'

/-- The length of the blanks and line splices at the front of a text. -/
def blankLength : List Char → Nat
  | '\\' :: '\n' :: rest => blankLength rest + 2
  | '\\' :: '\r' :: '\n' :: rest => blankLength rest + 3
  | c :: rest => if isBlank c then blankLength rest + 1 else 0
  | [] => 0

/-- The length of a block comment behind its opening, up to and with its end. -/
def blockCommentTail? : List Char → Option Nat
  | '*' :: '/' :: _ => some 2
  | _ :: rest => (blockCommentTail? rest).map (· + 1)
  | [] => none

/--
The length of a literal behind its opening quote, up to and with the closing
quote.  A backslash takes the next character with it; a literal ends on its line.
-/
def literalTail? (quote : Char) : List Char → Option Nat
  | [] => none
  | [c] => if c = quote then some 1 else none
  | c :: d :: rest =>
    if c = quote then some 1
    else if c = '\n' then none
    else if c = '\\' && d ≠ '\n' then (literalTail? quote rest).map (· + 2)
    else (literalTail? quote (d :: rest)).map (· + 1)

/--
The length of a number behind its first character: signs count after an
exponent letter, and a quote counts as a digit separator.
-/
def numberTail : List Char → Nat
  | [] => 0
  | [c] => if isIdentifierPart c || c == '.' then 1 else 0
  | c :: d :: rest =>
    if isExponentLetter c && (d == '+' || d == '-') || c == '\'' && d.isAlphanum then
      numberTail rest + 2
    else if isIdentifierPart c || c == '.' then numberTail (d :: rest) + 1
    else 0

/--
The encoding prefix, opening quote and remaining characters of a text that
starts with a literal, closed or not.
-/
def literalOpening? : List Char → Option (EncodingPrefix × Char × List Char)
  | 'u' :: '8' :: quote :: rest => if isQuote quote then some (.utf8, quote, rest) else none
  | 'u' :: quote :: rest => if isQuote quote then some (.utf16, quote, rest) else none
  | 'U' :: quote :: rest => if isQuote quote then some (.utf32, quote, rest) else none
  | 'L' :: quote :: rest => if isQuote quote then some (.wide, quote, rest) else none
  | quote :: rest => if isQuote quote then some (.none, quote, rest) else none
  | [] => none

/--
The literal at the front of a text, given its opening.  If the quote is not
closed on the line, the prefix and the quote are a token of their own.
-/
def literalToken (encoding : EncodingPrefix) (quote : Char) (rest : List Char) : TokenKind × Nat :=
  let opening := encoding.spelling.length + 1
  match literalTail? quote rest with
  | none => (.other, opening)
  | some tail =>
    (if quote = '"' then .string encoding else .character encoding, opening + tail)

/-- The spellings of all punctuators, longer ones first. -/
def punctuatorTable : List (List Char × Punctuator) :=
  Punctuator.all.map fun symbol => (symbol.spelling.toList, symbol)

/-- The longest punctuator at the front of a text, or its first character. -/
def punctuatorToken (text : List Char) : TokenKind × Nat :=
  match punctuatorTable.find? fun entry => entry.1.isPrefixOf text with
  | some (spelling, symbol) => (.punctuator symbol, spelling.length)
  | none => (.other, 1)

/--
The kind and the length in characters of the token at the front of a text;
`none` at a block comment that is never closed.
-/
def munch (text : List Char) : Option (TokenKind × Nat) :=
  match text with
  | [] => some (.endOfInput, 0)
  | c :: rest =>
    if 0 < blankLength text then some (.whitespace, blankLength text)
    else if c = '\n' then some (.newline, 1)
    else if ['/', '/'].isPrefixOf text then
      some (.comment .line, (text.takeWhile (· != '\n')).length)
    else if ['/', '*'].isPrefixOf text then
      (blockCommentTail? (text.drop 2)).map fun tail => (.comment .block, tail + 2)
    else match literalOpening? text with
      | some (encoding, quote, tail) => some (literalToken encoding quote tail)
      | none =>
        if isIdentifierStart c then some (.identifier, (text.takeWhile isIdentifierPart).length)
        else if c.isDigit || c == '.' && rest.head?.any Char.isDigit then
          some (.number, numberTail rest + 1)
        else some (punctuatorToken text)

/-- Characters that start an identifier also continue one. -/
theorem isIdentifierPart_of_isIdentifierStart {c : Char} (start : isIdentifierStart c = true) :
    isIdentifierPart c = true := by
  simp only [isIdentifierStart, isIdentifierPart, Char.isAlphanum, Bool.or_eq_true] at start ⊢
  rcases start with (letter | underscore) | wide
  · exact .inl (.inl (.inl letter))
  · exact .inl (.inr underscore)
  · exact .inr wide

theorem punctuatorToken_length_pos (text : List Char) : 0 < (punctuatorToken text).2 := by
  have lengths : ∀ entry ∈ punctuatorTable, 0 < entry.1.length := by decide
  unfold punctuatorToken
  split
  next spelling symbol found => exact lengths _ (List.mem_of_find?_eq_some found)
  next => exact Nat.one_pos

theorem literalToken_length_pos (encoding : EncodingPrefix) (quote : Char) (rest : List Char) :
    0 < (literalToken encoding quote rest).2 := by
  unfold literalToken
  split
  next => exact Nat.succ_pos _
  next => exact Nat.add_pos_left (Nat.succ_pos _) _

/-- Every token of a nonempty text has a character. -/
theorem munch_length_pos {c : Char} {rest : List Char} {kind : TokenKind} {length : Nat}
    (munched : munch (c :: rest) = some (kind, length)) : 0 < length := by
  simp only [munch] at munched
  split at munched
  next positive => simp_all
  next =>
  split at munched
  next =>
    simp only [Option.some.injEq, Prod.mk.injEq] at munched
    omega
  next notNewline =>
  split at munched
  next slashes =>
    simp only [Option.some.injEq, Prod.mk.injEq] at munched
    rw [← munched.2, List.takeWhile_cons]
    simp [notNewline]
  next =>
  split at munched
  next =>
    obtain ⟨tail, _, equal⟩ := Option.map_eq_some_iff.1 munched
    simp only [Prod.mk.injEq] at equal
    omega
  next =>
  split at munched
  next encoding quote tail _ =>
    have positive := literalToken_length_pos encoding quote tail
    simp_all
  next =>
  split at munched
  next start =>
    simp only [Option.some.injEq, Prod.mk.injEq] at munched
    rw [← munched.2, List.takeWhile_cons]
    simp [isIdentifierPart_of_isIdentifierStart start]
  next =>
  split at munched
  next =>
    simp only [Option.some.injEq, Prod.mk.injEq] at munched
    omega
  next =>
    have positive := punctuatorToken_length_pos (c :: rest)
    simp_all

/-- The only lexical error: the location of a block comment that is never closed. -/
structure UnterminatedComment where
  /-- Where the comment starts. -/
  location : Location
  deriving DecidableEq, Repr

/-- The characters still to be read, and the location of the first of them. -/
structure Lexer where
  /-- The characters still to be read. -/
  rest : List Char
  /-- The location of the next character. -/
  location : Location
  deriving DecidableEq, Repr

namespace Lexer

/-- A lexer at the start of a text. -/
def ofString (source : String) (file : FileId) (line : UInt32) : Lexer :=
  { rest := source.toList, location := Location.start file line }

/-- Step over a number of characters. -/
def skip (lexer : Lexer) (length : Nat) : Lexer :=
  { rest := lexer.rest.drop length
    location := lexer.location.advance (lexer.rest.take length) }

/--
Read one token.  An unterminated comment takes the rest of the text with it;
at the end of the text the answer is the end of the input, however often it
is asked for.
-/
def next (lexer : Lexer) : Except UnterminatedComment Token × Lexer :=
  match munch lexer.rest with
  | none => (.error ⟨lexer.location⟩, lexer.skip lexer.rest.length)
  | some (kind, length) =>
    (.ok ⟨kind, String.ofList (lexer.rest.take length), lexer.location⟩, lexer.skip length)

/-- A token that is not the end of the input shortens the remaining text. -/
theorem next_rest_length_lt {lexer after : Lexer} {token : Token}
    (read : lexer.next = (.ok token, after)) (notEnd : token.kind ≠ .endOfInput) :
    after.rest.length < lexer.rest.length := by
  unfold next at read
  split at read
  next => simp at read
  next kind length munched =>
    simp only [Prod.mk.injEq, Except.ok.injEq] at read
    obtain ⟨rfl, rfl⟩ := read
    cases text : lexer.rest with
    | nil =>
        rw [text] at munched
        simp [munch] at munched
        exact absurd munched.1.symm notEnd
    | cons c rest =>
        rw [text] at munched
        have positive := munch_length_pos munched
        simp only [skip, text, List.length_drop, List.length_cons]
        omega

/-- All tokens up to and with the end of the input. -/
def tokens (lexer : Lexer) : Except UnterminatedComment (List Token) :=
  match _read : lexer.next with
  | (.error fault, _) => .error fault
  | (.ok token, after) =>
    if _notEnd : token.kind = .endOfInput then .ok [token]
    else (after.tokens).map (token :: ·)
termination_by lexer.rest.length
decreasing_by exact next_rest_length_lt _read _notEnd

end Lexer

/-- The tokens of a text whose first line has the given number in the given file. -/
def tokenize (source : String) (file : FileId) (line : UInt32) :
    Except UnterminatedComment (List Token) :=
  (Lexer.ofString source file line).tokens

end PreprocessorSyntax
