import PreprocessorSyntax.Location

/-!
# Preprocessing tokens

A token records its kind, its exact spelling and where it starts.  White
space and comments are tokens too: the spellings of all tokens of a text,
put one after the other, give the text back.
-/

namespace PreprocessorSyntax

/-- The two ways of writing a comment. -/
inductive CommentStyle where
  | line
  | block
  deriving DecidableEq, Repr

/-- The prefix of a character or string literal that chooses its encoding. -/
inductive EncodingPrefix where
  | none
  | wide
  | utf8
  | utf16
  | utf32
  deriving DecidableEq, Repr

namespace EncodingPrefix

/-- The characters in front of the opening quote. -/
def spelling : EncodingPrefix → String
  | .none => ""
  | .wide => "L"
  | .utf8 => "u8"
  | .utf16 => "u"
  | .utf32 => "U"

/-- The prefix with a given nonempty spelling. -/
def ofSpelling? (text : String) : Option EncodingPrefix :=
  [.wide, .utf8, .utf16, .utf32].find? fun encoding => encoding.spelling == text

end EncodingPrefix

/-- Operators and delimiters. -/
inductive Punctuator where
  | ellipsis
  | lessLessEqual
  | greaterGreaterEqual
  | hashHash
  | lessLess
  | greaterGreater
  | ampAmp
  | pipePipe
  | lessEqual
  | greaterEqual
  | equalEqual
  | bangEqual
  | plusEqual
  | minusEqual
  | starEqual
  | slashEqual
  | percentEqual
  | ampEqual
  | pipeEqual
  | caretEqual
  | plusPlus
  | minusMinus
  | arrow
  | colonColon
  | plus
  | minus
  | star
  | slash
  | percent
  | amp
  | pipe
  | caret
  | tilde
  | bang
  | less
  | greater
  | equal
  | question
  | colon
  | dot
  | comma
  | semicolon
  | leftParen
  | rightParen
  | leftBracket
  | rightBracket
  | leftBrace
  | rightBrace
  | hash
  deriving DecidableEq, Repr

namespace Punctuator

/-- Every punctuator, longer spellings before shorter ones. -/
def all : List Punctuator :=
  [.ellipsis, .lessLessEqual, .greaterGreaterEqual,
   .hashHash, .lessLess, .greaterGreater, .ampAmp, .pipePipe,
   .lessEqual, .greaterEqual, .equalEqual, .bangEqual,
   .plusEqual, .minusEqual, .starEqual, .slashEqual, .percentEqual,
   .ampEqual, .pipeEqual, .caretEqual, .plusPlus, .minusMinus, .arrow, .colonColon,
   .plus, .minus, .star, .slash, .percent, .amp, .pipe, .caret, .tilde, .bang,
   .less, .greater, .equal, .question, .colon, .dot, .comma, .semicolon,
   .leftParen, .rightParen, .leftBracket, .rightBracket, .leftBrace, .rightBrace, .hash]

/-- How a punctuator is written. -/
def spelling : Punctuator → String
  | .ellipsis => "..."
  | .lessLessEqual => "<<="
  | .greaterGreaterEqual => ">>="
  | .hashHash => "##"
  | .lessLess => "<<"
  | .greaterGreater => ">>"
  | .ampAmp => "&&"
  | .pipePipe => "||"
  | .lessEqual => "<="
  | .greaterEqual => ">="
  | .equalEqual => "=="
  | .bangEqual => "!="
  | .plusEqual => "+="
  | .minusEqual => "-="
  | .starEqual => "*="
  | .slashEqual => "/="
  | .percentEqual => "%="
  | .ampEqual => "&="
  | .pipeEqual => "|="
  | .caretEqual => "^="
  | .plusPlus => "++"
  | .minusMinus => "--"
  | .arrow => "->"
  | .colonColon => "::"
  | .plus => "+"
  | .minus => "-"
  | .star => "*"
  | .slash => "/"
  | .percent => "%"
  | .amp => "&"
  | .pipe => "|"
  | .caret => "^"
  | .tilde => "~"
  | .bang => "!"
  | .less => "<"
  | .greater => ">"
  | .equal => "="
  | .question => "?"
  | .colon => ":"
  | .dot => "."
  | .comma => ","
  | .semicolon => ";"
  | .leftParen => "("
  | .rightParen => ")"
  | .leftBracket => "["
  | .rightBracket => "]"
  | .leftBrace => "\x7b"
  | .rightBrace => "\x7d"
  | .hash => "#"

/-- Every punctuator is listed. -/
theorem mem_all (symbol : Punctuator) : symbol ∈ all := by
  cases symbol <;> decide

end Punctuator

/-- What a token is, apart from its spelling. -/
inductive TokenKind where
  | identifier
  /-- A preprocessing number: integers, floating literals and suffixes alike. -/
  | number
  | character (encoding : EncodingPrefix)
  | string (encoding : EncodingPrefix)
  | punctuator (symbol : Punctuator)
  /-- A character that starts no other token, or an opening quote that is not closed. -/
  | other
  /-- Blanks other than line feeds, together with spliced line ends. -/
  | whitespace
  | comment (style : CommentStyle)
  | newline
  | endOfInput
  deriving DecidableEq, Repr

namespace TokenKind

/-- White space and comments; line feeds are significant. -/
def isTrivia : TokenKind → Bool
  | .whitespace => true
  | .comment _ => true
  | _ => false

/-- Line feeds and the end of the input end a directive line. -/
def isLineEnd : TokenKind → Bool
  | .newline => true
  | .endOfInput => true
  | _ => false

end TokenKind

/-- A token with its spelling and the location of its first character. -/
structure Token where
  /-- What the token is. -/
  kind : TokenKind
  /-- The characters of the source that make up the token. -/
  text : String
  /-- Where the token starts. -/
  location : Location
  deriving DecidableEq, Repr

namespace Token

/-- A token without its place. -/
def kindAndText (token : Token) : TokenKind × String :=
  (token.kind, token.text)

/-- White space or a comment. -/
def isTrivia (token : Token) : Bool :=
  token.kind.isTrivia

/-- A line feed or the end of the input. -/
def isLineEnd (token : Token) : Bool :=
  token.kind.isLineEnd

/-- A token that is part of what a line says: neither trivia nor the end of the line. -/
def isContent (token : Token) : Bool :=
  !token.isTrivia && !token.isLineEnd

/-- An identifier of any spelling. -/
def isIdentifier (token : Token) : Bool :=
  token.kind == .identifier

/-- The identifier with a given spelling. -/
def isWord (word : String) (token : Token) : Bool :=
  token.isIdentifier && token.text == word

/-- The given punctuator. -/
def isPunctuator (symbol : Punctuator) (token : Token) : Bool :=
  token.kind == .punctuator symbol

/-- One of the given punctuators. -/
def isAnyPunctuator (symbols : List Punctuator) (token : Token) : Bool :=
  symbols.any fun symbol => token.isPunctuator symbol

/-- A number, a character or string literal, or a truth value. -/
def isLiteral (token : Token) : Bool :=
  match token.kind with
  | .number => true
  | .character _ => true
  | .string _ => true
  | .identifier => token.text == "true" || token.text == "false"
  | _ => false

/-- The number of bytes of the source up to the end of the token. -/
def endOffset (token : Token) : Nat :=
  token.location.offset + token.text.utf8ByteSize

end Token
end PreprocessorSyntax
