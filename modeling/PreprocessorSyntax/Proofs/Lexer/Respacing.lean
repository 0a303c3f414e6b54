import PreprocessorSyntax.Proofs.Lexer.Context
import PreprocessorSyntax.Proofs.Lexer.Locations
import PreprocessorSyntax.Spacing

/-!
# Texts with other white space

Where the white space and the comments of a line are replaced by single spaces,
the content of the line stays: no two tokens run together, and no quote that was
open is closed by another one.  The significant text of a line is such a text.
-/

namespace PreprocessorSyntax

theorem Token.isPunctuator_congr
    {token other : Token}
    (same : token.kindAndText = other.kindAndText)
    (symbol : Punctuator) :
    token.isPunctuator symbol = other.isPunctuator symbol := by
  have kind : token.kind = other.kind := congrArg Prod.fst same
  rw [isPunctuator, kind, isPunctuator]

theorem Token.isIdentifier_congr
    {token other : Token}
    (same : token.kindAndText = other.kindAndText) :
    token.isIdentifier = other.isIdentifier := by
  have kind : token.kind = other.kind := congrArg Prod.fst same
  rw [isIdentifier, kind, isIdentifier]

/--
The text of some tokens with single spaces between those that were not side by
side.  `started` says whether there is any text yet, and `pending` whether a
space is owed.
-/
def respaced (started pending : Bool) : List Token → List Char
  | [] => []
  | token :: tokens =>
    if token.isContent then
      (if pending then [' '] else []) ++ token.text.toList ++ respaced true false tokens
    else respaced started started tokens

variable {token : Token} {tokens : List Token} {started pending : Bool}

theorem respaced_content (content : token.isContent = true) :
    respaced started pending (token :: tokens) =
      (if pending then [' '] else []) ++ token.text.toList ++ respaced true false tokens := by
  rw [respaced, if_pos content]

theorem respaced_other (noContent : token.isContent = false) :
    respaced started pending (token :: tokens) = respaced started started tokens := by
  rw [respaced, if_neg (by simp [noContent])]

/-- The end of the input is no content. -/
theorem filter_isContent_last (ends : token.kind = .endOfInput) :
    [token].filter Token.isContent = [] := by
  simp [Token.isContent, Token.isLineEnd, ends, TokenKind.isLineEnd]

/-- So it adds nothing. -/
theorem respaced_last (ends : token.kind = .endOfInput) : respaced started pending [token] = [] := by
  rw [respaced_other, respaced]
  simpa using filter_isContent_last ends

/-- A space that is owed comes first. -/
theorem head?_respaced (tokens : List Token) : ∀ c ∈ (respaced true true tokens).head?, c = ' ' := by
  induction tokens with
  | nil => simp [respaced]
  | cons token tokens inductionHypothesis =>
      cases content : token.isContent with
      | true => simp [respaced_content content]
      | false => rwa [respaced_other content]

/--
Whether a text has a quote that closes a literal; `escaped` says whether a
backslash stands in front of it.
-/
def closes (quote : Char) (escaped : Bool) : List Char → Bool
  | [] => false
  | c :: rest =>
    if escaped then closes quote false rest else c == quote || closes quote (c == '\\') rest

/-- Whether a backslash at the end of a text escapes what stands behind it. -/
def escapesAfter (escaped : Bool) : List Char → Bool
  | [] => escaped
  | c :: rest => escapesAfter (!escaped && c == '\\') rest

section Quotes

variable {quote : Char} {escaped : Bool} {text : List Char}

/-- A text without line feeds is one line. -/
theorem takeWhile_of_noFeed (noFeed : '\n' ∉ text) : text.takeWhile (· != '\n') = text := by
  rw [List.takeWhile_eq_self_iff]
  intro c present
  simp only [bne_iff_ne]
  rintro rfl
  exact noFeed present

/-- A literal is closed if its line has a quote that closes it. -/
theorem isSome_literalTail?
    (isOne : isQuote quote = true)
    (text : List Char) :
    (literalTail? quote text).isSome = closes quote false (text.takeWhile (· != '\n')) := by
  have notBackslash : quote ≠ '\\' := by
    rintro rfl
    contradiction
  have notFeed : quote ≠ '\n' := by
    rintro rfl
    contradiction
  fun_induction literalTail? quote text with
  | case1 => rfl
  | case2 => simp [closes, notFeed]
  | case3 c notQuote => by_cases feed : c = '\n' <;> simp [closes, notQuote, feed]
  | case4 d rest => simp [closes, notFeed]
  | case5 d rest _ => rfl
  | case6 c d rest notQuote _ escape inductionHypothesis =>
      simp only [Bool.and_eq_true, decide_eq_true_eq] at escape
      obtain ⟨rfl, noFeed⟩ := escape
      rw [Option.isSome_map, inductionHypothesis]
      simp [closes, noFeed, Ne.symm notBackslash]
  | case7 c d rest notQuote noFeed noEscape inductionHypothesis =>
      have line : (c :: d :: rest).takeWhile (· != '\n') =
          c :: (d :: rest).takeWhile (· != '\n') :=
        List.takeWhile_cons_of_pos (by simpa using noFeed)
      rw [Option.isSome_map, inductionHypothesis, line]
      by_cases backslash : c = '\\'
      · -- A backslash at the end of a line escapes nothing.
        subst backslash
        have feed : d = '\n' := by simpa using noEscape
        simp [feed, closes, Ne.symm notBackslash]
      · simp [closes, beq_false_of_ne notQuote, beq_false_of_ne backslash]

theorem closes_append (front back : List Char) :
    closes quote escaped (front ++ back) =
      (closes quote escaped front || closes quote (escapesAfter escaped front) back) := by
  induction front generalizing escaped with
  | nil => simp [closes, escapesAfter]
  | cons c front inductionHypothesis =>
      cases escaped <;> simp [closes, escapesAfter, inductionHypothesis, Bool.or_assoc]

/-- A text that does not end with a backslash escapes nothing. -/
theorem escapesAfter_concat
    {c : Char}
    (notBackslash : c ≠ '\\')
    (front : List Char) :
    escapesAfter escaped (front ++ [c]) = false := by
  induction front generalizing escaped with
  | nil => simp [escapesAfter, notBackslash]
  | cons d front inductionHypothesis => exact inductionHypothesis

end Quotes

/-- Literals and single quotes are content. -/
theorem isContent_literalToken (encoding : EncodingPrefix) (quote : Char) (rest : List Char) :
    (literalToken encoding quote rest).1.isTrivia = false ∧
      (literalToken encoding quote rest).1.isLineEnd = false := by
  rcases literalToken_kind encoding quote rest with kind | kind | kind <;>
    simp [kind, TokenKind.isTrivia, TokenKind.isLineEnd]

/-- So are punctuators and single characters. -/
theorem isContent_punctuatorToken (text : List Char) :
    (punctuatorToken text).1.isTrivia = false ∧ (punctuatorToken text).1.isLineEnd = false := by
  rcases punctuatorToken_kind text with kind | ⟨symbol, kind⟩ <;>
    simp [kind, TokenKind.isTrivia, TokenKind.isLineEnd]

/-- A line feed is a token where one stands. -/
theorem mem_of_munch_newline
    {text : List Char}
    {length : Nat}
    (munched : munch text = some (.newline, length)) :
    '\n' ∈ text := by
  have munches := munches_of_munch munched
  generalize newline : TokenKind.newline = kind at munches
  have ends : kind.isLineEnd = true := by
    rw [← newline]
    rfl
  cases munches with
  | newline => exact List.mem_cons_self
  | literal => simp [isContent_literalToken] at ends
  | punctuator => simp [isContent_punctuatorToken] at ends
  | _ => cases newline

/-- On one line, white space consists of blanks. -/
theorem isBlank_of_mem_take_blankLength_of_noFeed
    {text : List Char}
    (noFeed : '\n' ∉ text) :
    ∀ c ∈ text.take (blankLength text), isBlank c = true := by
  fun_induction blankLength text with
  | case1 => simp at noFeed
  | case2 => simp at noFeed
  | case3 c rest _ _ blank inductionHypothesis =>
      rw [List.take_succ_cons, List.forall_mem_cons]
      exact ⟨blank, inductionHypothesis fun feed => noFeed (List.mem_cons_of_mem c feed)⟩
  | case4 => simp
  | case5 => simp

/--
On one line, white space and a comment end with a character that escapes
nothing, or nothing stands behind them.
-/
theorem exists_of_munch_trivia
    {text : List Char}
    {kind : TokenKind}
    {length : Nat}
    (noFeed : '\n' ∉ text)
    (munched : munch text = some (kind, length))
    (trivial : kind.isTrivia = true) :
    text.drop length = [] ∨ ∃ body c, text.take length = body ++ [c] ∧ c ≠ '\\' := by
  cases munches_of_munch munched with
  | endOfInput => cases trivial
  | whitespace blank =>
      right
      have blanks := isBlank_of_mem_take_blankLength_of_noFeed noFeed
      rcases List.eq_nil_or_concat (text.take (blankLength text)) with taken | ⟨body, c, equal⟩
      · rw [List.take_eq_nil_iff] at taken
        rcases taken with taken | taken
        · rw [taken] at blank
          exact absurd blank (Nat.lt_irrefl 0)
        · rw [taken] at blank
          exact absurd blank (Nat.lt_irrefl 0)
      · refine ⟨body, c, by rw [equal, List.concat_eq_append], ?_⟩
        have last := blanks c (by simp [equal])
        rintro rfl
        contradiction
  | newline => cases trivial
  | lineComment rest =>
      left
      rw [takeWhile_of_noFeed noFeed, List.drop_length]
  | @blockComment rest tail closed =>
      right
      obtain ⟨body, equal⟩ := exists_of_blockCommentTail? closed
      exact ⟨'/' :: '*' :: body, '/', by simp [equal], by decide⟩
  | literal => simp [isContent_literalToken] at trivial
  | identifier => cases trivial
  | number => cases trivial
  | punctuator => simp [isContent_punctuatorToken] at trivial

/-- A quote that is not closed behind white space or a comment is not closed in front of it. -/
theorem closes_drop_of_trivia
    {text : List Char}
    {kind : TokenKind}
    {length : Nat}
    {quote : Char}
    {escaped : Bool}
    (noFeed : '\n' ∉ text)
    (munched : munch text = some (kind, length))
    (trivial : kind.isTrivia = true)
    (unclosed : closes quote escaped text = false) :
    closes quote false (text.drop length) = false := by
  rcases exists_of_munch_trivia noFeed munched trivial with nothing | ⟨body, c, equal, unescaped⟩
  · rw [nothing]
    rfl
  · rw [← List.take_append_drop length text, closes_append, Bool.or_eq_false_iff, equal,
      escapesAfter_concat unescaped] at unclosed
    exact unclosed.2

namespace Lexer.Yields

variable {lexer : Lexer}

/-- What a text without line feeds begins with is content, or it is white space or a comment. -/
theorem isTrivia_of_noContent
    {after : Lexer}
    (noFeed : '\n' ∉ lexer.rest)
    (read : lexer.next = (.ok token, after))
    (continues : token.kind ≠ .endOfInput)
    (noContent : token.isContent = false) :
    token.kind.isTrivia = true := by
  obtain ⟨length, munched, _, _, _⟩ := next_eq_ok read
  cases kind : token.kind with
  | whitespace => rfl
  | comment => rfl
  | newline =>
      rw [kind] at munched
      exact absurd (mem_of_munch_newline munched) noFeed
  | endOfInput => exact absurd kind continues
  | _ => simp [Token.isContent, Token.isTrivia, Token.isLineEnd, kind, TokenKind.isTrivia,
      TokenKind.isLineEnd] at noContent

/-- No quote is closed in the respaced text that was not closed before. -/
theorem closes_respaced
    {quote : Char}
    (yields : lexer.Yields tokens)
    (noFeed : '\n' ∉ lexer.rest)
    (notSpace : quote ≠ ' ') :
    (∀ escaped, closes quote escaped lexer.rest = false →
        closes quote escaped (respaced true false tokens) = false) ∧
      (closes quote false lexer.rest = false →
        ∀ escaped, closes quote escaped (respaced true true tokens) = false) := by
  induction yields with
  | last read ends =>
      simp [respaced_last ends, closes]
  | @step lexer after token tokens read continues rest inductionHypothesis =>
      obtain ⟨length, munched, text, _, rfl⟩ := next_eq_ok read
      have noFeedBehind : '\n' ∉ lexer.rest.drop length := fun feed =>
        noFeed (List.mem_of_mem_drop feed)
      obtain ⟨beside, apart⟩ := inductionHypothesis noFeedBehind
      cases content : token.isContent with
      | true =>
          have same (escaped : Bool) (unclosed : closes quote escaped lexer.rest = false) :
              closes quote escaped (token.text.toList ++ respaced true false tokens) = false := by
            rw [← List.take_append_drop length lexer.rest, closes_append,
              Bool.or_eq_false_iff] at unclosed
            rw [text, String.toList_ofList, closes_append, unclosed.1, Bool.false_or]
            exact beside _ unclosed.2
          rw [respaced_content content, respaced_content content]
          refine ⟨same, fun unclosed escaped => ?_⟩
          have space (back : List Char) :
              closes quote escaped (' ' :: back) = closes quote false back := by
            cases escaped <;> simp [closes, Ne.symm notSpace]
          simpa [space] using same false unclosed
      | false =>
          have trivial := isTrivia_of_noContent noFeed read continues content
          rw [respaced_other content, respaced_other content]
          refine ⟨fun escaped unclosed => ?_, fun unclosed => ?_⟩
          · exact apart (closes_drop_of_trivia noFeed munched trivial unclosed) escaped
          · exact apart (closes_drop_of_trivia noFeed munched trivial unclosed)

/-- The respaced text has no characters of its own but spaces. -/
theorem mem_of_mem_respaced
    {c : Char}
    (yields : lexer.Yields tokens)
    (present : c ∈ respaced started pending tokens) :
    c = ' ' ∨ c ∈ lexer.rest := by
  induction yields generalizing started pending with
  | last read ends =>
      rw [respaced_last ends] at present
      cases present
  | @step lexer after token tokens read continues rest inductionHypothesis =>
      obtain ⟨length, _, text, _, rfl⟩ := next_eq_ok read
      have behind (started pending : Bool) (later : c ∈ respaced started pending tokens) :
          c = ' ' ∨ c ∈ lexer.rest :=
        (inductionHypothesis later).imp_right List.mem_of_mem_drop
      cases content : token.isContent with
      | true =>
          rw [respaced_content content, List.mem_append, List.mem_append] at present
          rcases present with (space | here) | later
          · left
            cases pending <;> simp_all
          · rw [text, String.toList_ofList] at here
            exact .inr (List.mem_of_mem_take here)
          · exact behind _ _ later
      | false =>
          rw [respaced_other content] at present
          exact behind _ _ present

/-- The respaced text goes on like the line itself, up to the first space. -/
theorem shares_respaced (yields : lexer.Yields tokens) :
    ∃ common rest other, lexer.rest = common ++ rest ∧
      respaced true false tokens = common ++ other ∧ ∀ c ∈ other.head?, c = ' ' := by
  induction yields with
  | last read ends =>
      exact ⟨[], _, [], rfl, respaced_last ends, by simp⟩
  | @step lexer after token tokens read continues rest inductionHypothesis =>
      cases content : token.isContent with
      | true =>
          obtain ⟨length, _, text, _, rfl⟩ := next_eq_ok read
          obtain ⟨common, back, other, equal, same, space⟩ := inductionHypothesis
          refine ⟨token.text.toList ++ common, back, other, ?_, ?_, space⟩
          · rw [text, String.toList_ofList, List.append_assoc, ← equal]
            exact (List.take_append_drop length lexer.rest).symm
          · rw [respaced_content content, same]
            simp
      | false =>
          exact ⟨[], _, _, rfl, respaced_other content, head?_respaced tokens⟩

/-- So no token in front of the line changes where the line is respaced. -/
theorem resumes_respaced
    (yields : lexer.Yields tokens)
    (noFeed : '\n' ∉ lexer.rest) :
    Resumes lexer.rest (respaced true false tokens) where
  shared := yields.shares_respaced
  unclosed quote isOne unclosed := by
    have notSpace : quote ≠ ' ' := by
      rintro rfl
      contradiction
    have noFeedToo : '\n' ∉ respaced true false tokens := by
      intro feed
      rcases yields.mem_of_mem_respaced feed with space | before
      · cases space
      · exact noFeed before
    rw [← Option.isNone_iff_eq_none, ← Option.not_isSome, Bool.not_eq_true',
      isSome_literalTail? isOne] at unclosed ⊢
    rw [takeWhile_of_noFeed noFeed] at unclosed
    rw [takeWhile_of_noFeed noFeedToo]
    exact (yields.closes_respaced noFeed notSpace).1 false unclosed

end Lexer.Yields

namespace Lexer.Yields

variable {lexer : Lexer} {lastEnd : Option Nat}

/--
A gap between two tokens counts as a space, so white space and comments may be
filtered out before; `keep` says which of them, if any, are left.
-/
theorem join_significantPieces
    {keep : Token → Bool}
    (yields : lexer.Yields tokens)
    (keepsContent : ∀ token, token.isContent = true → keep token = true)
    (before : ∀ last ∈ lastEnd, last ≤ lexer.location.offset)
    (owed : pending = true → lastEnd.isSome = true) :
    (String.join (significantPieces lastEnd.isSome pending lastEnd
        (tokens.filter keep))).toList =
      respaced lastEnd.isSome (pending || lastEnd.any (· < lexer.location.offset)) tokens := by
  induction yields generalizing lastEnd pending with
  | @last lexer after token read ends =>
      have lineEnd : token.isLineEnd = true := by
        rw [Token.isLineEnd, ends]
        rfl
      rw [respaced_last ends, List.filter_singleton]
      cases keep token <;> simp [significantPieces, lineEnd, String.join]
  | @step lexer after token tokens read continues rest inductionHypothesis =>
      have spelled : token.text.isEmpty = false := by
        have nonempty := (Yields.step read continues rest).text_ne_empty
          List.mem_cons_self continues
        simpa [String.isEmpty_iff] using nonempty
      have shorter := next_rest_length_lt read continues
      obtain ⟨length, _, text, location, rfl⟩ := next_eq_ok read
      have further := offset_lt_offset_skip shorter
      cases content : token.isContent with
      | true =>
          have ending : token.endOffset = (lexer.skip length).location.offset := by
            rw [Token.endOffset, location, text, skip, Location.offset_advance]
          have here : ∀ last ∈ some token.endOffset,
              last ≤ (lexer.skip length).location.offset := by simp [ending]
          have nothingOwed : false = true → (some token.endOffset).isSome = true := fun _ => rfl
          have later := inductionHypothesis here nothingOwed
          have noSkip : (token.isTrivia || token.isLineEnd) = false := by
            simpa [Token.isContent] using content
          rw [List.filter_cons_of_pos (keepsContent token content), respaced_content content,
            significantPieces, noSkip]
          simp only [ending, Option.isSome_some, Option.any_some, Nat.lt_irrefl,
            decide_false, Bool.or_false] at later
          simp only [Bool.false_eq_true, if_false, spelled, Bool.not_false,
            Bool.or_true, location, ending, String.join_append, String.toList_append, later]
          split <;> simp [String.join]
      | false =>
          have noGap : ∀ last ∈ lastEnd, last ≤ (lexer.skip length).location.offset :=
            fun last here => Nat.le_of_lt (Nat.lt_of_le_of_lt (before last here) further)
          have spaced : lastEnd.any (· < (lexer.skip length).location.offset) = lastEnd.isSome := by
            cases lastEnd with
            | none => rfl
            | some last => exact decide_eq_true (Nat.lt_of_le_of_lt (before last rfl) further)
          have skipped : (token.isTrivia || token.isLineEnd) = true := by
            rwa [Token.isContent, ← Bool.not_or, Bool.not_eq_false'] at content
          rw [respaced_other content]
          cases kept : keep token with
          | true =>
              have spaceOwed : lastEnd.isSome = true → lastEnd.isSome = true := id
              have later := inductionHypothesis noGap spaceOwed
              rw [List.filter_cons_of_pos kept, significantPieces, if_pos skipped, later, spaced,
                Bool.or_self]
          | false =>
              have later := inductionHypothesis noGap owed
              have asked : (pending || lastEnd.isSome) = lastEnd.isSome := by
                cases pending <;> simp_all
              rw [List.filter_cons_of_neg (by simp [kept]), later, spaced, asked]

/-- The significant text of a line is the respaced line, with or without what is no content. -/
theorem significantText_eq_respaced
    {keep : Token → Bool}
    (yields : lexer.Yields tokens)
    (keepsContent : ∀ token, token.isContent = true → keep token = true) :
    (significantText (tokens.filter keep)).toList = respaced false false tokens := by
  have noLast : ∀ last ∈ (none : Option Nat), last ≤ lexer.location.offset := by simp
  exact yields.join_significantPieces keepsContent noLast (by simp)

end Lexer.Yields

end PreprocessorSyntax
