import PreprocessorSyntax.Proofs.Lexer.Respacing
import PreprocessorSyntax.Proofs.Line.Content

/-!
# Lexing a line that is put together

Where the text of a line is put together from spellings of tokens, the lexer
takes it apart again.  `Lexes` says what the tokens of a text are like, wherever
the text stands, and a spelling in front of a text adds its token if the lexer
finds it there.  Names, punctuators that no other one continues, single spaces
and respaced text are found in front of whatever may stand behind them.
-/

namespace PreprocessorSyntax

/-- The tokens of a text, wherever it stands, are on one line and have a certain shape. -/
def Lexes (text : List Char) (shape : List Token → Prop) : Prop :=
  ∀ location, ∃ content ending,
    Lexer.Yields ⟨text, location⟩ (content ++ [ending]) ∧ ending.kind = .endOfInput ∧
    InLine content ∧ shape content

variable {front back text name later : List Char} {kind : TokenKind} {length : Nat}
variable {shape further : List Token → Prop} {tokens : List Token} {lexer : Lexer}

theorem lexes_nil (holds : shape []) : Lexes [] shape := by
  intro location
  have read : Lexer.next ⟨[], location⟩ = (.ok ⟨.endOfInput, "", location⟩, ⟨[], location⟩) := rfl
  exact ⟨[], _, .last read rfl, rfl, by simp [InLine], holds⟩

/-- A token in front of a text. -/
theorem Lexes.cons
    (munched : munch (front ++ back) = some (kind, front.length))
    (inLine : kind.isLineEnd = false)
    (lexes : Lexes back shape)
    (grows : ∀ token tokens, token.kind = kind → token.text = String.ofList front →
      shape tokens → further (token :: tokens)) :
    Lexes (front ++ back) further := by
  intro location
  obtain ⟨content, ending, yields, ends, inLineBehind, holds⟩ := lexes (location.advance front)
  have read : Lexer.next ⟨front ++ back, location⟩ =
      (.ok ⟨kind, String.ofList front, location⟩, ⟨back, location.advance front⟩) := by
    simp [Lexer.next, Lexer.skip, munched]
  have continues : kind ≠ .endOfInput := by
    rintro rfl
    cases inLine
  exact ⟨_ :: content, ending, .step read continues yields, ends,
    List.forall_mem_cons.2 ⟨inLine, inLineBehind⟩, grows _ _ rfl rfl holds⟩

theorem Lexes.mono
    (lexes : Lexes text shape)
    (weaker : ∀ tokens, shape tokens → further tokens) :
    Lexes text further := by
  intro location
  obtain ⟨content, ending, yields, ends, inLine, holds⟩ := lexes location
  exact ⟨content, ending, yields, ends, inLine, weaker content holds⟩

theorem Lexes.tokenize
    {source : String}
    (lexes : Lexes source.toList shape)
    (file : FileId)
    (line : UInt32) :
    ∃ content ending, tokenize source file line = .ok (content ++ [ending]) ∧
      ending.kind = .endOfInput ∧ InLine content ∧ shape content := by
  obtain ⟨content, ending, yields, holds⟩ := lexes (Location.start file line)
  exact ⟨content, ending, Lexer.tokens_of_yields yields, holds⟩

/-- The tokens of a text without line feeds are on one line. -/
theorem Lexer.Yields.exists_inLine
    (yields : lexer.Yields tokens)
    (noFeed : '\n' ∉ lexer.rest) :
    ∃ content ending, tokens = content ++ [ending] ∧ ending.kind = .endOfInput ∧
      InLine content := by
  induction yields with
  | last read ends => exact ⟨[], _, rfl, ends, by simp [InLine]⟩
  | @step lexer after token tokens read continues rest inductionHypothesis =>
      obtain ⟨length, munched, _, _, rfl⟩ := next_eq_ok read
      obtain ⟨content, ending, equal, ends, inLine⟩ :=
        inductionHypothesis fun feed => noFeed (List.mem_of_mem_drop feed)
      refine ⟨token :: content, ending, by rw [equal, List.cons_append], ends, ?_⟩
      refine List.forall_mem_cons.2 ⟨?_, inLine⟩
      cases kind : token.kind with
      | newline =>
          rw [kind] at munched
          exact absurd (mem_of_munch_newline munched) noFeed
      | endOfInput => exact absurd kind continues
      | _ => rw [Token.isLineEnd, kind]; rfl

/-- What is left of a token stream is the stream of what is left of the text. -/
theorem Lexer.Yields.exists_suffix
    {before after : List Token}
    (yields : lexer.Yields (before ++ after))
    (nonempty : after ≠ []) :
    ∃ behind : Lexer, behind.Yields after ∧ behind.rest <:+ lexer.rest := by
  induction before generalizing lexer with
  | nil => exact ⟨lexer, yields, List.suffix_rfl⟩
  | cons token before inductionHypothesis =>
      generalize whole : token :: before ++ after = tokens at yields
      cases yields with
      | last =>
          rw [List.cons_append, List.cons.injEq, List.append_eq_nil_iff] at whole
          exact absurd whole.2.2 nonempty
      | step read _ rest =>
          obtain ⟨rfl, rfl⟩ := List.cons.inj whole
          obtain ⟨length, _, _, _, rfl⟩ := next_eq_ok read
          obtain ⟨behind, yields, suffix⟩ := inductionHypothesis rest
          exact ⟨behind, yields, suffix.trans (List.drop_suffix length lexer.rest)⟩

theorem blankLength_le_length (text : List Char) : blankLength text ≤ text.length := by
  fun_induction blankLength text <;> simp_all

theorem numberTail_le_length (text : List Char) : numberTail text ≤ text.length := by
  fun_induction numberTail text <;> simp_all

theorem le_length_of_blockCommentTail?
    {tail : Nat}
    (closed : blockCommentTail? text = some tail) :
    tail ≤ text.length := by
  fun_induction blockCommentTail? text generalizing tail with
  | case1 =>
      cases closed
      simp
  | case2 c rest _ inductionHypothesis =>
      obtain ⟨shorter, found, rfl⟩ := Option.map_eq_some_iff.1 closed
      exact Nat.succ_le_succ (inductionHypothesis found)
  | case3 => cases closed

theorem le_length_of_literalTail?
    {quote : Char}
    {tail : Nat}
    (closed : literalTail? quote text = some tail) :
    tail ≤ text.length := by
  fun_induction literalTail? quote text generalizing tail with
  | case1 | case3 | case5 => cases closed
  | case2 | case4 =>
      cases closed
      simp
  | case6 c d rest _ _ _ inductionHypothesis =>
      obtain ⟨shorter, found, rfl⟩ := Option.map_eq_some_iff.1 closed
      exact Nat.add_le_add_right (inductionHypothesis found) 2
  | case7 c d rest _ _ _ inductionHypothesis =>
      obtain ⟨shorter, found, rfl⟩ := Option.map_eq_some_iff.1 closed
      exact Nat.succ_le_succ (inductionHypothesis found)

/-- No token is longer than the text that it is found in. -/
theorem length_le_of_munch (munched : munch text = some (kind, length)) :
    length ≤ text.length := by
  cases munches_of_munch munched with
  | endOfInput => exact Nat.le_refl _
  | whitespace => exact blankLength_le_length text
  | newline rest => simp
  | lineComment rest => exact (List.takeWhile_prefix _).length_le
  | @blockComment rest tail closed =>
      have fits := le_length_of_blockCommentTail? closed
      simp only [List.length_cons]
      omega
  | @literal _ rest encoding quote opening =>
      obtain ⟨rfl, _⟩ := eq_of_literalOpening? opening
      rw [List.length_append, String.length_toList, List.length_cons, literalToken]
      split
      next => simp
      next tail closed =>
        have fits := le_length_of_literalTail? closed
        simp only
        omega
  | identifier => exact (List.takeWhile_prefix _).length_le
  | number c rest => exact Nat.succ_le_succ (numberTail_le_length rest)
  | punctuator c rest =>
      unfold punctuatorToken
      split
      next search =>
        have here := List.find?_some search
        exact (List.isPrefixOf_iff_prefix.1 here).length_le
      next => simp

/-- A text that is a single identifier. -/
def isName (text : List Char) : Bool :=
  text.head?.any isIdentifierStart && text.all isIdentifierPart

/-- A text neither continues a name in front of it nor makes a prefix of it. -/
def EndsName (text : List Char) : Prop :=
  ∀ c ∈ text.head?, isIdentifierPart c = false ∧ isQuote c = false

theorem endsName_cons
    {c : Char}
    (other : (isIdentifierPart c || isQuote c) = false)
    (rest : List Char) :
    EndsName (c :: rest) := by
  rintro _ ⟨⟩
  exact Bool.or_eq_false_iff.1 other

theorem isName_of_munch (munched : munch text = some (.identifier, length)) :
    isName (text.take length) = true := by
  have munches := munches_of_munch munched
  generalize identifier : TokenKind.identifier = kind at munches
  cases munches with
  | @identifier c rest start =>
      rw [← List.prefix_iff_eq_take.1 (List.takeWhile_prefix _), isName, Bool.and_eq_true]
      refine ⟨?_, List.all_takeWhile⟩
      rw [List.takeWhile_cons_of_pos (isIdentifierPart_of_isIdentifierStart start)]
      exact start
  | @literal _ rest encoding quote _ =>
      rcases literalToken_kind encoding quote rest with other | other | other <;>
        rw [other] at identifier <;>
        cases identifier
  | punctuator c rest =>
      rcases punctuatorToken_kind (c :: rest) with other | ⟨symbol, other⟩ <;>
        rw [other] at identifier <;>
        cases identifier
  | _ => cases identifier

/-- The identifiers of a token stream are names. -/
theorem Lexer.Yields.isName_of_mem
    {token : Token}
    (yields : lexer.Yields tokens)
    (present : token ∈ tokens)
    (isIdentifier : token.isIdentifier = true) :
    isName token.text.toList = true := by
  obtain ⟨before, after, read⟩ := yields.exists_next_of_mem present
  obtain ⟨length, munched, text, _, _⟩ := next_eq_ok read
  rw [beq_iff_eq.1 isIdentifier] at munched
  rw [text, String.toList_ofList]
  exact isName_of_munch munched

/-- A letter starts neither white space nor a comment. -/
theorem visible_of_isIdentifierStart
    {c : Char}
    (start : isIdentifierStart c = true)
    (rest : List Char) :
    Visible c rest := by
  refine ⟨?_, ?_, ?_⟩
  · cases blank : isBlank c with
    | false => rfl
    | true =>
        simp only [isBlank, Bool.or_eq_true, beq_iff_eq] at blank
        rcases blank with (((rfl | rfl) | rfl) | rfl) | rfl <;> contradiction
  · rintro rfl
    contradiction
  · intro mark listed here
    simp only [triviaMarks, List.mem_cons, List.not_mem_nil, or_false] at listed
    rcases listed with rfl | rfl | rfl | rfl <;>
      rw [List.cons_prefix_cons] at here <;>
      rw [← here.1] at start <;>
      contradiction

/-- A name ends where nothing continues it. -/
theorem takeWhile_name
    (parts : name.all isIdentifierPart = true)
    (stops : ∀ c ∈ later.head?, isIdentifierPart c = false) :
    (name ++ later).takeWhile isIdentifierPart = name := by
  rw [List.takeWhile_append_of_pos (List.all_eq_true.1 parts)]
  cases later with
  | nil => simp
  | cons c later => rw [List.takeWhile_cons_of_neg (by simp [stops c rfl]), List.append_nil]

/-- A quote continues no name. -/
theorem isIdentifierPart_of_isQuote
    {quote : Char}
    (isOne : isQuote quote = true)
    (rest : List Char) :
    ∀ c ∈ (quote :: rest).head?, isIdentifierPart c = false := by
  rintro _ ⟨⟩
  rcases isQuote_iff.1 isOne with rfl | rfl <;> rfl

/-- A name opens a literal only if it is the prefix of a quote behind it. -/
theorem literalOpening?_of_isName
    (named : isName name = true)
    (stops : ∀ c ∈ later.head?, isIdentifierPart c = false)
    (noPrefix : ∀ quote ∈ later.head?, isQuote quote = true →
      ∀ encoding : EncodingPrefix, encoding.spelling.toList ≠ name) :
    literalOpening? (name ++ later) = none := by
  cases opening : literalOpening? (name ++ later) with
  | none => rfl
  | some found =>
      obtain ⟨encoding, quote, rest⟩ := found
      obtain ⟨equal, quotes⟩ := eq_of_literalOpening? opening
      have spelled : encoding.spelling.toList.all isIdentifierPart = true := by
        cases encoding <;> decide
      have isOne : isQuote quote = true := isQuote_iff.2 quotes
      -- Names and prefixes alike go up to the first character that continues neither.
      have same : name = encoding.spelling.toList := by
        rw [← takeWhile_name (Bool.and_eq_true_iff.1 named).2 stops, equal,
          takeWhile_name spelled (isIdentifierPart_of_isQuote isOne rest)]
      rw [same, List.append_cancel_left_eq] at equal
      exact absurd same.symm (noPrefix quote (by rw [equal]; rfl) isOne encoding)

/-- A name is found in front of anything that neither continues it nor has it as its prefix. -/
theorem munch_of_isName
    (named : isName name = true)
    (stops : ∀ c ∈ later.head?, isIdentifierPart c = false)
    (noPrefix : ∀ quote ∈ later.head?, isQuote quote = true →
      ∀ encoding : EncodingPrefix, encoding.spelling.toList ≠ name) :
    munch (name ++ later) = some (.identifier, name.length) := by
  have unopened := literalOpening?_of_isName named stops noPrefix
  have run := takeWhile_name (Bool.and_eq_true_iff.1 named).2 stops
  cases name with
  | nil => cases named
  | cons c rest =>
      have start : isIdentifierStart c = true := (Bool.and_eq_true_iff.1 named).1
      rw [List.cons_append] at unopened run ⊢
      rw [munch_of_visible (visible_of_isIdentifierStart start _), unopened]
      simp only [start, if_true, run]

theorem munch_name
    (named : isName name = true)
    (ends : EndsName later) :
    munch (name ++ later) = some (.identifier, name.length) := by
  refine munch_of_isName named (fun c first => (ends c first).1) fun quote first isOne => ?_
  rw [(ends quote first).2] at isOne
  cases isOne

/-- The punctuators of a parameter list stand for themselves whatever is behind them. -/
theorem munch_symbol
    {symbol : Punctuator}
    (listed : symbol ∈ [.leftParen, .rightParen, .comma, .ellipsis])
    (later : List Char) :
    munch (symbol.spelling.toList ++ later) =
      some (.punctuator symbol, symbol.spelling.toList.length) := by
  simp only [List.mem_cons, List.not_mem_nil, or_false] at listed
  rcases listed with rfl | rfl | rfl | rfl <;> rfl

/-- A single space stands in front of anything but further white space. -/
theorem munch_space
    (munched : munch later = some (kind, length))
    (notTrivia : kind.isTrivia = false) :
    munch (' ' :: later) = some (.whitespace, 1) := by
  have noBlanks : blankLength later = 0 := by
    cases later with
    | nil => rfl
    | cons c rest =>
        unfold munch at munched
        simp only at munched
        split at munched
        next =>
          cases munched
          cases notTrivia
        next noLength => exact Nat.eq_zero_of_not_pos noLength
  simp [munch, blankLength, isBlank, noBlanks]

/-- A single space in front of a text that starts with something significant. -/
theorem Lexes.whitespace
    (lexes : Lexes back shape)
    (significant : ∀ tokens, shape tokens → Significant tokens) :
    Lexes (' ' :: back) fun tokens =>
      ∃ token behind, tokens = token :: behind ∧ token.kind = .whitespace ∧ shape behind := by
  have found : ∃ kind length, munch back = some (kind, length) ∧ kind.isTrivia = false := by
    obtain ⟨content, ending, yields, ends, _, holds⟩ := lexes (Location.start 0 0)
    generalize whole : content ++ [ending] = tokens at yields
    have notTrivia : Significant tokens := by
      rw [← whole]
      refine (significant content holds).append_ends ?_
      rintro _ ⟨⟩
      rw [Token.isLineEnd, ends]
      rfl
    cases yields with
    | last read _ | step read _ _ =>
        obtain ⟨length, munched, _, _, _⟩ := Lexer.next_eq_ok read
        exact ⟨_, length, munched, notTrivia _ rfl⟩
  obtain ⟨kind, length, munched, notTrivia⟩ := found
  have spaced : munch ([' '] ++ back) = some (.whitespace, 1) := munch_space munched notTrivia
  exact lexes.cons spaced rfl fun token tokens kind _ holds => ⟨token, tokens, rfl, kind, holds⟩

theorem Lexes.space
    (lexes : Lexes back shape)
    (significant : ∀ tokens, shape tokens → Significant tokens) :
    Lexes (' ' :: back) fun tokens =>
      ∃ token behind, tokens = token :: behind ∧ token.isTrivia = true ∧ shape behind := by
  refine (lexes.whitespace significant).mono ?_
  rintro _ ⟨token, behind, rfl, blank, holds⟩
  refine ⟨token, behind, rfl, ?_, holds⟩
  rw [Token.isTrivia, blank]
  rfl

/-- A name in front of something that does not continue it. -/
theorem Lexes.identifier
    (lexes : Lexes back shape)
    (named : isName name = true)
    (ends : EndsName back) :
    Lexes (name ++ back) fun tokens =>
      ∃ token behind, tokens = token :: behind ∧ token.isIdentifier = true ∧
        token.text = String.ofList name ∧ shape behind :=
  lexes.cons (munch_name named ends) rfl fun token tokens kind text holds =>
    ⟨token, tokens, rfl, beq_iff_eq.2 kind, text, holds⟩

/-- A punctuator of a parameter list in front of anything. -/
theorem Lexes.symbol
    {symbol : Punctuator}
    (lexes : Lexes back shape)
    (listed : symbol ∈ [.leftParen, .rightParen, .comma, .ellipsis]) :
    Lexes (symbol.spelling.toList ++ back) fun tokens =>
      ∃ token behind, tokens = token :: behind ∧ token.isPunctuator symbol = true ∧ shape behind :=
  lexes.cons (munch_symbol listed back) rfl fun token tokens kind _ holds =>
    ⟨token, tokens, rfl, beq_iff_eq.2 kind, holds⟩

/-- A content token is found in the respaced text as it was found in the line. -/
theorem Lexer.Yields.munch_respaced
    {after : Lexer}
    {token : Token}
    (yields : after.Yields tokens)
    (noFeed : '\n' ∉ lexer.rest)
    (read : lexer.next = (.ok token, after))
    (content : token.isContent = true) :
    munch (token.text.toList ++ respaced true false tokens) =
      some (token.kind, token.text.toList.length) := by
  obtain ⟨length, munched, text, _, rfl⟩ := next_eq_ok read
  obtain ⟨notTrivia, inLine⟩ : token.kind.isTrivia = false ∧ token.kind.isLineEnd = false := by
    simpa [Token.isContent, Token.isTrivia, Token.isLineEnd] using content
  have resumes : Resumes (lexer.rest.drop length) (respaced true false tokens) :=
    yields.resumes_respaced fun feed => noFeed (List.mem_of_mem_drop feed)
  have taken : (lexer.rest.take length).length = length :=
    List.length_take_of_le (length_le_of_munch munched)
  have munchedFront : munch (lexer.rest.take length ++ lexer.rest.drop length) =
      some (token.kind, (lexer.rest.take length).length) := by
    rw [List.take_append_drop, taken, munched]
  rw [text, String.toList_ofList]
  exact munch_of_resumes munchedFront notTrivia inLine resumes

/--
The respaced text of a line has the content of the line: the same kinds of
tokens with the same spellings.  No space comes before its first token, and
there are no comments between them.
-/
theorem Lexer.Yields.lexes_respaced
    (yields : lexer.Yields tokens)
    (noFeed : '\n' ∉ lexer.rest)
    (started pending : Bool) :
    Lexes (respaced started pending tokens) fun again =>
      ((started || pending) = false → Significant again) ∧
        (∀ token ∈ again, token.isTrivia = true → token.kind = .whitespace) ∧
        (again.filter Token.isContent).map Token.kindAndText =
          (tokens.filter Token.isContent).map Token.kindAndText := by
  induction yields generalizing started pending with
  | last read ends =>
      rw [respaced_last ends, filter_isContent_last ends]
      exact lexes_nil ⟨fun _ => by simp [Significant], by simp, rfl⟩
  | @step lexer after token tokens read continues rest inductionHypothesis =>
      have behind : '\n' ∉ after.rest := by
        obtain ⟨length, _, _, _, rfl⟩ := next_eq_ok read
        exact fun feed => noFeed (List.mem_of_mem_drop feed)
      cases content : token.isContent with
      | true =>
          have munched := rest.munch_respaced noFeed read content
          obtain ⟨notTrivia, inLine⟩ :
              token.kind.isTrivia = false ∧ token.kind.isLineEnd = false := by
            simpa [Token.isContent, Token.isTrivia, Token.isLineEnd] using content
          have lexes : Lexes (token.text.toList ++ respaced true false tokens) fun again =>
              Significant again ∧
                (∀ token ∈ again, token.isTrivia = true → token.kind = .whitespace) ∧
                (again.filter Token.isContent).map Token.kindAndText =
                  ((token :: tokens).filter Token.isContent).map Token.kindAndText := by
            refine (inductionHypothesis behind true false).cons munched inLine ?_
            rintro found again kind text ⟨_, blanks, same⟩
            have contentToo : found.isContent = true := by
              simpa [Token.isContent, Token.isTrivia, Token.isLineEnd, kind] using content
            have noBlank : found.isTrivia = false := by rw [Token.isTrivia, kind, notTrivia]
            refine ⟨significant_cons noBlank again, List.forall_mem_cons.2 ⟨?_, blanks⟩, ?_⟩
            · simp [noBlank]
            · rw [List.filter_cons_of_pos contentToo, List.filter_cons_of_pos content,
                List.map_cons, List.map_cons, same, Token.kindAndText, Token.kindAndText, kind,
                text, String.ofList_toList]
          rw [respaced_content content, List.append_assoc]
          cases pending with
          | false => exact lexes.mono fun again holds => ⟨fun _ => holds.1, holds.2⟩
          | true =>
              refine (lexes.whitespace fun again holds => holds.1).mono ?_
              rintro _ ⟨found, again, rfl, blank, _, blanks, same⟩
              refine ⟨fun neither => absurd neither (by simp),
                List.forall_mem_cons.2 ⟨fun _ => blank, blanks⟩, ?_⟩
              rw [List.filter_cons_of_neg, same]
              simp [Token.isContent, Token.isTrivia, blank, TokenKind.isTrivia]
      | false =>
          rw [respaced_other content, List.filter_cons_of_neg (by simp [content])]
          refine (inductionHypothesis behind started started).mono fun again holds =>
            ⟨fun neither => holds.1 ?_, holds.2⟩
          rw [Bool.or_self]
          exact (Bool.or_eq_false_iff.1 neither).1

/-- The significant text of what a line ends with has the same content. -/
theorem Lexer.Yields.lexes_significantText
    {before : List Token}
    {ending : Token}
    (yields : lexer.Yields (before ++ (tokens ++ [ending])))
    (noFeed : '\n' ∉ lexer.rest)
    (ends : ending.kind = .endOfInput) :
    Lexes (significantText (tokens.filter Token.isContent)).toList fun again =>
      Significant again ∧ (again.filter Token.isContent).map Token.kindAndText =
        (tokens.filter Token.isContent).map Token.kindAndText := by
  obtain ⟨behind, yieldsTokens, suffix⟩ := yields.exists_suffix (by simp)
  have noFeedBehind : '\n' ∉ behind.rest := fun feed => noFeed (suffix.mem feed)
  have text := yieldsTokens.significantText_eq_respaced fun _ content => content
  have respacedTokens := yieldsTokens.lexes_respaced noFeedBehind false false
  rw [← text, List.filter_append, filter_isContent_last ends, List.append_nil] at respacedTokens
  exact respacedTokens.mono fun again holds => ⟨holds.1 rfl, holds.2.2⟩

/-- All ends of the input look the same. -/
theorem Lexer.Yields.kindAndText_of_endOfInput
    {token : Token}
    (yields : lexer.Yields tokens)
    (present : token ∈ tokens)
    (ends : token.kind = .endOfInput) :
    token.kindAndText = (.endOfInput, "") := by
  obtain ⟨before, after, read⟩ := yields.exists_next_of_mem present
  rw [Token.kindAndText, ends, (rest_eq_nil_of_endOfInput read ends).2]

/--
The significant text keeps the tokens of a line.  It makes no difference whether
white space and comments are left out before.  Apart from white space, the
tokens of the significant text are those of the line that are neither white
space nor comments, in their order and up to the end of the input.
-/
theorem tokenize_significantText
    {source : String}
    {file : FileId}
    {line : UInt32}
    (lexed : tokenize source file line = .ok tokens)
    (noFeed : '\n' ∉ source.toList) :
    significantText tokens = significantText (tokens.filter fun token => !token.isTrivia) ∧
      ∀ file line, ∃ again, tokenize (significantText tokens) file line = .ok again ∧
        (again.filter fun token => token.kind != .whitespace).map Token.kindAndText =
          (tokens.filter fun token => !token.isTrivia).map Token.kindAndText := by
  have yields := Lexer.yields_of_tokens _ lexed
  have respacedLine : (significantText tokens).toList = respaced false false tokens := by
    have kept : (significantText (tokens.filter fun _ => true)).toList =
        respaced false false tokens := yields.significantText_eq_respaced fun _ _ => rfl
    rwa [List.filter_eq_self.2 fun _ _ => rfl] at kept
  have respacedContent :
      (significantText (tokens.filter fun token => !token.isTrivia)).toList =
        respaced false false tokens :=
    yields.significantText_eq_respaced fun token content => (Bool.and_eq_true_iff.1 content).1
  refine ⟨String.toList_injective (respacedLine.trans respacedContent.symm), fun file line => ?_⟩
  have lexes := yields.lexes_respaced noFeed false false
  rw [← respacedLine] at lexes
  obtain ⟨content, ending, read, ends, inLine, _, blanks, same⟩ := lexes.tokenize file line
  refine ⟨content ++ [ending], read, ?_⟩
  obtain ⟨before, last, rfl, endsToo, inLineToo⟩ := yields.exists_inLine noFeed
  have onlyBlanks : (content.filter fun token => token.kind != .whitespace) =
      content.filter fun token => !token.isTrivia := by
    refine List.filter_congr fun token present => ?_
    cases trivial : token.isTrivia with
    | true => simp [blanks token present trivial]
    | false =>
        have notBlank : token.kind ≠ .whitespace := by
          intro blank
          simp [Token.isTrivia, blank, TokenKind.isTrivia] at trivial
        simpa using notBlank
  have lastOfAll : ending.kindAndText = last.kindAndText := by
    rw [(Lexer.yields_of_tokens _ read).kindAndText_of_endOfInput (by simp) ends,
      yields.kindAndText_of_endOfInput (by simp) endsToo]
  rw [List.filter_append, filter_isContent_last endsToo, List.append_nil] at same
  rw [List.filter_append, List.filter_append, onlyBlanks, inLine.filter_not_isTrivia,
    inLineToo.filter_not_isTrivia, List.map_append, List.map_append, same]
  simp [Token.isTrivia, ends, endsToo, TokenKind.isTrivia, lastOfAll]

/-- A quote that stays open though the escape behind it is left out together with its comment. -/
theorem tokenize_significantText_open_quote :
    let source := "'a /* \\' */b"
    let tokens : List Token :=
      [⟨.other, "'", ⟨0, 1, 1, 0⟩⟩, ⟨.identifier, "a", ⟨0, 1, 2, 1⟩⟩,
       ⟨.whitespace, " ", ⟨0, 1, 3, 2⟩⟩, ⟨.comment .block, "/* \\' */", ⟨0, 1, 4, 3⟩⟩,
       ⟨.identifier, "b", ⟨0, 1, 12, 11⟩⟩, ⟨.endOfInput, "", ⟨0, 1, 13, 12⟩⟩]
    tokenize source 0 1 = .ok tokens ∧ '\n' ∉ source.toList ∧ significantText tokens = "'a b" ∧
      significantText (tokens.filter fun token => !token.isTrivia) = "'a b" ∧
      ∃ again, tokenize "'a b" 0 1 = .ok again ∧
        (again.filter fun token => token.kind != .whitespace).map Token.kindAndText =
          [(.other, "'"), (.identifier, "a"), (.identifier, "b"), (.endOfInput, "")] := by
  intro source tokens
  have lexed : tokenize source 0 1 = .ok tokens := by decide +kernel
  have noFeed : '\n' ∉ source.toList := by decide
  have text : significantText tokens = "'a b" := by decide +kernel
  obtain ⟨same, again⟩ := tokenize_significantText lexed noFeed
  rw [text] at same again
  exact ⟨lexed, noFeed, text, same.symm, again 0 1⟩

end PreprocessorSyntax
