import PreprocessorSyntax.Proofs.Condition.RoundTrip
import PreprocessorSyntax.Proofs.Depth.Arguments

/-!
# Expressions

An expression may stop in front of a token with which no expression of its level
of precedence goes on.  There every level is read alike with few levels and with
many: an operand is never cut short, because its operator or its parentheses
would have to follow.

The only difference is a primary expression for which a single level is left.  It
cannot call the rule for literals, so it takes `true` and `false` for names.
-/

namespace PreprocessorSyntax

/-- No expression of a level of precedence, or of a tighter one, goes on with such a token. -/
structure Token.Settles (rule : Rule) (token : Token) : Prop where
  /-- A name would follow the operator `defined`. -/
  noName : token.isIdentifier = false
  /-- Operators and parentheses continue an expression. -/
  stops : Stops rule [token]

namespace Token.Settles

variable {rule tighter : Rule} {token : Token}

theorem of_rank_le (settles : token.Settles rule) (order : tighter.rank ≤ rule.rank) :
    token.Settles tighter :=
  ⟨settles.noName, settles.stops.of_rank_le order⟩

theorem of_symbol
    {symbol : Punctuator}
    (isSymbol : token.isPunctuator symbol = true)
    (stops : Stops rule [token]) :
    token.Settles rule :=
  ⟨by simp [Token.isIdentifier, Token.kind_of_isPunctuator isSymbol], stops⟩

theorem of_continued?_eq_none
    {symbol : Punctuator}
    (isSymbol : token.isPunctuator symbol = true)
    (ends : (TokenKind.punctuator symbol).continued? = none) :
    token.Settles rule :=
  of_symbol isSymbol (.of_continued?_eq_none isSymbol ends)

theorem of_operator
    {layer : Layer}
    (isOperator : token.isAnyPunctuator layer.operators = true) :
    token.Settles layer.operand := by
  obtain ⟨symbol, _, isSymbol⟩ := List.any_eq_true.1 isOperator
  exact of_symbol isSymbol (.of_operator isOperator)

end Token.Settles

/-- Whether a primary expression can begin with a token. -/
def Token.opensPrimary (token : Token) : Bool :=
  token.isIdentifier || token.isLiteral || token.isPunctuator .leftParen

/-- Whether the name of a header can begin with a token. -/
def Token.opensHeader (token : Token) : Bool :=
  token.isPunctuator .less || token.kind == .string .none

namespace Token

variable {token : Token}

/-- A sign is not the first token of a primary expression. -/
theorem isSign_eq_false (opens : token.opensPrimary = true) :
    token.isAnyPunctuator Punctuator.signs = false := by
  cases kind : token.kind <;>
    simp_all [opensPrimary, isIdentifier, isLiteral, isPunctuator, isAnyPunctuator,
      Punctuator.signs]

theorem isSign_of_isTrivia (trivial : token.isTrivia = true) :
    token.isAnyPunctuator Punctuator.signs = false := by
  cases kind : token.kind <;>
    simp_all [isTrivia, TokenKind.isTrivia, isPunctuator, isAnyPunctuator]

theorem opensExpression_of_isTrivia (trivial : token.isTrivia = true) :
    token.opensExpression = false := by
  cases kind : token.kind <;>
    simp_all [isTrivia, TokenKind.isTrivia, opensExpression, isIdentifier, isLiteral, isPunctuator,
      isAnyPunctuator]

/-- Whether an expression begins with a punctuator depends on the punctuator alone. -/
theorem opensExpression_of_isPunctuator
    {symbol : Punctuator}
    (isSymbol : token.isPunctuator symbol = true)
    (closed : (symbol == .leftParen || Punctuator.signs.contains symbol) = false) :
    token.opensExpression = false := by
  have kind := kind_of_isPunctuator isSymbol
  cases symbol <;>
    simp_all [opensExpression, isIdentifier, isLiteral, isPunctuator, isAnyPunctuator,
      Punctuator.signs]

theorem opensHeader_of_isPunctuator
    {symbol : Punctuator}
    (isSymbol : token.isPunctuator symbol = true)
    (closed : (symbol == .less) = false) :
    token.opensHeader = false := by
  simpa [opensHeader, isPunctuator, kind_of_isPunctuator isSymbol] using closed

theorem opensHeader_of_isIdentifier (isName : token.isIdentifier = true) :
    token.opensHeader = false := by
  simp [opensHeader, isPunctuator, kind_of_isIdentifier isName]

theorem opensHeader_of_isTrivia (trivial : token.isTrivia = true) : token.opensHeader = false := by
  cases kind : token.kind <;>
    simp_all [isTrivia, TokenKind.isTrivia, opensHeader, isPunctuator]

theorem isTrivia_of_isLiteral (isLiteral : token.isLiteral = true) : token.isTrivia = false := by
  cases kind : token.kind <;> simp_all [Token.isLiteral, isTrivia, TokenKind.isTrivia]

end Token

namespace Pattern

/-- A literal, a test or a macro call. -/
def operand : Pattern :=
  firstOf .literal [.hasIncludeExpression, .definedExpression, .functionlikeMacro]

/-- An expression in parentheses. -/
def group : Pattern :=
  symbol .leftParen ++ trivia ++ .rule .expression ++ trivia ++ symbol .rightParen

/-- Parentheses without anything in them. -/
def emptyGroup : Pattern :=
  symbol .leftParen ++ trivia ++ symbol .rightParen

/-- What a primary expression is otherwise: something in parentheses or a name. -/
def remaining : Pattern :=
  group <|> emptyGroup <|> identifier

theorem primaryExpression_eq : primaryExpression = (operand <|> remaining) := rfl

end Pattern

namespace Grammar

variable {grammar : Grammar} {few levels : Nat} {cursor : Cursor} {second : Pattern}

theorem exists_of_treesAt?_token_trivia
    {accepts : Token → Bool}
    {trees : List Tree}
    {middle : Cursor}
    (read : grammar.treesAt? (.token accepts ++ .trivia) cursor = some (trees, middle)) :
    ∃ token after, cursor.bump? = some (token, after) ∧ middle = after.trivia.2 := by
  obtain ⟨_, after, _, first, skipped, _⟩ := exists_of_treesAt?_append read
  rw [treesAt?_trivia_eq] at skipped
  cases skipped
  obtain ⟨token, found, _⟩ := exists_of_treesAt?_token first
  exact ⟨token, after, found, rfl⟩

/-- Behind a token and white space, a pattern is barren if it is where they end. -/
theorem barren_behind_token
    {accepts : Token → Bool}
    (barren : ∀ token after, cursor.bump? = some (token, after) →
      grammar.Barren levels second after.trivia.2) :
    grammar.Barren levels (.token accepts ++ .trivia ++ second) cursor := by
  refine Barren.behind rfl fun trees middle read => ?_
  obtain ⟨token, after, found, rfl⟩ := exists_of_treesAt?_token_trivia read
  exact barren token after found

section Unmocked

variable (unmocked : grammar.mocked = [])
include unmocked

theorem barren_called
    {rule : Rule}
    (noCall : rule ≠ .somethingContainingParentheses)
    (body : ∀ levels, grammar.Barren levels rule.pattern cursor)
    (levels : Nat) :
    grammar.Barren levels (.rule rule) cursor := by
  refine barren_rule (fun levels => ?_) (fun isCall => absurd isCall noCall) levels
  rw [pattern_eq unmocked]
  exact body levels

theorem barren_literal
    (noLiteral : ∀ token ∈ cursor.rest.head?, token.isLiteral = false)
    (levels : Nat) :
    grammar.Barren levels (.rule .literal) cursor :=
  barren_called unmocked (by simp) (fun _ => barren_token noLiteral) levels

theorem barren_unaryOperator
    (noSign : ∀ token ∈ cursor.rest.head?, token.isAnyPunctuator Punctuator.signs = false)
    (levels : Nat) :
    grammar.Barren levels (.rule .unaryOperator) cursor :=
  barren_called unmocked (by simp) (fun _ => barren_token noSign) levels

theorem barren_hasIncludeExpression_of_head
    (refused : ∀ token ∈ cursor.rest.head?, (token.isIdentifier &&
      ["__has_include", "__has_include_next"].contains token.text) = false)
    (levels : Nat) :
    grammar.Barren levels (.rule .hasIncludeExpression) cursor :=
  barren_called unmocked (by simp)
    (fun _ => (barren_token refused).append.append.append.append.append.append) levels

theorem barren_definedExpression_of_head
    (refused : ∀ token ∈ cursor.rest.head?,
      (token.isIdentifier && ["defined"].contains token.text) = false)
    (levels : Nat) :
    grammar.Barren levels (.rule .definedExpression) cursor :=
  barren_called unmocked (by simp) (fun _ => (barren_token refused).append.append) levels

/-- Where no name begins, no operand begins that is not a literal or in parentheses. -/
theorem barren_named
    (noName : ∀ token ∈ cursor.rest.head?, token.isIdentifier = false)
    (levels : Nat) :
    grammar.Barren levels
      (.firstOf .hasIncludeExpression [.definedExpression, .functionlikeMacro]) cursor := by
  have refused (test : Token → Bool) :
      ∀ token ∈ cursor.rest.head?, (token.isIdentifier && test token) = false :=
    fun token first => by rw [noName token first, Bool.false_and]
  refine Barren.orElse ?_ (Barren.orElse ?_ ?_)
  · exact barren_hasIncludeExpression_of_head unmocked (refused _) levels
  · exact barren_definedExpression_of_head unmocked (refused _) levels
  · exact barren_called unmocked (by simp)
      (fun _ => (barren_token (refused _)).append.append) levels

section Bare

variable (noCall : ∀ token after, cursor.bump? = some (token, after) →
  ∀ next ∈ after.next?, next.isPunctuator .leftParen = false)
include noCall

/-- Where no parenthesis follows a name, it is no macro call. -/
theorem barren_functionlikeMacro (levels : Nat) :
    grammar.Barren levels (.rule .functionlikeMacro) cursor := by
  refine barren_called unmocked (by simp) (fun levels => barren_behind_token ?_) levels
  intro token after found
  refine (barren_token ?_).append.append.append.append
  rw [Cursor.head?_trivia]
  exact noCall token after found

theorem barren_hasIncludeExpression (levels : Nat) :
    grammar.Barren levels (.rule .hasIncludeExpression) cursor := by
  refine barren_called unmocked (by simp) (fun levels =>
    (barren_behind_token ?_).append.append.append.append) levels
  intro token after found
  refine barren_token ?_
  rw [Cursor.head?_trivia]
  exact noCall token after found

/-- Where neither a parenthesis nor a name follows, nothing is tested for being defined. -/
theorem barren_definedExpression
    (noName : ∀ token after, cursor.bump? = some (token, after) →
      ∀ next ∈ after.next?, next.isIdentifier = false)
    (levels : Nat) :
    grammar.Barren levels (.rule .definedExpression) cursor := by
  refine barren_called unmocked (by simp) (fun levels => barren_behind_token ?_) levels
  intro token after found
  refine Barren.orElse (barren_token ?_).append.append.append.append (barren_token ?_)
  · rw [Cursor.head?_trivia]
    exact noCall token after found
  · rw [Cursor.head?_trivia]
    exact noName token after found

end Bare

section Closed

variable (closed : ∀ token ∈ cursor.rest.head?, token.opensExpression = false)
include closed

theorem barren_primaryExpression (levels : Nat) :
    grammar.Barren levels (.rule .primaryExpression) cursor := by
  have parts (token : Token) (first : token ∈ cursor.rest.head?) :
      token.isIdentifier = false ∧ token.isLiteral = false ∧
        token.isPunctuator .leftParen = false := by
    have other := closed token first
    simp only [Token.opensExpression, Bool.or_eq_false_iff] at other
    exact ⟨other.1.1.1, other.1.1.2, other.1.2⟩
  have name := fun token first => (parts token first).1
  have literal := fun token first => (parts token first).2.1
  have opening := fun token first => (parts token first).2.2
  refine barren_called unmocked (by simp) (fun levels => ?_) levels
  refine Barren.orElse ?_ (Barren.orElse ?_ (Barren.orElse ?_ (barren_token name)))
  · exact (barren_literal unmocked literal levels).orElse (barren_named unmocked name levels)
  · exact (barren_token opening).append.append.append.append
  · exact (barren_token opening).append.append

theorem barren_unaryExpression (levels : Nat) :
    grammar.Barren levels (.rule .unaryExpression) cursor := by
  have sign : ∀ token ∈ cursor.rest.head?, token.isAnyPunctuator Punctuator.signs = false :=
    fun token first => (Bool.or_eq_false_iff.1 (closed token first)).2
  refine barren_called unmocked (by simp) (fun levels => ?_) levels
  exact (barren_unaryOperator unmocked sign levels).append.append.orElse
    (barren_primaryExpression unmocked closed levels)

omit closed in
theorem barren_layer
    (layer : Layer)
    (operand : ∀ levels, grammar.Barren levels (.rule layer.operand) cursor)
    (levels : Nat) :
    grammar.Barren levels (.rule layer.rule) cursor := by
  refine barren_called unmocked (by cases layer <;> decide) (fun levels => ?_) levels
  rw [layer.pattern_rule]
  exact (operand levels).append

/-- Where no expression can begin, none is read, of whatever level. -/
theorem barren_expression (levels : Nat) :
    grammar.Barren levels (.rule .expression) cursor := by
  refine barren_layer unmocked .comma (fun levels => ?_) levels
  refine barren_called unmocked (by simp [Layer.operand]) (fun levels => Barren.append ?_) levels
  apply barren_layer unmocked .logicalOr
  apply barren_layer unmocked .logicalAnd
  apply barren_layer unmocked .inclusiveOr
  apply barren_layer unmocked .exclusiveOr
  apply barren_layer unmocked .and
  apply barren_layer unmocked .equality
  apply barren_layer unmocked .relational
  apply barren_layer unmocked .shift
  apply barren_layer unmocked .additive
  apply barren_layer unmocked .multiplicative
  exact barren_unaryExpression unmocked closed

end Closed

/-- A layer is read alike if its operands are. -/
theorem carries_layer
    (layer : Layer)
    (carries : ∀ below, few = below + 1 →
      grammar.Carries below Alike (Before (Token.Settles layer.operand)) (.rule layer.operand)) :
    grammar.Carries few Alike (Before (Token.Settles layer.rule)) (.rule layer.rule) := by
  refine carries_called unmocked fun below isBelow => ?_
  rw [layer.pattern_rule]
  have operand := carries below isBelow
  have item : grammar.Carries below Alike (Before (Token.Settles layer.operand)) layer.item :=
    operand.behind rfl
  have begins : grammar.Begins (Token.isAnyPunctuator layer.operators) layer.item :=
    (mayBegin_trivia.append_begins (begins_token fun token isOperator =>
      ⟨isOperator, isTrivia_of_isAnyPunctuator isOperator⟩)).append.append
  have follows (token : Token) (isOperator : token.isAnyPunctuator layer.operators = true) :
      token.Settles layer.operand := .of_operator isOperator
  have looser : ∀ after later, Before (Token.Settles layer.rule) after later →
      after.Precedes (Token.Settles layer.operand) := fun _ _ settled token next =>
    (settled token next).of_rank_le (Nat.le_of_lt layer.rank_operand_lt)
  have several : grammar.Carries below Alike (Before (Token.Settles layer.rule))
      (.many layer.item) := by
    refine Carries.many item rfl ?_ (fun _ settled => looser _ .empty settled) ?_
    · intro cursor after failures later trees read
      exact begins.precedes follows (derives_of_read (derives_of_readRule below) _ read)
    · intro cursor failures later _ _ settled many _
      refine (barren_trivia_token ?_).append.append
      exact fun token next => (settled token next).stops.isOperator_eq_false token rfl
  exact operand.past several (begins.passes follows).many looser

/-- The alternatives of a choice are read alike if expressions are. -/
theorem carries_conditionalExpression
    (condition : ∀ below, few = below + 1 → grammar.Carries below Alike
      (Before (Token.Settles .logicalOrExpression)) (.rule .logicalOrExpression))
    (accepted : ∀ below, few = below + 1 → grammar.Carries below Alike
      (Before (Token.Settles .expression)) (.rule .expression))
    (refused : ∀ below, few = below + 1 → grammar.Carries below Alike
      (Before (Token.Settles .conditionalExpression)) (.rule .conditionalExpression)) :
    grammar.Carries few Alike (Before (Token.Settles .conditionalExpression))
      (.rule .conditionalExpression) := by
  refine carries_called unmocked fun below isBelow => ?_
  have middle : grammar.Carries below Alike (Before fun token => token.isPunctuator .colon = true)
      (.optional (.rule .expression ++ .trivia)) := by
    refine Carries.optional ((accepted below isBelow).mono ?_).trivia ?_
    · exact fun after _ precedes token next => .of_continued?_eq_none (precedes token next) rfl
    · intro cursor failures later _ _ precedes many _
      have closed : cursor.Precedes fun token => token.opensExpression = false :=
        fun token next => Token.opensExpression_of_isPunctuator (precedes token next) rfl
      exact (barren_expression unmocked
        (closed.head fun _ => Token.opensExpression_of_isTrivia) many).append
  have colon : grammar.Carries below Alike Anywhere
      (.trivia ++ .symbol .question ++ .trivia ++ .optional (.rule .expression ++ .trivia) ++
        .symbol .colon) :=
    (middle.behind rfl).token (fun _ => Token.isTrivia_of_isPunctuator) fun _ isColon => isColon
  have alternatives : grammar.Carries below Alike (Before (Token.Settles .conditionalExpression))
      .alternatives :=
    (colon.andThen (carries_of_calls_eq_nil rfl)).andThen (refused below isBelow)
  have begins : grammar.Begins (Token.isPunctuator .question) .alternatives :=
    (mayBegin_trivia.append_begins (begins_token fun token asks =>
      ⟨asks, Token.isTrivia_of_isPunctuator asks⟩)).append.append.append.append.append
  have follows (token : Token) (asks : token.isPunctuator .question = true) :
      token.Settles .logicalOrExpression :=
    .of_symbol asks (.of_symbol asks (by decide))
  have choice : grammar.Carries below Alike (Before (Token.Settles .conditionalExpression))
      (.optional .alternatives) := by
    refine alternatives.optional ?_
    intro cursor failures later _ _ settled many _
    refine (barren_trivia_token ?_).append.append.append.append.append
    exact fun token next => (settled token next).stops.isQuestion_eq_false token rfl
  refine (condition below isBelow).past choice (begins.passes follows).optional ?_
  exact fun after _ settled token next => (settled token next).of_rank_le (by decide)

theorem begins_primaryExpression :
    grammar.Begins Token.opensPrimary (.rule .primaryExpression) := by
  have name (test : Token → Bool) (named : ∀ token, test token = true → token.isIdentifier = true) :
      grammar.Begins Token.opensPrimary (.token test) :=
    begins_token fun token accepted =>
      ⟨by simp [Token.opensPrimary, named token accepted],
        Token.isTrivia_of_isIdentifier (named token accepted)⟩
  have opening : grammar.Begins Token.opensPrimary (.symbol .leftParen) :=
    begins_token fun token isOpening =>
      ⟨by simp [Token.opensPrimary, isOpening], Token.isTrivia_of_isPunctuator isOpening⟩
  have literal : grammar.Begins Token.opensPrimary (.token Token.isLiteral) :=
    begins_token fun token isLiteral =>
      ⟨by simp [Token.opensPrimary, isLiteral], Token.isTrivia_of_isLiteral isLiteral⟩
  have isName (test : Token → Bool) (token : Token)
      (accepted : (token.isIdentifier && test token) = true) : token.isIdentifier = true :=
    (Bool.and_eq_true_iff.1 accepted).1
  refine begins_rule unmocked (Begins.orElse (Begins.orElse ?_ (Begins.orElse ?_
    (Begins.orElse ?_ ?_))) (Begins.orElse ?_ (Begins.orElse ?_ ?_)))
  · exact begins_rule unmocked literal
  · exact begins_rule unmocked (name _ (isName _)).append.append.append.append.append.append
  · exact begins_rule unmocked (name _ (isName _)).append.append
  · exact begins_rule unmocked (name _ (isName _)).append.append
  · exact opening.append.append.append.append
  · exact opening.append.append
  · exact name _ fun _ isName => isName

/-- Signs are read alike if their operands are. -/
theorem carries_unaryExpression
    (signed : ∀ below, few = below + 1 → grammar.Carries below Alike
      (Before (Token.Settles .unaryExpression)) (.rule .unaryExpression))
    (primary : ∀ below, few = below + 1 → grammar.Carries below Alike
      (Before (Token.Settles .primaryExpression)) (.rule .primaryExpression)) :
    grammar.Carries few Alike (Before (Token.Settles .unaryExpression))
      (.rule .unaryExpression) := by
  refine carries_called unmocked fun below isBelow => ?_
  have operator : grammar.Carries below Alike Anywhere (.rule .unaryOperator ++ .trivia) :=
    Carries.andThen (carries_of_calls_pattern_eq_nil unmocked rfl) (carries_of_calls_eq_nil rfl)
  have operand : grammar.Carries below Alike (Before (Token.Settles .unaryExpression))
      (.rule .primaryExpression) :=
    (primary below isBelow).mono fun after _ settled token next =>
      (settled token next).of_rank_le (by decide)
  refine Carries.orElse (operator.andThen (signed below isBelow)) operand ?_
  intro cursor after failures between later trees _ _ read _ many _
  have noSign : cursor.Precedes fun token => token.isAnyPunctuator Punctuator.signs = false :=
    (begins_primaryExpression unmocked).precedes (fun _ => Token.isSign_eq_false)
      (derives_of_read (derives_of_readRule below) _ read)
  exact (barren_unaryOperator unmocked (noSign.head fun _ => Token.isSign_of_isTrivia)
    many).append.append

/-! ## Primary expressions -/

theorem barren_includeBodyBracketed
    (closed : ∀ token ∈ cursor.rest.head?, token.isPunctuator .less = false)
    (levels : Nat) :
    grammar.Barren levels (.rule .includeBodyBracketed) cursor :=
  barren_called unmocked (by simp) (fun _ => (barren_token closed).append.append) levels

theorem barren_includeBodyQuoted
    (closed : ∀ token ∈ cursor.rest.head?, (token.kind == .string .none) = false)
    (levels : Nat) :
    grammar.Barren levels (.rule .includeBodyQuoted) cursor :=
  barren_called unmocked (by simp) (fun _ => barren_token closed) levels

theorem barren_headerName
    (closed : ∀ token ∈ cursor.rest.head?, token.opensHeader = false)
    (levels : Nat) :
    grammar.Barren levels .headerName cursor := by
  have parts (token : Token) (first : token ∈ cursor.rest.head?) :=
    Bool.or_eq_false_iff.1 (closed token first)
  exact (barren_includeBodyBracketed unmocked (fun token first => (parts token first).1)
    levels).orElse
      (barren_includeBodyQuoted unmocked (fun token first => (parts token first).2) levels)

theorem begins_includeBodyQuoted :
    grammar.Begins (fun token => token.kind == .string .none) (.rule .includeBodyQuoted) := by
  refine begins_rule unmocked (begins_token fun token isString => ⟨isString, ?_⟩)
  rw [Token.isTrivia, beq_iff_eq.1 isString]
  rfl

/-- Header names are read alike, whatever follows them. -/
theorem carries_headerName (stop : Cursor → Failures → Prop) :
    grammar.Carries few Alike stop .headerName := by
  refine Carries.orElse (carries_of_calls_pattern_eq_nil unmocked rfl)
    (carries_of_calls_pattern_eq_nil unmocked rfl) ?_
  intro cursor after failures between later trees _ _ read _ many _
  have closed : cursor.Precedes fun token => token.isPunctuator .less = false := by
    refine (begins_includeBodyQuoted unmocked).precedes (fun token isString => ?_)
      (derives_of_read (derives_of_readRule few) _ read)
    simp [Token.isPunctuator, beq_iff_eq.1 isString]
  refine barren_includeBodyBracketed unmocked (closed.head fun token trivial => ?_) many
  cases kind : token.kind <;> simp_all [Token.isTrivia, TokenKind.isTrivia, Token.isPunctuator]

/-- Tests for headers are read alike, whatever follows them. -/
theorem carries_hasIncludeExpression (stop : Cursor → Failures → Prop) :
    grammar.Carries few Alike stop (.rule .hasIncludeExpression) :=
  carries_called unmocked fun _ _ =>
    (((carries_headerName unmocked _).behind rfl).andThen (carries_of_calls_eq_nil rfl)).andThen
      (carries_of_calls_eq_nil rfl)

/-- With two levels left, a test for a header is read as if there were no limit. -/
theorem faithful_hasIncludeExpression (levels : Nat) :
    grammar.Faithful (levels + 2) .hasIncludeExpression := by
  refine faithful_rule (by simp) fun called mentioned => ?_
  rw [pattern_eq unmocked] at mentioned
  have named : called = .includeBodyBracketed ∨ called = .includeBodyQuoted := by
    simpa [Rule.pattern, Pattern.hasIncludeExpression, Pattern.append_eq, Pattern.calls,
      Pattern.headerName, Pattern.firstOf, Pattern.trivia, Pattern.word, Pattern.symbol]
      using mentioned
  rcases named with rfl | rfl
  · exact faithful_of_calls_eq_nil unmocked (by simp) rfl levels
  · exact faithful_of_calls_eq_nil unmocked (by simp) rfl levels

omit unmocked in
/-- Where no level is left, every rule declines. -/
theorem declines_refused (rule : Rule) (cursor : Cursor) :
    grammar.Declines 0 (.rule rule) cursor := by
  intro failures
  cases known : failures.contains rule cursor.position with
  | true => exact ⟨failures, read_rule_of_none (readRule_of_contains known), .refl _ _⟩
  | false =>
      exact ⟨_, read_rule_of_none (readRule_zero known),
        (AgreeFrom.refl _ _).insert_left (Nat.lt_succ_self _) rule⟩

omit unmocked in
/-- Whatever rule is tried, it needs a level. -/
theorem exists_of_read_firstOf
    {preferred : Rule}
    {others : List Rule}
    {after : Cursor}
    {failures later : Failures}
    {trees : List Tree}
    (read : (Pattern.firstOf preferred others).read (grammar.readRule few) cursor failures =
      (some (trees, after), later)) :
    ∃ below, few = below + 1 := by
  induction others generalizing preferred failures with
  | nil =>
      obtain ⟨_, found, _⟩ := exists_of_read_rule read
      obtain ⟨below, _, isBelow, _⟩ := exists_of_readRule found
      exact ⟨below, isBelow⟩
  | cons next others inductionHypothesis =>
      rcases first : (Pattern.rule preferred).read (grammar.readRule few) cursor failures with
        ⟨_ | ⟨_, _⟩, between⟩
      · exact inductionHypothesis ((read_orElse_of_none first).symm.trans read)
      · obtain ⟨_, found, _⟩ := exists_of_read_rule first
        obtain ⟨below, _, isBelow, _⟩ := exists_of_readRule found
        exact ⟨below, isBelow⟩

/-- A macro call for which a single level is left has no arguments, so it tests for no header. -/
theorem barren_hasIncludeExpression_of_call
    {after : Cursor}
    {failures later : Failures}
    {node : Node}
    (read : grammar.readRule 1 .functionlikeMacro cursor failures = (some (node, after), later))
    (levels : Nat) :
    grammar.Barren levels (.rule .hasIncludeExpression) cursor := by
  obtain ⟨_, _, isBelow, _, body, _⟩ := exists_of_readRule read
  cases isBelow
  rw [pattern_eq unmocked] at body
  obtain ⟨_, _, _, _, front, call, _⟩ := exists_of_read_append body
  rw [read_of_calls_eq_nil grammar rfl, Prod.mk.injEq] at front
  obtain ⟨_, name, foundName, rfl⟩ := exists_of_treesAt?_token_trivia front.1
  obtain ⟨_, _, _, _, inside, closing, _⟩ := exists_of_read_append call
  obtain ⟨_, _, _, _, inside, blanks, _⟩ := exists_of_read_append inside
  obtain ⟨_, _, noted, _, opening, list, _⟩ := exists_of_read_append inside
  rw [read_of_calls_eq_nil grammar rfl, Prod.mk.injEq] at opening
  obtain ⟨_, opened, foundOpening, rfl⟩ := exists_of_treesAt?_token_trivia opening.1
  -- No level is left for a list of arguments, so the closing parenthesis comes next.
  obtain ⟨_, refused, _⟩ : ∃ later, _ ∧ AgreeFrom _ _ _ :=
    declines_refused .argumentList opened.trivia.2 noted
  rw [read_optional_of_none refused] at list
  cases list
  have closes : opened.trivia.2.Precedes fun token => token.isPunctuator .rightParen = true :=
    passes_trivia _ _ _ (derives_of_read (derives_of_readRule 0) _ blanks)
      (Begins.precedes (begins_token fun _ isClosing =>
        ⟨isClosing, Token.isTrivia_of_isPunctuator isClosing⟩) (fun _ isClosing => isClosing)
        (derives_of_read (derives_of_readRule 0) _ closing))
  have header (levels : Nat) : grammar.Barren levels .headerName opened.trivia.2 := by
    refine barren_headerName unmocked (fun token first => ?_) levels
    rw [Cursor.head?_trivia, ← Cursor.next?_trivia] at first
    exact Token.opensHeader_of_isPunctuator (closes token first) rfl
  refine barren_called unmocked (by simp) (fun levels =>
    (Barren.behind rfl fun trees middle read => ?_).append.append) levels
  -- The test for a header would read the same parentheses.
  obtain ⟨_, place, _, inFront, skipped, _⟩ := exists_of_treesAt?_append read
  obtain ⟨_, _, _, operator, parenthesis, _⟩ := exists_of_treesAt?_append inFront
  obtain ⟨_, _, foundOperator, rfl⟩ := exists_of_treesAt?_token_trivia operator
  rw [foundName] at foundOperator
  cases foundOperator
  obtain ⟨_, foundParenthesis, _⟩ := exists_of_treesAt?_token parenthesis
  rw [foundOpening] at foundParenthesis
  cases foundParenthesis
  rw [treesAt?_trivia_eq] at skipped
  cases skipped
  exact header levels

theorem begins_definedExpression :
    grammar.Begins (fun token => token.isIdentifier && ["defined"].contains token.text)
      (.rule .definedExpression) :=
  begins_rule unmocked (begins_token fun _ isOperator => ⟨isOperator,
    Token.isTrivia_of_isIdentifier (Bool.and_eq_true_iff.1 isOperator).1⟩).append.append

theorem begins_functionlikeMacro :
    grammar.Begins (fun token => token.isIdentifier && token.text != "defined")
      (.rule .functionlikeMacro) :=
  begins_rule unmocked (begins_token fun _ isName =>
    ⟨isName, Token.isTrivia_of_isIdentifier (Bool.and_eq_true_iff.1 isName).1⟩).append.append

/-- Literals, tests and macro calls are read alike, whatever follows them. -/
theorem carries_operand (stop : Cursor → Failures → Prop) :
    grammar.Carries few Alike stop .operand := by
  have literal : grammar.Carries few Alike stop (.rule .literal) :=
    carries_of_calls_pattern_eq_nil unmocked rfl
  have defined : grammar.Carries few Alike stop (.rule .definedExpression) :=
    carries_of_calls_pattern_eq_nil unmocked rfl
  have blank (test : Token → Bool) (token : Token) (trivial : token.isTrivia = true) :
      (token.isIdentifier && test token) = false := by
    rw [Token.isIdentifier_of_isTrivia trivial, Bool.false_and]
  refine literal.orElse ((carries_hasIncludeExpression unmocked stop).orElse
    (defined.orElse (carries_functionlikeMacro unmocked stop) ?_) ?_) ?_
  · intro cursor after failures between later trees _ _ read _ many _
    have refused : cursor.Precedes fun token =>
        (token.isIdentifier && ["defined"].contains token.text) = false := by
      refine (begins_functionlikeMacro unmocked).precedes (fun token isName => ?_)
        (derives_of_read (derives_of_readRule few) _ read)
      simp_all
    exact barren_definedExpression_of_head unmocked (refused.head (blank _)) many
  · intro cursor after failures between later trees harmless failed read _ many le
    obtain ⟨below, rfl⟩ := exists_of_read_firstOf read
    cases below with
    | zero =>
        rcases first : (Pattern.rule .definedExpression).read (grammar.readRule 1) cursor between
          with ⟨_ | ⟨_, _⟩, _⟩
        · obtain ⟨_, call, _⟩ := exists_of_read_rule ((read_orElse_of_none first).symm.trans read)
          exact barren_hasIncludeExpression_of_call unmocked call many
        · have refused : cursor.Precedes fun token => (token.isIdentifier &&
              ["__has_include", "__has_include_next"].contains token.text) = false := by
            refine (begins_definedExpression unmocked).precedes (fun token isOperator => ?_)
              (derives_of_read (derives_of_readRule 1) _ first)
            simp_all
          exact barren_hasIncludeExpression_of_head unmocked (refused.head (blank _)) many
    | succ below =>
        refine barren_of_readRule_eq_none (fun many le => ?_) harmless
          (readRule_eq_none_of_read failed) many le
        obtain ⟨levels, rfl⟩ : ∃ levels, many = levels + 2 := ⟨many - 2, by omega⟩
        exact faithful_hasIncludeExpression unmocked levels
  · intro cursor after failures between later trees harmless failed read _ many le
    obtain ⟨below, rfl⟩ := exists_of_read_firstOf read
    refine barren_of_readRule_eq_none (fun many le => ?_) harmless
      (readRule_eq_none_of_read failed) many le
    obtain ⟨levels, rfl⟩ : ∃ levels, many = levels + 1 := ⟨many - 1, by omega⟩
    exact faithful_of_calls_eq_nil unmocked (by simp) rfl levels

/-- In front of a parenthesis no operand begins that is a literal or a name. -/
theorem barren_operand_of_parenthesis
    (opening : cursor.Precedes fun token => token.isPunctuator .leftParen = true)
    (levels : Nat) :
    grammar.Barren levels .operand cursor := by
  have other : cursor.Precedes fun token =>
      token.isLiteral = false ∧ token.isIdentifier = false := by
    intro token next
    have kind := Token.kind_of_isPunctuator (opening token next)
    exact ⟨by simp [Token.isLiteral, kind], by simp [Token.isIdentifier, kind]⟩
  have first := other.head fun token trivial => by
    cases kind : token.kind <;>
      simp_all [Token.isTrivia, TokenKind.isTrivia, Token.isLiteral, Token.isIdentifier]
  exact (barren_literal unmocked (fun token here => (first token here).1) levels).orElse
    (barren_named unmocked (fun token here => (first token here).2) levels)

/-- A name that is no literal is no other operand if neither a parenthesis nor a name follows. -/
theorem barren_operand_of_name
    {token : Token}
    {after : Cursor}
    (found : cursor.bump? = some (token, after))
    (noLiteral : token.isLiteral = false)
    (settled : after.Precedes (Token.Settles .primaryExpression))
    (levels : Nat) :
    grammar.Barren levels .operand cursor := by
  have noCall : ∀ token after, cursor.bump? = some (token, after) →
      ∀ next ∈ after.next?, next.isPunctuator .leftParen = false := by
    intro token after other next follows
    rw [found] at other
    cases other
    exact (settled next follows).stops.isLeftParen_eq_false next rfl
  have noName : ∀ token after, cursor.bump? = some (token, after) →
      ∀ next ∈ after.next?, next.isIdentifier = false := by
    intro token after other next follows
    rw [found] at other
    cases other
    exact (settled next follows).noName
  have first : ∀ other ∈ cursor.rest.head?, other.isLiteral = false := by
    intro other here
    rw [(Cursor.advances_of_bump? found).rest] at here
    cases here
    exact noLiteral
  refine (barren_literal unmocked first levels).orElse (Barren.orElse ?_ (Barren.orElse ?_ ?_))
  · exact barren_hasIncludeExpression unmocked noCall levels
  · exact barren_definedExpression unmocked noCall noName levels
  · exact barren_functionlikeMacro unmocked noCall levels

/-- With a level left for it, the rule for literals reads a literal. -/
theorem read_operand_of_literal
    {token : Token}
    {after : Cursor}
    {failures : Failures}
    (found : cursor.bump? = some (token, after))
    (isLiteral : token.isLiteral = true)
    (harmless : grammar.Harmless cursor failures)
    (levels : Nat) :
    Pattern.operand.read (grammar.readRule (levels + 1)) cursor failures =
      (some ([.node .literal [.leaf token]], after), failures) := by
  have treesAt : grammar.treesAt? (grammar.pattern .literal) cursor =
      some ([.leaf token], after) := by
    rw [pattern_eq unmocked, treesAt?]
    simp [Rule.pattern, Pattern.read, found, isLiteral]
  have unknown : failures.contains .literal cursor.position = false := by
    refine harmless.contains_eq_false fun hopeless => ?_
    have failed := hopeless.1
    rw [nodeAt?_eq, treesAt] at failed
    cases failed
  have callsNone : (grammar.pattern .literal).calls = [] := by
    rw [pattern_eq unmocked]
    rfl
  exact read_orElse_of_some (read_rule_of_some (readRule_of_treesAt? callsNone unknown treesAt))

omit unmocked in
/-- Where no level is left, there are only names, and parentheses without anything in them. -/
theorem read_primaryExpression_refused
    {token : Token}
    {after : Cursor}
    (found : cursor.bump? = some (token, after))
    (isName : token.isIdentifier = true)
    (failures : Failures) :
    ∃ later, Pattern.primaryExpression.read (grammar.readRule 0) cursor failures =
        (some ([.leaf token], after), later) ∧
      AgreeFrom (cursor.position + 1) later failures := by
  have noParenthesis : grammar.treesAt? (.symbol .leftParen) cursor = none := by
    simp [treesAt?, Pattern.symbol, Pattern.read, found, Token.isPunctuator,
      Token.kind_of_isIdentifier isName]
  have opening : grammar.Declines 0 (.symbol .leftParen) cursor :=
    declines_of_calls_eq_nil rfl noParenthesis
  have operand : grammar.Declines 0 .operand cursor :=
    declines_firstOf fun rule _ => declines_refused rule cursor
  obtain ⟨first, failedOperand, agreeFirst⟩ := operand failures
  obtain ⟨second, failedGroup, agreeSecond⟩ : ∃ later,
      Pattern.group.read (grammar.readRule 0) cursor first = (none, later) ∧
        AgreeFrom (cursor.position + 1) later first :=
    opening.append.append.append.append first
  obtain ⟨third, failedEmpty, agreeThird⟩ : ∃ later,
      Pattern.emptyGroup.read (grammar.readRule 0) cursor second = (none, later) ∧
        AgreeFrom (cursor.position + 1) later second :=
    opening.append.append second
  refine ⟨third, ?_, (agreeThird.trans agreeSecond).trans agreeFirst⟩
  rw [Pattern.primaryExpression_eq, read_orElse_of_none failedOperand, Pattern.remaining,
    read_orElse_of_none failedGroup, read_orElse_of_none failedEmpty]
  simp [Pattern.identifier, Pattern.read, found, isName]

/-- What is in parentheses is read alike if expressions are, and so are names. -/
theorem carries_remaining
    {stop : Cursor → Failures → Prop}
    (carries : grammar.Carries few Alike (Before (Token.Settles .expression))
      (.rule .expression)) :
    grammar.Carries few Alike stop .remaining := by
  have group : grammar.Carries few Alike stop .group :=
    (carries.behind rfl).trivia.token (fun _ => Token.isTrivia_of_isPunctuator)
      fun _ isClosing => .of_continued?_eq_none isClosing rfl
  have empty : grammar.Carries few Alike stop .emptyGroup := carries_of_calls_eq_nil rfl
  have name : grammar.Carries few Alike stop .identifier := carries_of_calls_eq_nil rfl
  -- Parentheses are not the first token of a name.
  have noParenthesis {cursor after : Cursor} {failures later : Failures} {trees : List Tree}
      (read : Pattern.identifier.read (grammar.readRule few) cursor failures =
        (some (trees, after), later)) :
      ∀ token ∈ cursor.rest.head?, token.isPunctuator .leftParen = false := by
    rw [read_of_calls_eq_nil grammar rfl, Prod.mk.injEq] at read
    obtain ⟨token, found, isName, _⟩ := exists_of_treesAt?_token read.1
    intro other here
    rw [(Cursor.advances_of_bump? found).rest] at here
    cases here
    simp [Token.isPunctuator, Token.kind_of_isIdentifier isName]
  refine group.orElse (empty.orElse name ?_) ?_
  · intro cursor after failures between later trees _ _ read _ many _
    exact (barren_token (noParenthesis read)).append.append
  · intro cursor after failures between later trees _ _ read _ many _
    rcases first : Pattern.emptyGroup.read (grammar.readRule few) cursor between with
      ⟨_ | ⟨_, _⟩, _⟩
    · rw [read_orElse_of_none first] at read
      exact (barren_token (noParenthesis read)).append.append.append.append
    · -- Between the same parentheses there is no expression.
      rw [read_of_calls_eq_nil grammar rfl, Prod.mk.injEq] at first
      obtain ⟨_, _, _, front, closing, _⟩ := exists_of_treesAt?_append first.1
      obtain ⟨_, opened, foundOpening, rfl⟩ := exists_of_treesAt?_token_trivia front
      obtain ⟨last, foundClosing, isClosing, _⟩ := exists_of_treesAt?_token closing
      refine (barren_behind_token fun token behind found => ?_).append.append
      rw [foundOpening] at found
      cases found
      refine barren_expression unmocked (fun token here => ?_) many
      rw [(Cursor.advances_of_bump? foundClosing).rest] at here
      cases here
      exact Token.opensExpression_of_isPunctuator isClosing rfl

/-- A literal that is spelled like a name is read alike with any number of levels. -/
theorem exists_of_literalName
    {token : Token}
    {after : Cursor}
    {failures : Failures}
    (found : cursor.bump? = some (token, after))
    (isName : token.isIdentifier = true)
    (isLiteral : token.isLiteral = true)
    (harmless : grammar.Harmless cursor failures)
    (levels : Nat) :
    ∃ trees later, Pattern.primaryExpression.read (grammar.readRule levels) cursor failures =
        (some (trees, after), later) ∧
      Rule.primaryExpression.Alike [.leaf token] trees ∧ grammar.Harmless after later := by
  have advances := Cursor.advances_of_bump? found
  have further : cursor.position + 1 ≤ after.position := Nat.le_of_eq advances.position.symm
  cases levels with
  | zero =>
      obtain ⟨later, read, agree⟩ := read_primaryExpression_refused found isName failures
      exact ⟨_, later, read, Alike.build (.refl _),
        (harmless.advance advances).of_agreeFrom agree further⟩
  | succ levels =>
      exact ⟨_, failures,
        read_orElse_of_some (read_operand_of_literal unmocked found isLiteral harmless levels),
        alike_literal isLiteral, harmless.advance advances⟩

omit unmocked in
/-- What remains begins with a parenthesis or is a name. -/
theorem cases_of_read_remaining
    {after : Cursor}
    {failures later : Failures}
    {trees : List Tree}
    (read : Pattern.remaining.read (grammar.readRule few) cursor failures =
      (some (trees, after), later)) :
    (cursor.Precedes fun token => token.isPunctuator .leftParen = true) ∨
      ∃ token, cursor.bump? = some (token, after) ∧ token.isIdentifier = true ∧
        trees = [.leaf token] := by
  have opening : grammar.Begins (Token.isPunctuator .leftParen) (.symbol .leftParen) :=
    begins_token fun _ isOpening => ⟨isOpening, Token.isTrivia_of_isPunctuator isOpening⟩
  cases derives_of_read (derives_of_readRule few) .remaining read with
  | preferred group =>
      exact .inl (opening.append.append.append.append.precedes (fun _ isOpening => isOpening) group)
  | alternative derived =>
      cases derived with
      | preferred empty =>
          exact .inl (opening.append.append.precedes (fun _ isOpening => isOpening) empty)
      | alternative name =>
          cases name with
          | token found isName => exact .inr ⟨_, found, isName, rfl⟩

/-- Primary expressions are read alike if expressions are, but literals may lack a node. -/
theorem carries_primaryExpression
    (carries : ∀ below, few = below + 1 → grammar.Carries below Alike
      (Before (Token.Settles .expression)) (.rule .expression)) :
    grammar.Carries few Alike (Before (Token.Settles .primaryExpression))
      (.rule .primaryExpression) := by
  refine carries_rule fun below isBelow => ?_
  rw [pattern_eq unmocked]
  intro many cursor after failures others later trees le harmless harmlessToo read settled
  have build : ∀ trees others, Alike trees others → Rule.primaryExpression.Alike trees others :=
    fun _ _ => Alike.build
  have remaining : grammar.Carries below Rule.primaryExpression.Alike
      (Before (Token.Settles .primaryExpression)) .remaining :=
    (carries_remaining unmocked (carries below isBelow)).weaken build
  rcases front : Pattern.operand.read (grammar.readRule below) cursor failures with
    ⟨_ | found, between⟩
  · have rest := (read_orElse_of_none front).symm.trans read
    rcases cases_of_read_remaining rest with opening | ⟨token, found, isName, rfl⟩
    · exact remaining.orElse_right le harmless harmlessToo
        (fun many _ => barren_operand_of_parenthesis unmocked opening many) read settled
    · cases isLiteral : token.isLiteral with
      | true => exact exists_of_literalName unmocked found isName isLiteral harmlessToo many
      | false =>
          exact remaining.orElse_right le harmless harmlessToo
            (fun many _ => barren_operand_of_name unmocked found isLiteral settled many) read
            settled
  · have chosen := (read_orElse_of_some front).symm.trans read
    rw [chosen] at front
    obtain ⟨more, last, readMany, alike, harmlessLast⟩ :=
      carries_operand unmocked _ le harmless harmlessToo front settled
    exact ⟨more, last, read_orElse_of_some readMany, build _ _ alike, harmlessLast⟩

/-- Expressions of every level are read alike where they end. -/
theorem carries_expressions (few : Nat) :
    ∀ rule ∈ Rule.expressions,
      grammar.Carries few Alike (Before (Token.Settles rule)) (.rule rule) := by
  induction few using Nat.strong_induction_on with
  | h few inductionHypothesis =>
    have operand (rule : Rule) (listed : rule ∈ Rule.expressions) (below : Nat)
        (isBelow : few = below + 1) :
        grammar.Carries below Alike (Before (Token.Settles rule)) (.rule rule) :=
      inductionHypothesis below (by omega) rule listed
    intro rule listed
    rcases Rule.kind_of_mem_expressions listed with ⟨layer, rfl⟩ | rfl | rfl | rfl
    · exact carries_layer unmocked layer (operand layer.operand (by cases layer <;> decide))
    · exact carries_conditionalExpression unmocked (operand _ (by decide)) (operand _ (by decide))
        (operand _ (by decide))
    · exact carries_unaryExpression unmocked (operand _ (by decide)) (operand _ (by decide))
    · exact carries_primaryExpression unmocked (operand _ (by decide))

/-- So are conditions. -/
theorem carries_constantExpression (few : Nat) :
    grammar.Carries few Alike (Before (Token.Settles .conditionalExpression))
      (.rule .constantExpression) :=
  carries_called unmocked fun below _ =>
    carries_expressions unmocked below .conditionalExpression (by decide)

end Unmocked
end Grammar
end PreprocessorSyntax
