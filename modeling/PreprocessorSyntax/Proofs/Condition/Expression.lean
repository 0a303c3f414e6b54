import PreprocessorSyntax.Proofs.Grammar.Reading

/-!
# The trees of constant expressions

`Expresses` describes, without reference to reading, which trees stand for an
expression of some level of precedence.  A level at which no operator occurs
leaves no node behind.  Two facts about the tokens around such a tree decide
that it is read back: with which tokens it can begin, and which tokens behind it
would make it go on.
-/

namespace PreprocessorSyntax

/-- The levels with operators between operands, from the loosest to the tightest one. -/
inductive Layer where
  | comma
  | logicalOr
  | logicalAnd
  | inclusiveOr
  | exclusiveOr
  | and
  | equality
  | relational
  | shift
  | additive
  | multiplicative

namespace Layer

/-- The rule for a layer. -/
def rule : Layer → Rule
  | .comma => .expression
  | .logicalOr => .logicalOrExpression
  | .logicalAnd => .logicalAndExpression
  | .inclusiveOr => .inclusiveOrExpression
  | .exclusiveOr => .exclusiveOrExpression
  | .and => .andExpression
  | .equality => .equalityExpression
  | .relational => .relationalExpression
  | .shift => .shiftExpression
  | .additive => .additiveExpression
  | .multiplicative => .multiplicativeExpression

/-- The rule for the operands of a layer. -/
def operand : Layer → Rule
  | .comma => .conditionalExpression
  | .logicalOr => .logicalAndExpression
  | .logicalAnd => .inclusiveOrExpression
  | .inclusiveOr => .exclusiveOrExpression
  | .exclusiveOr => .andExpression
  | .and => .equalityExpression
  | .equality => .relationalExpression
  | .relational => .shiftExpression
  | .shift => .additiveExpression
  | .additive => .multiplicativeExpression
  | .multiplicative => .unaryExpression

/-- The operators of a layer. -/
def operators : Layer → List Punctuator
  | .comma => [.comma]
  | .logicalOr => [.pipePipe]
  | .logicalAnd => [.ampAmp]
  | .inclusiveOr => [.pipe]
  | .exclusiveOr => [.caret]
  | .and => [.amp]
  | .equality => [.equalEqual, .bangEqual]
  | .relational => [.less, .greater, .lessEqual, .greaterEqual]
  | .shift => [.lessLess, .greaterGreater]
  | .additive => [.plus, .minus]
  | .multiplicative => [.star, .slash, .percent]

theorem pattern_rule (layer : Layer) :
    layer.rule.pattern = .layer layer.operand layer.operators := by
  cases layer <;> rfl

theorem collapses_rule (layer : Layer) : layer.rule.collapses = true := by
  cases layer <;> rfl

theorem rank_operand_lt (layer : Layer) : layer.operand.rank < layer.rule.rank := by
  cases layer <;> decide

theorem rule_ne_primaryExpression (layer : Layer) : layer.rule ≠ .primaryExpression := by
  cases layer <;> decide

end Layer

/-- The operators in front of an operand. -/
def Punctuator.signs : List Punctuator :=
  [.plus, .minus, .bang, .tilde]

/-- The identifiers that are not plain names in an expression. -/
def reservedWords : List String :=
  ["defined", "true", "false", "__has_include", "__has_include_next"]

/-- Operators and operands behind the first operand of a layer. -/
def furtherOperands (others : List (Token × Tree)) : List Tree :=
  others.flatMap fun other => [.leaf other.1, other.2]

/-- A tree without white space and comments that stands for an expression of some level. -/
inductive Expresses : Rule → Tree → Prop where
  | literal
      {token : Token}
      (isLiteral : token.isLiteral = true) :
      Expresses .primaryExpression (.node .primaryExpression [.node .literal [.leaf token]])
  | name
      {token : Token}
      (isIdentifier : token.isIdentifier = true)
      (plain : token.text ∉ reservedWords) :
      Expresses .primaryExpression (.node .primaryExpression [.leaf token])
  | definedName
      {operator name : Token}
      (isOperator : operator.isWord "defined" = true)
      (isName : name.isIdentifier = true) :
      Expresses .primaryExpression
        (.node .primaryExpression [.node .definedExpression [.leaf operator, .leaf name]])
  | definedInParentheses
      {operator opening name closing : Token}
      (isOperator : operator.isWord "defined" = true)
      (opens : opening.isPunctuator .leftParen = true)
      (isName : name.isIdentifier = true)
      (closes : closing.isPunctuator .rightParen = true) :
      Expresses .primaryExpression
        (.node .primaryExpression
          [.node .definedExpression [.leaf operator, .leaf opening, .leaf name, .leaf closing]])
  | group
      {opening closing : Token}
      {tree : Tree}
      (opens : opening.isPunctuator .leftParen = true)
      (inner : Expresses .expression tree)
      (closes : closing.isPunctuator .rightParen = true) :
      Expresses .primaryExpression
        (.node .primaryExpression [.leaf opening, tree, .leaf closing])
  | primary
      {tree : Tree}
      (primary : Expresses .primaryExpression tree) :
      Expresses .unaryExpression tree
  | signed
      {sign : Token}
      {tree : Tree}
      (isSign : sign.isAnyPunctuator Punctuator.signs = true)
      (operand : Expresses .unaryExpression tree) :
      Expresses .unaryExpression
        (.node .unaryExpression [.node .unaryOperator [.leaf sign], tree])
  | single
      {tree : Tree}
      (layer : Layer)
      (operand : Expresses layer.operand tree) :
      Expresses layer.rule tree
  | joined
      {first : Tree}
      {others : List (Token × Tree)}
      (layer : Layer)
      (front : Expresses layer.operand first)
      (several : others ≠ [])
      (operators : ∀ other ∈ others, other.1.isAnyPunctuator layer.operators = true)
      (operands : ∀ other ∈ others, Expresses layer.operand other.2) :
      Expresses layer.rule (.node layer.rule (first :: furtherOperands others))
  | unconditional
      {tree : Tree}
      (condition : Expresses .logicalOrExpression tree) :
      Expresses .conditionalExpression tree
  | choice
      {question colon : Token}
      {condition middle last : Tree}
      (holds : Expresses .logicalOrExpression condition)
      (asks : question.isPunctuator .question = true)
      (accepted : Expresses .expression middle)
      (separates : colon.isPunctuator .colon = true)
      (refused : Expresses .conditionalExpression last) :
      Expresses .conditionalExpression
        (.node .conditionalExpression [condition, .leaf question, middle, .leaf colon, last])
  | shortChoice
      {question colon : Token}
      {condition last : Tree}
      (holds : Expresses .logicalOrExpression condition)
      (asks : question.isPunctuator .question = true)
      (separates : colon.isPunctuator .colon = true)
      (refused : Expresses .conditionalExpression last) :
      Expresses .conditionalExpression
        (.node .conditionalExpression [condition, .leaf question, .leaf colon, last])

/-- An expression is never a bare token. -/
theorem Expresses.exists_node
    {rule : Rule}
    {tree : Tree}
    (expresses : Expresses rule tree) :
    ∃ inner children, tree = .node inner children := by
  induction expresses with
  | primary _ inductionHypothesis => exact inductionHypothesis
  | single _ _ inductionHypothesis => exact inductionHypothesis
  | unconditional _ inductionHypothesis => exact inductionHypothesis
  | _ => exact ⟨_, _, rfl⟩

/-- Whether an expression can begin with a token. -/
def Token.opensExpression (token : Token) : Bool :=
  token.isIdentifier || token.isLiteral || token.isPunctuator .leftParen ||
    token.isAnyPunctuator Punctuator.signs

/-- Some tokens begin as an expression does. -/
def Opens (tokens : List Token) : Prop :=
  ∃ token rest, tokens = token :: rest ∧ token.opensExpression = true

theorem Opens.append {tokens : List Token} (opens : Opens tokens) (further : List Token) :
    Opens (tokens ++ further) := by
  obtain ⟨token, rest, rfl, opening⟩ := opens
  exact ⟨token, rest ++ further, rfl, opening⟩

/-- No expression begins with white space or a comment. -/
theorem Opens.significant {tokens : List Token} (opens : Opens tokens) : Significant tokens := by
  obtain ⟨token, rest, rfl, opening⟩ := opens
  apply significant_cons
  cases kind : token.kind <;>
    simp_all [Token.opensExpression, Token.isTrivia, TokenKind.isTrivia, Token.isIdentifier,
      Token.isLiteral, Token.isPunctuator, Token.isAnyPunctuator]

theorem Expresses.opens
    {rule : Rule}
    {tree : Tree}
    (expresses : Expresses rule tree) :
    Opens tree.tokens := by
  induction expresses with
  | literal isLiteral => exact ⟨_, _, rfl, by simp [Token.opensExpression, isLiteral]⟩
  | name isIdentifier _ => exact ⟨_, _, rfl, by simp [Token.opensExpression, isIdentifier]⟩
  | definedName isOperator _ =>
      have isIdentifier := (Bool.and_eq_true_iff.1 isOperator).1
      exact ⟨_, _, rfl, by simp [Token.opensExpression, isIdentifier]⟩
  | definedInParentheses isOperator _ _ _ =>
      have isIdentifier := (Bool.and_eq_true_iff.1 isOperator).1
      exact ⟨_, _, rfl, by simp [Token.opensExpression, isIdentifier]⟩
  | group opens _ _ _ => exact ⟨_, _, rfl, by simp [Token.opensExpression, opens]⟩
  | primary _ inductionHypothesis => exact inductionHypothesis
  | signed isSign _ _ => exact ⟨_, _, rfl, by simp [Token.opensExpression, isSign]⟩
  | single _ _ inductionHypothesis => exact inductionHypothesis
  | joined _ _ _ _ _ frontHypothesis _ =>
      rw [Tree.tokens_node, Tree.tokensOf_cons]
      exact frontHypothesis.append _
  | unconditional _ inductionHypothesis => exact inductionHypothesis
  | choice _ _ _ _ _ conditionHypothesis _ _ =>
      rw [Tree.tokens_node, Tree.tokensOf_cons]
      exact conditionHypothesis.append _
  | shortChoice _ _ _ _ conditionHypothesis _ =>
      rw [Tree.tokens_node, Tree.tokensOf_cons]
      exact conditionHypothesis.append _

/-- A primary expression does not begin with a sign. -/
theorem Expresses.not_sign
    {tree : Tree}
    (expresses : Expresses .primaryExpression tree) :
    ∀ token ∈ tree.tokens.head?, token.isAnyPunctuator Punctuator.signs = false := by
  generalize level : Rule.primaryExpression = rule at expresses
  intro token here
  cases expresses with
  | single layer _ => exact absurd level.symm layer.rule_ne_primaryExpression
  | joined layer _ _ _ _ => exact absurd level.symm layer.rule_ne_primaryExpression
  | literal isLiteral =>
      cases here
      cases kind : token.kind <;>
        simp_all [Token.isLiteral, Token.isAnyPunctuator, Token.isPunctuator]
  | name isIdentifier _ =>
      cases here
      simp_all [Token.isIdentifier, Token.isAnyPunctuator, Token.isPunctuator]
  | definedName isOperator _ =>
      cases here
      simp_all [Token.isWord, Token.isIdentifier, Token.isAnyPunctuator, Token.isPunctuator]
  | definedInParentheses isOperator _ _ _ =>
      cases here
      simp_all [Token.isWord, Token.isIdentifier, Token.isAnyPunctuator, Token.isPunctuator]
  | group opens _ _ =>
      cases here
      simp_all [Token.isAnyPunctuator, Token.isPunctuator, Punctuator.signs]
  | _ => cases level

/--
The loosest rule whose nodes go on where such a token follows.  White space,
comments and opening parentheses may make a macro call of a name.
-/
def TokenKind.continued? : TokenKind → Option Rule
  | .whitespace => some .functionlikeMacro
  | .comment _ => some .functionlikeMacro
  | .punctuator .leftParen => some .functionlikeMacro
  | .punctuator .star => some .multiplicativeExpression
  | .punctuator .slash => some .multiplicativeExpression
  | .punctuator .percent => some .multiplicativeExpression
  | .punctuator .plus => some .additiveExpression
  | .punctuator .minus => some .additiveExpression
  | .punctuator .lessLess => some .shiftExpression
  | .punctuator .greaterGreater => some .shiftExpression
  | .punctuator .less => some .relationalExpression
  | .punctuator .greater => some .relationalExpression
  | .punctuator .lessEqual => some .relationalExpression
  | .punctuator .greaterEqual => some .relationalExpression
  | .punctuator .equalEqual => some .equalityExpression
  | .punctuator .bangEqual => some .equalityExpression
  | .punctuator .amp => some .andExpression
  | .punctuator .caret => some .exclusiveOrExpression
  | .punctuator .pipe => some .inclusiveOrExpression
  | .punctuator .ampAmp => some .logicalAndExpression
  | .punctuator .pipePipe => some .logicalOrExpression
  | .punctuator .question => some .conditionalExpression
  | .punctuator .comma => some .expression
  | _ => none

/-- No node of a rule, or of a tighter one, goes on in front of some tokens. -/
def Stops (rule : Rule) (rest : List Token) : Prop :=
  ∀ token ∈ rest.head?, ∀ continued ∈ token.kind.continued?, rule.rank < continued.rank

/-- What may stand behind a condition: the two expressions to choose from. -/
def Pattern.alternatives : Pattern :=
  .trivia ++ .symbol .question ++ .trivia ++ .optional (.rule .expression ++ .trivia) ++
    .symbol .colon ++ .trivia ++ .rule .conditionalExpression

/-- What a layer repeats: an operator and the operand behind it. -/
def Layer.item (layer : Layer) : Pattern :=
  .trivia ++ .token (Token.isAnyPunctuator layer.operators) ++ .trivia ++ .rule layer.operand

/-- The operators of a layer continue its nodes. -/
theorem Layer.continued?_operator
    {layer : Layer}
    {token : Token}
    (isOperator : token.isAnyPunctuator layer.operators = true) :
    token.kind.continued? = some layer.rule := by
  obtain ⟨symbol, listed, isSymbol⟩ := List.any_eq_true.1 isOperator
  rw [Token.kind_of_isPunctuator isSymbol]
  cases layer <;>
    simp only [operators, List.mem_cons, List.not_mem_nil, or_false] at listed <;>
    rcases listed with rfl | rfl | rfl | rfl <;>
    rfl

namespace Stops

variable {rule tighter : Rule} {token : Token} {rest : List Token}

theorem of_rank_le (stops : Stops rule rest) (order : tighter.rank ≤ rule.rank) :
    Stops tighter rest := by
  intro token here continued continues
  exact Nat.lt_of_le_of_lt order (stops token here continued continues)

theorem of_symbol
    {symbol : Punctuator}
    (isSymbol : token.isPunctuator symbol = true)
    (stops : ∀ continued ∈ (TokenKind.punctuator symbol).continued?, rule.rank < continued.rank) :
    Stops rule (token :: rest) := by
  intro found here
  cases here
  rw [Token.kind_of_isPunctuator isSymbol]
  exact stops

/-- A token with which no node goes on stops all of them. -/
theorem of_continued?_eq_none
    {symbol : Punctuator}
    (isSymbol : token.isPunctuator symbol = true)
    (ends : (TokenKind.punctuator symbol).continued? = none) :
    Stops rule (token :: rest) := by
  apply of_symbol isSymbol
  rw [ends]
  rintro _ ⟨⟩

theorem of_operator
    {layer : Layer}
    (isOperator : token.isAnyPunctuator layer.operators = true) :
    Stops layer.operand (token :: rest) := by
  intro found here continued continues
  cases here
  rw [Layer.continued?_operator isOperator] at continues
  cases continues
  exact layer.rank_operand_lt

/-- A token with which nodes of the rule would go on does not follow. -/
theorem refuses
    {accepts : Token → Bool}
    (stops : Stops rule rest)
    (goesOn : ∀ token, accepts token = true →
      ∃ continued ∈ token.kind.continued?, continued.rank ≤ rule.rank) :
    ∀ token ∈ rest.head?, accepts token = false := by
  intro token here
  rw [Bool.eq_false_iff]
  intro accepted
  obtain ⟨continued, continues, order⟩ := goesOn token accepted
  have bound := stops token here continued continues
  omega

theorem significant (stops : Stops rule rest) : Significant rest := by
  apply stops.refuses
  intro token trivial
  refine ⟨.functionlikeMacro, ?_, Nat.zero_le _⟩
  unfold Token.isTrivia at trivial
  cases kind : token.kind <;> rw [kind] at trivial <;> first | contradiction | rfl

theorem isLeftParen_eq_false (stops : Stops rule rest) :
    ∀ token ∈ rest.head?, token.isPunctuator .leftParen = false := by
  apply stops.refuses
  intro token opens
  refine ⟨.functionlikeMacro, ?_, Nat.zero_le _⟩
  rw [Token.kind_of_isPunctuator opens]
  rfl

theorem isQuestion_eq_false (stops : Stops .conditionalExpression rest) :
    ∀ token ∈ rest.head?, token.isPunctuator .question = false := by
  apply stops.refuses
  intro token asks
  refine ⟨.conditionalExpression, ?_, Nat.le_refl _⟩
  rw [Token.kind_of_isPunctuator asks]
  rfl

theorem isOperator_eq_false {layer : Layer} (stops : Stops layer.rule rest) :
    ∀ token ∈ rest.head?, token.isAnyPunctuator layer.operators = false := by
  apply stops.refuses
  intro token isOperator
  exact ⟨layer.rule, Layer.continued?_operator isOperator, Nat.le_refl _⟩

end Stops

end PreprocessorSyntax
