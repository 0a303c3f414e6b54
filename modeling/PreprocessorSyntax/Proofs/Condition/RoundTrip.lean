import PreprocessorSyntax.Proofs.Condition.Expression
import PreprocessorSyntax.Proofs.Grammar.Reading

/-!
# Conditions are read back

The tokens of an expression tree are read as that tree.  The levels of
precedence are read greedily, one inside the other, so what matters at every
level is the token behind the tree: it must not be one with which a node of
this level or of a tighter one goes on.
-/

namespace PreprocessorSyntax

namespace Grammar

variable {grammar : Grammar} {rest : List Token}

section Unmocked

variable (unmocked : grammar.mocked = [])
include unmocked

theorem reads_called
    (called : Rule)
    {tokens : List Token}
    {trees : List Tree}
    (body : grammar.Reads called.pattern tokens trees rest) :
    grammar.Reads (.rule called) tokens [(called.build trees).toTree] rest := by
  rw [← pattern_eq unmocked] at body
  exact reads_rule body

theorem fails_called
    {called : Rule}
    (body : grammar.Fails called.pattern rest) :
    grammar.Fails (.rule called) rest := by
  rw [← pattern_eq unmocked] at body
  exact fails_rule body

theorem fails_literal {token : Token} (notLiteral : token.isLiteral = false) :
    grammar.Fails (.rule .literal) (token :: rest) :=
  fails_called unmocked (fails_token_cons notLiteral)

theorem fails_hasIncludeExpression
    {token : Token}
    (otherWord : token.isIdentifier = true → token.text ∉ ["__has_include", "__has_include_next"]) :
    grammar.Fails (.rule .hasIncludeExpression) (token :: rest) := by
  apply fails_called unmocked
  repeat apply Fails.append
  apply fails_token_cons
  simpa using otherWord

theorem fails_definedExpression
    {token : Token}
    (otherWord : token.isIdentifier = true → token.text ≠ "defined") :
    grammar.Fails (.rule .definedExpression) (token :: rest) := by
  apply fails_called unmocked
  repeat apply Fails.append
  apply fails_token_cons
  simpa using otherWord

/-- A name is no macro call unless an opening parenthesis follows. -/
theorem fails_functionlikeMacro
    {token : Token}
    (stops : Stops .primaryExpression rest) :
    grammar.Fails (.rule .functionlikeMacro) (token :: rest) := by
  apply fails_called unmocked
  by_cases accepted : token.isIdentifier && token.text != "defined"
  · have isName := (Bool.and_eq_true_iff.1 accepted).1
    have name : grammar.Reads (.token fun found => found.isIdentifier && found.text != "defined")
        [token] [.leaf token] rest := reads_identifier accepted isName
    have arguments : grammar.Fails Pattern.parenthesizedArguments rest := by
      repeat apply Fails.append
      exact fails_token stops.isLeftParen_eq_false
    exact (name.skip stops.significant).append_fails arguments
  · repeat apply Fails.append
    apply fails_token_cons
    simpa using accepted

/-- The rules that are tried before parentheses and names all begin with a literal or a name. -/
theorem fails_firstOf
    {token : Token}
    (notLiteral : token.isLiteral = false)
    (notName : token.isIdentifier = false) :
    grammar.Fails
      (.firstOf .literal [.hasIncludeExpression, .definedExpression, .functionlikeMacro])
      (token :: rest) := by
  refine Fails.orElse ?_ (Fails.orElse ?_ (Fails.orElse ?_ ?_))
  · exact fails_literal unmocked notLiteral
  · exact fails_hasIncludeExpression unmocked (by simp [notName])
  · exact fails_definedExpression unmocked (by simp [notName])
  · apply fails_called unmocked
    repeat apply Fails.append
    apply fails_token_cons
    simp [notName]

/-- Where every other alternative fails, a name stands for itself. -/
theorem reads_name
    {token : Token}
    (isName : token.isIdentifier = true)
    (plain : token.text ∉ reservedWords)
    (stops : Stops .primaryExpression rest) :
    grammar.Reads .primaryExpression [token] [.leaf token] rest := by
  have isKind := Token.kind_of_isIdentifier isName
  have failed : grammar.Fails (.symbol .leftParen) ([token] ++ rest) := by
    apply fails_token_cons
    simp [Token.isPunctuator, isKind]
  refine Fails.orElse_right ?_ (Fails.orElse_right ?_ (Fails.orElse_right ?_ ?_))
  · refine Fails.orElse ?_ (Fails.orElse ?_ (Fails.orElse ?_ ?_))
    · exact fails_literal unmocked (by simp_all [Token.isLiteral, reservedWords])
    · exact fails_hasIncludeExpression unmocked (by simp_all [reservedWords])
    · exact fails_definedExpression unmocked (by simp_all [reservedWords])
    · exact fails_functionlikeMacro unmocked stops
  · exact failed.append.append.append.append
  · exact failed.append.append
  · exact reads_identifier isName isName

/-- A test for a definition is tried before macro calls. -/
theorem reads_defined
    {operator : Token}
    {tokens : List Token}
    {trees : List Tree}
    (isOperator : operator.isWord "defined" = true)
    (significant : Significant (tokens ++ rest))
    (tested : grammar.Reads
      (.symbol .leftParen ++ .trivia ++ .identifier ++ .trivia ++ .symbol .rightParen <|>
        .identifier) tokens trees rest) :
    grammar.Reads .primaryExpression (operator :: tokens)
      [.node .definedExpression (.leaf operator :: trees)] rest := by
  obtain ⟨isName, isDefined⟩ := Bool.and_eq_true_iff.1 isOperator
  rw [beq_iff_eq] at isDefined
  have isKind := Token.kind_of_isIdentifier isName
  have word : grammar.Reads (.word ["defined"]) [operator] [.leaf operator] (tokens ++ rest) :=
    reads_identifier (by simp [isName, isDefined]) isName
  have read : grammar.Reads (.rule .definedExpression) (operator :: tokens)
      [.node .definedExpression (.leaf operator :: trees)] rest :=
    reads_called unmocked .definedExpression ((word.skip significant).append tested)
  refine Reads.orElse_left (Fails.orElse_right ?_ (Fails.orElse_right ?_ read.orElse_left))
  · exact fails_literal unmocked (by simp [Token.isLiteral, isKind, isDefined])
  · exact fails_hasIncludeExpression unmocked (by simp [isDefined])

theorem reads_definedName
    {operator name : Token}
    (isOperator : operator.isWord "defined" = true)
    (isName : name.isIdentifier = true) :
    grammar.Reads .primaryExpression [operator, name]
      [.node .definedExpression [.leaf operator, .leaf name]] rest := by
  have failed : grammar.Fails (.symbol .leftParen) ([name] ++ rest) := by
    apply fails_token_cons
    simp [Token.isPunctuator, Token.kind_of_isIdentifier isName]
  apply reads_defined unmocked isOperator
  · exact significant_cons (Token.isTrivia_of_isIdentifier isName) rest
  · exact Fails.orElse_right failed.append.append.append.append (reads_identifier isName isName)

theorem reads_definedInParentheses
    {operator opening name closing : Token}
    (isOperator : operator.isWord "defined" = true)
    (isOpening : opening.isPunctuator .leftParen = true)
    (isName : name.isIdentifier = true)
    (isClosing : closing.isPunctuator .rightParen = true) :
    grammar.Reads .primaryExpression [operator, opening, name, closing]
      [.node .definedExpression [.leaf operator, .leaf opening, .leaf name, .leaf closing]]
      rest := by
  have begun : grammar.Reads (.symbol .leftParen ++ .trivia) [opening] [.leaf opening]
      ([name] ++ ([closing] ++ rest)) :=
    (reads_symbol isOpening).skip (significant_cons (Token.isTrivia_of_isIdentifier isName) _)
  have named : grammar.Reads (.symbol .leftParen ++ .trivia ++ .identifier ++ .trivia)
      [opening, name] [.leaf opening, .leaf name] ([closing] ++ rest) :=
    (begun.append (reads_identifier isName isName)).skip
      (significant_cons (Token.isTrivia_of_isPunctuator isClosing) _)
  apply reads_defined unmocked isOperator
  · exact significant_cons (Token.isTrivia_of_isPunctuator isOpening) _
  · exact (named.append (reads_symbol isClosing)).orElse_left

/-- A list of expressions in parentheses. -/
theorem reads_group
    {opening closing : Token}
    {tree : Tree}
    (isOpening : opening.isPunctuator .leftParen = true)
    (opens : Opens tree.tokens)
    (inner : grammar.Reads (.rule .expression) tree.tokens [tree] (closing :: rest))
    (isClosing : closing.isPunctuator .rightParen = true) :
    grammar.Reads .primaryExpression (opening :: (tree.tokens ++ [closing]))
      [.leaf opening, tree, .leaf closing] rest := by
  have isKind := Token.kind_of_isPunctuator isOpening
  have notLiteral : opening.isLiteral = false := by simp [Token.isLiteral, isKind]
  have notName : opening.isIdentifier = false := by simp [Token.isIdentifier, isKind]
  have begun : grammar.Reads (.symbol .leftParen ++ .trivia) [opening] [.leaf opening]
      (tree.tokens ++ closing :: rest) :=
    (reads_symbol isOpening).skip (opens.append _).significant
  have inside : grammar.Reads (.symbol .leftParen ++ .trivia ++ .rule .expression ++ .trivia)
      (opening :: tree.tokens) [.leaf opening, tree] ([closing] ++ rest) :=
    (begun.append inner).skip (significant_cons (Token.isTrivia_of_isPunctuator isClosing) rest)
  apply Fails.orElse_right (fails_firstOf unmocked notLiteral notName)
  exact (inside.append (reads_symbol isClosing)).orElse_left

/-- A primary expression is tried behind the signs. -/
theorem reads_primary
    {tree : Tree}
    (expresses : Expresses .primaryExpression tree)
    (read : grammar.Reads (.rule .primaryExpression) tree.tokens [tree] rest) :
    grammar.Reads (.rule .unaryExpression) tree.tokens [tree] rest := by
  obtain ⟨inner, children, rfl⟩ := expresses.exists_node
  obtain ⟨token, others, begun, _⟩ := expresses.opens
  have notSign := expresses.not_sign
  have failed : grammar.Fails (.rule .unaryOperator) ((Tree.node inner children).tokens ++ rest) := by
    apply fails_called unmocked
    apply fails_token
    rw [begun] at notSign ⊢
    exact notSign
  exact reads_called unmocked .unaryExpression (Fails.orElse_right failed.append.append read)

theorem reads_signed
    {sign : Token}
    {tree : Tree}
    (isSign : sign.isAnyPunctuator Punctuator.signs = true)
    (opens : Opens tree.tokens)
    (operand : grammar.Reads (.rule .unaryExpression) tree.tokens [tree] rest) :
    grammar.Reads (.rule .unaryExpression) (sign :: tree.tokens)
      [.node .unaryExpression [.node .unaryOperator [.leaf sign], tree]] rest := by
  have front : grammar.Reads (.rule .unaryOperator) [sign] [.node .unaryOperator [.leaf sign]]
      (tree.tokens ++ rest) :=
    reads_called unmocked .unaryOperator (reads_operator isSign)
  have significant := (opens.append rest).significant
  exact reads_called unmocked .unaryExpression ((front.skip significant).append operand).orElse_left

end Unmocked

/-- A layer ends where none of its operators follows. -/
theorem fails_item {layer : Layer} (stops : Stops layer.rule rest) :
    grammar.Fails layer.item rest := by
  have skipped : grammar.Reads .trivia [] [] rest := reads_trivia_nil stops.significant
  have failed := skipped.append_fails (fails_token stops.isOperator_eq_false)
  exact failed.append.append

theorem reads_item
    {layer : Layer}
    {operator : Token}
    {tree : Tree}
    (isOperator : operator.isAnyPunctuator layer.operators = true)
    (opens : Opens tree.tokens)
    (operand : grammar.Reads (.rule layer.operand) tree.tokens [tree] rest) :
    grammar.Reads layer.item (operator :: tree.tokens) [.leaf operator, tree] rest := by
  have skipped : grammar.Reads .trivia [] [] ([operator] ++ (tree.tokens ++ rest)) :=
    reads_trivia_nil (Stops.of_operator isOperator).significant
  have front := skipped.append (reads_operator isOperator)
  exact (front.skip (opens.append _).significant).append operand

/-- What stands behind the first operand of a layer does not continue that operand. -/
theorem stops_furtherOperands
    {layer : Layer}
    {others : List (Token × Tree)}
    (operators : ∀ other ∈ others, other.1.isAnyPunctuator layer.operators = true)
    (stops : Stops layer.rule rest) :
    Stops layer.operand (Tree.tokensOf (furtherOperands others) ++ rest) := by
  cases others with
  | nil => exact stops.of_rank_le (Nat.le_of_lt layer.rank_operand_lt)
  | cons other others =>
      simp only [furtherOperands, List.flatMap_cons, List.cons_append, Tree.tokensOf_cons,
        Tree.tokens_leaf]
      exact Stops.of_operator (operators other List.mem_cons_self)

/-- All further operands are read, and not more. -/
theorem reads_furtherOperands
    {layer : Layer}
    {others : List (Token × Tree)}
    (operators : ∀ other ∈ others, other.1.isAnyPunctuator layer.operators = true)
    (opens : ∀ other ∈ others, Opens other.2.tokens)
    (operands : ∀ other ∈ others, ∀ rest, Stops layer.operand rest →
      grammar.Reads (.rule layer.operand) other.2.tokens [other.2] rest)
    (stops : Stops layer.rule rest) :
    grammar.Reads (.many layer.item) (Tree.tokensOf (furtherOperands others))
      (furtherOperands others) rest := by
  induction others with
  | nil => exact (fails_item stops).many
  | cons other others inductionHypothesis =>
      rw [List.forall_mem_cons] at operators opens operands
      have ends := stops_furtherOperands operators.2 stops
      have front := reads_item operators.1 opens.1 (operands.1 _ ends)
      have back := inductionHypothesis operators.2 opens.2 operands.2
      have both := Reads.many rfl front back
      simpa [furtherOperands] using both

/-- The first operand of a layer and what is repeated behind it. -/
theorem reads_layer
    {layer : Layer}
    {tokens further : List Token}
    {trees more : List Tree}
    (front : grammar.Reads (.rule layer.operand) tokens trees (further ++ rest))
    (back : grammar.Reads (.many layer.item) further more rest) :
    grammar.Reads layer.rule.pattern (tokens ++ further) (trees ++ more) rest := by
  rw [layer.pattern_rule]
  exact front.append back

section Unmocked

variable (unmocked : grammar.mocked = [])
include unmocked

/-- A layer without operators leaves no node. -/
theorem reads_single
    {layer : Layer}
    {tree : Tree}
    (isNode : ∃ inner children, tree = .node inner children)
    (operand : grammar.Reads (.rule layer.operand) tree.tokens [tree] rest)
    (stops : Stops layer.rule rest) :
    grammar.Reads (.rule layer.rule) tree.tokens [tree] rest := by
  obtain ⟨inner, children, rfl⟩ := isNode
  have front : grammar.Reads (.rule layer.operand) (Tree.node inner children).tokens
      [.node inner children] ([] ++ rest) := operand
  have read := reads_called unmocked layer.rule (reads_layer front (fails_item stops).many)
  have collapsed : (layer.rule.build [.node inner children]).toTree = .node inner children := by
    simp [Rule.build, layer.collapses_rule, Node.toTree]
  rw [List.append_nil, List.append_nil, collapsed] at read
  exact read

theorem reads_joined
    {layer : Layer}
    {first : Tree}
    {others : List (Token × Tree)}
    (isNode : ∃ inner children, first = .node inner children)
    (several : others ≠ [])
    (front : grammar.Reads (.rule layer.operand) first.tokens [first]
      (Tree.tokensOf (furtherOperands others) ++ rest))
    (back : grammar.Reads (.many layer.item) (Tree.tokensOf (furtherOperands others))
      (furtherOperands others) rest) :
    grammar.Reads (.rule layer.rule)
      (first.tokens ++ Tree.tokensOf (furtherOperands others))
      [.node layer.rule (first :: furtherOperands others)] rest := by
  obtain ⟨inner, children, rfl⟩ := isNode
  have read := reads_called unmocked layer.rule (reads_layer front back)
  obtain ⟨other, others, rfl⟩ := List.exists_cons_of_ne_nil several
  exact read

/-- A condition behind which there is no choice leaves no node. -/
theorem reads_unconditional
    {tree : Tree}
    (isNode : ∃ inner children, tree = .node inner children)
    (condition : grammar.Reads (.rule .logicalOrExpression) tree.tokens [tree] rest)
    (stops : Stops .conditionalExpression rest) :
    grammar.Reads (.rule .conditionalExpression) tree.tokens [tree] rest := by
  obtain ⟨inner, children, rfl⟩ := isNode
  have nothing : grammar.Reads (.optional .alternatives) [] [] rest := by
    have skipped : grammar.Reads .trivia [] [] rest := reads_trivia_nil stops.significant
    have failed := skipped.append_fails (fails_token stops.isQuestion_eq_false)
    exact Fails.optional failed.append.append.append.append.append
  have front : grammar.Reads (.rule .logicalOrExpression) (Tree.node inner children).tokens
      [.node inner children] ([] ++ rest) := condition
  have read := reads_called unmocked .conditionalExpression (front.append nothing)
  rw [List.append_nil] at read
  exact read

/-- A choice, given how what stands between its two symbols is read. -/
theorem reads_choice
    {question colon : Token}
    {condition last : Tree}
    {middle : List Token}
    {trees : List Tree}
    (isNode : ∃ inner children, condition = .node inner children)
    (opens : Opens last.tokens)
    (asks : question.isPunctuator .question = true)
    (separates : colon.isPunctuator .colon = true)
    (significant : Significant (middle ++ colon :: (last.tokens ++ rest)))
    (holds : ∀ rest, Stops .logicalOrExpression rest →
      grammar.Reads (.rule .logicalOrExpression) condition.tokens [condition] rest)
    (accepted : grammar.Reads (.optional (.rule .expression ++ .trivia)) middle trees
      (colon :: (last.tokens ++ rest)))
    (refused : grammar.Reads (.rule .conditionalExpression) last.tokens [last] rest) :
    grammar.Reads (.rule .conditionalExpression)
      (condition.tokens ++ question :: (middle ++ colon :: last.tokens))
      [.node .conditionalExpression (condition :: .leaf question :: (trees ++ [.leaf colon, last]))]
      rest := by
  obtain ⟨inner, children, rfl⟩ := isNode
  have stopsCondition (rest : List Token) : Stops .logicalOrExpression (question :: rest) := by
    apply Stops.of_symbol asks
    rintro _ ⟨⟩
    decide
  have skipped : grammar.Reads .trivia [] []
      ([question] ++ (middle ++ ([colon] ++ (last.tokens ++ rest)))) :=
    reads_trivia_nil (stopsCondition _).significant
  have asked := (skipped.append (reads_symbol asks)).skip significant
  have separated := (asked.append accepted).append (reads_symbol separates)
  have read := (separated.skip (opens.append rest).significant).append refused
  have alternatives : grammar.Reads (.optional .alternatives)
      (question :: (middle ++ colon :: last.tokens))
      (.leaf question :: (trees ++ [.leaf colon, last])) rest := by
    apply Reads.optional
    simpa [Pattern.alternatives] using read
  exact reads_called unmocked .conditionalExpression
    ((holds _ (stopsCondition _)).append alternatives)

/-! ## No expression -/

theorem fails_primaryExpression {token : Token} (other : token.opensExpression = false) :
    grammar.Fails (.rule .primaryExpression) (token :: rest) := by
  simp only [Token.opensExpression, Bool.or_eq_false_iff] at other
  obtain ⟨⟨⟨notName, notLiteral⟩, notOpening⟩, _⟩ := other
  have failed : grammar.Fails (.symbol .leftParen) (token :: rest) := fails_token_cons notOpening
  apply fails_called unmocked
  refine Fails.orElse (fails_firstOf unmocked notLiteral notName) (Fails.orElse ?_ ?_)
  · exact failed.append.append.append.append
  · exact Fails.orElse failed.append.append (fails_token_cons notName)

theorem fails_unaryExpression {token : Token} (other : token.opensExpression = false) :
    grammar.Fails (.rule .unaryExpression) (token :: rest) := by
  have notSign := (Bool.or_eq_false_iff.1 other).2
  have failed : grammar.Fails (.rule .unaryOperator) (token :: rest) :=
    fails_called unmocked (fails_token_cons notSign)
  apply fails_called unmocked
  exact Fails.orElse failed.append.append (fails_primaryExpression unmocked other)

theorem fails_layer
    (layer : Layer)
    (operand : grammar.Fails (.rule layer.operand) rest) :
    grammar.Fails (.rule layer.rule) rest := by
  apply fails_called unmocked
  rw [layer.pattern_rule]
  exact operand.append

/-- Where no expression can begin, none is read, of whatever level. -/
theorem fails_expression {token : Token} (other : token.opensExpression = false) :
    grammar.Fails (.rule .expression) (token :: rest) := by
  apply fails_layer unmocked .comma
  apply fails_called unmocked
  apply Fails.append
  apply fails_layer unmocked .logicalOr
  apply fails_layer unmocked .logicalAnd
  apply fails_layer unmocked .inclusiveOr
  apply fails_layer unmocked .exclusiveOr
  apply fails_layer unmocked .and
  apply fails_layer unmocked .equality
  apply fails_layer unmocked .relational
  apply fails_layer unmocked .shift
  apply fails_layer unmocked .additive
  apply fails_layer unmocked .multiplicative
  exact fails_unaryExpression unmocked other

/-- The tokens of an expression are read as that expression. -/
theorem reads_of_expresses
    {rule : Rule}
    {tree : Tree}
    (expresses : Expresses rule tree)
    (stops : Stops rule rest) :
    grammar.Reads (.rule rule) tree.tokens [tree] rest := by
  induction expresses generalizing rest with
  | @literal token isLiteral =>
      have readable : token.kind ≠ .endOfInput := by
        intro ends
        simp [Token.isLiteral, ends] at isLiteral
      have read : grammar.Reads (.rule .literal) [token] [.node .literal [.leaf token]] rest :=
        reads_called unmocked .literal (reads_token isLiteral readable)
      exact reads_called unmocked .primaryExpression read.orElse_left.orElse_left
  | name isIdentifier plain =>
      exact reads_called unmocked .primaryExpression (reads_name unmocked isIdentifier plain stops)
  | definedName isOperator isName =>
      exact reads_called unmocked .primaryExpression (reads_definedName unmocked isOperator isName)
  | definedInParentheses isOperator opens isName closes =>
      exact reads_called unmocked .primaryExpression
        (reads_definedInParentheses unmocked isOperator opens isName closes)
  | @group opening closing tree opens inner closes inductionHypothesis =>
      have stopsInside : Stops .expression (closing :: rest) :=
        .of_continued?_eq_none closes rfl
      have read : grammar.Reads (.rule .primaryExpression) (opening :: (tree.tokens ++ [closing]))
          [.node .primaryExpression [.leaf opening, tree, .leaf closing]] rest :=
        reads_called unmocked .primaryExpression
          (reads_group unmocked opens inner.opens (inductionHypothesis stopsInside) closes)
      simpa using read
  | primary primary inductionHypothesis =>
      exact reads_primary unmocked primary (inductionHypothesis (stops.of_rank_le (by decide)))
  | signed isSign operand inductionHypothesis =>
      simpa using reads_signed unmocked isSign operand.opens (inductionHypothesis stops)
  | single layer operand inductionHypothesis =>
      have stopsOperand := stops.of_rank_le (Nat.le_of_lt layer.rank_operand_lt)
      exact reads_single unmocked operand.exists_node (inductionHypothesis stopsOperand) stops
  | @joined first others layer front several operators operands frontHypothesis othersHypothesis =>
      have opens : ∀ other ∈ others, Opens other.2.tokens :=
        fun other listed => (operands other listed).opens
      have read := fun other listed rest => @othersHypothesis other listed rest
      have back := reads_furtherOperands operators opens read stops
      have begun := frontHypothesis (stops_furtherOperands operators stops)
      simpa using reads_joined unmocked front.exists_node several begun back
  | unconditional condition inductionHypothesis =>
      have stopsCondition : Stops .logicalOrExpression rest := stops.of_rank_le (by decide)
      exact reads_unconditional unmocked condition.exists_node
        (inductionHypothesis stopsCondition) stops
  | @choice question colon condition middle last holds asks accepted separates refused
      conditionHypothesis middleHypothesis lastHypothesis =>
      have stopsMiddle (rest : List Token) : Stops .expression (colon :: rest) :=
        .of_continued?_eq_none separates rfl
      have read : grammar.Reads (.optional (.rule .expression ++ .trivia)) middle.tokens [middle]
          (colon :: (last.tokens ++ rest)) :=
        ((middleHypothesis (stopsMiddle _)).skip (stopsMiddle _).significant).optional
      have chosen := reads_choice unmocked holds.exists_node refused.opens asks separates
        (accepted.opens.append _).significant
        (fun _ stopsCondition => conditionHypothesis stopsCondition) read (lastHypothesis stops)
      simpa using chosen
  | @shortChoice question colon condition last holds asks separates refused conditionHypothesis
      lastHypothesis =>
      have stopsMiddle (rest : List Token) : Stops .expression (colon :: rest) :=
        .of_continued?_eq_none separates rfl
      have isKind := Token.kind_of_isPunctuator separates
      have other : colon.opensExpression = false := by
        simp [Token.opensExpression, Token.isIdentifier, Token.isLiteral, Token.isPunctuator,
          Token.isAnyPunctuator, Punctuator.signs, isKind]
      have read : grammar.Reads (.optional (.rule .expression ++ .trivia)) [] []
          (colon :: (last.tokens ++ rest)) :=
        Fails.optional (fails_expression unmocked other).append
      have chosen := reads_choice unmocked holds.exists_node refused.opens asks separates
        (stopsMiddle _).significant
        (fun _ stopsCondition => conditionHypothesis stopsCondition) read (lastHypothesis stops)
      simpa using chosen

/-- With levels enough, parsing gives back every constant expression from its tokens. -/
theorem parseTokens_tokens
    {tree : Tree}
    {ending : Token}
    (expresses : Expresses .conditionalExpression tree)
    (ends : ending.kind = .endOfInput)
    (enough : 54 * (tree.tokens.length + 1) ≤ grammar.maxDepth) :
    grammar.parseTokens .constantExpression (tree.tokens ++ [ending]) =
      some ⟨.constantExpression, [tree]⟩ := by
  have bounded := Cursor.upcoming_ofTokens_length_le tree.tokens ends
  have stops : Stops .conditionalExpression [ending] := by
    rintro found ⟨⟩
    simp [ends, TokenKind.continued?]
  have body : grammar.Reads (grammar.pattern .constantExpression) tree.tokens [tree] [ending] := by
    rw [pattern_eq unmocked]
    exact reads_of_expresses unmocked expresses stops
  have leading : (Cursor.ofTokens (tree.tokens ++ [ending])).trivia =
      ([], ⟨0, tree.tokens ++ [ending]⟩) := by
    obtain ⟨token, others, begun, _⟩ := expresses.opens
    have notTrivia := expresses.opens.significant token (by simp [begun])
    simp [Cursor.trivia, Cursor.ofTokens, begun, notTrivia]
  have trailing : closing? ⟨0 + tree.tokens.length, [ending]⟩ = some [] := by
    simp [closing?, Cursor.trivia, Cursor.bump?, Token.isTrivia, TokenKind.isTrivia, ends]
  obtain ⟨inner, children, rfl⟩ := expresses.exists_node
  rw [parseTokens_eq_rootOf? (by omega)]
  unfold rootOf?
  rw [leading]
  simp only [nodeAt?_eq, body 0, Option.map_some, trailing]
  rfl

end Unmocked

/-- A sign, a choice without middle and a list in parentheses. -/
theorem parseTokens_tokens_short_choice :
    let leaf (kind : TokenKind) (text : String) : Tree := .leaf ⟨kind, text, .unknown⟩
    let one : Tree := .node .primaryExpression [.node .literal [leaf .number "1"]]
    let name : Tree := .node .primaryExpression [leaf .identifier "a"]
    let comma : Token := ⟨.punctuator .comma, ",", .unknown⟩
    let condition : Tree :=
      .node .unaryExpression [.node .unaryOperator [leaf (.punctuator .minus) "-"], one]
    let last : Tree := .node .primaryExpression
      [leaf (.punctuator .leftParen) "(",
        .node .expression (name :: furtherOperands [(comma, one)]),
        leaf (.punctuator .rightParen) ")"]
    let tree : Tree := .node .conditionalExpression
      [condition, leaf (.punctuator .question) "?", leaf (.punctuator .colon) ":", last]
    Expresses .conditionalExpression tree ∧ tree.tokens.length = 9 ∧
      standard.parseTokens .constantExpression (tree.tokens ++ [⟨.endOfInput, "", .unknown⟩]) =
        some ⟨.constantExpression, [tree]⟩ := by
  intro leaf one name comma condition last tree
  have layers {operand : Tree} (unary : Expresses .unaryExpression operand) :
      Expresses .logicalOrExpression operand :=
    .single .logicalOr <| .single .logicalAnd <| .single .inclusiveOr <| .single .exclusiveOr <|
      .single .and <| .single .equality <| .single .relational <| .single .shift <|
      .single .additive <| .single .multiplicative unary
  have isOne : Expresses .primaryExpression one := .literal rfl
  have isName : Expresses .primaryExpression name := .name rfl (by decide)
  have isList : Expresses .expression (.node .expression (name :: furtherOperands [(comma, one)])) := by
    apply Expresses.joined .comma
    · exact .unconditional (layers (.primary isName))
    · simp
    · simp [comma, Token.isAnyPunctuator, Token.isPunctuator, Layer.operators]
    · rintro other listed
      cases List.mem_singleton.1 listed
      exact .unconditional (layers (.primary isOne))
  have expresses : Expresses .conditionalExpression tree :=
    .shortChoice (layers (.signed rfl (.primary isOne))) rfl rfl
      (.unconditional (layers (.primary (.group rfl isList rfl))))
  exact ⟨expresses, rfl, parseTokens_tokens rfl expresses rfl (by decide)⟩

end Grammar
end PreprocessorSyntax
