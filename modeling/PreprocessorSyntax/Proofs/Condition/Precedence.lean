import PreprocessorSyntax.Proofs.Condition.Expression
import PreprocessorSyntax.Proofs.Directive.Shapes
import PreprocessorSyntax.Proofs.Grammar.Coverage

/-!
# Precedence in expression trees

A layer of the expression grammar leaves a node only where its operator occurs,
so the children of a node may stem from any tighter layer.  `Node.Arranged` says
what is left of precedence in such a tree: which operators and operands a node
holds, and that a looser expression stands below a tighter one only where other
tokens enclose it.

The facts are shown for derivations, so they hold of every parse.  The rank of
rules carries the induction: what a rule leaves is its own node or one that its
operand leaves.
-/

namespace PreprocessorSyntax

namespace Rule

/-- The rules for expressions, from the loosest to the tightest one. -/
def expressions : List Rule :=
  [.expression, .conditionalExpression, .logicalOrExpression, .logicalAndExpression,
   .inclusiveOrExpression, .exclusiveOrExpression, .andExpression, .equalityExpression,
   .relationalExpression, .shiftExpression, .additiveExpression, .multiplicativeExpression,
   .unaryExpression, .primaryExpression]

/-- The rules for expressions that bind tighter than those of a rule. -/
def tighter (rule : Rule) : List Rule :=
  (expressions.dropWhile (· != rule)).tail

/-- Tighter rules are called by looser ones. -/
theorem rank_lt_of_mem_tighter {rule other : Rule} (tighter : other ∈ rule.tighter) :
    other.rank < rule.rank := by
  have all : ∀ other ∈ rule.tighter, other.rank < rule.rank := by
    cases rule <;> decide
  exact all other tighter

theorem not_mem_tighter_self (rule : Rule) : rule ∉ rule.tighter :=
  fun tighter => Nat.lt_irrefl _ (rank_lt_of_mem_tighter tighter)

/-- A rule is not both tighter and looser than another one. -/
theorem not_mem_tighter_of_mem_tighter
    {rule other : Rule}
    (tighter : other ∈ rule.tighter) :
    rule ∉ other.tighter :=
  fun looser => Nat.lt_asymm (rank_lt_of_mem_tighter tighter) (rank_lt_of_mem_tighter looser)

theorem mem_expressions_of_mem_tighter {rule other : Rule} (tighter : other ∈ rule.tighter) :
    other ∈ expressions :=
  (List.dropWhile_sublist _).mem (List.mem_of_mem_tail tighter)

theorem mem_expressions_of_collapses {rule : Rule} (collapses : rule.collapses = true) :
    rule ∈ expressions := by
  cases rule <;> first | contradiction | decide

/-- Operators stand between operands, in front of one or around an alternative. -/
theorem kind_of_mem_expressions {rule : Rule} (listed : rule ∈ expressions) :
    (∃ layer : Layer, rule = layer.rule) ∨ rule = .conditionalExpression ∨
      rule = .unaryExpression ∨ rule = .primaryExpression := by
  simp only [expressions, List.mem_cons, List.not_mem_nil, or_false] at listed
  rcases listed with rfl | rfl | rfl | rfl | rfl | rfl | rfl | rfl | rfl | rfl | rfl | rfl | rfl |
    rfl
  · exact .inl ⟨.comma, rfl⟩
  · exact .inr (.inl rfl)
  · exact .inl ⟨.logicalOr, rfl⟩
  · exact .inl ⟨.logicalAnd, rfl⟩
  · exact .inl ⟨.inclusiveOr, rfl⟩
  · exact .inl ⟨.exclusiveOr, rfl⟩
  · exact .inl ⟨.and, rfl⟩
  · exact .inl ⟨.equality, rfl⟩
  · exact .inl ⟨.relational, rfl⟩
  · exact .inl ⟨.shift, rfl⟩
  · exact .inl ⟨.additive, rfl⟩
  · exact .inl ⟨.multiplicative, rfl⟩
  · exact .inr (.inr (.inl rfl))
  · exact .inr (.inr (.inr rfl))

end Rule

/-- The operands of a layer are of the next tighter level. -/
theorem Layer.tighter_rule (layer : Layer) :
    layer.rule.tighter = layer.operand :: layer.operand.tighter := by
  cases layer <;> rfl

/-- White space and comments only. -/
def Blanks (trees : List Tree) : Prop :=
  ∀ tree ∈ trees, tree.isTrivia = true

/-- Operators and operands in alternation, with white space and comments between them. -/
inductive Chain (operators : List Punctuator) (operands : List Rule) : List Tree → Prop where
  | nil : Chain operators operands []
  | cons
      {before behind others : List Tree}
      {operator : Token}
      {operand : Node}
      (blanksBefore : Blanks before)
      (isOperator : operator.isAnyPunctuator operators = true)
      (blanksBehind : Blanks behind)
      (isOperand : operand.rule ∈ operands)
      (chain : Chain operators operands others) :
      Chain operators operands
        (before ++ .leaf operator :: (behind ++ operand.toTree :: others))

/-- Two operands or more, all tighter than the layer, with operators of the layer between them. -/
def Layer.Joins (layer : Layer) (children : List Tree) : Prop :=
  ∃ (first : Node) (others : List Tree), children = first.toTree :: others ∧
    first.rule ∈ layer.rule.tighter ∧ others ≠ [] ∧
    Chain layer.operators layer.rule.tighter others

/-- An operator and the operand behind it. -/
def Signed (children : List Tree) : Prop :=
  ∃ (sign operand : Node) (blanks : List Tree),
    children = sign.toTree :: (blanks ++ [operand.toTree]) ∧
    sign.rule = .unaryOperator ∧ Blanks blanks ∧
    operand.rule ∈ [Rule.unaryExpression, .primaryExpression]

/-- What may stand between the question mark and the colon of a choice. -/
def Middle (trees : List Tree) : Prop :=
  Blanks trees ∨
    ∃ (before behind : List Tree) (accepted : Node),
      trees = before ++ accepted.toTree :: behind ∧ Blanks before ∧ Blanks behind ∧
      accepted.rule ∈ Rule.expressions

/-- A condition, a question mark, what is chosen if it holds, a colon and what is chosen if not. -/
def Choice (children : List Tree) : Prop :=
  ∃ (condition refused : Node) (question colon : Token) (before middle behind : List Tree),
    children = (condition.toTree :: (before ++ [.leaf question])) ++ middle ++
      (.leaf colon :: (behind ++ [refused.toTree])) ∧
    condition.rule ∈ Rule.conditionalExpression.tighter ∧ Blanks before ∧
    question.isPunctuator .question = true ∧ Middle middle ∧
    colon.isPunctuator .colon = true ∧ Blanks behind ∧
    refused.rule ∈ Rule.conditionalExpression :: Rule.conditionalExpression.tighter

/-- An opening token stands somewhere before, and a closing one somewhere behind. -/
def Encloses (opening closing : Punctuator) (before behind : List Tree) : Prop :=
  (∃ token, .leaf token ∈ before ∧ token.isPunctuator opening = true) ∧
    ∃ token, .leaf token ∈ behind ∧ token.isPunctuator closing = true

namespace Node

/-- An operator of the node's own rule stands among its children. -/
def HasOperator (node : Node) : Prop :=
  (∃ layer : Layer, node.rule = layer.rule ∧
      ∃ operator ∈ node.childTokens, operator.isAnyPunctuator layer.operators = true) ∨
    (node.rule = .conditionalExpression ∧
      ∃ operator ∈ node.childTokens, operator.isPunctuator .question = true) ∨
    (node.rule = .unaryExpression ∧ ∃ child ∈ node.childNodes, child.rule = .unaryOperator)

/-- The children of a node are arranged as the precedence of operators demands. -/
structure Arranged (node : Node) : Prop where
  /-- A layer has tighter operands, with its own operators between them. -/
  joins : ∀ layer : Layer, node.rule = layer.rule → layer.Joins node.children
  /-- A unary expression is an operator with a unary or primary expression. -/
  signed : node.rule = .unaryExpression → Signed node.children
  /-- A conditional expression has a tighter condition, and its middle may be left out. -/
  choice : node.rule = .conditionalExpression → Choice node.children
  /-- A conditional expression has one question mark and one colon. -/
  choiceTokens : node.rule = .conditionalExpression →
    ∃ question colon, node.childTokens = [question, colon] ∧
      question.isPunctuator .question = true ∧ colon.isPunctuator .colon = true
  /-- A comma expression has a comma. -/
  comma : node.rule = .expression →
    ∃ token ∈ node.childTokens, token.isPunctuator .comma = true
  /-- A comma expression is not nested directly in another one. -/
  flat : node.rule = .expression → ∀ child ∈ node.childNodes, child.rule ≠ .expression
  /-- No layer is left where its operator does not occur. -/
  operator : node.rule.collapses = true → node.HasOperator
  /-- A looser expression is the middle of a choice or stands in parentheses. -/
  enclosed : ∀ (before behind : List Tree) (child : Node),
    node.children = before ++ child.toTree :: behind → node.rule ∈ child.rule.tighter →
      (node.rule = .conditionalExpression ∧ Encloses .question .colon before behind) ∨
        (node.rule = .primaryExpression ∧ Encloses .leftParen .rightParen before behind)

end Node

namespace Blanks

variable {trees : List Tree}

/-- No node is white space or a comment. -/
theorem not_mem (blanks : Blanks trees) (node : Node) : node.toTree ∉ trees := by
  intro present
  cases blanks _ present

theorem significantTrees_eq_nil (blanks : Blanks trees) : significantTrees trees = [] := by
  rw [significantTrees, List.filter_eq_nil_iff]
  intro tree present
  simp [blanks tree present]

end Blanks

theorem Chain.mem
    {operators : List Punctuator}
    {operands : List Rule}
    {trees : List Tree}
    (chain : Chain operators operands trees)
    {child : Node}
    (present : child.toTree ∈ trees) :
    child.rule ∈ operands := by
  induction chain with
  | nil => cases present
  | @cons before behind others operator operand blanksBefore _ blanksBehind isOperand _
      inductionHypothesis =>
      rw [List.mem_append, List.mem_cons, List.mem_append, List.mem_cons] at present
      rcases present with early | isLeaf | blank | same | later
      · exact absurd early (blanksBefore.not_mem child)
      · cases isLeaf
      · exact absurd blank (blanksBehind.not_mem child)
      · rwa [Node.toTree_injective same]
      · exact inductionHypothesis later

/-- An operator in a chain is a child token of the node that the chain belongs to. -/
theorem Chain.exists_operator
    {operators : List Punctuator}
    {operands : List Rule}
    {trees : List Tree}
    (chain : Chain operators operands trees)
    (several : trees ≠ []) :
    ∃ token, .leaf token ∈ trees ∧ token.isAnyPunctuator operators = true := by
  cases chain with
  | nil => exact absurd rfl several
  | @cons before _ _ operator _ _ isOperator _ _ _ =>
      exact ⟨operator, List.mem_append_right before List.mem_cons_self, isOperator⟩

theorem isTrivia_of_isAnyPunctuator
    {token : Token}
    {symbols : List Punctuator}
    (isOperator : token.isAnyPunctuator symbols = true) :
    token.isTrivia = false := by
  obtain ⟨symbol, _, isSymbol⟩ := List.any_eq_true.1 isOperator
  exact Token.isTrivia_of_isPunctuator isSymbol

theorem mem_childTokens
    {node : Node}
    {token : Token}
    (present : .leaf token ∈ node.children)
    (notTrivia : token.isTrivia = false) :
    token ∈ node.childTokens := by
  rw [Node.childTokens, List.mem_filter]
  exact ⟨List.mem_filterMap.2 ⟨.leaf token, present, rfl⟩, by simp [notTrivia]⟩

theorem mem_childNodes {node child : Node} :
    child ∈ node.childNodes ↔ child.toTree ∈ node.children := by
  rw [Node.childNodes, List.mem_filterMap]
  constructor
  · rintro ⟨tree, present, isChild⟩
    cases tree with
    | leaf token => cases isChild
    | node rule children =>
        cases isChild
        exact present
  · intro present
    exact ⟨child.toTree, present, rfl⟩

theorem mem_before
    {front rest before behind : List Tree}
    {child : Tree}
    (equal : front ++ rest = before ++ child :: behind)
    (notFront : child ∉ front)
    {tree : Tree}
    (present : tree ∈ front) :
    tree ∈ before := by
  rcases List.append_eq_append_iff.1 equal with ⟨more, rfl, _⟩ | ⟨more, rfl, equalRest⟩
  · exact List.mem_append_left _ present
  · cases more with
    | nil => simpa using present
    | cons other more =>
        rw [List.cons_append, List.cons.injEq] at equalRest
        simp [equalRest.1] at notFront

theorem mem_behind
    {rest back before behind : List Tree}
    {child : Tree}
    (equal : rest ++ back = before ++ child :: behind)
    (notBack : child ∉ back)
    {tree : Tree}
    (present : tree ∈ back) :
    tree ∈ behind := by
  rcases List.append_eq_append_iff.1 equal with ⟨more, rfl, rfl⟩ | ⟨more, rfl, equalRest⟩
  · simp at notBack
  · cases more with
    | nil =>
        rw [List.nil_append] at equalRest
        simp [← equalRest] at notBack
    | cons other more =>
        rw [List.cons_append, List.cons.injEq] at equalRest
        rw [equalRest.2]
        exact List.mem_append_right _ present

/-- What stands between two parts without some node is enclosed by their tokens. -/
theorem encloses_of_append
    {opening closing : Punctuator}
    {front inside back before behind : List Tree}
    {child : Tree}
    (equal : front ++ inside ++ back = before ++ child :: behind)
    (opens : ∃ token, .leaf token ∈ front ∧ token.isPunctuator opening = true)
    (closes : ∃ token, .leaf token ∈ back ∧ token.isPunctuator closing = true)
    (notFront : child ∉ front)
    (notBack : child ∉ back) :
    Encloses opening closing before behind := by
  obtain ⟨first, early, isOpening⟩ := opens
  obtain ⟨last, late, isClosing⟩ := closes
  have late := mem_behind equal notBack late
  rw [List.append_assoc] at equal
  exact ⟨⟨first, mem_before equal notFront early, isOpening⟩, ⟨last, late, isClosing⟩⟩

/-- All child nodes of a layer are operands. -/
theorem Layer.Joins.mem
    {layer : Layer}
    {children : List Tree}
    (joins : layer.Joins children)
    {child : Node}
    (present : child.toTree ∈ children) :
    child.rule ∈ layer.rule.tighter := by
  obtain ⟨first, others, rfl, isFirst, _, chain⟩ := joins
  rcases List.mem_cons.1 present with same | later
  · rwa [Node.toTree_injective same]
  · exact chain.mem later

/-- The operators of a layer are tokens directly below its nodes. -/
theorem Layer.Joins.exists_operator
    {layer : Layer}
    {node : Node}
    (joins : layer.Joins node.children) :
    ∃ operator ∈ node.childTokens, operator.isAnyPunctuator layer.operators = true := by
  obtain ⟨first, others, equal, _, several, chain⟩ := joins
  obtain ⟨operator, present, isOperator⟩ := chain.exists_operator several
  refine ⟨operator, mem_childTokens ?_ (isTrivia_of_isAnyPunctuator isOperator), isOperator⟩
  rw [equal]
  exact List.mem_cons_of_mem _ present

/-- The child nodes of a signed operand are the operator and the operand. -/
theorem Signed.mem
    {children : List Tree}
    (signed : Signed children)
    {child : Node}
    (present : child.toTree ∈ children) :
    child.rule ∈ [Rule.unaryOperator, .unaryExpression, .primaryExpression] := by
  obtain ⟨sign, operand, blanks, rfl, isSign, isBlank, isOperand⟩ := signed
  rw [List.mem_cons, List.mem_append, List.mem_singleton] at present
  rcases present with same | blank | same
  · rw [Node.toTree_injective same, isSign]
    exact List.mem_cons_self
  · exact absurd blank (isBlank.not_mem child)
  · rw [Node.toTree_injective same]
    exact List.mem_cons_of_mem _ isOperand

/-- Between the question mark and the colon there are no significant tokens. -/
theorem Middle.filterMap_token?
    {trees : List Tree}
    (middle : Middle trees) :
    (significantTrees trees).filterMap Tree.token? = [] := by
  rcases middle with blanks | ⟨before, behind, accepted, rfl, blanksBefore, blanksBehind, _⟩
  · rw [blanks.significantTrees_eq_nil, List.filterMap_nil]
  · rw [significantTrees_append, blanksBefore.significantTrees_eq_nil, List.nil_append,
      Node.toTree, significantTrees_node, blanksBehind.significantTrees_eq_nil]
    rfl

/-- A choice has one question mark and one colon. -/
theorem Choice.childTokens_eq
    {node : Node}
    (choice : Choice node.children) :
    ∃ question colon, node.childTokens = [question, colon] ∧
      question.isPunctuator .question = true ∧ colon.isPunctuator .colon = true := by
  obtain ⟨condition, refused, question, colon, before, middle, behind, equal, _, blanksBefore, asks,
    isMiddle, separates, blanksBehind, _⟩ := choice
  refine ⟨question, colon, ?_, asks, separates⟩
  have asking : significantTrees [.leaf question] = [.leaf question] :=
    significantTrees_leaf (Token.isTrivia_of_isPunctuator asks)
  rw [PreprocessorSyntax.childTokens_eq, equal, significantTrees_append, significantTrees_append,
    significantTrees_leaf (Token.isTrivia_of_isPunctuator separates), Node.toTree,
    significantTrees_node, significantTrees_append, significantTrees_append,
    blanksBefore.significantTrees_eq_nil, blanksBehind.significantTrees_eq_nil, asking,
    List.filterMap_append, List.filterMap_append, isMiddle.filterMap_token?]
  rfl

/-- Only the middle of a choice may be looser than the choice. -/
theorem Choice.encloses
    {children before behind : List Tree}
    {child : Node}
    (choice : Choice children)
    (stands : children = before ++ child.toTree :: behind)
    (looser : .conditionalExpression ∈ child.rule.tighter) :
    Encloses .question .colon before behind := by
  obtain ⟨condition, refused, question, colon, blanks, middle, more, rfl, isCondition, areBlanks,
    asks, _, separates, areBlanksToo, isRefused⟩ := choice
  refine encloses_of_append stands ⟨question, by simp, asks⟩ ⟨colon, by simp, separates⟩ ?_ ?_
  · intro present
    rw [List.mem_cons, List.mem_append, List.mem_singleton] at present
    rcases present with same | blank | isLeaf
    · rw [Node.toTree_injective same] at looser
      exact Rule.not_mem_tighter_of_mem_tighter isCondition looser
    · exact areBlanks.not_mem child blank
    · cases isLeaf
  · intro present
    rw [List.mem_cons, List.mem_append, List.mem_singleton] at present
    rcases present with isLeaf | blank | same
    · cases isLeaf
    · exact areBlanksToo.not_mem child blank
    · rw [Node.toTree_injective same] at looser
      rcases List.mem_cons.1 isRefused with itself | tighter
      · rw [itself] at looser
        exact Rule.not_mem_tighter_self _ looser
      · exact Rule.not_mem_tighter_of_mem_tighter tighter looser

namespace Grammar

variable {grammar : Grammar} {trees : List Tree} {cursor after : Cursor}

/-! ## Nodes of derivations -/

/-- The children of a node are derived from its own rule, which does not give its node away. -/
def Grounded (grammar : Grammar) (node : Node) : Prop :=
  ∃ cursor after, grammar.Derives (grammar.pattern node.rule) cursor node.children after ∧
    node.rule.build node.children = node

/-- A rule leaves a node of its own, or it is a layer and its only child takes its place. -/
theorem build_eq_or_exists (rule : Rule) (children : List Tree) :
    rule.build children = ⟨rule, children⟩ ∨
      (rule.collapses = true ∧
        ∃ inner : Node, children = [inner.toTree] ∧ rule.build children = inner) := by
  unfold Rule.build
  split
  next inner grandchildren =>
    split
    next collapses => exact .inr ⟨collapses, ⟨inner, grandchildren⟩, rfl, rfl⟩
    next => exact .inl rfl
  next => exact .inl rfl

/-- Every node anywhere in what is derived is derived from its own rule. -/
theorem Derives.grounded
    {pattern : Pattern}
    (derived : grammar.Derives pattern cursor trees after)
    {node : Node}
    (present : node ∈ Tree.nodesOf trees) :
    grammar.Grounded node := by
  induction derived with
  | token _ _ => cases present
  | @rule called _ _ children body inductionHypothesis =>
      rcases build_eq_or_exists called children with own | ⟨_, inner, rfl, given⟩
      · rw [own, nodesOf_toTree] at present
        rcases List.mem_cons.1 present with rfl | below
        · exact ⟨_, _, body, own⟩
        · exact inductionHypothesis below
      · rw [given] at present
        exact inductionHypothesis present
  | ahead _ => cases present
  | absent _ _ => cases present
  | empty _ => cases present
  | sequence _ _ frontHypothesis backHypothesis =>
      rw [nodesOf_append] at present
      exact (List.mem_append.1 present).elim frontHypothesis backHypothesis
  | preferred _ inductionHypothesis => exact inductionHypothesis present
  | alternative _ inductionHypothesis => exact inductionHypothesis present
  | stop _ _ => cases present
  | further _ _ frontHypothesis backHypothesis =>
      rw [nodesOf_append] at present
      exact (List.mem_append.1 present).elim frontHypothesis backHypothesis

theorem blanks_of_derives (derived : grammar.Derives .trivia cursor trees after) :
    Blanks trees := by
  obtain ⟨tokens, rfl, trivial⟩ := exists_leaves_of_many derived
  intro tree present
  obtain ⟨token, listed, rfl⟩ := List.mem_map.1 present
  exact trivial token listed

theorem exists_of_derives_token
    {accepts : Token → Bool}
    (derived : grammar.Derives (.token accepts) cursor trees after) :
    ∃ token, trees = [.leaf token] ∧ accepts token = true := by
  cases derived with
  | token _ accepted => exact ⟨_, rfl, accepted⟩

theorem exists_of_derives_append
    {first second : Pattern}
    (derived : grammar.Derives (first ++ second) cursor trees after) :
    ∃ middle front back, trees = front ++ back ∧ grammar.Derives first cursor front middle ∧
      grammar.Derives second middle back after := by
  cases derived with
  | sequence front back => exact ⟨_, _, _, rfl, front, back⟩

/-- A rule leaves one node, its own or one of a tighter rule. -/
def Leaves (grammar : Grammar) (rule : Rule) : Prop :=
  ∀ cursor trees after, grammar.Derives (.rule rule) cursor trees after →
    ∃ node : Node, trees = [node.toTree] ∧ node.rule ∈ rule :: rule.tighter

section Unmocked

variable (unmocked : grammar.mocked = [])
include unmocked

/-- A rule leaves what a tighter rule leaves if that is all it reads. -/
theorem leaves_of_single
    {rule : Rule}
    (single : ∀ (cursor after : Cursor) (inner : Node), rule.collapses = true →
      grammar.Derives rule.pattern cursor [inner.toTree] after → inner.rule ∈ rule.tighter) :
    grammar.Leaves rule := by
  intro cursor trees after derived
  cases derived with
  | @rule _ _ _ children body =>
      rw [pattern_eq unmocked] at body
      rcases build_eq_or_exists rule children with own | ⟨collapses, inner, rfl, given⟩
      · rw [own]
        exact ⟨_, rfl, List.mem_cons_self⟩
      · rw [given]
        exact ⟨inner, rfl, List.mem_cons_of_mem _ (single _ _ inner collapses body)⟩

end Unmocked

/-- The item of a layer is an operator and a tighter operand. -/
theorem exists_of_derives_item
    {layer : Layer}
    (leaves : grammar.Leaves layer.operand)
    (derived : grammar.Derives layer.item cursor trees after) :
    ∃ (before behind : List Tree) (operator : Token) (operand : Node),
      trees = before ++ .leaf operator :: (behind ++ [operand.toTree]) ∧ Blanks before ∧
      operator.isAnyPunctuator layer.operators = true ∧ Blanks behind ∧
      operand.rule ∈ layer.rule.tighter := by
  obtain ⟨_, _, _, rfl, derived, last⟩ := exists_of_derives_append derived
  obtain ⟨_, _, behind, rfl, derived, blanksBehind⟩ := exists_of_derives_append derived
  obtain ⟨_, before, _, rfl, blanksBefore, sign⟩ := exists_of_derives_append derived
  obtain ⟨operator, rfl, isOperator⟩ := exists_of_derives_token sign
  obtain ⟨operand, rfl, isOperand⟩ := leaves _ _ _ last
  refine ⟨before, behind, operator, operand, by simp, blanks_of_derives blanksBefore, isOperator,
    blanks_of_derives blanksBehind, ?_⟩
  rwa [layer.tighter_rule]

/-- The repetition of a layer is a chain of its operators and of tighter operands. -/
theorem chain_of_derives
    {layer : Layer}
    (leaves : grammar.Leaves layer.operand)
    (derived : grammar.Derives (.many layer.item) cursor trees after) :
    Chain layer.operators layer.rule.tighter trees := by
  generalize repeated : Pattern.many layer.item = pattern at derived
  induction derived with
  | stop => exact .nil
  | further front _ _ backHypothesis =>
      cases repeated
      obtain ⟨before, behind, operator, operand, rfl, blanksBefore, isOperator, blanksBehind,
        isOperand⟩ := exists_of_derives_item leaves front
      rw [List.append_assoc, List.cons_append, List.append_assoc, List.singleton_append]
      exact .cons blanksBefore isOperator blanksBehind isOperand (backHypothesis rfl)
  | _ => cases repeated

/-- A layer reads a tighter operand and a chain behind it. -/
theorem exists_of_derives_layer
    {layer : Layer}
    (leaves : grammar.Leaves layer.operand)
    (derived : grammar.Derives layer.rule.pattern cursor trees after) :
    ∃ (first : Node) (others : List Tree), trees = first.toTree :: others ∧
      first.rule ∈ layer.rule.tighter ∧ Chain layer.operators layer.rule.tighter others := by
  rw [layer.pattern_rule] at derived
  obtain ⟨_, _, others, rfl, front, back⟩ := exists_of_derives_append derived
  obtain ⟨first, rfl, isFirst⟩ := leaves _ _ _ front
  refine ⟨first, others, rfl, ?_, chain_of_derives leaves back⟩
  rwa [layer.tighter_rule]

/-- A conditional expression reads a tighter condition, perhaps with alternatives behind it. -/
theorem exists_of_derives_conditional
    (leaves : grammar.Leaves .logicalOrExpression)
    (derived : grammar.Derives .conditionalExpression cursor trees after) :
    ∃ (middle : Cursor) (condition : Node) (others : List Tree), trees = condition.toTree :: others ∧
      condition.rule ∈ Rule.conditionalExpression.tighter ∧
      grammar.Derives (.optional .alternatives) middle others after := by
  obtain ⟨middle, _, others, rfl, front, back⟩ := exists_of_derives_append derived
  obtain ⟨condition, rfl, isCondition⟩ := leaves _ _ _ front
  exact ⟨middle, condition, others, rfl, isCondition, back⟩

section Unmocked

variable (unmocked : grammar.mocked = [])
include unmocked

theorem leaves_layer (layer : Layer) (leaves : grammar.Leaves layer.operand) :
    grammar.Leaves layer.rule := by
  apply leaves_of_single unmocked
  intro cursor after inner _ derived
  obtain ⟨first, others, equal, isFirst, _⟩ := exists_of_derives_layer leaves derived
  rw [List.cons.injEq] at equal
  rwa [Node.toTree_injective equal.1]

theorem leaves_conditionalExpression (leaves : grammar.Leaves .logicalOrExpression) :
    grammar.Leaves .conditionalExpression := by
  apply leaves_of_single unmocked
  intro cursor after inner _ derived
  obtain ⟨_, condition, others, equal, isCondition, _⟩ :=
    exists_of_derives_conditional leaves derived
  rw [List.cons.injEq] at equal
  rwa [Node.toTree_injective equal.1]

theorem leaves_primaryExpression : grammar.Leaves .primaryExpression := by
  apply leaves_of_single unmocked
  intro cursor after inner collapses
  cases collapses

/-- An operator in front of an operand is never a single node. -/
theorem leaves_unaryExpression : grammar.Leaves .unaryExpression := by
  apply leaves_of_single unmocked
  intro cursor after inner _ derived
  generalize single : [inner.toTree] = trees at derived
  cases derived with
  | preferred signed =>
      obtain ⟨_, _, last, rfl, front, back⟩ := exists_of_derives_append signed
      obtain ⟨_, first, _, rfl, sign, _⟩ := exists_of_derives_append front
      cases sign
      cases back
      simp at single
  | alternative chosen =>
      obtain ⟨node, rfl, isNode⟩ := leaves_primaryExpression unmocked _ _ _ chosen
      rwa [Node.toTree_injective (List.singleton_inj.1 single)]

/-- Every rule for expressions leaves a node of its own or of a tighter rule. -/
theorem leaves_expressions : ∀ rule ∈ Rule.expressions, grammar.Leaves rule := by
  have multiplicative := leaves_layer unmocked .multiplicative (leaves_unaryExpression unmocked)
  have additive := leaves_layer unmocked .additive multiplicative
  have shift := leaves_layer unmocked .shift additive
  have relational := leaves_layer unmocked .relational shift
  have equality := leaves_layer unmocked .equality relational
  have bitwiseAnd := leaves_layer unmocked .and equality
  have exclusiveOr := leaves_layer unmocked .exclusiveOr bitwiseAnd
  have inclusiveOr := leaves_layer unmocked .inclusiveOr exclusiveOr
  have logicalAnd := leaves_layer unmocked .logicalAnd inclusiveOr
  have logicalOr := leaves_layer unmocked .logicalOr logicalAnd
  have conditional := leaves_conditionalExpression unmocked logicalOr
  have comma := leaves_layer unmocked .comma conditional
  simp only [Rule.expressions, List.forall_mem_cons]
  exact ⟨comma, conditional, logicalOr, logicalAnd, inclusiveOr, exclusiveOr, bitwiseAnd, equality,
    relational, shift, additive, multiplicative, leaves_unaryExpression unmocked,
    leaves_primaryExpression unmocked, List.forall_mem_nil _⟩

end Unmocked

variable {node : Node}

/-- A node that a rule keeps for itself is not its only child. -/
theorem Grounded.children_ne
    (grounded : grammar.Grounded node)
    (collapses : node.rule.collapses = true)
    {inner : Node}
    (tighter : inner.rule ∈ node.rule.tighter) :
    node.children ≠ [inner.toTree] := by
  obtain ⟨_, _, _, own⟩ := grounded
  intro single
  have given : node.rule.build node.children = inner := by
    rw [single]
    simp [Node.toTree, Rule.build, collapses]
  rw [own] at given
  subst given
  exact Rule.not_mem_tighter_self _ tighter

section Unmocked

variable (unmocked : grammar.mocked = [])
include unmocked

theorem Grounded.joins
    (grounded : grammar.Grounded node)
    {layer : Layer}
    (isLayer : node.rule = layer.rule) :
    layer.Joins node.children := by
  obtain ⟨cursor, after, derived, _⟩ := id grounded
  rw [pattern_eq unmocked, isLayer] at derived
  have leaves : grammar.Leaves layer.operand :=
    leaves_expressions unmocked _ (by cases layer <;> decide)
  obtain ⟨first, others, equal, isFirst, chain⟩ := exists_of_derives_layer leaves derived
  refine ⟨first, others, equal, isFirst, ?_, chain⟩
  rintro rfl
  exact grounded.children_ne (isLayer ▸ layer.collapses_rule) (isLayer ▸ isFirst) equal

theorem Grounded.signed
    (grounded : grammar.Grounded node)
    (isUnary : node.rule = .unaryExpression) :
    Signed node.children := by
  obtain ⟨cursor, after, derived, _⟩ := id grounded
  rw [pattern_eq unmocked, isUnary] at derived
  generalize children : node.children = trees at derived
  cases derived with
  | preferred derived =>
      obtain ⟨_, _, _, rfl, front, back⟩ := exists_of_derives_append derived
      obtain ⟨_, _, blanks, rfl, front, between⟩ := exists_of_derives_append front
      obtain ⟨sign, rfl, isSign, _⟩ := exists_of_derives_rule rfl front
      obtain ⟨operand, rfl, isOperand⟩ := leaves_unaryExpression unmocked _ _ _ back
      exact ⟨sign, operand, blanks, by simp, isSign, blanks_of_derives between, isOperand⟩
  | alternative derived =>
      obtain ⟨primary, rfl, isPrimary⟩ := leaves_primaryExpression unmocked _ _ _ derived
      exact absurd children (grounded.children_ne (isUnary ▸ rfl) (isUnary ▸ isPrimary))

/-- What stands between a question mark and a colon. -/
theorem middle_of_derives
    {before : List Tree}
    (blanksBefore : Blanks before)
    (derived : grammar.Derives (.optional (.rule .expression ++ .trivia)) cursor trees after) :
    Middle (before ++ trees) := by
  cases derived with
  | preferred derived =>
      obtain ⟨_, _, behind, rfl, front, blanksBehind⟩ := exists_of_derives_append derived
      obtain ⟨accepted, rfl, isAccepted⟩ :=
        leaves_expressions unmocked .expression (by decide) _ _ _ front
      exact .inr ⟨before, behind, accepted, rfl, blanksBefore, blanks_of_derives blanksBehind,
        isAccepted⟩
  | alternative derived =>
      cases derived
      rw [List.append_nil]
      exact .inl blanksBefore

theorem Grounded.choice
    (grounded : grammar.Grounded node)
    (isConditional : node.rule = .conditionalExpression) :
    Choice node.children := by
  obtain ⟨cursor, after, derived, _⟩ := id grounded
  rw [pattern_eq unmocked, isConditional] at derived
  have leaves := leaves_expressions unmocked
  obtain ⟨_, condition, others, equal, isCondition, optional⟩ :=
    exists_of_derives_conditional (leaves _ (by decide)) derived
  cases optional with
  | preferred derived =>
      obtain ⟨_, _, _, rfl, derived, last⟩ := exists_of_derives_append derived
      obtain ⟨_, _, behind, rfl, derived, blanksBehind⟩ := exists_of_derives_append derived
      obtain ⟨_, _, _, rfl, derived, separator⟩ := exists_of_derives_append derived
      obtain ⟨_, _, middle, rfl, derived, chosen⟩ := exists_of_derives_append derived
      obtain ⟨_, _, between, rfl, derived, blanksBetween⟩ := exists_of_derives_append derived
      obtain ⟨_, before, _, rfl, blanksBefore, asking⟩ := exists_of_derives_append derived
      obtain ⟨question, rfl, asks⟩ := exists_of_derives_token asking
      obtain ⟨colon, rfl, separates⟩ := exists_of_derives_token separator
      obtain ⟨refused, rfl, isRefused⟩ := leaves .conditionalExpression (by decide) _ _ _ last
      refine ⟨condition, refused, question, colon, before, between ++ middle, behind, ?_,
        isCondition, blanks_of_derives blanksBefore, asks,
        middle_of_derives unmocked (blanks_of_derives blanksBetween) chosen, separates,
        blanks_of_derives blanksBehind, isRefused⟩
      simp [equal]
  | alternative derived =>
      cases derived
      exact absurd equal (grounded.children_ne (isConditional ▸ rfl) (isConditional ▸ isCondition))

/-- A looser expression below a primary one stands in parentheses. -/
theorem Grounded.encloses_of_primary
    (grounded : grammar.Grounded node)
    (isPrimary : node.rule = .primaryExpression)
    {before behind : List Tree}
    {child : Node}
    (stands : node.children = before ++ child.toTree :: behind)
    (looser : node.rule ∈ child.rule.tighter) :
    Encloses .leftParen .rightParen before behind := by
  obtain ⟨cursor, after, derived, _⟩ := id grounded
  rw [pattern_eq unmocked, isPrimary] at derived
  generalize node.children = trees at derived stands
  have present : child.toTree ∈ trees := by simp [stands]
  cases derived with
  | preferred operand =>
      obtain ⟨inner, rfl, listed, _⟩ := exists_of_derives_firstOf (by decide) operand
      have noLayer : ∀ rule ∈ [Rule.literal, .hasIncludeExpression, .definedExpression,
          .functionlikeMacro], rule.tighter = [] := by decide
      rw [Node.toTree_injective (List.mem_singleton.1 present), noLayer _ listed] at looser
      cases looser
  | alternative others =>
    cases others with
    | preferred group =>
        obtain ⟨_, _, _, rfl, group, last⟩ := exists_of_derives_append group
        obtain ⟨_, _, blanksBehind, rfl, group, _⟩ := exists_of_derives_append group
        obtain ⟨_, _, inner, rfl, group, _⟩ := exists_of_derives_append group
        obtain ⟨_, _, blanksBefore, rfl, first, _⟩ := exists_of_derives_append group
        obtain ⟨opening, rfl, opens⟩ := exists_of_derives_token first
        obtain ⟨closing, rfl, closes⟩ := exists_of_derives_token last
        have parts : [.leaf opening] ++ (blanksBefore ++ inner ++ blanksBehind) ++ [.leaf closing] =
            before ++ child.toTree :: behind := by
          simpa using stands
        exact encloses_of_append parts ⟨opening, List.mem_singleton_self _, opens⟩
          ⟨closing, List.mem_singleton_self _, closes⟩ (by simp [Node.toTree])
          (by simp [Node.toTree])
    | alternative others =>
      cases others with
      | preferred group =>
          obtain ⟨_, _, _, rfl, group, last⟩ := exists_of_derives_append group
          obtain ⟨_, _, _, rfl, first, blanks⟩ := exists_of_derives_append group
          obtain ⟨opening, rfl, _⟩ := exists_of_derives_token first
          obtain ⟨closing, rfl, _⟩ := exists_of_derives_token last
          have absent := (blanks_of_derives blanks).not_mem child
          simp [Node.toTree] at present absent
          contradiction
      | alternative name =>
          obtain ⟨token, rfl, _⟩ := exists_of_derives_token name
          cases List.mem_singleton.1 present

/-- The nodes of a derivation are arranged by precedence. -/
theorem Grounded.arranged (grounded : grammar.Grounded node) : node.Arranged where
  joins _ isLayer := grounded.joins unmocked isLayer
  signed isUnary := grounded.signed unmocked isUnary
  choice isConditional := grounded.choice unmocked isConditional
  choiceTokens isConditional := (grounded.choice unmocked isConditional).childTokens_eq
  comma isComma := by
    have joins : Layer.comma.Joins node.children := grounded.joins unmocked isComma
    obtain ⟨operator, present, isOperator⟩ := joins.exists_operator
    exact ⟨operator, present, by simpa [Layer.operators, Token.isAnyPunctuator] using isOperator⟩
  flat isComma child present same := by
    have joins : Layer.comma.Joins node.children := grounded.joins unmocked isComma
    have tighter := joins.mem (mem_childNodes.1 present)
    rw [same] at tighter
    exact Rule.not_mem_tighter_self _ tighter
  operator collapses := by
    rcases Rule.kind_of_mem_expressions (Rule.mem_expressions_of_collapses collapses) with
      ⟨layer, isLayer⟩ | isConditional | isUnary | isPrimary
    · exact .inl ⟨layer, isLayer, (grounded.joins unmocked isLayer).exists_operator⟩
    · obtain ⟨question, colon, equal, asks, _⟩ :=
        (grounded.choice unmocked isConditional).childTokens_eq
      exact .inr (.inl ⟨isConditional, question, by simp [equal], asks⟩)
    · obtain ⟨sign, operand, blanks, equal, isSign, _⟩ := grounded.signed unmocked isUnary
      exact .inr (.inr ⟨isUnary, sign, mem_childNodes.2 (by simp [equal]), isSign⟩)
    · rw [isPrimary] at collapses
      cases collapses
  enclosed before behind child stands looser := by
    have present : child.toTree ∈ node.children := by simp [stands]
    rcases Rule.kind_of_mem_expressions (Rule.mem_expressions_of_mem_tighter looser) with
      ⟨layer, isLayer⟩ | isConditional | isUnary | isPrimary
    · have tighter := (grounded.joins unmocked isLayer).mem present
      rw [isLayer] at looser
      exact absurd looser (Rule.not_mem_tighter_of_mem_tighter tighter)
    · have choice := grounded.choice unmocked isConditional
      rw [isConditional] at looser
      exact .inl ⟨isConditional, choice.encloses stands looser⟩
    · have listed := (grounded.signed unmocked isUnary).mem present
      have order := Rule.rank_lt_of_mem_tighter looser
      rw [isUnary] at order
      simp only [List.mem_cons, List.not_mem_nil, or_false] at listed
      rcases listed with same | same | same <;> rw [same] at order <;> contradiction
    · exact .inr ⟨isPrimary, grounded.encloses_of_primary unmocked isPrimary stands looser⟩

/--
Precedence is sound: below the root of a parse, every node of the expression
grammar has its operator and tighter operands, and a looser expression is found
below a tighter one only as the middle of a choice or in parentheses.
-/
theorem arranged_of_parse
    {rule : Rule}
    {source : String}
    {file : FileId}
    {line : UInt32}
    {root : Node}
    (parsed : grammar.parse rule source file line = .ok root) :
    ∀ inner ∈ Tree.nodesOf root.children, inner.Arranged := by
  intro inner present
  obtain ⟨tokens, _, found⟩ := parseTokens_of_parse parsed
  obtain ⟨node, after, trailing, reading, _, rfl, _⟩ := exists_of_rootOf? found
  have derived := derives_of_readRule grammar.maxDepth (Prod.ext reading rfl)
  refine (derived.grounded ?_).arranged unmocked
  rw [nodesOf_append, nodesOf_append, nodesOf_map_leaf, nodesOf_map_leaf, List.nil_append,
    List.append_nil] at present
  rw [nodesOf_toTree]
  split at present
  next => exact List.mem_cons_of_mem _ present
  next => rwa [nodesOf_toTree] at present

end Unmocked

/-- Inside the parentheses a comma is allowed, as it is between the question mark and the colon. -/
theorem arranged_of_parse_comma_in_choice :
    ∃ root, Grammar.standard.parse .expression "a ? b, !c : (d, e) * -f, g" 0 1 = .ok root ∧
      ∀ inner ∈ Tree.nodesOf root.children, inner.Arranged := by
  have matched :
      (Grammar.standard.parse .expression "a ? b, !c : (d, e) * -f, g" 0 1).isOk = true := by
    decide +kernel
  cases parsed : Grammar.standard.parse .expression "a ? b, !c : (d, e) * -f, g" 0 1 with
  | error fault => simp [parsed, Except.isOk, Except.toBool] at matched
  | ok root => exact ⟨root, rfl, arranged_of_parse rfl parsed⟩

end Grammar
end PreprocessorSyntax
