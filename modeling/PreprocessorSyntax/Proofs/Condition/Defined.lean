import PreprocessorSyntax.Proofs.Depth.Replay
import PreprocessorSyntax.Proofs.Grammar.Occurrences
import PreprocessorSyntax.Proofs.Line.Content

/-!
# The operator `defined`

Inside a condition, `defined` is meant to be an operator that is followed by the
name of a macro.  It names no macro call itself.  Where no name follows it, and
no parenthesis either, it is read as a name like any other, and this is the only
way in which it can be left without operand.  Header names and the arguments of
macro calls are any tokens, so it may occur there.
-/

namespace PreprocessorSyntax

namespace Node

/-- The test whether a macro is defined: the operator and a name, perhaps in parentheses. -/
def TestsName (node : Node) : Prop :=
  node.rule = .definedExpression ∧ ∃ operator operand,
    operator.isWord "defined" = true ∧ operand.isIdentifier = true ∧
    (node.childTokens = [operator, operand] ∨
      ∃ opening closing, opening.isPunctuator .leftParen = true ∧
        closing.isPunctuator .rightParen = true ∧
        node.childTokens = [operator, opening, operand, closing])

/-- The operator without an operand, read as a name. -/
def IsBareDefined (node : Node) : Prop :=
  node.rule = .primaryExpression ∧
    ∃ token, node.children = [.leaf token] ∧ token.isWord "defined" = true

instance : DecidablePred IsBareDefined := fun node =>
  decidable_of_iff
    (node.rule = .primaryExpression ∧
      ∃ token ∈ node.children.filterMap Tree.token?,
        node.children = [.leaf token] ∧ token.isWord "defined" = true) <| by
    refine and_congr_right fun _ => exists_congr fun token => ?_
    refine ⟨And.right, fun bare => ⟨?_, bare⟩⟩
    rw [bare.1]
    exact List.mem_singleton_self token

/-- The first token directly below a node is not the operator. -/
def NotCalled (node : Node) : Prop :=
  ∀ callee ∈ node.childTokens.head?, callee.isWord "defined" = false

/-- No token of a node is the operator. -/
def LacksDefined (node : Node) : Prop :=
  ∀ token ∈ node.tokens, token.isWord "defined" = false

instance : DecidablePred LacksDefined := fun node =>
  inferInstanceAs (Decidable (∀ token ∈ node.tokens, token.isWord "defined" = false))

end Node

/-- The innermost of some nodes around a token lies in the arguments of a macro call. -/
def InArguments (path : List Node) : Prop :=
  ∃ outer call arguments inner, path = outer ++ call :: arguments :: inner ∧
    call.rule = .functionlikeMacro ∧ arguments.rule = .argumentList

/-- Neither a name nor an opening parenthesis comes next among the content of some tokens. -/
def Unapplied (behind : List Token) : Prop :=
  ∀ next ∈ (behind.filter Token.isContent).head?,
    next.isIdentifier = false ∧ next.isPunctuator .leftParen = false

/--
Every `defined` below a root is an operator with a name as its operand, or that
name, or it stands among the arguments of a macro call.
-/
structure DefinedApplied (root : Node) : Prop where
  /-- Apart from arguments, it occurs in tests only. -/
  tests : ∀ path before token behind, Occurs root.children path before token behind →
    token.isWord "defined" = true →
      InArguments path ∨ ∃ node, path.getLast? = some node ∧ node.TestsName
  /-- It is no operand itself. -/
  notBare : ∀ node ∈ Tree.nodesOf root.children, ¬ node.IsBareDefined
  /-- It is not the name of a macro that is called. -/
  notCalled : ∀ node ∈ Tree.nodesOf root.children, node.rule = .functionlikeMacro → node.NotCalled

namespace Rule

/-- The rules for what operands consist of, but for those of expressions. -/
def atoms : List Rule :=
  [.literal, .hasIncludeExpression, .definedExpression, .functionlikeMacro, .unaryOperator,
   .includeBodyBracketed, .includeBodyQuoted, .argumentList, .argument,
   .somethingContainingParentheses, .somethingWithoutParentheses]

/-- What an expression consists of. -/
theorem mem_of_called_expression :
    ∀ rule ∈ expressions, ∀ called ∈ rule.pattern.calls, ∀ made ∈ called :: called.tighter,
      made ∈ expressions ∨ made ∈ atoms ∧ made ∉ arguments := by
  decide

/-- No expression is part of anything else. -/
theorem mem_of_called_atom :
    ∀ rule ∈ atoms, ∀ called ∈ rule.pattern.calls, ∀ made ∈ called :: called.tighter,
      made ∈ atoms := by
  decide

/-- Arguments consist of arguments. -/
theorem mem_of_called_argument :
    ∀ rule ∈ arguments, ∀ called ∈ rule.pattern.calls, ∀ made ∈ called :: called.tighter,
      made ∈ arguments := by
  decide

/-- Only macro calls have arguments. -/
theorem eq_of_called_argument :
    ∀ rule ∈ atoms, rule ∉ arguments → ∀ called ∈ rule.pattern.calls,
      ∀ made ∈ called :: called.tighter, made ∈ arguments →
        rule = .functionlikeMacro ∧ made = .argumentList := by
  decide

/-- The operator can be a leaf below a few rules only. -/
theorem mem_of_admits_defined
    {rule : Rule}
    (listed : rule ∈ expressions ∨ rule ∈ atoms)
    {token : Token}
    (isDefined : token.isWord "defined" = true)
    (admits : rule.pattern.admits token = true) :
    rule ∈ [.primaryExpression, .definedExpression, .includeBodyBracketed,
      .somethingWithoutParentheses] := by
  rw [Token.isWord, Bool.and_eq_true, Token.isIdentifier, beq_iff_eq, beq_iff_eq] at isDefined
  obtain ⟨kind, text, location⟩ := token
  obtain ⟨rfl, rfl⟩ := isDefined
  cases rule <;> first | decide | (exfalso; revert listed; decide) | cases admits

end Rule

theorem Unapplied.append
    {front back : List Token}
    (first : Unapplied front)
    (second : Unapplied back) :
    Unapplied (front ++ back) := by
  unfold Unapplied at first second ⊢
  rw [List.filter_append]
  cases contents : front.filter Token.isContent with
  | nil => rwa [List.nil_append]
  | cons token more =>
      rw [contents] at first
      simpa using first

theorem unapplied_nil : Unapplied [] := by simp [Unapplied]

/-- White space and comments are not applied to. -/
theorem Blanks.unapplied
    {trees : List Tree}
    (blanks : Blanks trees) :
    Unapplied (Tree.tokensOf trees) := by
  induction trees with
  | nil => exact unapplied_nil
  | cons tree trees inductionHypothesis =>
      obtain ⟨blank, others⟩ := List.forall_mem_cons.1 blanks
      cases tree with
      | node rule children => cases blank
      | leaf token =>
          have noContent : token.isContent = false := isContent_eq_false_of_isTrivia blank
          have first : Unapplied [token] := by simp [Unapplied, noContent]
          rw [Tree.tokensOf_cons]
          exact first.append (inductionHypothesis others)

/-- An operator is no operand. -/
theorem unapplied_operator
    {operator : Token}
    {symbols : List Punctuator}
    (isOperator : operator.isAnyPunctuator symbols = true)
    (noParenthesis : .leftParen ∉ symbols)
    (trees : List Tree) :
    Unapplied (Tree.tokensOf (.leaf operator :: trees)) := by
  obtain ⟨symbol, listed, isSymbol⟩ := List.any_eq_true.1 isOperator
  have other : symbol ≠ .leftParen := fun same => noParenthesis (same ▸ listed)
  intro next first
  rw [Tree.tokensOf_cons, Tree.tokens_leaf, List.singleton_append,
    List.filter_cons_of_pos (Token.isContent_of_isPunctuator isSymbol), List.head?_cons] at first
  cases first
  exact ⟨Token.isIdentifier_of_isPunctuator isSymbol, Token.isPunctuator_eq_false isSymbol other⟩

/-- No operand follows directly upon an expression among some trees. -/
def Separated (trees : List Tree) : Prop :=
  ∀ (front back : List Tree) (child : Node), trees = front ++ child.toTree :: back →
    child.rule ∈ Rule.expressions → Unapplied (Tree.tokensOf back)

namespace Separated

variable {trees : List Tree}

theorem nil : Separated [] := by
  intro front back child equal
  simp at equal

theorem leaf (separated : Separated trees) (token : Token) : Separated (.leaf token :: trees) := by
  intro front back child equal isExpression
  cases front with
  | nil => cases equal
  | cons tree front =>
      rw [List.cons_append, List.cons.injEq] at equal
      exact separated front back child equal.2 isExpression

theorem node
    (separated : Separated trees)
    (node : Node)
    (unapplied : node.rule ∈ Rule.expressions → Unapplied (Tree.tokensOf trees)) :
    Separated (node.toTree :: trees) := by
  intro front back child equal isExpression
  cases front with
  | nil =>
      rw [List.nil_append, List.cons.injEq] at equal
      rw [← Node.toTree_injective equal.1] at isExpression
      rw [← equal.2]
      exact unapplied isExpression
  | cons tree front =>
      rw [List.cons_append, List.cons.injEq] at equal
      exact separated front back child equal.2 isExpression

theorem blanks
    {blanks : List Tree}
    (separated : Separated trees)
    (areBlanks : Blanks blanks) :
    Separated (blanks ++ trees) := by
  induction blanks with
  | nil => exact separated
  | cons tree blanks inductionHypothesis =>
      obtain ⟨blank, others⟩ := List.forall_mem_cons.1 areBlanks
      cases tree with
      | node rule children => cases blank
      | leaf token => exact (inductionHypothesis others).leaf token

end Separated

/-- In a chain, operators stand between the operands. -/
theorem Chain.separated
    {operators : List Punctuator}
    {operands : List Rule}
    {trees : List Tree}
    (noParenthesis : .leftParen ∉ operators)
    (chain : Chain operators operands trees) :
    Separated trees ∧ Unapplied (Tree.tokensOf trees) := by
  induction chain with
  | nil => exact ⟨.nil, unapplied_nil⟩
  | cons blanksBefore isOperator blanksBehind _ _ inductionHypothesis =>
      obtain ⟨separated, unapplied⟩ := inductionHypothesis
      refine ⟨(((separated.node _ fun _ => unapplied).blanks blanksBehind).leaf _).blanks
        blanksBefore, ?_⟩
      rw [Tree.tokensOf_append]
      exact blanksBefore.unapplied.append (unapplied_operator isOperator noParenthesis _)

/-- The parts of a choice are told apart by its two punctuators. -/
theorem Choice.separated {children : List Tree} (choice : Choice children) :
    Separated children := by
  obtain ⟨condition, refused, question, colon, before, middle, behind, rfl, _, blanksBefore, asks,
    isMiddle, separates, blanksBehind, _⟩ := choice
  have symbol {token : Token} {expected : Punctuator}
      (isSymbol : token.isPunctuator expected = true) (other : expected ≠ .leftParen)
      (trees : List Tree) :
      Unapplied (Tree.tokensOf (.leaf token :: trees)) :=
    unapplied_operator (List.any_eq_true.2 ⟨expected, List.mem_singleton_self _, isSymbol⟩)
      (by simpa using other.symm) trees
  have last : Separated (.leaf colon :: (behind ++ [refused.toTree])) :=
    ((Separated.nil.node refused fun _ => unapplied_nil).blanks blanksBehind).leaf colon
  have colonNext : Unapplied (Tree.tokensOf (.leaf colon :: (behind ++ [refused.toTree]))) :=
    symbol separates (by decide) _
  have accepted : Separated (middle ++ .leaf colon :: (behind ++ [refused.toTree])) := by
    rcases isMiddle with blanks | ⟨early, late, node, rfl, blanksEarly, blanksLate, _⟩
    · exact last.blanks blanks
    · have next :
          Unapplied (Tree.tokensOf (late ++ .leaf colon :: (behind ++ [refused.toTree]))) := by
        rw [Tree.tokensOf_append]
        exact blanksLate.unapplied.append colonNext
      have whole := ((last.blanks blanksLate).node node fun _ => next).blanks blanksEarly
      simpa using whole
  have questionNext : Unapplied (Tree.tokensOf
      (before ++ .leaf question :: (middle ++ .leaf colon :: (behind ++ [refused.toTree])))) := by
    rw [Tree.tokensOf_append]
    exact blanksBefore.unapplied.append (symbol asks (by decide) _)
  have whole := ((accepted.leaf question).blanks blanksBefore).node condition fun _ => questionNext
  simpa using whole

/-- An operator stands in front of its operand. -/
theorem Signed.separated {children : List Tree} (signed : Signed children) :
    Separated children := by
  obtain ⟨sign, operand, blanks, rfl, isSign, isBlank, _⟩ := signed
  refine ((Separated.nil.node operand fun _ => unapplied_nil).blanks isBlank).node sign ?_
  rw [isSign]
  exact fun isExpression => absurd isExpression (by decide)

namespace Grammar

variable {grammar : Grammar} {node : Node} {token : Token}

section Unmocked

variable (unmocked : grammar.mocked = [])
include unmocked

/-- Rules that call only each other make everything below their nodes. -/
theorem Grounded.forall_mem_path
    {rules : List Rule}
    (closed : ∀ rule ∈ rules, ∀ called ∈ rule.pattern.calls, ∀ made ∈ called :: called.tighter,
      made ∈ rules)
    (grounded : grammar.Grounded node)
    (listed : node.rule ∈ rules)
    {path : List Node}
    {before behind : List Token}
    (occurs : Occurs node.children path before token behind) :
    ∀ inner ∈ path, inner.rule ∈ rules := by
  have step (node child : Node) (here : grammar.Grounded node ∧ node.rule ∈ rules)
      (present : child.toTree ∈ node.children) : grammar.Grounded child ∧ child.rule ∈ rules := by
    obtain ⟨groundedChild, called, mentioned, made⟩ := here.1.child unmocked present
    exact ⟨groundedChild, closed _ here.2 _ mentioned _ made⟩
  exact fun inner present => (occurs.forall_of_closed step ⟨grounded, listed⟩ inner present).2

/-- A name directly below a primary expression is all there is of it. -/
theorem Grounded.children_of_name
    (grounded : grammar.Grounded node)
    (isPrimary : node.rule = .primaryExpression)
    (present : .leaf token ∈ node.children)
    (isName : token.isIdentifier = true) :
    node.children = [.leaf token] := by
  obtain ⟨cursor, after, derived, _⟩ := grounded
  rw [pattern_eq unmocked, isPrimary] at derived
  generalize node.children = trees at derived present
  have noGroup {pattern : Pattern}
      (refuses : pattern.admits token = false)
      (derived : grammar.Derives pattern cursor trees after) : trees = [.leaf token] := by
    rw [derived.admits present] at refuses
    cases refuses
  have refuses (symbol : Punctuator) : token.isPunctuator symbol = false := by
    rw [Token.isPunctuator, Token.kind_of_isIdentifier isName]
    rfl
  have notTrivia := Token.isTrivia_of_isIdentifier isName
  cases derived with
  | preferred operand => exact noGroup rfl operand
  | alternative others =>
    cases others with
    | preferred group =>
        refine noGroup ?_ group
        simp [Pattern.admits, Pattern.append_eq, Pattern.symbol, Pattern.trivia, refuses, notTrivia]
    | alternative others =>
      cases others with
      | preferred group =>
          refine noGroup ?_ group
          simp [Pattern.admits, Pattern.append_eq, Pattern.symbol, Pattern.trivia, refuses,
            notTrivia]
      | alternative name =>
          obtain ⟨found, rfl, _⟩ := exists_of_derives_token name
          cases List.mem_singleton.1 present
          rfl

/-- A test has its operator and a name. -/
theorem Grounded.testsName
    (grounded : grammar.Grounded node)
    (isTest : node.rule = .definedExpression) :
    node.TestsName := by
  obtain ⟨cursor, after, derived, _⟩ := grounded
  rw [pattern_eq unmocked, isTest] at derived
  have symbol (expected : Punctuator) : grammar.Shaped (.symbol expected) fun trees =>
      ∃ token, trees = [.leaf token] ∧ token.isPunctuator expected = true :=
    shaped_token fun _ => Token.isTrivia_of_isPunctuator
  have name : grammar.Shaped .identifier fun trees =>
      ∃ token, trees = [.leaf token] ∧ token.isIdentifier = true :=
    shaped_token fun _ => Token.isTrivia_of_isIdentifier
  have group := (((symbol .leftParen).append shaped_trivia).append name).append shaped_trivia
    |>.append (symbol .rightParen)
  obtain ⟨_, _, _, equal, front, back⟩ := exists_of_derives_append derived
  obtain ⟨_, _, word, ⟨operator, rfl, isOperator⟩, rfl⟩ :=
    (shaped_word "defined").append shaped_trivia _ _ _ front
  refine ⟨isTest, operator, ?_⟩
  rw [childTokens_eq, equal, significantTrees_append, word]
  cases back with
  | preferred derived =>
      obtain ⟨_, _, closes, ⟨_, _, rfl, ⟨_, _, rfl, ⟨_, _, rfl, ⟨opening, rfl, isOpening⟩, rfl⟩,
        operand, rfl, isName⟩, rfl⟩, closing, rfl, isClosing⟩ := group _ _ _ derived
      rw [closes]
      exact ⟨operand, isOperator, isName, .inr ⟨opening, closing, isOpening, isClosing, rfl⟩⟩
  | alternative derived =>
      obtain ⟨operand, single, isName⟩ := name _ _ _ derived
      rw [single]
      exact ⟨operand, isOperator, isName, .inl rfl⟩

/-- The leaf that is the operator belongs to a test, is bare, or is a token of any kind. -/
theorem Grounded.cases_defined
    (grounded : grammar.Grounded node)
    (listed : node.rule ∈ Rule.expressions ∨ node.rule ∈ Rule.atoms)
    (present : .leaf token ∈ node.children)
    (isDefined : token.isWord "defined" = true) :
    node.TestsName ∨ node.IsBareDefined ∨ node.rule = .includeBodyBracketed ∨
      node.rule = .somethingWithoutParentheses := by
  have isName := (Bool.and_eq_true_iff.1 isDefined).1
  have holder := Rule.mem_of_admits_defined listed isDefined (grounded.admits unmocked present)
  simp only [List.mem_cons, List.not_mem_nil, or_false] at holder
  rcases holder with isPrimary | isTest | isHeader | isArgument
  · exact .inr (.inl ⟨isPrimary, token,
      grounded.children_of_name unmocked isPrimary present isName, isDefined⟩)
  · exact .inl (grounded.testsName unmocked isTest)
  · exact .inr (.inr (.inl isHeader))
  · exact .inr (.inr (.inr isArgument))

/-- Around the operator there is a test, a header name or a macro call, or it is bare. -/
theorem Grounded.cases_occurs
    (grounded : grammar.Grounded node)
    (listed : node.rule ∈ Rule.expressions ∨ node.rule ∈ Rule.atoms)
    (outside : node.rule ∉ Rule.arguments)
    {path : List Node}
    {before behind : List Token}
    (occurs : Occurs node.children path before token behind)
    (isDefined : token.isWord "defined" = true) :
    InArguments (node :: path) ∨
      (∃ header ∈ node :: path, header.rule = .includeBodyBracketed ∧ token ∈ header.tokens) ∨
      ∃ holder, (node :: path).getLast? = some holder ∧
        (holder.TestsName ∨ holder.IsBareDefined) := by
  generalize children : node.children = trees at occurs
  induction occurs generalizing node with
  | direct front back token =>
      have present : .leaf token ∈ node.children := by simp [children]
      rcases grounded.cases_defined unmocked listed present isDefined with
        tests | bare | isHeader | isArgument
      · exact .inr (.inr ⟨node, rfl, .inl tests⟩)
      · exact .inr (.inr ⟨node, rfl, .inr bare⟩)
      · exact .inr (.inl ⟨node, List.mem_cons_self, isHeader, mem_tokensOf present (by simp)⟩)
      · rw [isArgument] at outside
        exact absurd (by decide) outside
  | within front back child inside inductionHypothesis =>
      obtain ⟨groundedChild, called, mentioned, made⟩ :=
        grounded.child unmocked (show child.toTree ∈ node.children by simp [children])
      have listedChild : child.rule ∈ Rule.expressions ∨ child.rule ∈ Rule.atoms := by
        rcases listed with isExpression | isAtom
        · exact (Rule.mem_of_called_expression _ isExpression _ mentioned _ made).imp_right
            And.left
        · exact .inr (Rule.mem_of_called_atom _ isAtom _ mentioned _ made)
      by_cases inArguments : child.rule ∈ Rule.arguments
      · have isAtom : node.rule ∈ Rule.atoms := by
          refine listed.resolve_left fun isExpression => ?_
          rcases Rule.mem_of_called_expression _ isExpression _ mentioned _ made with
            expression | atom
          · have apart : ∀ rule ∈ Rule.expressions, rule ∉ Rule.arguments := by decide
            exact apart _ expression inArguments
          · exact atom.2 inArguments
        obtain ⟨isCall, isList⟩ :=
          Rule.eq_of_called_argument _ isAtom outside _ mentioned _ made inArguments
        exact .inl ⟨[], node, child, _, rfl, isCall, isList⟩
      · rcases inductionHypothesis groundedChild listedChild inArguments isDefined rfl with
          ⟨outer, call, arguments, inner, equal, isCall, isList⟩ |
            ⟨header, present, isHeader, below⟩ | ⟨holder, last, holds⟩
        · exact .inl ⟨node :: outer, call, arguments, inner, by rw [equal]; rfl, isCall, isList⟩
        · exact .inr (.inl ⟨header, List.mem_cons_of_mem _ present, isHeader, below⟩)
        · exact .inr (.inr ⟨holder, by rw [List.getLast?_cons_cons]; exact last, holds⟩)

/-! ## The operator as an operand -/

/-- No operand follows directly upon an expression that is part of another one. -/
theorem Grounded.separated
    (grounded : grammar.Grounded node)
    (isExpression : node.rule ∈ Rule.expressions) :
    Separated node.children := by
  rcases Rule.kind_of_mem_expressions isExpression with
    ⟨layer, isLayer⟩ | isConditional | isUnary | isPrimary
  · obtain ⟨first, others, equal, _, _, chain⟩ := grounded.joins unmocked isLayer
    obtain ⟨separated, unapplied⟩ := chain.separated (by cases layer <;> decide)
    rw [equal]
    exact separated.node first fun _ => unapplied
  · exact (grounded.choice unmocked isConditional).separated
  · exact (grounded.signed unmocked isUnary).separated
  · obtain ⟨cursor, after, derived, _⟩ := grounded
    rw [pattern_eq unmocked, isPrimary] at derived
    generalize node.children = trees at derived
    cases derived with
    | preferred operand =>
        obtain ⟨inner, rfl, _, _⟩ := exists_of_derives_firstOf (by decide) operand
        exact Separated.nil.node inner fun _ => unapplied_nil
    | alternative others =>
      cases others with
      | preferred group =>
          obtain ⟨_, _, _, rfl, group, last⟩ := exists_of_derives_append group
          obtain ⟨_, _, behind, rfl, group, blanksBehind⟩ := exists_of_derives_append group
          obtain ⟨_, _, inner, rfl, group, expression⟩ := exists_of_derives_append group
          obtain ⟨_, _, before, rfl, first, blanksBefore⟩ := exists_of_derives_append group
          obtain ⟨opening, rfl, _⟩ := exists_of_derives_token first
          obtain ⟨closing, rfl, closes⟩ := exists_of_derives_token last
          obtain ⟨inner, rfl, _⟩ :=
            leaves_expressions unmocked .expression (by decide) _ _ _ expression
          have close : Unapplied (Tree.tokensOf (behind ++ [.leaf closing])) := by
            rw [Tree.tokensOf_append]
            exact (blanks_of_derives blanksBehind).unapplied.append (unapplied_operator
              (List.any_eq_true.2 ⟨_, List.mem_singleton_self _, closes⟩) (by decide) [])
          have last : Separated (behind ++ [.leaf closing]) :=
            (Separated.nil.leaf closing).blanks (blanks_of_derives blanksBehind)
          have whole := ((last.node inner fun _ => close).blanks
            (blanks_of_derives blanksBefore)).leaf opening
          simpa using whole
      | alternative others =>
        cases others with
        | preferred group =>
            obtain ⟨_, _, _, rfl, group, last⟩ := exists_of_derives_append group
            obtain ⟨_, _, between, rfl, first, blanks⟩ := exists_of_derives_append group
            obtain ⟨opening, rfl, _⟩ := exists_of_derives_token first
            obtain ⟨closing, rfl, _⟩ := exists_of_derives_token last
            have whole := ((Separated.nil.leaf closing).blanks (blanks_of_derives blanks)).leaf
              opening
            simpa using whole
        | alternative name =>
            obtain ⟨token, rfl, _⟩ := exists_of_derives_token name
            exact Separated.nil.leaf token

/-- Behind an operator that is read as a name stands nothing that it could be applied to. -/
theorem Grounded.unapplied
    (grounded : grammar.Grounded node)
    (isExpression : node.rule ∈ Rule.expressions)
    {path : List Node}
    {before behind : List Token}
    (occurs : Occurs node.children path before token behind)
    {holder : Node}
    (last : (node :: path).getLast? = some holder)
    (bare : holder.IsBareDefined) :
    Unapplied behind := by
  generalize children : node.children = trees at occurs
  induction occurs generalizing node with
  | direct front back token =>
      obtain rfl : node = holder := by simpa using last
      obtain ⟨_, name, single, _⟩ := bare
      rw [single] at children
      have nothingBehind : back = [] := by
        cases front with
        | nil => exact (List.cons.inj children).2.symm
        | cons tree front => simp at children
      rw [nothingBehind]
      exact unapplied_nil
  | within front back child inside inductionHypothesis =>
      rw [List.getLast?_cons_cons] at last
      have present : child.toTree ∈ node.children := by simp [children]
      obtain ⟨groundedChild, called, mentioned, made⟩ := grounded.child unmocked present
      rcases Rule.mem_of_called_expression _ isExpression _ mentioned _ made with
        expression | ⟨isAtom, _⟩
      · exact (inductionHypothesis groundedChild expression last rfl).append
          (grounded.separated unmocked isExpression front back child children expression)
      · -- nothing below an atom is an expression
        have atoms := groundedChild.forall_mem_path unmocked Rule.mem_of_called_atom isAtom inside
        have listed : holder.rule ∈ Rule.atoms := by
          rcases List.mem_cons.1 (List.mem_of_getLast? last) with rfl | further
          · exact isAtom
          · exact atoms holder further
        rw [bare.1] at listed
        exact absurd listed (by decide)

/-- The root of a condition holds one expression, and white space around it. -/
theorem exists_expression_of_parse
    {source : String}
    {file : FileId}
    {line : UInt32}
    {root : Node}
    (parsed : grammar.parse .constantExpression source file line = .ok root) :
    ∃ (leading trailing : List Token) (inner : Node),
      root.children = leading.map .leaf ++ inner.toTree :: trailing.map .leaf ∧
      (∀ token ∈ leading ++ trailing, token.isContent = false) ∧
      grammar.Grounded inner ∧ inner.rule ∈ Rule.expressions := by
  obtain ⟨tokens, _, found⟩ := parseTokens_of_parse parsed
  obtain ⟨node, after, trailing, reading, closed, rfl, _⟩ := exists_of_rootOf? found
  have derived := derives_of_readRule grammar.maxDepth (Prod.ext reading rfl)
  obtain ⟨own, single, isCondition, cursor, last, body⟩ := exists_of_derives_rule rfl derived
  obtain rfl := Node.toTree_injective (List.singleton_inj.1 single)
  rw [pattern_eq unmocked, isCondition] at body
  obtain ⟨inner, children, listed⟩ :=
    leaves_expressions unmocked .conditionalExpression (by decide) _ _ _ body
  refine ⟨(Cursor.ofTokens tokens).trivia.1, trailing, inner, ?_, ?_, ?_, ?_⟩
  · rw [if_pos isCondition, children, List.append_assoc, List.singleton_append]
  · rw [List.forall_mem_append]
    refine ⟨fun token present => isContent_eq_false_of_isTrivia
      (Cursor.isTrivia_of_mem_trivia present), fun token present => ?_⟩
    rcases isTrivia_or_newline_of_closing? closed token present with trivial | isFeed
    · exact isContent_eq_false_of_isTrivia trivial
    · simp [Token.isContent, Token.isLineEnd, isFeed, TokenKind.isLineEnd]
  · refine derived.grounded ?_
    rw [nodesOf_toTree, children, nodesOf_toTree]
    exact List.mem_cons_of_mem _ List.mem_cons_self
  · rcases List.mem_cons.1 listed with isRule | tighter
    · rw [isRule]
      decide
    · exact Rule.mem_expressions_of_mem_tighter tighter

omit unmocked in
/-- Among leaves, there is one node only. -/
theorem eq_of_leaves_around
    {leading trailing : List Token}
    {inner : Node}
    {front back : List Tree}
    (equal :
      leading.map .leaf ++ inner.toTree :: trailing.map .leaf = front ++ node.toTree :: back) :
    node = inner ∧ back = trailing.map .leaf := by
  have noLeaf (tokens : List Token) : node.toTree ∉ tokens.map Tree.leaf := by
    simp [Node.toTree]
  rcases List.append_eq_append_iff.1 equal with ⟨more, _, parts⟩ | ⟨more, isLeading, parts⟩
  · cases more with
    | nil =>
        rw [List.nil_append, List.cons.injEq] at parts
        exact ⟨(Node.toTree_injective parts.1).symm, parts.2.symm⟩
    | cons tree more =>
        rw [List.cons_append, List.cons.injEq] at parts
        exact absurd (parts.2 ▸ List.mem_append_right _ List.mem_cons_self) (noLeaf trailing)
  · cases more with
    | nil =>
        rw [List.nil_append, List.cons.injEq] at parts
        exact ⟨Node.toTree_injective parts.1, parts.2⟩
    | cons tree more =>
        rw [List.cons_append, List.cons.injEq] at parts
        rw [← parts.1] at isLeading
        exact absurd (isLeading ▸ List.mem_append_right _ List.mem_cons_self) (noLeaf leading)

omit unmocked in
/-- What is inside a node below the root of a condition is inside the expression. -/
theorem exists_occurs_of_root
    {root inner : Node}
    {leading trailing : List Token}
    (children : root.children = leading.map .leaf ++ inner.toTree :: trailing.map .leaf)
    {path : List Node}
    {before behind : List Token}
    (inside : path ≠ [])
    (occurs : Occurs root.children path before token behind) :
    ∃ (further : List Node) (early late : List Token), path = inner :: further ∧
      behind = late ++ trailing ∧ Occurs inner.children further early token late := by
  rcases occurs.cases_mem with ⟨outside, _⟩ |
    ⟨front, back, node, further, early, late, parts, rfl, rfl, occursInner⟩
  · exact absurd outside inside
  · obtain ⟨rfl, rfl⟩ := eq_of_leaves_around (children.symm.trans parts)
    exact ⟨further, early, late, rfl, by simp, occursInner⟩

/-- The name of a macro that is called is not the operator. -/
theorem Grounded.notCalled
    (grounded : grammar.Grounded node)
    (isCall : node.rule = .functionlikeMacro) :
    node.NotCalled := by
  obtain ⟨cursor, after, derived, _⟩ := grounded
  rw [pattern_eq unmocked, isCall] at derived
  obtain ⟨_, _, arguments, equal, front, _⟩ := exists_of_derives_append derived
  obtain ⟨_, _, blanks, rfl, name, _⟩ := exists_of_derives_append front
  obtain ⟨callee, rfl, accepted⟩ := exists_of_derives_token name
  obtain ⟨isName, notDefined⟩ := Bool.and_eq_true_iff.1 accepted
  intro first isFirst
  rw [childTokens_eq, equal, List.append_assoc, List.singleton_append,
    significantTrees_leaf (Token.isTrivia_of_isIdentifier isName)] at isFirst
  cases isFirst
  rw [Token.isWord, isName, Bool.true_and]
  simpa using notDefined

/-- Below a node whose rule calls no other one, there are leaves only. -/
theorem Grounded.leaf_mem
    (grounded : grammar.Grounded node)
    (callsNone : node.rule.pattern.calls = [])
    (present : token ∈ node.tokens) :
    .leaf token ∈ node.children := by
  obtain ⟨tree, child, below⟩ := exists_of_mem_tokensOf present
  cases tree with
  | leaf leaf =>
      rw [Tree.tokens_leaf, List.mem_singleton] at below
      rwa [below]
  | node rule children =>
      obtain ⟨_, called, mentioned, _⟩ :=
        grounded.child unmocked (show (Node.mk rule children).toTree ∈ node.children from child)
      rw [callsNone] at mentioned
      cases mentioned

/-- Below the arguments of a macro call there are no headers. -/
theorem rule_mem_of_inArguments
    {trees : List Tree}
    (allGrounded : ∀ node ∈ Tree.nodesOf trees, grammar.Grounded node)
    {path : List Node}
    {before behind : List Token}
    (occurs : Occurs trees path before token behind)
    (inArguments : InArguments path)
    (last : path.getLast? = some node) :
    node.rule ∈ Rule.arguments := by
  obtain ⟨outer, call, arguments, inner, rfl, _, isList⟩ := inArguments
  have step (node child : Node) (here : grammar.Grounded node ∧ node.rule ∈ Rule.arguments)
      (present : child.toTree ∈ node.children) :
      grammar.Grounded child ∧ child.rule ∈ Rule.arguments := by
    obtain ⟨grounded, called, mentioned, made⟩ := here.1.child unmocked present
    exact ⟨grounded, Rule.mem_of_called_argument _ here.2 _ mentioned _ made⟩
  have start : grammar.Grounded arguments ∧ arguments.rule ∈ Rule.arguments :=
    ⟨allGrounded _ (occurs.mem_nodesOf (by simp)), by rw [isList]; decide⟩
  have lastBelow : (arguments :: inner).getLast? = some node := by
    simpa [List.getLast?_append, List.getLast?_cons] using last
  rw [List.append_cons] at occurs
  rcases List.mem_cons.1 (List.mem_of_getLast? lastBelow) with rfl | further
  · exact start.2
  · exact (occurs.forall_of_path step start node further).2

/-- The operator in the name of a header is not applied to anything. -/
theorem lacksDefined_of_applied
    {root : Node}
    (applied : DefinedApplied root)
    (allGrounded : ∀ node ∈ Tree.nodesOf root.children, grammar.Grounded node)
    (present : node ∈ Tree.nodesOf root.children)
    (isHeader : node.rule = .includeBodyBracketed) :
    node.LacksDefined := by
  intro token below
  rw [Bool.eq_false_iff]
  intro isDefined
  have leaf := (allGrounded node present).leaf_mem unmocked (by rw [isHeader]; rfl) below
  obtain ⟨path, before, behind, occurs⟩ := exists_occurs_of_mem_nodesOf present leaf
  have last : (path ++ [node]).getLast? = some node := by simp
  rcases applied.tests _ _ _ _ occurs isDefined with inArguments | ⟨holder, isLast, tests⟩
  · have listed := rule_mem_of_inArguments unmocked allGrounded occurs inArguments last
    rw [isHeader] at listed
    exact absurd listed (by decide)
  · cases last.symm.trans isLast
    cases isHeader.symm.trans tests.1

/--
Where a condition has the operator without an operand.  Below the root of a
condition every `defined` is applied to a name, or is this name, or is one of the
arguments of a macro call, exactly if none is read as a name of its own and none
is part of the name of a header.  It is read as a name of its own only in front
of what it cannot be applied to, and it is never the name of a macro that is
called.
-/
theorem definedApplied_iff
    {source : String}
    {file : FileId}
    {line : UInt32}
    {root : Node}
    (parsed : grammar.parse .constantExpression source file line = .ok root) :
    (DefinedApplied root ↔
      (∀ node ∈ Tree.nodesOf root.children, ¬ node.IsBareDefined) ∧
        ∀ node ∈ Tree.nodesOf root.children, node.rule = .includeBodyBracketed →
          node.LacksDefined) ∧
      (∀ path node before token behind,
        Occurs root.children (path ++ [node]) before token behind → node.IsBareDefined →
          Unapplied behind) ∧
      ∀ node ∈ Tree.nodesOf root.children, node.rule = .functionlikeMacro → node.NotCalled := by
  obtain ⟨leading, trailing, inner, children, noContent, grounded, isExpression⟩ :=
    exists_expression_of_parse unmocked parsed
  have allGrounded : ∀ node ∈ Tree.nodesOf root.children, grammar.Grounded node := by
    intro node present
    rw [children, nodesOf_append, nodesOf_map_leaf, List.nil_append, ← List.singleton_append,
      nodesOf_append, nodesOf_map_leaf, List.append_nil, nodesOf_toTree] at present
    rcases List.mem_cons.1 present with rfl | below
    · exact grounded
    · exact grounded.below below
  have notCalled : ∀ node ∈ Tree.nodesOf root.children, node.rule = .functionlikeMacro →
      node.NotCalled :=
    fun node present => (allGrounded node present).notCalled unmocked
  refine ⟨⟨fun applied => ⟨applied.notBare, fun node present =>
    lacksDefined_of_applied unmocked applied allGrounded present⟩, ?_⟩, ?_, notCalled⟩
  · rintro ⟨notBare, lacks⟩
    refine ⟨fun path before token behind occurs isDefined => ?_, notBare, notCalled⟩
    have inside : path ≠ [] := by
      rintro rfl
      have listed : token ∈ leading ++ trailing := by
        rcases occurs.cases_mem with ⟨_, direct⟩ | ⟨_, _, _, _, _, _, _, outside, _⟩
        · simpa [children, Node.toTree] using direct
        · cases outside
      have content := Token.isContent_of_isIdentifier (Bool.and_eq_true_iff.1 isDefined).1
      rw [noContent token listed] at content
      cases content
    have below {node : Node} (present : node ∈ path) := occurs.mem_nodesOf present
    obtain ⟨further, early, late, rfl, _, occursInner⟩ :=
      exists_occurs_of_root children inside occurs
    have outside : inner.rule ∉ Rule.arguments := by
      revert isExpression
      generalize inner.rule = rule
      revert rule
      decide
    rcases grounded.cases_occurs unmocked (.inl isExpression) outside occursInner isDefined with
      inArguments | ⟨header, present, isHeader, inHeader⟩ | ⟨holder, last, tests | bare⟩
    · exact .inl inArguments
    · rw [lacks header (below present) isHeader token inHeader] at isDefined
      cases isDefined
    · exact .inr ⟨holder, last, tests⟩
    · exact absurd bare (notBare holder (below (List.mem_of_getLast? last)))
  · intro path node before token behind occurs bare
    obtain ⟨further, early, late, equal, rfl, occursInner⟩ :=
      exists_occurs_of_root children (by simp) occurs
    have blank : Unapplied trailing := by
      have nothingBehind : trailing.filter Token.isContent = [] := by
        rw [List.filter_eq_nil_iff]
        intro token present
        simp [noContent token (List.mem_append_right _ present)]
      simp [Unapplied, nothingBehind]
    refine (grounded.unapplied unmocked isExpression occursInner ?_ bare).append blank
    rw [← equal]
    simp

end Unmocked

/-- A test, and the operator as an argument. -/
theorem definedApplied_of_test :
    ∃ root, Grammar.standard.parse .constantExpression "defined A && F(defined)" 0 1 = .ok root ∧
      DefinedApplied root := by
  have operands : (Grammar.standard.parse .constantExpression "defined A && F(defined)"
      0 1).toOption.any (fun root : Node => decide (
        (∀ node ∈ Tree.nodesOf root.children, ¬ node.IsBareDefined) ∧
        ∀ node ∈ Tree.nodesOf root.children, node.rule = .includeBodyBracketed →
          node.LacksDefined)) = true := by
    decide +kernel
  cases parsed : Grammar.standard.parse .constantExpression "defined A && F(defined)" 0 1 with
  | error fault => simp [parsed, Except.toOption] at operands
  | ok root =>
      rw [parsed, Except.toOption, Option.any_some, decide_eq_true_eq] at operands
      exact ⟨root, rfl, (definedApplied_iff rfl parsed).1.2 operands⟩

/-- The operator alone is read as a condition. -/
theorem not_definedApplied_of_bare :
    ∃ root, Grammar.standard.parse .constantExpression "defined" 0 1 = .ok root ∧
      ¬ DefinedApplied root := by
  let bare : Node := ⟨.primaryExpression, [.leaf ⟨.identifier, "defined", ⟨0, 1, 1, 0⟩⟩]⟩
  have matched : (Grammar.standard.parse .constantExpression "defined" 0 1).toOption =
      some ⟨.constantExpression, [bare.toTree]⟩ := by
    decide +kernel
  cases parsed : Grammar.standard.parse .constantExpression "defined" 0 1 with
  | error fault => simp [parsed, Except.toOption] at matched
  | ok root =>
      rw [parsed, Except.toOption, Option.some.injEq] at matched
      subst matched
      exact ⟨_, rfl, fun applied => applied.notBare bare (by decide) (by decide)⟩

end Grammar
end PreprocessorSyntax
