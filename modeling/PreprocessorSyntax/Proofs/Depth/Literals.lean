import PreprocessorSyntax.Proofs.Condition.Precedence

/-!
# Literals in trees

With a single level left, the rule for primary expressions cannot call the rule
for literals.  It still reads `true` and `false`, as if they were names, and the
tree lacks a node.  `Tree.withLiterals` adds such nodes.  It changes no tree that
was read with levels enough, and two trees count as alike if it makes them equal.
-/

namespace PreprocessorSyntax
namespace Tree

/-- A leaf that is a literal with a node for it. -/
def asLiteral : Tree → Tree
  | .leaf token => if token.isLiteral then .node .literal [.leaf token] else .leaf token
  | .node rule children => .node rule children

/-- The children of a node of some rule, where literals in primary expressions have nodes. -/
def literalsBelow (rule : Rule) (children : List Tree) : List Tree :=
  if rule = .primaryExpression then children.map asLiteral else children

theorem literalsBelow_append (rule : Rule) (front back : List Tree) :
    literalsBelow rule (front ++ back) = literalsBelow rule front ++ literalsBelow rule back := by
  unfold literalsBelow
  split
  next => exact List.map_append
  next => rfl

theorem literalsBelow_eq_self
    (rule : Rule)
    {children : List Tree}
    (unchanged : children.map asLiteral = children) :
    literalsBelow rule children = children := by
  unfold literalsBelow
  split
  next => exact unchanged
  next => rfl

mutual

/-- A tree in which every literal of a primary expression has its own node. -/
def withLiterals : Tree → Tree
  | .leaf token => .leaf token
  | .node rule children => .node rule (literalsBelow rule (withLiteralsOf children))

/-- Some neighbouring trees in which every literal of a primary expression has its own node. -/
def withLiteralsOf : List Tree → List Tree
  | [] => []
  | tree :: trees => tree.withLiterals :: withLiteralsOf trees

end

@[simp] theorem withLiteralsOf_eq_map (trees : List Tree) :
    withLiteralsOf trees = trees.map withLiterals := by
  induction trees with
  | nil => rw [withLiteralsOf, List.map_nil]
  | cons tree trees inductionHypothesis =>
      rw [withLiteralsOf, List.map_cons, inductionHypothesis]

@[simp] theorem withLiterals_leaf (token : Token) :
    (leaf token).withLiterals = .leaf token := by
  rw [withLiterals]

@[simp] theorem withLiterals_node (rule : Rule) (children : List Tree) :
    (node rule children).withLiterals =
      .node rule (literalsBelow rule (children.map withLiterals)) := by
  rw [withLiterals, withLiteralsOf_eq_map]

theorem map_withLiterals_map_leaf (tokens : List Token) :
    (tokens.map Tree.leaf).map withLiterals = tokens.map .leaf := by
  simp

end Tree

namespace Node

/-- A node in which every literal of a primary expression has its own node. -/
def withLiterals (node : Node) : Node :=
  { node with children := Tree.literalsBelow node.rule (node.children.map Tree.withLiterals) }

theorem withLiterals_toTree (node : Node) :
    node.toTree.withLiterals = node.withLiterals.toTree := by
  rw [toTree, Tree.withLiterals_node, toTree, withLiterals]

end Node

/-- The trees are the same but for nodes of literals. -/
def Alike (trees others : List Tree) : Prop :=
  trees.map Tree.withLiterals = others.map Tree.withLiterals

/-- A rule makes the same node of the trees, but for nodes of literals. -/
def Rule.Alike (rule : Rule) (trees others : List Tree) : Prop :=
  (rule.build trees).withLiterals = (rule.build others).withLiterals

/-- Only primary expressions have literals of their own. -/
theorem withLiterals_build
    {rule : Rule}
    (notPrimary : rule ≠ .primaryExpression)
    (children : List Tree) :
    (rule.build children).withLiterals = rule.build (children.map Tree.withLiterals) := by
  have kept : ∀ trees,
      (⟨rule, trees⟩ : Node).withLiterals = ⟨rule, trees.map Tree.withLiterals⟩ := by
    intro trees
    rw [Node.withLiterals, Tree.literalsBelow, if_neg notPrimary]
  match children with
  | [] => simp [Rule.build, kept]
  | [.leaf token] => simp [Rule.build, kept]
  | [.node inner grandchildren] =>
      cases collapses : rule.collapses with
      | true => simp [Rule.build, collapses, Node.withLiterals]
      | false => simp [Grammar.build_eq collapses, kept]
  | first :: second :: others => simp [Rule.build, kept]

namespace Alike

variable {rule : Rule} {trees others more further : List Tree}

theorem refl (trees : List Tree) : Alike trees trees := rfl

theorem append (front : Alike trees others) (back : Alike more further) :
    Alike (trees ++ more) (others ++ further) := by
  unfold Alike at front back ⊢
  rw [List.map_append, List.map_append, front, back]

/-- A rule makes alike nodes of alike trees. -/
theorem build (alike : Alike trees others) : rule.Alike trees others := by
  unfold Alike at alike
  unfold Rule.Alike
  by_cases primary : rule = .primaryExpression
  · subst primary
    rw [Grammar.build_eq rfl, Grammar.build_eq rfl, Node.withLiterals, Node.withLiterals, alike]
  · rw [withLiterals_build primary, withLiterals_build primary, alike]

end Alike

/-- Alike nodes are alike trees. -/
theorem Rule.Alike.toTree
    {rule : Rule}
    {trees others : List Tree}
    (alike : rule.Alike trees others) :
    PreprocessorSyntax.Alike [(rule.build trees).toTree] [(rule.build others).toTree] := by
  unfold Rule.Alike at alike
  unfold PreprocessorSyntax.Alike
  simp only [List.map_cons, List.map_nil, Node.withLiterals_toTree, alike]

theorem map_asLiteral_of_leaves
    {trees : List Tree}
    (noLiteral : ∀ token, .leaf token ∈ trees → token.isLiteral = false) :
    trees.map Tree.asLiteral = trees := by
  have unchanged : ∀ tree ∈ trees, tree.asLiteral = tree := by
    intro tree present
    cases tree with
    | leaf token => simp [Tree.asLiteral, noLiteral token present]
    | node rule children => rfl
  rw [List.map_congr_left unchanged, List.map_id']

/-- A literal is alike with a node and without one. -/
theorem alike_literal {token : Token} (isLiteral : token.isLiteral = true) :
    Rule.primaryExpression.Alike [.leaf token] [.node .literal [.leaf token]] := by
  unfold Rule.Alike
  rw [Grammar.build_eq rfl, Grammar.build_eq rfl]
  simp [Node.withLiterals, Tree.literalsBelow, Tree.asLiteral, isLiteral]

namespace Grammar

variable {grammar : Grammar}

section Reading

variable {State : Type} {readRule : Rule → Pattern.Reader State Node} {good : Tree → Prop}

theorem forall_of_readMany
    {item : Pattern}
    (items : ∀ {cursor state trees after later},
      item.read readRule cursor state = (some (trees, after), later) → ∀ tree ∈ trees, good tree)
    (bound : List Token)
    (cursor : Cursor)
    (state : State) :
    ∀ tree ∈ (Pattern.readMany (item.read readRule) bound cursor state).1.1, good tree := by
  induction bound generalizing cursor state with
  | nil =>
      unfold Pattern.readMany
      split
      next => simp
      next front => exact items front
  | cons token bound inductionHypothesis =>
      unfold Pattern.readMany
      split
      next => simp
      next front =>
        intro tree present
        rcases List.mem_append.1 present with early | late
        · exact items front tree early
        · exact inductionHypothesis _ _ tree late

/-- Whatever is true of leaves and of what rules read is true of all trees that are read. -/
theorem forall_of_read
    (leaves : ∀ token, good (.leaf token))
    (rules : ∀ {rule cursor state node after later},
      readRule rule cursor state = (some (node, after), later) → good node.toTree)
    (pattern : Pattern)
    {cursor after : Cursor}
    {state later : State}
    {trees : List Tree}
    (read : pattern.read readRule cursor state = (some (trees, after), later)) :
    ∀ tree ∈ trees, good tree := by
  induction pattern generalizing cursor state trees after later with
  | token accepts =>
      simp only [Pattern.read] at read
      split at read
      next => cases read
      next =>
        split at read
        next => cases read; exact List.forall_mem_singleton.2 (leaves _)
        next => cases read
  | rule called =>
      simp only [Pattern.read] at read
      split at read
      next => cases read
      next found => cases read; exact List.forall_mem_singleton.2 (rules found)
  | ahead accepts =>
      simp only [Pattern.read] at read
      split at read
      next => cases read; simp
      next => cases read
  | absent refused =>
      simp only [Pattern.read] at read
      split at read
      next => cases read; simp
      next => cases read
  | empty =>
      cases read
      simp
  | sequence first second firstHypothesis secondHypothesis =>
      simp only [Pattern.read] at read
      split at read
      next => cases read
      next front =>
        split at read
        next => cases read
        next back =>
          cases read
          exact List.forall_mem_append.2 ⟨firstHypothesis front, secondHypothesis back⟩
  | choice preferred alternative preferredHypothesis alternativeHypothesis =>
      simp only [Pattern.read] at read
      split at read
      next chosen => cases read; exact preferredHypothesis chosen
      next => exact alternativeHypothesis read
  | many item inductionHypothesis =>
      have items := forall_of_readMany inductionHypothesis cursor.rest cursor state
      simp only [Pattern.read, Prod.mk.injEq, Option.some.injEq] at read
      rwa [read.1] at items

end Reading

/-- No leaf that a pattern leaves is a literal. -/
def LeavesNoLiteral (grammar : Grammar) (pattern : Pattern) : Prop :=
  ∀ cursor trees after, grammar.Derives pattern cursor trees after →
    ∀ token, .leaf token ∈ trees → token.isLiteral = false

theorem leavesNoLiteral_symbol (symbol : Punctuator) :
    grammar.LeavesNoLiteral (.symbol symbol) := by
  intro cursor trees after derived token present
  obtain ⟨found, rfl, isSymbol⟩ := exists_of_derives_token derived
  cases List.mem_singleton.1 present
  simp [Token.isLiteral, Token.kind_of_isPunctuator isSymbol]

theorem leavesNoLiteral_trivia : grammar.LeavesNoLiteral .trivia := by
  intro cursor trees after derived token present
  have trivial := blanks_of_derives derived _ present
  cases kind : token.kind <;>
    simp_all [Tree.isTrivia, Token.isTrivia, TokenKind.isTrivia, Token.isLiteral]

theorem leavesNoLiteral_rule (called : Rule) : grammar.LeavesNoLiteral (.rule called) := by
  intro cursor trees after derived token present
  cases derived with
  | rule _ => cases List.mem_singleton.1 present

theorem LeavesNoLiteral.append
    {first second : Pattern}
    (front : grammar.LeavesNoLiteral first)
    (back : grammar.LeavesNoLiteral second) :
    grammar.LeavesNoLiteral (first ++ second) := by
  intro cursor trees after derived token present
  obtain ⟨_, _, _, rfl, derivedFront, derivedBack⟩ := exists_of_derives_append derived
  rcases List.mem_append.1 present with early | late
  · exact front _ _ _ derivedFront token early
  · exact back _ _ _ derivedBack token late

theorem LeavesNoLiteral.orElse
    {preferred alternative : Pattern}
    (first : grammar.LeavesNoLiteral preferred)
    (second : grammar.LeavesNoLiteral alternative) :
    grammar.LeavesNoLiteral (preferred <|> alternative) := by
  intro cursor trees after derived
  cases derived with
  | preferred chosen => exact first _ _ _ chosen
  | alternative chosen => exact second _ _ _ chosen

theorem leavesNoLiteral_parentheses :
    grammar.LeavesNoLiteral
      (.symbol .leftParen ++ .trivia ++ .rule .expression ++ .trivia ++ .symbol .rightParen <|>
        .symbol .leftParen ++ .trivia ++ .symbol .rightParen) :=
  have opening := (leavesNoLiteral_symbol .leftParen).append leavesNoLiteral_trivia
  have closing := leavesNoLiteral_symbol .rightParen
  (((opening.append (leavesNoLiteral_rule .expression)).append leavesNoLiteral_trivia).append
    closing).orElse (opening.append closing)

section Unmocked

variable (unmocked : grammar.mocked = [])
include unmocked

/-- Where no literal is read, a name is not a literal. -/
theorem isLiteral_eq_false_of_treesAt?
    {token : Token}
    {cursor after : Cursor}
    {trees : List Tree}
    (failed : grammar.treesAt? (.rule .literal) cursor = none)
    (read : grammar.treesAt? .identifier cursor = some (trees, after))
    (present : .leaf token ∈ trees) :
    token.isLiteral = false := by
  rw [treesAt?_rule, nodeAt?_eq, pattern_eq unmocked, Option.map_eq_none_iff,
    Option.map_eq_none_iff] at failed
  obtain ⟨position, rest⟩ := cursor
  cases rest with
  | nil => cases read
  | cons found rest =>
      rw [Pattern.identifier, treesAt?_token_cons] at read
      rw [Rule.pattern, treesAt?_token_cons] at failed
      split at read
      next => cases read
      next readable =>
        rw [if_neg readable] at failed
        split at read
        next =>
          cases read
          cases List.mem_singleton.1 present
          simpa using failed
        next => cases read

/-- With levels enough, the literals of a primary expression are read by their own rule. -/
theorem map_asLiteral_of_treesAt?
    {cursor after : Cursor}
    {trees : List Tree}
    (read : grammar.treesAt? .primaryExpression cursor = some (trees, after)) :
    trees.map Tree.asLiteral = trees := by
  have noLiteral : ∀ token, .leaf token ∈ trees → token.isLiteral = false := by
    rw [Pattern.primaryExpression, treesAt?_orElse, Option.or_eq_some_iff, treesAt?_orElse,
      Option.or_eq_some_iff, treesAt?_orElse, Option.or_eq_some_iff] at read
    rcases read with called | ⟨failed, group | ⟨_, empty | ⟨_, name⟩⟩⟩
    · intro token present
      obtain ⟨node, rfl, _⟩ := exists_of_derives_firstOf (by decide) (derives_of_treesAt? called)
      cases List.mem_singleton.1 present
    · exact leavesNoLiteral_parentheses _ _ _ (.preferred (derives_of_treesAt? group))
    · exact leavesNoLiteral_parentheses _ _ _ (.alternative (derives_of_treesAt? empty))
    · rw [Pattern.firstOf, ← Pattern.orElse_eq, treesAt?_orElse, Option.or_eq_none_iff] at failed
      exact fun token => isLiteral_eq_false_of_treesAt? unmocked failed.1 name
  exact map_asLiteral_of_leaves noLiteral

/-- A rule that is read with levels enough has nodes for all literals. -/
theorem withLiterals_of_readAfresh
    (levels : Nat)
    {rule : Rule}
    {cursor after : Cursor}
    {node : Node}
    (read : grammar.readAfresh levels rule cursor false = (some (node, after), false)) :
    node.withLiterals = node := by
  induction levels generalizing rule cursor after node with
  | zero => cases read
  | succ levels inductionHypothesis =>
      rw [readAfresh_succ, Prod.mk.injEq, Option.map_eq_some_iff] at read
      obtain ⟨⟨⟨children, behind⟩, body, equal⟩, accepted⟩ := read
      cases equal
      -- Where a rule below is refused, this reader matches nothing at all.
      let reader : Rule → Pattern.Reader Unit Node := fun rule place _ =>
        (if (grammar.readAfresh levels rule place false).2 then none
          else (grammar.readAfresh levels rule place false).1, ())
      have follows (rule : Rule) :
          Follows (fun _ => True) (fun _ => True) (reader rule)
            (grammar.readAfresh levels rule) := by
        intro place state _ _ accepted
        simp [reader, accepted]
      have same := (follows_read (fun _ _ => trivial) follows (grammar.pattern rule) cursor ()
        trivial trivial accepted).1
      have unchanged : ∀ tree ∈ children, tree.withLiterals = tree := by
        refine forall_of_read (by simp) ?_ (grammar.pattern rule) (Prod.ext (same.trans body) rfl)
        intro rule place state node after later found
        have found := congrArg Prod.fst found
        simp only [reader, Option.ite_none_left_eq_some, Bool.not_eq_true] at found
        rw [Node.withLiterals_toTree, inductionHypothesis (Prod.ext found.2 found.1)]
      have mapped : children.map Tree.withLiterals = children := by
        rw [List.map_congr_left unchanged, List.map_id']
      by_cases primary : rule = .primaryExpression
      · subst primary
        rw [read_eq_treesAt? accepted, pattern_eq unmocked] at body
        rw [build_eq rfl, Node.withLiterals, mapped, Tree.literalsBelow, if_pos rfl,
          map_asLiteral_of_treesAt? unmocked body]
      · rw [withLiterals_build primary, mapped]

/-- With levels enough, every literal of a primary expression has its own node. -/
theorem withLiterals_of_nodeAt?
    {rule : Rule}
    {cursor after : Cursor}
    {node : Node}
    (read : grammar.nodeAt? rule cursor = some (node, after)) :
    node.withLiterals = node :=
  withLiterals_of_readAfresh unmocked _ (Prod.ext read (accepts_levelsFor rule cursor))

omit unmocked in
/-- No literal of a primary expression lacks its node unless it is spelled like a name. -/
theorem map_asLiteral_of_derives
    {cursor after : Cursor}
    {trees : List Tree}
    (derived : grammar.Derives .primaryExpression cursor trees after)
    (names : ∀ token ∈ Tree.tokensOf trees, token.isIdentifier = true → token.isLiteral = false) :
    trees.map Tree.asLiteral = trees := by
  apply map_asLiteral_of_leaves
  intro token present
  cases derived with
  | preferred operand =>
      obtain ⟨node, rfl, _⟩ := exists_of_derives_firstOf (by decide) operand
      cases List.mem_singleton.1 present
  | alternative derived =>
      cases derived with
      | preferred group => exact leavesNoLiteral_parentheses _ _ _ (.preferred group) token present
      | alternative derived =>
          cases derived with
          | preferred empty =>
              exact leavesNoLiteral_parentheses _ _ _ (.alternative empty) token present
          | alternative name =>
              obtain ⟨found, rfl, isName⟩ := exists_of_derives_token name
              cases List.mem_singleton.1 present
              exact names token (by simp) isName

/-- Where no name is a literal, no literal lacks its node. -/
theorem Derives.map_withLiterals
    {pattern : Pattern}
    {cursor after : Cursor}
    {trees : List Tree}
    (derived : grammar.Derives pattern cursor trees after)
    (names : ∀ token ∈ Tree.tokensOf trees, token.isIdentifier = true → token.isLiteral = false) :
    trees.map Tree.withLiterals = trees := by
  induction derived with
  | token _ _ => simp
  | @rule called _ _ children body bodyHypothesis =>
      rw [Tree.tokensOf_cons, Tree.tokensOf_nil, List.append_nil, tokens_toTree,
        tokens_build] at names
      have kept := bodyHypothesis names
      have unchanged : (called.build children).withLiterals = called.build children := by
        by_cases primary : called = .primaryExpression
        · subst primary
          rw [pattern_eq unmocked] at body
          rw [build_eq rfl, Node.withLiterals, kept, Tree.literalsBelow, if_pos rfl,
            map_asLiteral_of_derives body names]
        · rw [withLiterals_build primary, kept]
      rw [List.map_singleton, Node.withLiterals_toTree, unchanged]
  | ahead _ => rfl
  | absent _ _ => rfl
  | empty _ => rfl
  | sequence _ _ frontHypothesis backHypothesis =>
      rw [Tree.tokensOf_append, List.forall_mem_append] at names
      rw [List.map_append, frontHypothesis names.1, backHypothesis names.2]
  | preferred _ chosenHypothesis => exact chosenHypothesis names
  | alternative _ chosenHypothesis => exact chosenHypothesis names
  | stop _ _ => rfl
  | further _ _ frontHypothesis backHypothesis =>
      rw [Tree.tokensOf_append, List.forall_mem_append] at names
      rw [List.map_append, frontHypothesis names.1, backHypothesis names.2]

end Unmocked
end Grammar
end PreprocessorSyntax
