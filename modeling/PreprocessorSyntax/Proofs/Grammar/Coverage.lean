import PreprocessorSyntax.Proofs.Grammar.Derivation
import PreprocessorSyntax.Proofs.Lexer.Stream
import PreprocessorSyntax.Scan

/-!
# Trees cover their input

A syntax tree holds every token it was read from, once and in order.  The
tokens of a list are numbered; `Tree.Covers` says that the leaves of a tree are
the tokens from one number up to another, and that the children of every node
share out its tokens among themselves without gap or overlap.
-/

namespace PreprocessorSyntax

mutual

/-- The leaves of a tree are the tokens of a list from one number up to another. -/
inductive Tree.Covers (tokens : List Token) : Nat → Tree → Nat → Prop
  | leaf
      {start : Nat} {token : Token}
      (here : tokens[start]? = some token) :
      Tree.Covers tokens start (.leaf token) (start + 1)
  | node
      {start stop : Nat} {rule : Rule} {children : List Tree}
      (below : Tree.CoverAll tokens start children stop) :
      Tree.Covers tokens start (.node rule children) stop

/-- Neighbouring trees cover neighbouring runs of tokens. -/
inductive Tree.CoverAll (tokens : List Token) : Nat → List Tree → Nat → Prop
  | nil (start : Nat) : Tree.CoverAll tokens start [] start
  | cons
      {start middle stop : Nat} {tree : Tree} {trees : List Tree}
      (first : Tree.Covers tokens start tree middle)
      (others : Tree.CoverAll tokens middle trees stop) :
      Tree.CoverAll tokens start (tree :: trees) stop

end

namespace Tree

variable {tokens : List Token}

mutual

/-- A tree covers its own leaves wherever they stand. -/
theorem covers_of_drop
    (tree : Tree)
    {start : Nat}
    {rest : List Token}
    (stands : tokens.drop start = tree.tokens ++ rest) :
    tree.Covers tokens start (start + tree.tokens.length) :=
  match tree with
  | .leaf token => by
      have here : tokens[start]? = some token := by
        rw [← List.head?_drop, stands]
        rfl
      exact .leaf here
  | .node _ children => .node (coverAll_of_drop children stands)

/-- Neighbouring trees cover their own leaves wherever they stand. -/
theorem coverAll_of_drop
    (trees : List Tree)
    {start : Nat}
    {rest : List Token}
    (stands : tokens.drop start = tokensOf trees ++ rest) :
    CoverAll tokens start trees (start + (tokensOf trees).length) :=
  match trees with
  | [] => .nil start
  | tree :: trees => by
      rw [tokensOf_cons, List.append_assoc] at stands
      have behind : tokens.drop (start + tree.tokens.length) = tokensOf trees ++ rest := by
        rw [← List.drop_drop, stands, List.drop_left]
      rw [tokensOf_cons, List.length_append, ← Nat.add_assoc]
      exact .cons (covers_of_drop tree stands) (coverAll_of_drop trees behind)

end

mutual

/-- The leaves of a node of a tree stand together among the leaves of the tree. -/
theorem tokens_infix_of_mem_nodes
    {tree : Tree}
    {inner : Node}
    (present : inner ∈ tree.nodes) :
    inner.tokens <:+: tree.tokens :=
  match tree with
  | .leaf _ => by simp [nodes] at present
  | .node rule children => by
      rcases List.mem_cons.1 present with rfl | below
      · exact List.infix_refl _
      · exact tokens_infix_of_mem_nodesOf below

/-- The leaves of a node of some trees stand together among the leaves of the trees. -/
theorem tokens_infix_of_mem_nodesOf
    {trees : List Tree}
    {inner : Node}
    (present : inner ∈ nodesOf trees) :
    inner.tokens <:+: tokensOf trees :=
  match trees with
  | [] => by simp [nodesOf] at present
  | tree :: trees => by
      rw [tokensOf_cons]
      rcases List.mem_append.1 present with first | others
      · exact (tokens_infix_of_mem_nodes first).trans (List.prefix_append _ _).isInfix
      · exact (tokens_infix_of_mem_nodesOf others).trans (List.suffix_append _ _).isInfix

end

/-- Every node of a tree covers a run of the leaves of the tree. -/
theorem coverAll_of_mem_nodes
    {tree : Tree}
    {inner : Node}
    (present : inner ∈ tree.nodes) :
    ∃ start, (tree.tokens.drop start).take inner.tokens.length = inner.tokens ∧
      CoverAll tree.tokens start inner.children (start + inner.tokens.length) := by
  obtain ⟨before, behind, equal⟩ := tokens_infix_of_mem_nodes present
  have stands : tree.tokens.drop before.length = inner.tokens ++ behind := by
    rw [← equal, List.append_assoc, List.drop_left]
  refine ⟨before.length, ?_, coverAll_of_drop inner.children stands⟩
  rw [stands, List.take_left]

end Tree

namespace Grammar

theorem nodesOf_append (front back : List Tree) :
    Tree.nodesOf (front ++ back) = Tree.nodesOf front ++ Tree.nodesOf back := by
  induction front with
  | nil => rfl
  | cons tree front inductionHypothesis =>
      rw [List.cons_append, Tree.nodesOf, Tree.nodesOf, inductionHypothesis, List.append_assoc]

theorem nodesOf_toTree (node : Node) :
    Tree.nodesOf [node.toTree] = node :: Tree.nodesOf node.children := by
  simp [Tree.nodesOf, Node.toTree, Tree.nodes]

theorem nodesOf_map_leaf (tokens : List Token) : Tree.nodesOf (tokens.map .leaf) = [] := by
  induction tokens with
  | nil => rfl
  | cons token tokens inductionHypothesis =>
      rw [List.map_cons, Tree.nodesOf, inductionHypothesis]
      rfl

/-- What closes an input is all that is left of it. -/
theorem upcoming_of_closing?
    {cursor : Cursor}
    {trailing : List Token}
    (closed : closing? cursor = some trailing) :
    cursor.upcoming = trailing := by
  have skipped := cursor.advances_trivia.upcoming_eq
  unfold closing? at closed
  split at closed
  next before behind isSplit =>
    rw [isSplit] at skipped
    split at closed
    next stuck =>
      cases closed
      rw [skipped, Cursor.upcoming_of_bump?_eq_none stuck, List.append_nil]
    next token last read =>
      split at closed
      next =>
        have further := (Cursor.advances_of_bump? read).upcoming_eq
        have skippedAgain := last.advances_trivia.upcoming_eq
        split at closed
        next after finish splitAgain =>
          rw [splitAgain] at skippedAgain
          split at closed
          next ends =>
            cases closed
            have stuck : finish.bump? = none := by
              simpa [Cursor.atEnd, Cursor.peek?_eq_map_bump?] using ends
            rw [skipped, further, skippedAgain, Cursor.upcoming_of_bump?_eq_none stuck]
            simp
          next => cases closed
      next => cases closed

/-- Only white space, comments and a line feed close an input. -/
theorem isTrivia_or_newline_of_closing?
    {cursor : Cursor}
    {trailing : List Token}
    (closed : closing? cursor = some trailing) :
    ∀ token ∈ trailing, token.isTrivia = true ∨ token.kind = .newline := by
  have blank (cursor : Cursor) :
      ∀ token ∈ cursor.trivia.1, token.isTrivia = true ∨ token.kind = .newline :=
    fun token skipped => .inl (Cursor.isTrivia_of_mem_trivia skipped)
  unfold closing? at closed
  simp only at closed
  split at closed
  next =>
      cases closed
      exact blank cursor
  next feed last _ =>
      rw [Option.ite_none_right_eq_some, Option.ite_none_right_eq_some] at closed
      obtain ⟨isFeed, _, whole⟩ := closed
      cases whole
      exact List.forall_mem_append.2 ⟨blank cursor,
        List.forall_mem_cons.2 ⟨.inr isFeed, blank last⟩⟩

/-- What is read and what closes the input make up the root. -/
theorem rootOf?_eq_some
    {rule : Rule}
    {tokens trailing : List Token}
    {read : Cursor → Pattern.Reading Node}
    {node : Node}
    {after : Cursor}
    (reading : read (Cursor.ofTokens tokens).trivia.2 = some (node, after))
    (closed : closing? after = some trailing) :
    rootOf? rule tokens read =
      some ⟨rule, (Cursor.ofTokens tokens).trivia.1.map .leaf ++
        (if node.rule = rule then node.children else [node.toTree]) ++ trailing.map .leaf⟩ := by
  unfold rootOf?
  simp only [reading, closed]

/-- A root holds what stands in front of a reading, what is read and what closes the input. -/
theorem exists_of_rootOf?
    {rule : Rule}
    {tokens : List Token}
    {read : Cursor → Pattern.Reading Node}
    {root : Node}
    (found : rootOf? rule tokens read = some root) :
    ∃ node after trailing,
      read (Cursor.ofTokens tokens).trivia.2 = some (node, after) ∧
      closing? after = some trailing ∧
      root = ⟨rule, (Cursor.ofTokens tokens).trivia.1.map .leaf ++
        (if node.rule = rule then node.children else [node.toTree]) ++ trailing.map .leaf⟩ ∧
      root.tokens = (Cursor.ofTokens tokens).trivia.1 ++ node.tokens ++ trailing := by
  unfold rootOf? at found
  split at found
  next leading start isSplit =>
    rw [isSplit]
    split at found
    next => cases found
    next node after reading =>
      split at found
      next => cases found
      next trailing closed =>
        cases found
        refine ⟨node, after, trailing, reading, closed, rfl, ?_⟩
        split <;> simp [Node.tokens, Node.toTree]

/-- Every node below a root is the node that was read or is below it. -/
theorem mem_of_mem_root
    {rule : Rule}
    {leading trailing : List Token}
    {node inner : Node}
    (present : inner ∈ Tree.nodesOf (leading.map .leaf ++
      (if node.rule = rule then node.children else [node.toTree]) ++ trailing.map .leaf)) :
    inner ∈ node :: Tree.nodesOf node.children := by
  rw [nodesOf_append, nodesOf_append, nodesOf_map_leaf, nodesOf_map_leaf, List.nil_append,
    List.append_nil] at present
  split at present
  next => exact List.mem_cons_of_mem _ present
  next => rwa [nodesOf_toTree] at present

/-- A parse of a token list holds all tokens up to the end of the input. -/
theorem tokens_of_parseTokens
    {grammar : Grammar}
    {rule : Rule}
    {tokens : List Token}
    {root : Node}
    (parsed : grammar.parseTokens rule tokens = some root) :
    root.rule = rule ∧ root.tokens = (Cursor.ofTokens tokens).upcoming := by
  obtain ⟨node, after, trailing, reading, closed, whole, leaves⟩ := exists_of_rootOf? parsed
  have skipped := (Cursor.ofTokens tokens).advances_trivia.upcoming_eq
  have derived := derives_of_readRule grammar.maxDepth (Prod.ext reading rfl)
  have advances : (Cursor.ofTokens tokens).trivia.2.Advances node.tokens after := by
    simpa using derived.advances
  refine ⟨by rw [whole], ?_⟩
  rw [leaves, skipped, advances.upcoming_eq, upcoming_of_closing? closed, List.append_assoc]

/-- A parse of a text is one of its tokens. -/
theorem parseTokens_of_parse
    {grammar : Grammar}
    {rule : Rule}
    {source : String}
    {file : FileId}
    {line : UInt32}
    {node : Node}
    (parsed : grammar.parse rule source file line = .ok node) :
    ∃ tokens, tokenize source file line = .ok tokens ∧
      grammar.parseTokens rule tokens = some node := by
  unfold parse at parsed
  split at parsed
  next => cases parsed
  next tokens lexed =>
    split at parsed
    next found _ =>
      cases parsed
      exact ⟨tokens, lexed, by assumption⟩
    next => cases parsed

/--
A parse loses no token and adds none: the root has the rule that was asked for,
its leaves are the tokens of the text in front of the end of the input, and they
spell the text.  Every node of the tree covers one run of these tokens, which
its children share out from left to right.
-/
theorem parse_covers
    (grammar : Grammar)
    (rule : Rule)
    (source : String)
    (file : FileId)
    (line : UInt32)
    {node : Node}
    (parsed : grammar.parse rule source file line = .ok node) :
    ∃ content ending,
      tokenize source file line = .ok (content ++ [ending]) ∧
      ending.kind = .endOfInput ∧
      node.rule = rule ∧ node.tokens = content ∧ node.text = source ∧
      ∀ inner ∈ node.toTree.nodes, ∃ start,
        (content.drop start).take inner.tokens.length = inner.tokens ∧
        Tree.CoverAll content start inner.children (start + inner.tokens.length) := by
  obtain ⟨tokens, lexed, found⟩ := parseTokens_of_parse parsed
  obtain ⟨content, ending, rfl, ends, before, spelled⟩ := tokenize_eq_ok lexed
  obtain ⟨sameRule, leaves⟩ := tokens_of_parseTokens found
  rw [Cursor.upcoming_ofTokens before ends] at leaves
  refine ⟨content, ending, lexed, ends, sameRule, leaves, ?_, ?_⟩
  · rw [Node.text, leaves, spelled]
  · intro inner present
    have covered := Tree.coverAll_of_mem_nodes present
    rwa [tokens_toTree, leaves] at covered

/-- A run without parentheses gives back the comment behind it, and the list keeps it. -/
theorem parse_covers_comment_before_comma :
    ∃ node, Grammar.standard.parse .argumentList "a /**/," 7 3 = .ok node ∧
      ∃ content ending,
        tokenize "a /**/," 7 3 = .ok (content ++ [ending]) ∧
        ending.kind = .endOfInput ∧
        node.rule = .argumentList ∧ node.tokens = content ∧ node.text = "a /**/," ∧
        ∀ inner ∈ node.toTree.nodes, ∃ start,
          (content.drop start).take inner.tokens.length = inner.tokens ∧
          Tree.CoverAll content start inner.children (start + inner.tokens.length) := by
  have matched : (Grammar.standard.parse .argumentList "a /**/," 7 3).isOk = true := by
    decide +kernel
  cases parsed : Grammar.standard.parse .argumentList "a /**/," 7 3 with
  | error fault => simp [parsed, Except.isOk, Except.toBool] at matched
  | ok node => exact ⟨node, rfl, parse_covers .standard .argumentList "a /**/," 7 3 parsed⟩

end Grammar
end PreprocessorSyntax
