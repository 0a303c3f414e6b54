import PreprocessorSyntax.Proofs.Depth.Lines

/-!
# The limit on nesting

A higher limit accepts whatever a lower one accepts, although a parser with few
levels left remembers attempts as failures that have only been cut short.  Where
both limits accept, the trees are the same but for one thing: a literal that is
spelled like a name and for which no level is left lacks its node.  Lines are an
exception.  If more levels are left, another rule may read them.
-/

namespace PreprocessorSyntax
namespace Grammar

variable {grammar : Grammar} {few many : Nat} {rule : Rule} {tokens : List Token}

/-- A construct ends where the input may end. -/
theorem precedes_of_closing?
    {after : Cursor}
    {trailing : List Token}
    (closed : closing? after = some trailing) :
    after.Precedes fun token => token.isLineEnd = true := by
  intro token next
  rw [← Cursor.head?_trivia] at next
  unfold closing? at closed
  simp only at closed
  split at closed
  next stuck =>
      cases rest : after.trivia.2.rest with
      | nil =>
          rw [rest] at next
          cases next
      | cons other behind =>
          rw [rest] at next
          cases next
          rw [Cursor.bump?, rest] at stuck
          have ends : token.kind = .endOfInput := by simpa using stuck
          simp [Token.isLineEnd, ends, TokenKind.isLineEnd]
  next feed last found =>
      rw [Option.ite_none_right_eq_some] at closed
      rw [Cursor.rest_of_bump? found] at next
      cases next
      simp [Token.isLineEnd, closed.1, TokenKind.isLineEnd]

theorem isLiteral_of_isTrivia {token : Token} (trivial : token.isTrivia = true) :
    token.isLiteral = false := by
  rw [Bool.eq_false_iff]
  intro isLiteral
  rw [Token.isTrivia_of_isLiteral isLiteral] at trivial
  cases trivial

/-- Only white space, comments and a line feed stand behind a construct. -/
theorem isLiteral_of_closing?
    {after : Cursor}
    {trailing : List Token}
    (closed : closing? after = some trailing) :
    ∀ token ∈ trailing, token.isLiteral = false := by
  intro token present
  rcases isTrivia_or_newline_of_closing? closed token present with trivial | isFeed
  · exact isLiteral_of_isTrivia trivial
  · simp [Token.isLiteral, isFeed]

section Unmocked

variable (unmocked : grammar.mocked = [])
include unmocked

/-- With more levels a rule reads as much, up to the end of the input, and an alike node. -/
theorem exists_readRule_of_le
    (notLine : rule ≠ .preprocessorLine)
    (le : few ≤ many)
    {start after : Cursor}
    {node : Node}
    {trailing : List Token}
    (read : (grammar.readRule few rule start .empty).1 = some (node, after))
    (closed : closing? after = some trailing) :
    ∃ more, (grammar.readRule many rule start .empty).1 = some (more, after) ∧
      more.withLiterals = node.withLiterals := by
  obtain ⟨_, _, readMany, alike, _⟩ := carries_construct unmocked rule notLine le
    (harmless_empty start) (harmless_empty start) (read_rule_of_some (Prod.ext read rfl))
    (precedes_of_closing? closed)
  obtain ⟨more, found, rfl⟩ := exists_of_read_rule readMany
  refine ⟨more, congrArg Prod.fst found, ?_⟩
  rw [Alike, List.map_singleton, List.map_singleton, Node.withLiterals_toTree,
    Node.withLiterals_toTree] at alike
  exact (Node.toTree_injective (List.singleton_inj.1 alike)).symm

/-- A line is accepted with more levels, too. -/
theorem exists_readRule_line_of_le
    (le : few ≤ many)
    {after : Cursor}
    {node : Node}
    {trailing : List Token}
    (read : (grammar.readRule few .preprocessorLine (Cursor.ofTokens tokens).trivia.2 .empty).1 =
      some (node, after))
    (closed : closing? after = some trailing) :
    ∃ more behind further,
      (grammar.readRule many .preprocessorLine (Cursor.ofTokens tokens).trivia.2 .empty).1 =
        some (more, behind) ∧
      closing? behind = some further := by
  have oneLine := isOneLine_of_read unmocked (Prod.ext read rfl) closed
  obtain ⟨below, _, rfl, _, body, rfl⟩ := exists_of_readRule (Prod.ext read rfl)
  rw [pattern_eq unmocked] at body
  -- A line takes two levels: its own and that of the rule that reads it.
  obtain ⟨_, rfl⟩ := exists_of_read_firstOf body
  obtain ⟨levels, rfl⟩ : ∃ levels, many = levels + 2 := ⟨many - 2, by omega⟩
  have significant : Significant (Cursor.ofTokens tokens).trivia.2.rest :=
    significant_dropWhile tokens
  cases starts : (Cursor.ofTokens tokens).trivia.2.rest.head?.any (Token.isPunctuator .hash) with
  | true =>
      obtain ⟨hash, first, isHash⟩ := (Option.any_eq_true _ _).1 starts
      obtain ⟨rest, stands⟩ := List.head?_eq_some_iff.1 first
      exact exists_of_hash unmocked isHash stands oneLine levels
  | false =>
      have noHash : ∀ token ∈ (Cursor.ofTokens tokens).trivia.2.next?,
          token.isPunctuator .hash = false := by
        intro token next
        rw [Cursor.next?_trivia, ← Cursor.head?_trivia, Option.mem_def] at next
        simpa [next] using starts
      obtain ⟨more, last, readMany⟩ := exists_of_word unmocked noHash significant
        (Nat.le_of_succ_le_succ le) (harmless_empty _) (harmless_empty _) body
      refine ⟨Rule.preprocessorLine.build more, after, trailing, ?_, closed⟩
      rw [readRule_of_some (Failures.contains_empty _ _) (by rwa [pattern_eq unmocked])]

omit unmocked in
/-- White space, comments and line feeds around a construct are no literals. -/
theorem literalsBelow_map_leaf
    (noLiteral : ∀ token ∈ tokens, token.isLiteral = false) :
    Tree.literalsBelow rule ((tokens.map Tree.leaf).map Tree.withLiterals) = tokens.map .leaf := by
  rw [Tree.map_withLiterals_map_leaf]
  refine Tree.literalsBelow_eq_self rule (map_asLiteral_of_leaves fun token present => ?_)
  obtain ⟨found, listed, same⟩ := List.mem_map.1 present
  cases same
  exact noLiteral token listed

omit unmocked in
/-- The literals of a root are those of the node that has been read. -/
theorem withLiterals_root
    {leading trailing : List Token}
    (noLiteral : ∀ token ∈ leading, token.isLiteral = false)
    (noLiteralToo : ∀ token ∈ trailing, token.isLiteral = false)
    (node : Node) :
    (Node.mk rule (leading.map .leaf ++
        (if node.rule = rule then node.children else [node.toTree]) ++
        trailing.map .leaf)).withLiterals =
      ⟨rule, leading.map .leaf ++
        (if node.withLiterals.rule = rule then node.withLiterals.children
          else [node.withLiterals.toTree]) ++
        trailing.map .leaf⟩ := by
  have inner : Tree.literalsBelow rule
      ((if node.rule = rule then node.children else [node.toTree]).map Tree.withLiterals) =
        if node.withLiterals.rule = rule then node.withLiterals.children
          else [node.withLiterals.toTree] := by
    change _ = if node.rule = rule then _ else _
    split
    next same =>
      subst same
      rfl
    next =>
      rw [List.map_singleton, Node.withLiterals_toTree]
      exact Tree.literalsBelow_eq_self rule rfl
  rw [Node.withLiterals]
  simp only [List.map_append, Tree.literalsBelow_append, literalsBelow_map_leaf noLiteral,
    literalsBelow_map_leaf noLiteralToo, inner]

omit unmocked in
/-- A name that is a literal is spelled as a truth value. -/
theorem isLiteral_of_isIdentifier
    {token : Token}
    (isName : token.isIdentifier = true)
    (spelling : token.text ≠ "true" ∧ token.text ≠ "false") :
    token.isLiteral = false := by
  simp [Token.isLiteral, Token.kind_of_isIdentifier isName, spelling.1, spelling.2]

omit unmocked in
theorem parse_eq_ok
    {source : String}
    {file : FileId}
    {line : UInt32}
    {root : Node}
    (lexed : tokenize source file line = .ok tokens)
    (found : grammar.parseTokens rule tokens = some root) :
    grammar.parse rule source file line = .ok root := by
  rw [parse, lexed]
  simp only [found]

/--
Acceptance is monotone in the limit on nesting: what a rule matches with one limit,
it matches with any higher one, whatever failures are remembered on the way.
-/
theorem exists_parse_of_le
    {source : String}
    {file : FileId}
    {line : UInt32}
    {root : Node}
    (parsed : grammar.parse rule source file line = .ok root)
    {depth : Nat}
    (deeper : grammar.maxDepth ≤ depth) :
    ∃ more, parse { grammar with maxDepth := depth } rule source file line = .ok more := by
  obtain ⟨tokens, lexed, found⟩ := parseTokens_of_parse parsed
  obtain ⟨node, after, trailing, read, closed, _⟩ := exists_of_rootOf? found
  have again : ∃ more behind further,
      (grammar.readRule depth rule (Cursor.ofTokens tokens).trivia.2 .empty).1 =
        some (more, behind) ∧
      closing? behind = some further := by
    by_cases isLine : rule = .preprocessorLine
    · subst isLine
      exact exists_readRule_line_of_le unmocked deeper read closed
    · obtain ⟨more, readMore, _⟩ := exists_readRule_of_le unmocked isLine deeper read closed
      exact ⟨more, after, trailing, readMore, closed⟩
  obtain ⟨more, behind, further, readMore, closedMore⟩ := again
  rw [← readRule_withDepth depth depth] at readMore
  exact ⟨_, parse_eq_ok lexed (rootOf?_eq_some readMore closedMore)⟩

end Unmocked

/-- At the limit, calls inside arguments are refused, and the arguments are read without them. -/
theorem exists_parse_of_le_nested_calls :
    (∃ root, (Grammar.mk 10 []).parse .argumentList "a (b), (c d (e))" 0 1 = .ok root) ∧
      (Grammar.mk 10 []).maxDepth ≤ 1024 ∧
      ∃ more, Grammar.standard.parse .argumentList "a (b), (c d (e))" 0 1 = .ok more := by
  have matched :
      ((Grammar.mk 10 []).parse .argumentList "a (b), (c d (e))" 0 1).isOk = true := by
    decide +kernel
  cases parsed : (Grammar.mk 10 []).parse .argumentList "a (b), (c d (e))" 0 1 with
  | error fault => simp [parsed, Except.isOk, Except.toBool] at matched
  | ok root => exact ⟨⟨root, rfl⟩, by decide, exists_parse_of_le rfl parsed (by decide)⟩

section Unmocked

variable (unmocked : grammar.mocked = [])
include unmocked

/--
The limit on nesting changes a tree in one way only: with a single level left for a
primary expression, the words `true` and `false` lack the nodes that make literals
of them.  Apart from lines, every tree that is read at all becomes the tree that is
read without a limit once these nodes are added, and without the two words it is
that tree.
-/
theorem parse_withLiterals
    (notLine : rule ≠ .preprocessorLine)
    {source : String}
    {file : FileId}
    {line : UInt32}
    {root : Node}
    (lexed : tokenize source file line = .ok tokens)
    (parsed : grammar.parse rule source file line = .ok root)
    {depth : Nat}
    (unlimited : 54 * ((Cursor.ofTokens tokens).upcoming.length + 1) ≤ depth) :
    parse { grammar with maxDepth := depth } rule source file line = .ok root.withLiterals ∧
      ((∀ token ∈ tokens, token.text ≠ "true" ∧ token.text ≠ "false") →
        root.withLiterals = root) := by
  obtain ⟨_, lexedToo, found⟩ := parseTokens_of_parse parsed
  rw [lexed] at lexedToo
  cases lexedToo
  obtain ⟨node, after, trailing, read, closed, rfl, _⟩ := exists_of_rootOf? found
  have leadingNone : ∀ token ∈ (Cursor.ofTokens tokens).trivia.1, token.isLiteral = false :=
    fun token skipped => isLiteral_of_isTrivia (Cursor.isTrivia_of_mem_trivia skipped)
  rw [withLiterals_root leadingNone (isLiteral_of_closing? closed)]
  constructor
  · obtain ⟨more, readMore, alike⟩ := exists_readRule_of_le unmocked notLine
      (Nat.le_max_left grammar.maxDepth depth) read closed
    rw [readRule_eq_nodeAt? (Nat.le_trans unlimited (Nat.le_max_right _ _))] at readMore
    rw [← alike, withLiterals_of_nodeAt? unmocked readMore]
    rw [← readRule_eq_nodeAt? unlimited, ← readRule_withDepth depth depth] at readMore
    exact parse_eq_ok lexed (rootOf?_eq_some readMore closed)
  · intro spelling
    have derived := derives_of_readRule grammar.maxDepth (Prod.ext read rfl)
    have whole : tokens = _ ++ after.rest :=
      ((Cursor.ofTokens tokens).advances_trivia.append derived.advances).rest
    have kept : [node.toTree].map Tree.withLiterals = [node.toTree] := by
      refine derived.map_withLiterals unmocked fun token present isName => ?_
      refine isLiteral_of_isIdentifier isName (spelling token ?_)
      rw [whole]
      exact List.mem_append_left _ (List.mem_append_right _ present)
    rw [List.map_singleton, Node.withLiterals_toTree] at kept
    rw [Node.toTree_injective (List.singleton_inj.1 kept)]

end Unmocked

/-- With one level less than its literal needs, a truth value is read as a name. -/
theorem parse_withLiterals_truth_value :
    ∃ root, (Grammar.mk 14 []).parse .constantExpression "true" 0 1 = .ok root ∧
      Grammar.standard.parse .constantExpression "true" 0 1 = .ok root.withLiterals := by
  have lexed : tokenize "true" 0 1 =
      .ok [⟨.identifier, "true", .start 0 1⟩, ⟨.endOfInput, "", ⟨0, 1, 5, 4⟩⟩] := by decide +kernel
  have parsed : (Grammar.mk 14 []).parse .constantExpression "true" 0 1 =
      .ok ⟨.constantExpression,
        [.node .primaryExpression [.leaf ⟨.identifier, "true", .start 0 1⟩]]⟩ := by decide +kernel
  exact ⟨_, parsed, (parse_withLiterals rfl (by decide) lexed parsed (by decide)).1⟩

/-- So the limit does change a tree: the node for the literal is missing. -/
theorem parse_ne_of_truth_value :
    ∃ tokens root more,
      tokenize "true" 0 1 = .ok tokens ∧
      (Grammar.mk 14 []).parse .constantExpression "true" 0 1 = .ok root ∧
      (Grammar.mk (54 * (tokens.length + 1)) []).parse .constantExpression "true" 0 1 = .ok more ∧
      root ≠ more :=
  ⟨[⟨.identifier, "true", .start 0 1⟩, ⟨.endOfInput, "", ⟨0, 1, 5, 4⟩⟩],
    ⟨.constantExpression, [.node .primaryExpression [.leaf ⟨.identifier, "true", .start 0 1⟩]]⟩,
    ⟨.constantExpression,
      [.node .primaryExpression [.node .literal [.leaf ⟨.identifier, "true", .start 0 1⟩]]]⟩,
    by decide +kernel, by decide +kernel, by decide +kernel, by decide⟩

end Grammar
end PreprocessorSyntax
