import PreprocessorSyntax.Grammar.Parse

/-!
# Derivations

`Grammar.Derives` says which trees a pattern can be read as, leaving aside
which alternative a reader prefers, which failures it remembers and how deeply
it may nest.  Every reading is a derivation, whatever the reader keeps in mind,
so what holds of all derivations holds of every parse under every configuration.
-/

namespace PreprocessorSyntax
namespace Cursor

/-- The tokens that can still be read: those in front of the end of the input. -/
def upcoming (cursor : Cursor) : List Token :=
  cursor.rest.takeWhile fun token => token.kind != .endOfInput

/-- The token for the end of the input is not one of those that can be read. -/
theorem upcoming_ofTokens
    {tokens : List Token}
    {ending : Token}
    (before : ∀ token ∈ tokens, token.kind ≠ .endOfInput)
    (ends : ending.kind = .endOfInput) :
    (ofTokens (tokens ++ [ending])).upcoming = tokens := by
  have readable : ∀ token ∈ tokens, (token.kind != .endOfInput) = true := by
    simpa using before
  simp [upcoming, ofTokens, List.takeWhile_append_of_pos readable, ends]

/-- The token for the end of the input is not counted. -/
theorem upcoming_ofTokens_length_le
    (tokens : List Token)
    {ending : Token}
    (ends : ending.kind = .endOfInput) :
    (ofTokens (tokens ++ [ending])).upcoming.length ≤ tokens.length := by
  rw [upcoming, ofTokens, List.takeWhile_append]
  simp only [List.takeWhile_cons, ends, bne_self_eq_false, Bool.false_eq_true, if_false,
    List.append_nil]
  split
  next => exact Nat.le_refl _
  next => exact (List.takeWhile_prefix _).length_le

/-- Reading some tokens, none of them the end of the input, leads from one place to another. -/
structure Advances (cursor : Cursor) (tokens : List Token) (after : Cursor) : Prop where
  /-- The tokens stand in front of what is read next. -/
  rest : cursor.rest = tokens ++ after.rest
  /-- Places are numbered by the tokens before them. -/
  position : after.position = cursor.position + tokens.length
  /-- The end of the input is not read. -/
  readable : ∀ token ∈ tokens, token.kind ≠ .endOfInput

namespace Advances

variable {cursor middle after : Cursor} {tokens more : List Token}

/-- Reading nothing leads nowhere. -/
theorem refl (cursor : Cursor) : cursor.Advances [] cursor :=
  ⟨rfl, rfl, by simp⟩

/-- Two readings in a row are one. -/
theorem append
    (first : cursor.Advances tokens middle)
    (second : middle.Advances more after) :
    cursor.Advances (tokens ++ more) after := by
  refine ⟨?_, ?_, ?_⟩
  · rw [first.rest, second.rest, List.append_assoc]
  · rw [second.position, first.position, List.length_append, Nat.add_assoc]
  · intro token present
    rcases List.mem_append.1 present with early | late
    · exact first.readable token early
    · exact second.readable token late

/-- What is read comes off the front of the tokens that can still be read. -/
theorem upcoming_eq (advances : cursor.Advances tokens after) :
    cursor.upcoming = tokens ++ after.upcoming := by
  unfold upcoming
  rw [advances.rest, List.takeWhile_append_of_pos]
  intro token present
  simpa using advances.readable token present

/-- Fewer tokens are left behind a reading. -/
theorem upcoming_length (advances : cursor.Advances tokens after) :
    cursor.upcoming.length = tokens.length + after.upcoming.length := by
  rw [advances.upcoming_eq, List.length_append]

end Advances

/-- Reading the next token. -/
theorem advances_of_bump?
    {cursor after : Cursor}
    {token : Token}
    (read : cursor.bump? = some (token, after)) :
    cursor.Advances [token] after := by
  unfold bump? at read
  split at read
  next => contradiction
  next front =>
    split at read
    next => contradiction
    next readable =>
      cases read
      exact ⟨front, rfl, by simpa using readable⟩

/-- Where nothing can be read, no token is left. -/
theorem upcoming_of_bump?_eq_none
    {cursor : Cursor}
    (stuck : cursor.bump? = none) :
    cursor.upcoming = [] := by
  unfold bump? at stuck
  unfold upcoming
  split at stuck
  next empty => simp [empty]
  next front =>
    split at stuck
    next ends => simp [front, ends]
    next => contradiction

/-- Skipping white space and comments. -/
theorem advances_trivia (cursor : Cursor) :
    cursor.Advances cursor.trivia.1 cursor.trivia.2 := by
  refine ⟨(trivia_append cursor).symm, rfl, ?_⟩
  intro token skipped ends
  have trivial := isTrivia_of_mem_trivia skipped
  simp [Token.isTrivia, TokenKind.isTrivia, ends] at trivial

end Cursor

namespace Grammar

/-- The trees that a pattern can be read as from one place to another. -/
inductive Derives (grammar : Grammar) : Pattern → Cursor → List Tree → Cursor → Prop
  | token
      {accepts : Token → Bool} {cursor after : Cursor} {found : Token}
      (read : cursor.bump? = some (found, after))
      (accepted : accepts found = true) :
      Derives grammar (.token accepts) cursor [.leaf found] after
  | rule
      {called : Rule} {cursor after : Cursor} {children : List Tree}
      (body : Derives grammar (grammar.pattern called) cursor children after) :
      Derives grammar (.rule called) cursor [(called.build children).toTree] after
  | ahead
      {accepts : TokenKind → Bool} {cursor : Cursor}
      (accepted : accepts cursor.peekKind = true) :
      Derives grammar (.ahead accepts) cursor [] cursor
  | absent (refused : Rule) (cursor : Cursor) :
      Derives grammar (.absent refused) cursor [] cursor
  | empty (cursor : Cursor) :
      Derives grammar .empty cursor [] cursor
  | sequence
      {first second : Pattern} {cursor middle after : Cursor} {trees more : List Tree}
      (front : Derives grammar first cursor trees middle)
      (back : Derives grammar second middle more after) :
      Derives grammar (.sequence first second) cursor (trees ++ more) after
  | preferred
      {preferred alternative : Pattern} {cursor after : Cursor} {trees : List Tree}
      (chosen : Derives grammar preferred cursor trees after) :
      Derives grammar (.choice preferred alternative) cursor trees after
  | alternative
      {preferred alternative : Pattern} {cursor after : Cursor} {trees : List Tree}
      (chosen : Derives grammar alternative cursor trees after) :
      Derives grammar (.choice preferred alternative) cursor trees after
  | stop (item : Pattern) (cursor : Cursor) :
      Derives grammar (.many item) cursor [] cursor
  | further
      {item : Pattern} {cursor middle after : Cursor} {trees more : List Tree}
      (front : Derives grammar item cursor trees middle)
      (back : Derives grammar (.many item) middle more after) :
      Derives grammar (.many item) cursor (trees ++ more) after

variable {grammar : Grammar}

section Reading

variable {State : Type} {readRule : Rule → Pattern.Reader State Node}

/-- Repetition derives what it reads, whatever bounds the number of items. -/
theorem derives_readMany
    {item : Pattern}
    (items : ∀ {cursor state trees after later},
      item.read readRule cursor state = (some (trees, after), later) →
        grammar.Derives item cursor trees after)
    (bound : List Token)
    (cursor : Cursor)
    (state : State) :
    grammar.Derives (.many item) cursor
      (Pattern.readMany (item.read readRule) bound cursor state).1.1
      (Pattern.readMany (item.read readRule) bound cursor state).1.2 := by
  induction bound generalizing cursor state with
  | nil =>
      unfold Pattern.readMany
      split
      next => exact .stop item _
      next front => simpa using Derives.further (items front) (.stop item _)
  | cons token bound inductionHypothesis =>
      unfold Pattern.readMany
      split
      next => exact .stop item _
      next front => exact .further (items front) (inductionHypothesis _ _)

/-- A pattern derives what it reads if rules do. -/
theorem derives_of_read
    (rules : ∀ {rule cursor state node after later},
      readRule rule cursor state = (some (node, after), later) →
        grammar.Derives (.rule rule) cursor [node.toTree] after)
    (pattern : Pattern)
    {cursor after : Cursor}
    {state later : State}
    {trees : List Tree}
    (read : pattern.read readRule cursor state = (some (trees, after), later)) :
    grammar.Derives pattern cursor trees after := by
  induction pattern generalizing cursor state trees after later with
  | token accepts =>
      simp only [Pattern.read] at read
      split at read
      next => cases read
      next found =>
        split at read
        next accepted => cases read; exact .token found accepted
        next => cases read
  | rule called =>
      simp only [Pattern.read] at read
      split at read
      next => cases read
      next found => cases read; exact rules found
  | ahead accepts =>
      simp only [Pattern.read] at read
      split at read
      next accepted => cases read; exact .ahead accepted
      next => cases read
  | absent refused =>
      simp only [Pattern.read] at read
      split at read
      next => cases read; exact .absent refused cursor
      next => cases read
  | empty =>
      cases read
      exact .empty cursor
  | sequence first second firstHypothesis secondHypothesis =>
      simp only [Pattern.read] at read
      split at read
      next => cases read
      next front =>
        split at read
        next => cases read
        next back => cases read; exact .sequence (firstHypothesis front) (secondHypothesis back)
  | choice preferred alternative preferredHypothesis alternativeHypothesis =>
      simp only [Pattern.read] at read
      split at read
      next chosen => cases read; exact .preferred (preferredHypothesis chosen)
      next => exact .alternative (alternativeHypothesis read)
  | many item inductionHypothesis =>
      have derived := derives_readMany inductionHypothesis cursor.rest cursor state
      simp only [Pattern.read, Prod.mk.injEq, Option.some.injEq] at read
      rwa [read.1] at derived

end Reading

/-- A rule derives what it reads, with any number of levels left and any failures known. -/
theorem derives_of_readRule
    (levels : Nat)
    {rule : Rule}
    {cursor after : Cursor}
    {failures later : Failures}
    {node : Node}
    (read : grammar.readRule levels rule cursor failures = (some (node, after), later)) :
    grammar.Derives (.rule rule) cursor [node.toTree] after := by
  induction levels generalizing rule cursor failures node after later with
  | zero =>
      unfold readRule at read
      split at read <;> cases read
  | succ levels inductionHypothesis =>
      unfold readRule at read
      split at read
      next => cases read
      next =>
        simp only at read
        split at read
        next body =>
          cases read
          exact .rule (derives_of_read inductionHypothesis _ body)
        next => cases read

@[simp] theorem tokens_toTree (node : Node) : node.toTree.tokens = node.tokens := rfl

/-- A node has the leaves of the trees it is built of. -/
@[simp] theorem tokens_build (rule : Rule) (children : List Tree) :
    (rule.build children).tokens = Tree.tokensOf children := by
  unfold Rule.build
  split
  next => split <;> simp [Node.tokens]
  next => rfl

/-- Only the layers of the expression grammar give away their node. -/
theorem build_eq {rule : Rule} (keeps : rule.collapses = false) (children : List Tree) :
    rule.build children = ⟨rule, children⟩ := by
  unfold Rule.build
  split
  next => simp [keeps]
  next => rfl

theorem filterMap_node?_map_leaf (tokens : List Token) :
    (tokens.map Tree.leaf).filterMap Tree.node? = [] := by
  rw [List.filterMap_map, List.filterMap_eq_nil_iff]
  intro token _
  rfl

/-- Leaves around some trees are no nodes among them. -/
theorem filterMap_node?_between (before after : List Token) (trees : List Tree) :
    (before.map Tree.leaf ++ trees ++ after.map Tree.leaf).filterMap Tree.node? =
      trees.filterMap Tree.node? := by
  rw [List.filterMap_append, List.filterMap_append, filterMap_node?_map_leaf,
    filterMap_node?_map_leaf, List.nil_append, List.append_nil]

/-- The leaves of what is derived are the tokens between the two places. -/
theorem Derives.advances
    {pattern : Pattern}
    {cursor after : Cursor}
    {trees : List Tree}
    (derived : grammar.Derives pattern cursor trees after) :
    cursor.Advances (Tree.tokensOf trees) after := by
  induction derived with
  | token read _ => exact Cursor.advances_of_bump? read
  | rule _ inductionHypothesis => simpa using inductionHypothesis
  | ahead _ => exact .refl _
  | absent _ cursor => exact .refl cursor
  | empty cursor => exact .refl cursor
  | sequence _ _ frontHypothesis backHypothesis =>
      simpa using frontHypothesis.append backHypothesis
  | preferred _ inductionHypothesis => exact inductionHypothesis
  | alternative _ inductionHypothesis => exact inductionHypothesis
  | stop _ cursor => exact .refl cursor
  | further _ _ frontHypothesis backHypothesis =>
      simpa using frontHypothesis.append backHypothesis

end Grammar
end PreprocessorSyntax
