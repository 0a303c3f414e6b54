import PreprocessorSyntax.Proofs.Depth.Expressions
import PreprocessorSyntax.Proofs.Directive.Names
import PreprocessorSyntax.Proofs.Grammar.Starts
import PreprocessorSyntax.Proofs.MacroCall.Nesting
import PreprocessorSyntax.Proofs.Tree.Queries

/-!
# Where nodes begin and end

Apart from lines and the definitions on them, the nodes of a tree leave the white
space and the comments around a construct to the node above.  So the span of a
condition, of an argument or of a replacement list is that of its content.

That nodes begin in this way depends on where rules are called.  That they end in
this way is a property of the patterns alone, and holds of all derivations.  The
only exception is a list of arguments with a comma at its end, which takes the
white space behind the comma.
-/

namespace PreprocessorSyntax

/-- The rules for lines and for definitions, which take all that stands on a line. -/
def wholeLineRules : List Rule :=
  .preprocessorLine :: directiveRules

namespace Node

/-- The first leaf is neither white space nor a comment. -/
def BeginsInContent (node : Node) : Prop :=
  ∃ first, node.tokens.head? = some first ∧ first.isTrivia = false

/-- The last leaf is neither white space nor a comment. -/
def EndsInContent (node : Node) : Prop :=
  ∃ last, node.tokens.getLast? = some last ∧ last.isTrivia = false

/-- A node has leaves, and neither white space nor comments at its ends. -/
structure Tight (node : Node) : Prop where
  begins : node.BeginsInContent
  ends : node.EndsInContent

/-- The offsets of the first and of the first following byte of the content of a node. -/
def contentSpan? (node : Node) : Option (Nat × Nat) :=
  match node.significantTokens.head?, node.significantTokens.getLast? with
  | some first, some last => some (first.location.offset, last.endOffset)
  | _, _ => none

/-- A node without white space and comments at its ends spans its content. -/
theorem Tight.span?_eq {node : Node} (tight : node.Tight) : node.span? = node.contentSpan? := by
  obtain ⟨⟨first, begins, notTrivia⟩, ⟨last, ends, notTriviaToo⟩⟩ := tight
  have beginsContent : node.significantTokens.head? = some first := by
    obtain ⟨others, equal⟩ := List.head?_eq_some_iff.1 begins
    simp [significantTokens, equal, notTrivia]
  have endsContent : node.significantTokens.getLast? = some last := by
    obtain ⟨front, equal⟩ := List.getLast?_eq_some_iff.1 ends
    simp [significantTokens, equal, notTriviaToo]
  rw [span?, contentSpan?, firstToken?_eq_head?, lastToken?_eq_getLast?, begins, ends,
    beginsContent, endsContent]

end Node

namespace Pattern

/-- What a pattern matches has neither white space nor a comment at its end. -/
def EndsInContent : Pattern → Prop
  | .token accepts => ∀ token : Token, accepts token = true → token.isTrivia = false
  | .rule called => called ∉ .argumentList :: wholeLineRules
  | .ahead _ => True
  | .absent _ => True
  | .empty => True
  | .sequence first second =>
    second.EndsInContent ∧ (second.consumes = true ∨ first.EndsInContent)
  | .choice preferred alternative => preferred.EndsInContent ∧ alternative.EndsInContent
  | .many item => item.EndsInContent

section Tokens

variable {expected : Punctuator} {symbols : List Punctuator} {words : List String}

@[simp] theorem consumes_symbol : (symbol expected).consumes = true := rfl

@[simp] theorem consumes_identifier : identifier.consumes = true := rfl

@[simp] theorem consumes_plain : plain.consumes = true := rfl

@[simp] theorem endsInContent_symbol : (symbol expected).EndsInContent :=
  fun _ => Token.isTrivia_of_isPunctuator

@[simp] theorem endsInContent_anyPunctuator :
    (Pattern.token (Token.isAnyPunctuator symbols)).EndsInContent :=
  fun _ => isTrivia_of_isAnyPunctuator

@[simp] theorem endsInContent_identifier : identifier.EndsInContent :=
  fun _ => Token.isTrivia_of_isIdentifier

@[simp] theorem endsInContent_word : (word words).EndsInContent :=
  fun _ isWord => Token.isTrivia_of_isIdentifier (Bool.and_eq_true_iff.1 isWord).1

@[simp] theorem endsInContent_plain : plain.EndsInContent :=
  fun _ => Token.isTrivia_of_isPlain

@[simp] theorem endsInContent_literal : (Pattern.token Token.isLiteral).EndsInContent :=
  fun _ => Token.isTrivia_of_isLiteral

@[simp] theorem endsInContent_content : (Pattern.token Token.isContent).EndsInContent := by
  intro token isContent
  simp_all [Token.isContent]

@[simp] theorem endsInContent_quoted : includeBodyQuoted.EndsInContent := by
  intro token isString
  rw [Token.isTrivia, beq_iff_eq.1 isString]
  rfl

end Tokens

end Pattern

/-- The rules for parts of lines end in this way, with the exception of lists of arguments. -/
theorem Rule.endsInContent_pattern
    {rule : Rule}
    (inLine : rule ∉ .argumentList :: wholeLineRules) :
    rule.pattern.EndsInContent := by
  cases rule <;>
    first
    | exact absurd (by decide) inLine
    | simp [pattern, Pattern.append_eq, Pattern.orElse_eq, Pattern.EndsInContent,
        Pattern.consumes, wholeLineRules, directiveRules, lineRules, Pattern.firstOf,
        Pattern.optional, Pattern.headerName,
        Pattern.includeBody, Pattern.includeBodyBracketed, Pattern.includeBodyFreeform,
        Pattern.moduleName, Pattern.argumentPiece, Pattern.argument,
        Pattern.parenthesizedArguments, Pattern.somethingContainingParentheses,
        Pattern.somethingWithoutParentheses, Pattern.functionlikeMacro, Pattern.parameterList,
        Pattern.variadicParameter, Pattern.replacementElement, Pattern.replacementList,
        Pattern.stringizing, Pattern.layer, Pattern.conditionalExpression,
        Pattern.unaryExpression, Pattern.unaryOperator, Pattern.primaryExpression,
        Pattern.definedExpression, Pattern.hasIncludeExpression]

namespace Grammar

variable {grammar : Grammar} {pattern : Pattern} {rule : Rule} {cursor after : Cursor}
variable {trees front back : List Tree} {node : Node}

theorem endsInContent_pattern (inLine : rule ∉ .argumentList :: wholeLineRules) :
    (grammar.pattern rule).EndsInContent := by
  unfold Grammar.pattern
  split
  next => exact Pattern.endsInContent_word
  next => exact Rule.endsInContent_pattern inLine

/-- The last leaf of some trees, if there is one, is neither white space nor a comment. -/
def Closed (trees : List Tree) : Prop :=
  ∀ last ∈ (Tree.tokensOf trees).getLast?, last.isTrivia = false

theorem closed_nil : Closed [] := by
  simp [Closed]

theorem closed_leaf {token : Token} (notTrivia : token.isTrivia = false) :
    Closed [.leaf token] := by
  rintro last ⟨⟩
  exact notTrivia

/-- Trees that may be empty are closed behind closed ones. -/
theorem Closed.append (first : Closed front) (second : Closed back) : Closed (front ++ back) := by
  intro last ends
  rw [Tree.tokensOf_append, List.getLast?_append] at ends
  rcases Option.or_eq_some_iff.1 ends with inBack | ⟨_, inFront⟩
  · exact second last inBack
  · exact first last inFront

/-- Trees that have leaves are closed behind any others. -/
theorem Closed.prepend
    (closed : Closed back)
    (leaves : Tree.tokensOf back ≠ [])
    (front : List Tree) :
    Closed (front ++ back) := by
  intro last ends
  rw [Tree.tokensOf_append, List.getLast?_append_of_ne_nil _ leaves] at ends
  exact closed last ends

theorem Derives.closed
    (derived : grammar.Derives pattern cursor trees after)
    (ends : pattern.EndsInContent) :
    Closed trees := by
  induction derived with
  | token _ accepted => exact closed_leaf (ends _ accepted)
  | rule _ bodyHypothesis =>
      have closed := bodyHypothesis (endsInContent_pattern ends)
      intro last isLast
      rw [Tree.tokensOf_cons, tokens_toTree, tokens_build, Tree.tokensOf_nil, List.append_nil]
        at isLast
      exact closed last isLast
  | ahead _ => exact closed_nil
  | absent _ _ => exact closed_nil
  | empty _ => exact closed_nil
  | sequence _ back frontHypothesis backHypothesis =>
      -- Where the second part may have no leaves, the first part has the last one.
      rcases ends.2 with consumes | endsFirst
      · exact (backHypothesis ends.1).prepend (back.tokensOf_ne_nil consumes) _
      · exact (frontHypothesis endsFirst).append (backHypothesis ends.1)
  | preferred _ chosenHypothesis => exact chosenHypothesis ends.1
  | alternative _ chosenHypothesis => exact chosenHypothesis ends.2
  | stop _ _ => exact closed_nil
  | further _ _ frontHypothesis backHypothesis =>
      exact (frontHypothesis ends).append (backHypothesis ends)

/-- The last trees are a comma and the white space and comments behind it. -/
def EndsWithComma (trees : List Tree) : Prop :=
  ∃ front comma blanks, trees = front ++ .leaf comma :: blanks.map .leaf ∧
    comma.isPunctuator .comma = true ∧ blanks ≠ [] ∧ ∀ blank ∈ blanks, blank.isTrivia = true

/-- Some trees have leaves and end as arguments do. -/
structure EndsArguments (trees : List Tree) : Prop where
  leaves : Tree.tokensOf trees ≠ []
  ends : Closed trees ∨ EndsWithComma trees

theorem EndsArguments.prepend (arguments : EndsArguments back) (front : List Tree) :
    EndsArguments (front ++ back) where
  leaves := by simp [arguments.leaves]
  ends := by
    rcases arguments.ends with closed | ⟨others, comma, blanks, rfl, commaAndBlanks⟩
    · exact .inl (closed.prepend arguments.leaves front)
    · exact .inr ⟨front ++ others, comma, blanks, (List.append_assoc _ _ _).symm, commaAndBlanks⟩

theorem endsArguments_of_argument
    (derived : grammar.Derives (.rule .argument) cursor trees after) :
    EndsArguments trees := by
  refine ⟨derived.tokensOf_ne_nil rfl, .inl (derived.closed ?_)⟩
  show Rule.argument ∉ .argumentList :: wholeLineRules
  decide

/-- Behind a comma stands an argument, or only white space, or nothing. -/
theorem endsArguments_of_furtherArgument
    (derived : grammar.Derives .furtherArgument cursor trees after) :
    EndsArguments trees := by
  refine ⟨derived.tokensOf_ne_nil rfl, ?_⟩
  obtain ⟨_, _, _, rfl, derivedSeparator, argument⟩ := exists_of_derives_append derived
  obtain ⟨_, _, _, rfl, derivedComma, trivia⟩ := exists_of_derives_append derivedSeparator
  obtain ⟨_, _, _, rfl, _, symbol⟩ := exists_of_derives_append derivedComma
  obtain ⟨comma, rfl, isComma⟩ := exists_of_derives_token symbol
  obtain ⟨blanks, rfl, areBlanks⟩ := exists_leaves_of_many trivia
  cases argument with
  | preferred argument => exact ((endsArguments_of_argument argument).prepend _).ends
  | alternative listedBelow =>
      cases listedBelow
      rw [List.append_nil, List.append_assoc]
      by_cases nothing : blanks = []
      · subst nothing
        exact .inl ((closed_leaf (Token.isTrivia_of_isPunctuator isComma)).prepend (by simp) _)
      · exact .inr ⟨_, comma, blanks, rfl, isComma, nothing, areBlanks⟩

theorem endsArguments_of_many
    (derived : grammar.Derives (.many .furtherArgument) cursor trees after) :
    trees = [] ∨ EndsArguments trees := by
  generalize repeated : Pattern.many .furtherArgument = pattern at derived
  induction derived with
  | stop => exact .inl rfl
  | @further _ _ _ _ front _ first _ _ backHypothesis =>
      cases repeated
      rcases backHypothesis rfl with rfl | others
      · rw [List.append_nil]
        exact .inr (endsArguments_of_furtherArgument first)
      · exact .inr (others.prepend front)
  | _ => cases repeated

theorem endsArguments_of_argumentList
    (derived : grammar.Derives .argumentList cursor trees after) :
    EndsArguments trees := by
  obtain ⟨_, front, back, rfl, first, others⟩ := exists_of_derives_append derived
  rcases endsArguments_of_many others with rfl | others
  · rw [List.append_nil]
    cases first with
    | preferred argument => exact endsArguments_of_argument argument
    | alternative further => exact endsArguments_of_furtherArgument further
  · exact others.prepend front

/-- Only a replacement list may be empty, and then it has no children either. -/
theorem Grounded.tokens_ne_nil
    (grounded : grammar.Grounded node)
    (notEmpty : node ≠ ⟨.replacementList, []⟩) :
    node.tokens ≠ [] := by
  obtain ⟨rule, children⟩ := node
  obtain ⟨cursor, after, derived, _⟩ := grounded
  by_cases replaces : rule = .replacementList
  · subst replaces
    unfold Grammar.pattern at derived
    split at derived
    next => exact derived.tokensOf_ne_nil rfl
    next =>
      cases derived with
      | preferred elements => exact elements.tokensOf_ne_nil rfl
      | alternative listedBelow =>
          cases listedBelow
          exact absurd rfl notEmpty
  · exact derived.tokensOf_ne_nil (consumes_pattern replaces)

theorem endsInContent_of_closed
    (closed : Closed node.children)
    (leaves : node.tokens ≠ []) :
    node.EndsInContent :=
  ⟨_, List.getLast?_eq_some_getLast leaves, closed _ (List.getLast?_eq_some_getLast leaves)⟩

theorem beginsInContent_of_significant
    (significant : Significant node.tokens)
    (leaves : node.tokens ≠ []) :
    node.BeginsInContent :=
  ⟨_, List.head?_eq_some_head leaves, significant _ (List.head?_eq_some_head leaves)⟩

/-- A list of arguments ends as arguments do, also where it is mocked. -/
theorem Grounded.endsArguments
    (grounded : grammar.Grounded node)
    (arguments : node.rule = .argumentList) :
    EndsArguments node.children := by
  obtain ⟨cursor, after, derived, _⟩ := grounded
  rw [arguments, Grammar.pattern] at derived
  split at derived
  next => exact ⟨derived.tokensOf_ne_nil rfl, .inl (derived.closed Pattern.endsInContent_word)⟩
  next => exact endsArguments_of_argumentList derived

/-- Below the root, a node of no other kind has content at both ends, unless it is empty. -/
theorem tight_of_mem_parseTokens
    {tokens : List Token}
    {root : Node}
    (parsed : grammar.parseTokens rule tokens = some root)
    (present : node ∈ Tree.nodesOf root.children)
    (inLine : node.rule ∉ .argumentList :: wholeLineRules) :
    node = ⟨.replacementList, []⟩ ∨ node.Tight := by
  obtain ⟨grounded, significant⟩ := grounded_of_parseTokens parsed present
  by_cases empty : node = ⟨.replacementList, []⟩
  · exact .inl empty
  · have leaves := grounded.tokens_ne_nil empty
    obtain ⟨cursor, after, derived, _⟩ := grounded
    exact .inr ⟨beginsInContent_of_significant significant leaves,
      endsInContent_of_closed (derived.closed (endsInContent_pattern inLine)) leaves⟩

/--
White space and comments around a construct belong to the node above.  Below the
root of a parse, every node except those of lines and of definitions begins and
ends with a token that is neither white space nor a comment, unless it is an
empty replacement list.  A list of arguments begins like this too, and it ends
like this or with a comma and the white space behind it.  So a condition, the
body of an inclusion, a replacement list and an argument span their content.
-/
theorem tight_of_parseTokens
    {grammar : Grammar}
    {rule : Rule}
    {tokens : List Token}
    {root : Node}
    (parsed : grammar.parseTokens rule tokens = some root) :
    (∀ inner ∈ Tree.nodesOf root.children, inner.rule ∉ wholeLineRules →
      if inner.rule = .argumentList then
        inner.BeginsInContent ∧ (inner.EndsInContent ∨ EndsWithComma inner.children)
      else inner = ⟨.replacementList, []⟩ ∨ inner.Tight) ∧
    ∀ inner ∈ Tree.nodesOf root.children,
      inner.rule ∈ [.constantExpression, .includeBody, .replacementList, .argument] →
        inner.span? = inner.contentSpan? := by
  constructor
  · intro inner present notLine
    split
    next arguments =>
      obtain ⟨grounded, significant⟩ := grounded_of_parseTokens parsed present
      obtain ⟨leaves, ends⟩ := grounded.endsArguments arguments
      exact ⟨beginsInContent_of_significant significant leaves,
        ends.imp_left fun closed => endsInContent_of_closed closed leaves⟩
    next notArguments =>
      exact tight_of_mem_parseTokens parsed present
        (List.not_mem_cons_of_ne_of_not_mem notArguments notLine)
  · intro inner present listed
    have inLine : ∀ rule ∈ [Rule.constantExpression, .includeBody, .replacementList, .argument],
        rule ∉ .argumentList :: wholeLineRules := by decide
    rcases tight_of_mem_parseTokens parsed present (inLine _ listed) with rfl | tight
    · rfl
    · exact tight.span?_eq

/-- A list of arguments does take the comment behind the comma at its end. -/
theorem tight_of_parseTokens_trailing_comma :
    ∃ tokens root, tokenize "#if f( a /**/ , /* b */ ) // c" 0 1 = .ok tokens ∧
      Grammar.standard.parseTokens .ifLine tokens = some root ∧
      ∃ list ∈ Tree.nodesOf root.children, list.rule = .argumentList ∧
        list.BeginsInContent ∧ ¬list.EndsInContent ∧ EndsWithComma list.children := by
  have found : ((Grammar.standard.parse .ifLine "#if f( a /**/ , /* b */ ) // c" 0 1).toOption.map
      fun root => (root.descendants .argumentList).map
        fun list => list.tokens.getLast?.map Token.isTrivia) = some [some true] := by
    decide +kernel
  cases parsed : Grammar.standard.parse .ifLine "#if f( a /**/ , /* b */ ) // c" 0 1 with
  | error fault =>
      rw [parsed] at found
      cases found
  | ok root =>
      rw [parsed] at found
      obtain ⟨list, single, endsInTrivia⟩ := List.map_eq_singleton_iff.1 (Option.some.inj found)
      obtain ⟨present, isList⟩ := List.mem_filter.1 (single ▸ List.mem_singleton_self list)
      rw [beq_iff_eq] at isList
      obtain ⟨tokens, lexed, parsedTokens⟩ := parseTokens_of_parse parsed
      have edges := (tight_of_parseTokens parsedTokens).1 list present (by rw [isList]; decide)
      rw [if_pos isList] at edges
      have notContent : ¬list.EndsInContent := by
        rintro ⟨last, ends, notTrivia⟩
        rw [ends, Option.map_some, notTrivia] at endsInTrivia
        cases endsInTrivia
      exact ⟨tokens, root, lexed, parsedTokens, list, present, isList, edges.1, notContent,
        edges.2.resolve_left notContent⟩

end Grammar
end PreprocessorSyntax
