import PreprocessorSyntax.Proofs.Condition.Precedence
import PreprocessorSyntax.Proofs.Depth.Replay
import PreprocessorSyntax.Proofs.Line.Content

/-!
# Where rules are called

A rule calls another one only where all white space and comments have been
skipped, unless it calls it at its own place.  A parse skips them before it
starts, so no node of a tree begins with white space or with a comment.

Derivations do not show this, since a derivation may leave white space for what
comes next.  A repetition that is read takes as many items as there are, so the
argument is about readings, for any number of levels and any known failures.
-/

namespace PreprocessorSyntax

/-- A node of some trees is one of these trees or is below one of them. -/
theorem exists_of_mem_nodesOf
    {trees : List Tree}
    {inner : Node}
    (present : inner ∈ Tree.nodesOf trees) :
    ∃ child : Node, child.toTree ∈ trees ∧ inner ∈ child :: Tree.nodesOf child.children := by
  induction trees with
  | nil => cases present
  | cons tree trees inductionHypothesis =>
      rcases List.mem_append.1 present with first | others
      · cases tree with
        | leaf token => cases first
        | node rule children => exact ⟨⟨rule, children⟩, List.mem_cons_self, first⟩
      · obtain ⟨child, listed, below⟩ := inductionHypothesis others
        exact ⟨child, List.mem_cons_of_mem _ listed, below⟩

/-- What stands in front of other tokens begins with white space only if these tokens do. -/
theorem Significant.of_append
    {tokens rest : List Token}
    (significant : Significant (tokens ++ rest)) :
    Significant tokens := by
  cases tokens with
  | nil => exact significant_nil
  | cons token tokens => exact significant

namespace Pattern

/-- White space and comments pass the test of a single token. -/
def TakesBlanks : Pattern → Prop
  | .token accepts => ∀ token : Token, token.isTrivia = true → accepts token = true
  | _ => False

/--
Behind a pattern all white space and comments have been skipped, if they have
been in front of it where `before` holds.
-/
def SkipsBlanks : Pattern → Prop → Prop
  | .token _, _ => False
  | .rule _, _ => False
  | .ahead _, before => before
  | .absent _, before => before
  | .empty, before => before
  | .sequence first second, before => second.SkipsBlanks (first.SkipsBlanks before)
  | .choice preferred alternative, before =>
    preferred.SkipsBlanks before ∧ alternative.SkipsBlanks before
  | .many item, _ => item.TakesBlanks

/-- A pattern calls rules only where all white space and comments have been skipped. -/
def CallsPastBlanks : Pattern → Prop → Prop
  | .token _, _ => True
  | .rule _, before => before
  | .ahead _, _ => True
  | .absent _, _ => True
  | .empty, _ => True
  | .sequence first second, before =>
    first.CallsPastBlanks before ∧ second.CallsPastBlanks (first.SkipsBlanks before)
  | .choice preferred alternative, before =>
    preferred.CallsPastBlanks before ∧ alternative.CallsPastBlanks before
  | .many item, _ => item.CallsPastBlanks False

@[simp] theorem skipsBlanks_trivia (before : Prop) : trivia.SkipsBlanks before :=
  fun _ trivial => trivial

@[simp] theorem callsPastBlanks_trivia (before : Prop) : trivia.CallsPastBlanks before :=
  True.intro

theorem callsPastBlanks_firstOf
    {before : Prop}
    (skipped : before)
    (preferred : Rule)
    (others : List Rule) :
    (firstOf preferred others).CallsPastBlanks before := by
  induction others generalizing preferred with
  | nil => exact skipped
  | cons next others inductionHypothesis => exact ⟨skipped, inductionHypothesis next⟩

end Pattern

/-- If a rule is called where white space has been skipped, so are the rules that it calls. -/
theorem Rule.callsPastBlanks_pattern (rule : Rule) : rule.pattern.CallsPastBlanks True := by
  cases rule <;>
    simp [pattern, Pattern.append_eq, Pattern.orElse_eq, Pattern.CallsPastBlanks,
      Pattern.SkipsBlanks, Pattern.callsPastBlanks_firstOf, Pattern.optional, Pattern.atLeastOnce,
      Pattern.symbol, Pattern.identifier, Pattern.word, Pattern.directiveHead, Pattern.endOfLine,
      Pattern.restOfLine, Pattern.preprocessorLine, Pattern.conditionLine, Pattern.nameLine,
      Pattern.freeLine, Pattern.lineLine, Pattern.miscLine, Pattern.includeLine,
      Pattern.headerName, Pattern.includeBody, Pattern.bracketed, Pattern.includeBodyBracketed,
      Pattern.includeBodyQuoted, Pattern.includeBodyFreeform, Pattern.moduleName,
      Pattern.exported, Pattern.ppImport, Pattern.globalFragment, Pattern.privateFragment,
      Pattern.namedModule, Pattern.ppModule, Pattern.separator, Pattern.furtherArgument,
      Pattern.argumentList, Pattern.argumentPiece, Pattern.argument,
      Pattern.parenthesizedArguments, Pattern.somethingContainingParentheses, Pattern.plain,
      Pattern.somethingWithoutParentheses, Pattern.functionlikeMacro, Pattern.defineLine,
      Pattern.definitionHead, Pattern.functionlikeMacroDefinition,
      Pattern.objectlikeMacroDefinition, Pattern.parameterList, Pattern.variadicParameter,
      Pattern.replacementElement, Pattern.replacementList, Pattern.stringizing, Pattern.layer,
      Pattern.conditionalExpression, Pattern.unaryExpression, Pattern.unaryOperator,
      Pattern.primaryExpression, Pattern.definedExpression, Pattern.hasIncludeExpression]

namespace Pattern

section Reading

variable {State : Type} {readRule : Rule → Reader State Node} {pattern : Pattern}
variable {trees : List Tree} {cursor after : Cursor} {state : State} {node : Node} {before : Prop}

/-- A repetition of a test that white space passes has taken all white space. -/
theorem significant_of_read_many
    {item : Pattern}
    (takes : item.TakesBlanks)
    (read : ((Pattern.many item).read readRule cursor state).1 = some (trees, after)) :
    Significant after.rest := by
  cases item with
  | token accepts =>
      rw [Grammar.read_of_calls_eq_nil .standard rfl] at read
      have stopped := Grammar.treesAt?_many_end rfl read
      obtain ⟨position, rest⟩ := after
      cases rest with
      | nil => exact significant_nil
      | cons token rest =>
          refine significant_cons (Bool.eq_false_iff.2 fun trivial => ?_) rest
          rw [Grammar.treesAt?_token_cons, if_pos (takes token trivial),
            if_neg (readable_of_isTrivia trivial)] at stopped
          cases stopped
  | _ => exact takes.elim

/-- No white space comes next behind a pattern that has skipped it. -/
theorem significant_of_read
    (skips : pattern.SkipsBlanks before)
    (skipped : before → Significant cursor.rest)
    (read : (pattern.read readRule cursor state).1 = some (trees, after)) :
    Significant after.rest := by
  induction pattern generalizing cursor state trees after before with
  | token accepts => exact skips.elim
  | rule called => exact skips.elim
  | ahead accepts =>
      obtain ⟨_, equal⟩ := Option.ite_none_right_eq_some.1 read
      cases equal
      exact skipped skips
  | absent refused =>
      rw [read_absent] at read
      obtain ⟨_, equal⟩ := Option.ite_none_right_eq_some.1 read
      cases equal
      exact skipped skips
  | empty =>
      cases read
      exact skipped skips
  | sequence first second firstHypothesis secondHypothesis =>
      simp only [Pattern.read] at read
      split at read
      next => cases read
      next front middle between here =>
        split at read
        next => cases read
        next back _ _ there =>
          cases read
          exact secondHypothesis skips
            (fun skipsFirst => firstHypothesis skipsFirst skipped (by rw [here])) (by rw [there])
  | choice preferred alternative preferredHypothesis alternativeHypothesis =>
      simp only [Pattern.read] at read
      split at read
      next here => exact preferredHypothesis skips.1 skipped (by rw [here]; exact read)
      next => exact alternativeHypothesis skips.2 skipped read
  | many item _ => exact significant_of_read_many skips read

/-- Nodes among the items of a repetition are nodes of one of its items. -/
theorem exists_item_of_mem_readMany
    {item : Reader State (List Tree)}
    {bound : List Token}
    (present : node.toTree ∈ (readMany item bound cursor state).1.1) :
    ∃ place memory trees, (∃ behind, (item place memory).1 = some (trees, behind)) ∧
      node.toTree ∈ trees := by
  induction bound generalizing cursor state with
  | nil =>
      unfold readMany at present
      split at present
      next => cases present
      next trees behind _ read => exact ⟨cursor, state, trees, ⟨behind, by rw [read]⟩, present⟩
  | cons token bound inductionHypothesis =>
      unfold readMany at present
      split at present
      next => cases present
      next trees behind _ read =>
        rcases List.mem_append.1 present with here | further
        · exact ⟨cursor, state, trees, ⟨behind, by rw [read]⟩, here⟩
        · exact inductionHypothesis further

/--
Every node that a pattern reads was read by one of the rules that it calls.  It
was read where no white space comes next, if the pattern calls its rules there.
-/
theorem exists_call_of_mem_read
    (skipped : before → Significant cursor.rest)
    (read : (pattern.read readRule cursor state).1 = some (trees, after))
    (present : node.toTree ∈ trees) :
    ∃ called ∈ pattern.calls, ∃ place memory behind,
      (readRule called place memory).1 = some (node, behind) ∧
      (pattern.CallsPastBlanks before → Significant place.rest) := by
  induction pattern generalizing cursor state trees after before with
  | token accepts =>
      simp only [Pattern.read] at read
      split at read
      next => cases read
      next =>
        split at read
        next =>
          cases read
          simp [Node.toTree] at present
        next => cases read
  | rule called =>
      rw [read_rule, Option.map_eq_some_iff] at read
      obtain ⟨⟨found, behind⟩, here, equal⟩ := read
      cases equal
      have same := Node.toTree_injective (List.mem_singleton.1 present)
      subst same
      exact ⟨called, List.mem_singleton_self called, cursor, state, behind, here, skipped⟩
  | ahead accepts =>
      obtain ⟨_, equal⟩ := Option.ite_none_right_eq_some.1 read
      cases equal
      cases present
  | absent refused =>
      rw [read_absent] at read
      obtain ⟨_, equal⟩ := Option.ite_none_right_eq_some.1 read
      cases equal
      cases present
  | empty =>
      cases read
      cases present
  | sequence first second firstHypothesis secondHypothesis =>
      simp only [Pattern.read] at read
      split at read
      next => cases read
      next front middle between here =>
        have readFirst : (first.read readRule cursor state).1 = some (front, middle) := by rw [here]
        split at read
        next => cases read
        next back _ _ there =>
          cases read
          rcases List.mem_append.1 present with inFront | inBack
          · obtain ⟨called, mentioned, place, memory, behind, reading, settled⟩ :=
              firstHypothesis skipped readFirst inFront
            exact ⟨called, List.mem_append_left _ mentioned, place, memory, behind, reading,
              fun calls => settled calls.1⟩
          · obtain ⟨called, mentioned, place, memory, behind, reading, settled⟩ :=
              secondHypothesis (fun skips => significant_of_read skips skipped readFirst)
                (by rw [there]) inBack
            exact ⟨called, List.mem_append_right _ mentioned, place, memory, behind, reading,
              fun calls => settled calls.2⟩
  | choice preferred alternative preferredHypothesis alternativeHypothesis =>
      simp only [Pattern.read] at read
      split at read
      next here =>
        obtain ⟨called, mentioned, place, memory, behind, reading, settled⟩ :=
          preferredHypothesis skipped (by rw [here]; exact read) present
        exact ⟨called, List.mem_append_left _ mentioned, place, memory, behind, reading,
          fun calls => settled calls.1⟩
      next =>
        obtain ⟨called, mentioned, place, memory, behind, reading, settled⟩ :=
          alternativeHypothesis skipped read present
        exact ⟨called, List.mem_append_right _ mentioned, place, memory, behind, reading,
          fun calls => settled calls.2⟩
  | many item itemHypothesis =>
      have whole : (readMany (item.read readRule) cursor.rest cursor state).1 = (trees, after) :=
        Option.some.inj read
      have among : node.toTree ∈ (readMany (item.read readRule) cursor.rest cursor state).1.1 := by
        rwa [whole]
      obtain ⟨place, memory, trees, ⟨behind, here⟩, inside⟩ := exists_item_of_mem_readMany among
      exact itemHypothesis (fun never => never.elim) here inside

theorem exists_of_mem_read
    (read : (pattern.read readRule cursor state).1 = some (trees, after))
    (present : node.toTree ∈ trees) :
    ∃ called ∈ pattern.calls, ∃ place memory behind,
      (readRule called place memory).1 = some (node, behind) := by
  obtain ⟨called, mentioned, place, memory, behind, reading, _⟩ :=
    exists_call_of_mem_read (fun never : False => never.elim) read present
  exact ⟨called, mentioned, place, memory, behind, reading⟩

end Reading

end Pattern

namespace Grammar

variable {grammar : Grammar} {rule : Rule} {cursor after : Cursor} {node root : Node}

/-- Mocking a rule does not change where rules are called. -/
theorem callsPastBlanks_pattern (rule : Rule) : (grammar.pattern rule).CallsPastBlanks True := by
  unfold pattern
  split
  next => exact True.intro
  next => exact rule.callsPastBlanks_pattern

/-- The nodes of a tree that a rule makes are its root and the nodes of the trees it is made of. -/
theorem eq_or_mem_of_build
    {children : List Tree}
    {inner : Node}
    (present : inner ∈ rule.build children :: Tree.nodesOf (rule.build children).children) :
    inner = rule.build children ∨ inner ∈ Tree.nodesOf children := by
  rcases build_eq_or_exists rule children with own | ⟨_, child, rfl, given⟩
  · rw [own] at present ⊢
    exact List.mem_cons.1 present
  · rw [given, ← nodesOf_toTree] at present
    exact .inr present

/-- No node of what is read where white space has been skipped begins with white space. -/
theorem significant_of_readRule
    {levels : Nat}
    {failures : Failures}
    (skipped : Significant cursor.rest)
    (read : (grammar.readRule levels rule cursor failures).1 = some (node, after)) :
    ∀ inner ∈ node :: Tree.nodesOf node.children, Significant inner.tokens := by
  -- The nodes below were read with one level less, where white space has been skipped as well.
  induction levels generalizing rule cursor failures node after with
  | zero =>
      obtain ⟨_, _, noTree, _⟩ := exists_of_readRule (Prod.ext read rfl)
      cases noTree
  | succ levels inductionHypothesis =>
      have derived := derives_of_readRule _ (Prod.ext read rfl)
      have front : cursor.rest = node.tokens ++ after.rest := by simpa using derived.advances.rest
      obtain ⟨_, children, equal, _, body, rfl⟩ := exists_of_readRule (Prod.ext read rfl)
      cases equal
      intro inner present
      rcases eq_or_mem_of_build present with rfl | below
      · rw [front] at skipped
        exact skipped.of_append
      · obtain ⟨child, listed, inChild⟩ := exists_of_mem_nodesOf below
        obtain ⟨called, _, place, memory, behind, reading, settled⟩ :=
          Pattern.exists_call_of_mem_read (fun _ : True => skipped) (by rw [body]) listed
        exact inductionHypothesis (settled (callsPastBlanks_pattern rule)) reading inner inChild

/-- Every node below the root of a parse was derived by its rule and begins with no white space. -/
theorem grounded_of_parseTokens
    {tokens : List Token}
    (parsed : grammar.parseTokens rule tokens = some root)
    {inner : Node}
    (present : inner ∈ Tree.nodesOf root.children) :
    grammar.Grounded inner ∧ Significant inner.tokens := by
  obtain ⟨node, after, trailing, reading, _, rfl, _⟩ := exists_of_rootOf? parsed
  have derived := derives_of_readRule _ (Prod.ext reading rfl)
  have among := mem_of_mem_root present
  have skipped := significant_dropWhile tokens
  exact ⟨derived.grounded (by rwa [nodesOf_toTree]),
    significant_of_readRule skipped reading _ among⟩

end Grammar
end PreprocessorSyntax
