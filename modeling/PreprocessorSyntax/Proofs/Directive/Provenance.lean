import PreprocessorSyntax.Directive
import PreprocessorSyntax.Proofs.Directive.Totality
import PreprocessorSyntax.Proofs.Trailing.Directives

/-!
# Where directives come from

Whatever a directive keeps of a line, and the place of any fault in it, are taken
from the tokens of the line.  A fault is placed at the first token of some node,
so this takes that nodes have tokens.  Only a replacement list may be empty, and no
fault is ever placed there, whichever rules are mocked.
-/

namespace PreprocessorSyntax

/-- The tokens that an include body keeps. -/
def IncludeBody.tokens : IncludeBody → List Token
  | .freeform tokens => tokens
  | _ => []

/-- The tokens that an import keeps. -/
def ImportDeclaration.tokens (declaration : ImportDeclaration) : List Token :=
  match declaration.target with
  | .header body => body.tokens
  | _ => []

/-- The tokens that a directive keeps, also those of its condition. -/
def Directive.tokens : Directive → List Token
  | .define definition => definition.replacement
  | .inclusion _ body => body.tokens
  | .importing declaration => declaration.tokens
  | .ifTrue condition => condition.tokens
  | .elifTrue condition => condition.tokens
  | .line tokens => tokens
  | .pragma tokens => tokens
  | .misc tokens => tokens
  | _ => []

/-- What came of reading a node is made of its tokens, and a fault stands at one of them. -/
def Drawn {Value : Type} (node : Node) (kept : Value → List Token) : Except Fault Value → Prop
  | .ok value => ∀ token ∈ kept value, token ∈ node.tokens
  | .error fault => ∃ token ∈ node.tokens, fault.location? = some token.location

namespace Drawn

variable {First Second : Type} {node child : Node} {kept : First → List Token}
variable {keptToo : Second → List Token} {result : Except Fault First}

/-- What is made of the tokens of a child is made of those of the node. -/
theorem of_child (present : child ∈ node.childNodes) (drawn : Drawn child kept result) :
    Drawn node kept result := by
  cases result with
  | ok value => exact fun token listed => mem_tokens_of_mem_childNodes present (drawn token listed)
  | error fault =>
      obtain ⟨token, listed, stands⟩ := drawn
      exact ⟨token, mem_tokens_of_mem_childNodes present listed, stands⟩

theorem map
    {f : First → Second}
    (drawn : Drawn node kept result)
    (keeps : ∀ value, keptToo (f value) = kept value) :
    Drawn node keptToo (result.map f) := by
  cases result with
  | ok value =>
      intro token listed
      rw [keeps] at listed
      exact drawn token listed
  | error fault => exact drawn

end Drawn

theorem mem_childNodes_of_child?
    {node child : Node}
    {rule : Rule}
    (found : node.child? rule = some child) :
    child ∈ node.childNodes ∧ child.rule = rule := by
  rw [Node.child?] at found
  have named := List.find?_some found
  exact ⟨List.mem_of_find?_eq_some found, beq_iff_eq.1 named⟩

namespace Grammar

variable {grammar : Grammar} {pattern : Pattern} {cursor after : Cursor} {trees : List Tree}
variable {node child : Node}

/-- No layer of an expression stands for a replacement list. -/
theorem replacementList_not_mem_calls
    {called : Rule}
    (collapses : called.collapses = true) :
    .replacementList ∉ (grammar.pattern called).calls := by
  unfold pattern
  split
  next => simp [Pattern.word, Pattern.calls]
  next => cases called <;> first | decide | cases collapses

/-- A pattern that does not call for replacement lists is not read as one. -/
theorem Derives.rule_ne_replacementList
    (derived : grammar.Derives pattern cursor trees after)
    (uncalled : .replacementList ∉ pattern.calls)
    {rule : Rule}
    {children : List Tree}
    (present : .node rule children ∈ trees) :
    rule ≠ .replacementList := by
  induction derived with
  | token _ _ => simp at present
  | @rule called _ _ _ body inductionHypothesis =>
      have different : called ≠ .replacementList := by
        rintro rfl
        exact uncalled (List.mem_singleton_self _)
      rw [List.mem_singleton] at present
      unfold Rule.build at present
      split at present
      next inner grandchildren =>
        split at present
        next collapses =>
          rw [present] at inductionHypothesis
          exact inductionHypothesis (replacementList_not_mem_calls collapses) List.mem_cons_self
        next =>
          cases present
          exact different
      next =>
        cases present
        exact different
  | ahead _ => cases present
  | absent _ _ => cases present
  | empty _ => cases present
  | sequence _ _ front back =>
      rw [Pattern.calls, List.mem_append, not_or] at uncalled
      exact (List.mem_append.1 present).elim (front uncalled.1) (back uncalled.2)
  | preferred _ chosen =>
      rw [Pattern.calls, List.mem_append, not_or] at uncalled
      exact chosen uncalled.1 present
  | alternative _ chosen =>
      rw [Pattern.calls, List.mem_append, not_or] at uncalled
      exact chosen uncalled.2 present
  | stop _ _ => cases present
  | further _ _ front back =>
      exact (List.mem_append.1 present).elim (front uncalled) (back uncalled)

namespace Formed

theorem tokens_ne_nil
    (formed : grammar.Formed node)
    (notReplacement : node.rule ≠ .replacementList) :
    node.tokens ≠ [] := by
  obtain ⟨cursor, children, after, leading, trailing, derived, _, equal⟩ := formed
  have filled := derived.tokensOf_ne_nil (consumes_pattern notReplacement)
  simp [Node.tokens, equal, filled]

/-- The nodes below one that does not call for replacement lists are no replacement lists. -/
theorem child_rule_ne
    (formed : grammar.Formed node)
    (uncalled : .replacementList ∉ node.rule.pattern.calls)
    (present : child ∈ node.childNodes) :
    child.rule ≠ .replacementList := by
  obtain ⟨cursor, children, after, leading, trailing, derived, _, equal⟩ := formed
  have uncalledToo : .replacementList ∉ (grammar.pattern node.rule).calls := by
    unfold pattern
    split
    next => simp [Pattern.word, Pattern.calls]
    next => exact uncalled
  obtain ⟨tree, listed, isChild⟩ := List.mem_filterMap.1 present
  cases tree with
  | leaf token => cases isChild
  | node rule grandchildren =>
      cases isChild
      have below : Tree.node rule grandchildren ∈ children := by simpa [equal] using listed
      exact derived.rule_ne_replacementList uncalledToo below

/-- A fault at a node stands at its first token. -/
theorem drawn_ofShape
    {Value : Type}
    {kept : Value → List Token}
    (formed : grammar.Formed node)
    (notReplacement : node.rule ≠ .replacementList)
    (fault : ShapeFault) :
    Drawn node kept (.error (.ofShape node fault)) := by
  cases tokens : node.tokens with
  | nil => exact absurd tokens (formed.tokens_ne_nil notReplacement)
  | cons token others =>
      have first : node.firstToken? = some token := by
        rw [Node.firstToken?, Tree.firstTokenOf?_eq, ← Node.tokens, tokens]
        rfl
      refine ⟨token, by simp [tokens], ?_⟩
      rw [Fault.ofShape, first]
      rfl

variable (formed : grammar.Formed node) (notReplacement : node.rule ≠ .replacementList)
include formed

theorem of_child?
    {rule : Rule}
    (found : node.child? rule = some child) :
    grammar.Formed child ∧ child ∈ node.childNodes ∧ child.rule = rule := by
  obtain ⟨present, isRule⟩ := mem_childNodes_of_child? found
  exact ⟨(formed.stems present).formed, present, isRule⟩

include notReplacement

theorem drawn_ofForm : Drawn node IncludeBody.tokens (IncludeBody.ofForm node) := by
  unfold IncludeBody.ofForm
  split
  next => exact List.forall_mem_nil _
  next =>
    split
    next => exact List.forall_mem_nil _
    next => exact formed.drawn_ofShape notReplacement _
  next => exact fun token listed => (List.mem_filter.1 listed).1
  next => exact formed.drawn_ofShape notReplacement _

theorem drawn_includeBody : Drawn node IncludeBody.tokens (IncludeBody.ofNode node) := by
  unfold IncludeBody.ofNode
  split
  case h_1 isRule | h_2 isRule =>
    split
    next => exact formed.drawn_ofShape notReplacement _
    next form others children =>
      have present : form ∈ node.childNodes := by simp [children]
      have uncalled : .replacementList ∉ node.rule.pattern.calls := by rw [isRule]; decide
      have below := (formed.stems present).formed
      exact (below.drawn_ofForm (formed.child_rule_ne uncalled present)).of_child present
  next => exact formed.drawn_ofForm notReplacement

theorem drawn_ofDefinition :
    Drawn node MacroDefinition.replacement (MacroDefinition.ofDefinition node) := by
  unfold MacroDefinition.ofDefinition
  split
  next => exact formed.drawn_ofShape notReplacement _
  next =>
    split
    next => exact formed.drawn_ofShape notReplacement _
    next list found =>
      have present := (mem_childNodes_of_child? found).1
      exact fun token listed =>
        mem_tokens_of_mem_childNodes present (List.mem_filter.1 listed).1

theorem drawn_macroDefinition :
    Drawn node MacroDefinition.replacement (MacroDefinition.ofNode node) := by
  unfold MacroDefinition.ofNode
  split
  next =>
    split
    next definition found =>
      rcases Option.or_eq_some_iff.1 found with here | ⟨_, here⟩ <;>
        obtain ⟨below, present, isRule⟩ := formed.of_child? here <;>
        exact (below.drawn_ofDefinition (by rw [isRule]; decide)).of_child present
    next => exact formed.drawn_ofShape notReplacement _
  next => exact formed.drawn_ofDefinition notReplacement
  next => exact formed.drawn_ofDefinition notReplacement
  next => exact formed.drawn_ofShape notReplacement _

theorem drawn_operand : Drawn node (fun _ => []) (Directive.operand node) := by
  unfold Directive.operand
  split
  next => exact List.forall_mem_nil _
  next => exact formed.drawn_ofShape notReplacement _

theorem drawn_importOfNode :
    Drawn node ImportDeclaration.tokens (Directive.importOfNode node) := by
  unfold Directive.importOfNode
  simp only
  split
  next header found =>
    have drawn : Drawn node IncludeBody.tokens (IncludeBody.ofNode header) := by
      rcases Option.or_eq_some_iff.1 found with here | ⟨_, here⟩ <;>
        obtain ⟨below, present, isRule⟩ := formed.of_child? here <;>
        exact (below.drawn_includeBody (by rw [isRule]; decide)).of_child present
    exact drawn.map fun _ => rfl
  next =>
    split
    next => exact formed.drawn_ofShape notReplacement _
    next =>
      split <;> exact List.forall_mem_nil _

theorem drawn_ofLine : Drawn node Directive.tokens (Directive.ofLine node) := by
  unfold Directive.ofLine
  split
  case h_1 | h_2 | h_3 => exact (formed.drawn_macroDefinition notReplacement).map fun _ => rfl
  case h_4 => exact (formed.drawn_operand notReplacement).map fun _ => rfl
  case h_5 =>
    split
    next => exact formed.drawn_ofShape notReplacement _
    next body found =>
      obtain ⟨below, present, isRule⟩ := formed.of_child? found
      have drawn := (below.drawn_includeBody (by rw [isRule]; decide)).of_child present
      exact drawn.map fun _ => rfl
  case h_6 => exact (formed.drawn_importOfNode notReplacement).map fun _ => rfl
  case h_8 | h_9 =>
    split
    next => exact formed.drawn_ofShape notReplacement _
    next condition found =>
      have present := (mem_childNodes_of_child? found).1
      have kept : ∀ token ∈ condition.tokens, token ∈ node.tokens :=
        fun token => mem_tokens_of_mem_childNodes present
      split <;> exact kept
  case h_10 => exact (formed.drawn_operand notReplacement).map fun _ => rfl
  case h_7 | h_11 | h_12 | h_14 | h_15 => exact List.forall_mem_nil _
  case h_13 | h_16 | h_17 =>
    exact fun token listed => (List.mem_filter.1 (List.mem_of_mem_drop listed)).1
  case h_18 => exact formed.drawn_ofShape notReplacement _

/-- The directive of a line is made of its tokens, and a fault in it stands at one of them. -/
theorem drawn_ofNode : Drawn node Directive.tokens (Directive.ofNode node) := by
  unfold Directive.ofNode
  split
  next isWrapper =>
    split
    next => exact formed.drawn_ofShape notReplacement _
    next inner others children =>
      have present : inner ∈ node.childNodes := by simp [children]
      have uncalled : .replacementList ∉ node.rule.pattern.calls := by
        rw [isWrapper]
        decide
      have below := (formed.stems present).formed
      exact (below.drawn_ofLine (formed.child_rule_ne uncalled present)).of_child present
  next => exact formed.drawn_ofLine notReplacement

end Formed
end Grammar
end PreprocessorSyntax
