import PreprocessorSyntax.Proofs.Condition.Precedence

/-!
# Where a token stands in a tree

`Occurs` says that a token is a leaf below some trees: which nodes are around it
and which leaves stand before and behind it.  What may stand directly below a
node is told by the pattern of its rule: a leaf passes one of its token tests,
and a node is made by one of the rules that it calls.  So a set of rules that
call only each other holds everything below their nodes.
-/

namespace PreprocessorSyntax

/--
A token among the leaves of some trees, with the nodes around it from the
outermost one inwards, and with the other leaves before and behind it.
-/
inductive Occurs : List Tree → List Node → List Token → Token → List Token → Prop
  | direct (front back : List Tree) (token : Token) :
      Occurs (front ++ .leaf token :: back) [] (Tree.tokensOf front) token (Tree.tokensOf back)
  | within
      (front back : List Tree) (node : Node)
      {path : List Node} {before behind : List Token} {token : Token}
      (inside : Occurs node.children path before token behind) :
      Occurs (front ++ node.toTree :: back) (node :: path) (Tree.tokensOf front ++ before) token
        (behind ++ Tree.tokensOf back)

/-- A node that stands in a list of trees is one of the nodes of the list. -/
theorem mem_nodesOf_of_toTree
    {trees : List Tree}
    {node inner : Node}
    (present : node.toTree ∈ trees)
    (below : inner ∈ node :: Tree.nodesOf node.children) :
    inner ∈ Tree.nodesOf trees := by
  obtain ⟨front, back, rfl⟩ := List.append_of_mem present
  rw [Grammar.nodesOf_append, List.mem_append, ← List.singleton_append, Grammar.nodesOf_append,
    Grammar.nodesOf_toTree, List.mem_append]
  exact .inr (.inl below)

/-- A token below some trees is below one of them. -/
theorem exists_of_mem_tokensOf
    {trees : List Tree}
    {token : Token}
    (present : token ∈ Tree.tokensOf trees) :
    ∃ tree ∈ trees, token ∈ tree.tokens := by
  induction trees with
  | nil => cases present
  | cons tree trees inductionHypothesis =>
      rw [Tree.tokensOf_cons, List.mem_append] at present
      rcases present with first | others
      · exact ⟨tree, List.mem_cons_self, first⟩
      · obtain ⟨later, listed, below⟩ := inductionHypothesis others
        exact ⟨later, List.mem_cons_of_mem _ listed, below⟩

namespace Occurs

variable {trees : List Tree} {path : List Node} {before behind : List Token} {token : Token}

/-- Where a token stands in some trees, it stands in one of them. -/
theorem cases_mem (occurs : Occurs trees path before token behind) :
    (path = [] ∧ .leaf token ∈ trees) ∨
      ∃ (front back : List Tree) (node : Node) (inner : List Node) (early late : List Token),
        trees = front ++ node.toTree :: back ∧ path = node :: inner ∧
        behind = late ++ Tree.tokensOf back ∧ Occurs node.children inner early token late := by
  cases occurs with
  | direct front back token => exact .inl ⟨rfl, by simp⟩
  | within front back node inside => exact .inr ⟨front, back, node, _, _, _, rfl, rfl, rfl, inside⟩

/-- The nodes around a token are nodes of the trees. -/
theorem mem_nodesOf
    (occurs : Occurs trees path before token behind)
    {node : Node}
    (present : node ∈ path) :
    node ∈ Tree.nodesOf trees := by
  induction occurs with
  | direct front back token => cases present
  | within front back outer _ inductionHypothesis =>
      refine mem_nodesOf_of_toTree (List.mem_append_right _ List.mem_cons_self) ?_
      rcases List.mem_cons.1 present with rfl | inside
      · exact List.mem_cons_self
      · exact List.mem_cons_of_mem _ (inductionHypothesis inside)

/-- What is handed down from a node to the nodes directly below it holds of all nodes below it. -/
theorem forall_of_closed
    {closed : Node → Prop}
    (step : ∀ node child : Node, closed node → child.toTree ∈ node.children → closed child)
    {node : Node}
    (outermost : closed node)
    (occurs : Occurs node.children path before token behind) :
    ∀ inner ∈ path, closed inner := by
  generalize children : node.children = trees at occurs
  induction occurs generalizing node with
  | direct front back token => exact List.forall_mem_nil _
  | within front back child _ inductionHypothesis =>
      have next := step node child outermost (by simp [children])
      exact List.forall_mem_cons.2 ⟨next, inductionHypothesis next rfl⟩

/-- So it holds of all nodes that stand further inwards around a token. -/
theorem forall_of_path
    {closed : Node → Prop}
    (step : ∀ node child : Node, closed node → child.toTree ∈ node.children → closed child)
    {outer inner : List Node}
    {node : Node}
    (occurs : Occurs trees (outer ++ node :: inner) before token behind)
    (isClosed : closed node) :
    ∀ further ∈ inner, closed further := by
  induction outer generalizing trees before behind with
  | nil =>
      obtain ⟨noTrees, _⟩ | ⟨_, _, _, _, _, _, _, equal, _, inside⟩ := occurs.cases_mem
      · cases noTrees
      · cases equal
        exact inside.forall_of_closed step isClosed
  | cons first outer inductionHypothesis =>
      obtain ⟨noTrees, _⟩ | ⟨_, _, _, _, _, _, _, equal, _, inside⟩ := occurs.cases_mem
      · cases noTrees
      · cases equal
        exact inductionHypothesis inside

end Occurs

/-- Further trees may stand around those in which a token occurs. -/
theorem Occurs.between
    {trees : List Tree}
    {path : List Node}
    {before behind : List Token}
    {token : Token}
    (occurs : Occurs trees path before token behind)
    (front back : List Tree) :
    Occurs (front ++ trees ++ back) path (Tree.tokensOf front ++ before) token
      (behind ++ Tree.tokensOf back) := by
  cases occurs with
  | direct first last token =>
      have direct := Occurs.direct (front ++ first) (last ++ back) token
      simpa using direct
  | within first last node inside =>
      have insideMore := Occurs.within (front ++ first) (last ++ back) node inside
      simpa using insideMore

mutual

/-- Every leaf directly below a node of a tree occurs in the tree. -/
theorem exists_occurs_of_mem_nodes
    {tree : Tree}
    {node : Node}
    {token : Token}
    (present : node ∈ tree.nodes)
    (leaf : .leaf token ∈ node.children) :
    ∃ path before behind, Occurs [tree] (path ++ [node]) before token behind :=
  match tree with
  | .leaf _ => by simp [Tree.nodes] at present
  | .node rule children => by
      rcases List.mem_cons.1 present with rfl | below
      · obtain ⟨front, back, equal⟩ := List.append_of_mem leaf
        simp only at equal
        subst equal
        exact ⟨[], _, _, .within [] [] ⟨rule, _⟩ (.direct front back token)⟩
      · obtain ⟨path, before, behind, occurs⟩ := exists_occurs_of_mem_nodesOf below leaf
        exact ⟨⟨rule, children⟩ :: path, _, _, .within [] [] ⟨rule, children⟩ occurs⟩

/-- Every leaf directly below a node of some trees occurs in the trees. -/
theorem exists_occurs_of_mem_nodesOf
    {trees : List Tree}
    {node : Node}
    {token : Token}
    (present : node ∈ Tree.nodesOf trees)
    (leaf : .leaf token ∈ node.children) :
    ∃ path before behind, Occurs trees (path ++ [node]) before token behind :=
  match trees with
  | [] => by simp [Tree.nodesOf] at present
  | tree :: trees => by
      rcases List.mem_append.1 present with first | others
      · obtain ⟨path, before, behind, occurs⟩ := exists_occurs_of_mem_nodes first leaf
        exact ⟨path, _, _, occurs.between [] trees⟩
      · obtain ⟨path, before, behind, occurs⟩ := exists_occurs_of_mem_nodesOf others leaf
        have further := occurs.between [tree] []
        rw [List.append_nil] at further
        exact ⟨path, _, _, further⟩

end

/-- Some token test of a pattern accepts the token. -/
def Pattern.admits (token : Token) : Pattern → Bool
  | .token accepts => accepts token
  | .rule _ => false
  | .ahead _ => false
  | .absent _ => false
  | .empty => false
  | .sequence first second => first.admits token || second.admits token
  | .choice preferred alternative => preferred.admits token || alternative.admits token
  | .many item => item.admits token

namespace Grammar

variable {grammar : Grammar} {pattern : Pattern} {cursor after : Cursor} {trees : List Tree}

/-- A leaf passed a token test of the pattern that was read. -/
theorem Derives.admits
    (derived : grammar.Derives pattern cursor trees after)
    {token : Token}
    (present : .leaf token ∈ trees) :
    pattern.admits token = true := by
  induction derived with
  | token _ accepted =>
      cases List.mem_singleton.1 present
      exact accepted
  | rule _ => cases List.mem_singleton.1 present
  | ahead _ => cases present
  | absent _ _ => cases present
  | empty _ => cases present
  | sequence _ _ front back =>
      rw [Pattern.admits, Bool.or_eq_true]
      exact (List.mem_append.1 present).imp front back
  | preferred _ chosen =>
      rw [Pattern.admits, chosen present, Bool.true_or]
  | alternative _ chosen =>
      rw [Pattern.admits, chosen present, Bool.or_true]
  | stop _ _ => cases present
  | further _ _ front back => exact (List.mem_append.1 present).elim front back

/-- A node was made by a rule that the pattern calls, or for a layer by a tighter one. -/
theorem Derives.exists_called
    (unmocked : grammar.mocked = [])
    (derived : grammar.Derives pattern cursor trees after)
    {node : Node}
    (present : node.toTree ∈ trees) :
    ∃ called ∈ pattern.calls, node.rule ∈ called :: called.tighter := by
  induction derived with
  | token _ _ => cases List.mem_singleton.1 present
  | @rule called _ _ _ body =>
      refine ⟨called, List.mem_singleton_self called, ?_⟩
      have derived : grammar.Derives (.rule called) _ _ _ := .rule body
      cases collapses : called.collapses with
      | true =>
          obtain ⟨left, single, listed⟩ := leaves_expressions unmocked called
            (Rule.mem_expressions_of_collapses collapses) _ _ _ derived
          rw [single, List.mem_singleton] at present
          rwa [Node.toTree_injective present]
      | false =>
          obtain ⟨left, single, isCalled, _⟩ := exists_of_derives_rule collapses derived
          rw [single, List.mem_singleton] at present
          rw [Node.toTree_injective present, isCalled]
          exact List.mem_cons_self
  | ahead _ => cases present
  | absent _ _ => cases present
  | empty _ => cases present
  | sequence _ _ front back =>
      rcases List.mem_append.1 present with early | late
      · obtain ⟨called, listed, made⟩ := front early
        exact ⟨called, List.mem_append_left _ listed, made⟩
      · obtain ⟨called, listed, made⟩ := back late
        exact ⟨called, List.mem_append_right _ listed, made⟩
  | preferred _ chosen =>
      obtain ⟨called, listed, made⟩ := chosen present
      exact ⟨called, List.mem_append_left _ listed, made⟩
  | alternative _ chosen =>
      obtain ⟨called, listed, made⟩ := chosen present
      exact ⟨called, List.mem_append_right _ listed, made⟩
  | stop _ _ => cases present
  | further _ _ front back => exact (List.mem_append.1 present).elim front back

section Grounded

variable (unmocked : grammar.mocked = []) {node : Node}

/-- What is below a node that was derived was derived. -/
theorem Grounded.below
    (grounded : grammar.Grounded node)
    {inner : Node}
    (present : inner ∈ Tree.nodesOf node.children) :
    grammar.Grounded inner := by
  obtain ⟨cursor, after, derived, _⟩ := grounded
  exact derived.grounded present

include unmocked

/-- A leaf of a node passes a token test of its rule. -/
theorem Grounded.admits
    (grounded : grammar.Grounded node)
    {token : Token}
    (present : .leaf token ∈ node.children) :
    node.rule.pattern.admits token = true := by
  obtain ⟨cursor, after, derived, _⟩ := grounded
  rw [pattern_eq unmocked] at derived
  exact derived.admits present

/-- A node directly below another one was made by a rule that is called there, and is grounded. -/
theorem Grounded.child
    (grounded : grammar.Grounded node)
    {child : Node}
    (present : child.toTree ∈ node.children) :
    grammar.Grounded child ∧
      ∃ called ∈ node.rule.pattern.calls, child.rule ∈ called :: called.tighter := by
  obtain ⟨cursor, after, derived, _⟩ := grounded
  rw [pattern_eq unmocked] at derived
  exact ⟨derived.grounded (mem_nodesOf_of_toTree present List.mem_cons_self),
    derived.exists_called unmocked present⟩

end Grounded
end Grammar
end PreprocessorSyntax
