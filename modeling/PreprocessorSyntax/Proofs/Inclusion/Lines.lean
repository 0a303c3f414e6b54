import PreprocessorSyntax.Proofs.Condition.Layout
import PreprocessorSyntax.Proofs.Inclusion.Headers

/-!
# Where an include body stands

An inclusion has one body.  It stands behind the name of the directive and the
white space there, and only white space and comments stand between it and the
end of the line.  Where it is read, nothing is known to fail yet.
-/

namespace PreprocessorSyntax
namespace Grammar

variable {grammar : Grammar} {pattern : Pattern} {cursor after : Cursor} {trees : List Tree}
variable {line : List Token} {root : Node}

/-- Without calls of rules there are no nodes. -/
theorem Derives.filterMap_node?_eq_nil
    (derived : grammar.Derives pattern cursor trees after)
    (callsNone : pattern.calls = []) :
    trees.filterMap Tree.node? = [] := by
  induction derived with
  | token | ahead | absent | empty | stop => rfl
  | rule => cases callsNone
  | sequence _ _ front back =>
      obtain ⟨noneFirst, noneSecond⟩ := List.append_eq_nil_iff.1 callsNone
      rw [List.filterMap_append, front noneFirst, back noneSecond, List.append_nil]
  | preferred _ inductionHypothesis =>
      exact inductionHypothesis (List.append_eq_nil_iff.1 callsNone).1
  | alternative _ inductionHypothesis =>
      exact inductionHypothesis (List.append_eq_nil_iff.1 callsNone).2
  | further _ _ front back =>
      rw [List.filterMap_append, front callsNone, back callsNone, List.append_nil]

/-- Where a line may end, it has no more content. -/
theorem filter_isContent_of_endOfLine
    (inLine : InLine cursor.rest)
    (read : grammar.treesAt? .endOfLine cursor = some (trees, after)) :
    cursor.rest.filter Token.isContent = [] := by
  rw [← Layout.filter_isContent_trivia]
  have inLineBehind : InLine cursor.trivia.2.rest := by
    rw [← Cursor.trivia_append cursor] at inLine
    exact (InLine.append_iff.1 inLine).2
  rw [Pattern.endOfLine, treesAt?_append, treesAt?_trivia_eq, Option.bind_some,
    treesAt?_ahead] at read
  cases left : cursor.trivia.2.rest with
  | nil => rfl
  | cons token rest =>
      rw [left] at inLineBehind
      obtain ⟨notEnd, _⟩ := InLine.cons_iff.1 inLineBehind
      have readable := inLineBehind.readable token List.mem_cons_self
      have kind : cursor.trivia.2.peekKind = token.kind := by
        simp [Cursor.peekKind, Cursor.peek?, left, readable]
      rw [kind, show token.kind.isLineEnd = false from notEnd] at read
      cases read

/-- The place of the body of an inclusion, and how the body is read there. -/
theorem exists_body_of_parseTokens
    (unmocked : grammar.mocked = [])
    (inLine : InLine line)
    (found : grammar.parseTokens .includeLine line = some root) :
    ∃ levels inner place behind,
      grammar.maxDepth = levels + 1 ∧ root.child? .includeBody = some inner ∧
      Reached line place ∧ Significant place.rest ∧
      (grammar.readRule levels .includeBody place .empty).1 = some (inner, behind) ∧
      behind.rest.filter Token.isContent = [] := by
  obtain ⟨node, after, trailing, reading, -, rfl, -⟩ := exists_of_rootOf? found
  obtain ⟨levels, _, depth, -, body, rfl⟩ := exists_of_readRule (Prod.ext reading rfl)
  rw [pattern_eq unmocked] at body
  obtain ⟨_, behind, _, back, whole, ending, rfl⟩ := exists_of_read_append body
  obtain ⟨heads, place, _, _, head, called, rfl⟩ := exists_of_read_append whole
  obtain ⟨inner, read, rfl⟩ := exists_of_read_rule called
  rw [read_of_calls_eq_nil grammar rfl, Prod.mk.injEq] at head ending
  obtain ⟨head, rfl⟩ := head
  have before := derives_of_treesAt? head
  have derived := derives_of_readRule levels read
  have reached : Reached line place :=
    Reached.advances ⟨_, (Cursor.ofTokens line).advances_trivia⟩ before.advances
  have reachedBehind := reached.advances derived.advances
  refine ⟨levels, inner, place, behind, depth, ?_, reached, ?_, congrArg Prod.fst read,
    filter_isContent_of_endOfLine (reachedBehind.inLine inLine) ending.1⟩
  · obtain ⟨body, single, isBody, -⟩ := exists_of_derives_rule rfl derived
    obtain rfl : inner = body := Node.toTree_injective (List.singleton_inj.1 single)
    have nodes : (heads ++ [inner.toTree] ++ back).filterMap Tree.node? = [inner] := by
      rw [List.filterMap_append, List.filterMap_append, before.filterMap_node?_eq_nil rfl,
        (derives_of_treesAt? ending.1).filterMap_node?_eq_nil rfl]
      rfl
    rw [build_eq rfl, Node.child?, Node.childNodes, if_pos rfl, filterMap_node?_between, nodes]
    simp [isBody]
  · obtain ⟨_, middle, _, -, skipped, -⟩ := exists_of_treesAt?_append head
    rw [treesAt?_trivia_eq, Option.some.injEq, Prod.mk.injEq] at skipped
    rw [← skipped.2]
    exact significant_dropWhile _

/-- An include body is one of three forms, and only one of them starts with a name. -/
theorem exists_form_of_readRule
    {levels : Nat}
    {inner : Node}
    (unmocked : grammar.mocked = [])
    (significant : Significant cursor.rest)
    (read : (grammar.readRule levels .includeBody cursor .empty).1 = some (inner, after)) :
    ∃ form : Node, inner = ⟨.includeBody, [form.toTree]⟩ ∧ grammar.Stems form ∧
      cursor.rest = form.tokens ++ after.rest ∧
      ((form.rule = .includeBodyBracketed ∨ form.rule = .includeBodyQuoted) ∨
        form.rule = .includeBodyFreeform ∧
          ∃ token rest, cursor.rest = token :: rest ∧ token.isIdentifier = true) := by
  obtain ⟨levels, children, rfl, -, body, rfl⟩ := exists_of_readRule (Prod.ext read rfl)
  rw [pattern_eq unmocked] at body
  have derived : grammar.Derives (.rule .includeBodyBracketed <|>
      (.rule .includeBodyQuoted <|> .rule .includeBodyFreeform)) cursor children after :=
    derives_of_read (derives_of_readRule levels) _ body
  have split {form : Node} (single : children = [form.toTree]) :
      cursor.rest = form.tokens ++ after.rest := by
    simpa [single, Node.toTree, Node.tokens] using derived.advances.rest
  rw [build_eq rfl]
  cases derived with
  | preferred chosen =>
      obtain ⟨form, rfl, isForm, stems⟩ := exists_of_derives_rule rfl chosen
      exact ⟨form, rfl, stems, split rfl, .inl (.inl isForm)⟩
  | alternative further =>
      cases further with
      | preferred chosen =>
          obtain ⟨form, rfl, isForm, stems⟩ := exists_of_derives_rule rfl chosen
          exact ⟨form, rfl, stems, split rfl, .inl (.inr isForm)⟩
      | alternative chosen =>
          obtain ⟨form, rfl, isForm, stems⟩ := exists_of_derives_rule rfl chosen
          obtain ⟨token, next, isName⟩ :=
            (begins_includeBodyFreeform unmocked).exists_next? chosen
          rw [← Cursor.head?_trivia, trivia_of_significant significant, Option.mem_def,
            List.head?_eq_some_iff] at next
          obtain ⟨rest, starts⟩ := next
          exact ⟨form, rfl, stems, split rfl, .inr ⟨isForm, token, rest, starts, isName⟩⟩

end Grammar
end PreprocessorSyntax
