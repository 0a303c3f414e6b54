import PreprocessorSyntax.Proofs.Directive.Names

/-!
# Readings of lines

Whatever is asked of a line when it is read as a directive stands where the
grammar puts it: the operand behind the name of the directive, the body of an
inclusion, the condition, the definition.  So every line has a reading, and the
directive goes by the name on the line.
-/

namespace PreprocessorSyntax

/-- The string literals without prefix below a node stand in quotation marks. -/
def Node.Quoted (node : Node) : Prop :=
  ∀ token ∈ node.tokens, token.kind = .string .none →
    (IncludeBody.unquote? token.text).isSome = true

theorem Node.Quoted.child
    {node child : Node}
    (quoted : node.Quoted)
    (present : child ∈ node.childNodes) :
    child.Quoted :=
  fun token below => quoted token (mem_tokens_of_mem_childNodes present below)

namespace Grammar

variable {grammar : Grammar} {node : Node} {names : List String}

section Unmocked

variable (unmocked : grammar.mocked = [])
include unmocked

/-- Each form of an include body has a reading. -/
theorem exists_ofForm
    {form : Node}
    (stems : grammar.Stems form)
    (quoted : form.Quoted)
    (listed : form.rule ∈ [Rule.includeBodyBracketed, .includeBodyQuoted, .includeBodyFreeform]) :
    ∃ body, IncludeBody.ofForm form = .ok body := by
  obtain ⟨rule, children⟩ := form
  simp only [List.mem_cons, List.not_mem_nil, or_false] at listed
  rcases listed with rfl | rfl | rfl
  · exact ⟨_, rfl⟩
  · obtain ⟨cursor, after, derived⟩ := stems
    rw [pattern_eq unmocked] at derived
    have literal : grammar.Derives (.token fun found => found.kind == .string .none) cursor children
        after := derived
    cases literal with
    | @token _ _ _ found read accepted =>
        have text : Node.text ⟨.includeBodyQuoted, [.leaf found]⟩ = found.text := by
          simp [Node.text, Node.tokens, String.join]
        have closed := quoted found (by simp [Node.tokens]) (beq_iff_eq.1 accepted)
        obtain ⟨path, unquoted⟩ := Option.isSome_iff_exists.1 closed
        refine ⟨.quoted path, ?_⟩
        simp only [IncludeBody.ofForm, text, unquoted]
  · exact ⟨_, rfl⟩

/-- So does every include body. -/
theorem exists_ofNode_includeBody
    {body : Node}
    (stems : grammar.Stems body)
    (quoted : body.Quoted)
    (isBody : body.rule = .includeBody) :
    ∃ inclusion, IncludeBody.ofNode body = .ok inclusion := by
  obtain ⟨cursor, after, derived⟩ := stems
  rw [pattern_eq unmocked, isBody] at derived
  obtain ⟨form, single, listed, stemsForm⟩ := exists_of_derives_firstOf (by decide) derived
  have children : body.childNodes = [form] := by
    rw [Node.childNodes, single]
    rfl
  have quotedForm : form.Quoted := quoted.child (by simp [children])
  rw [IncludeBody.ofNode, isBody]
  simp only [children]
  exact exists_ofForm unmocked stemsForm quotedForm listed

/-- A directive with a name as its operand has that name. -/
theorem exists_operand
    (formed : grammar.Formed node)
    (opens : grammar.Opens node.rule.pattern (NamedHead names)) :
    ∃ name, Directive.operand node = .ok name := by
  rw [← pattern_eq unmocked] at opens
  obtain ⟨front, behind, equal, head⟩ := formed.opens opens
  obtain ⟨name, second⟩ := identifiers_of_namedHead equal head
  exact ⟨name.text, by simp [Directive.operand, second]⟩

omit unmocked in
/-- A child is found under its rule. -/
theorem isSome_child? {child : Node} (present : child ∈ node.childNodes) :
    (node.child? child.rule).isSome = true := by
  rw [Node.child?, List.find?_isSome]
  exact ⟨child, present, beq_self_eq_true _⟩

omit unmocked in
/-- What is found under a rule is a child that stems from it. -/
theorem Formed.stems_of_child?
    (formed : grammar.Formed node)
    {rule : Rule}
    {child : Node}
    (found : node.child? rule = some child) :
    child ∈ node.childNodes ∧ child.rule = rule ∧ grammar.Stems child := by
  have present := List.mem_of_find?_eq_some found
  exact ⟨present, by simpa using List.find?_some found, formed.stems present⟩

/-- There is a child of a rule that every derivation holds. -/
theorem exists_child?
    (formed : grammar.Formed node)
    {rule : Rule}
    (holds : grammar.Holds node.rule.pattern [rule]) :
    ∃ child, node.child? rule = some child ∧ child ∈ node.childNodes ∧ child.rule = rule ∧
      grammar.Stems child := by
  rw [← pattern_eq unmocked] at holds
  obtain ⟨child, present, listed⟩ := formed.holds holds
  obtain ⟨first, here⟩ := Option.isSome_iff_exists.1 (isSome_child? present)
  rw [List.mem_singleton.1 listed] at here
  exact ⟨first, here, formed.stems_of_child? here⟩

/-- A definition of either kind has a reading. -/
theorem exists_ofDefinition
    (formed : grammar.Formed node)
    (opens : grammar.Opens node.rule.pattern (NamedHead names))
    (holds : grammar.Holds node.rule.pattern [.replacementList]) :
    ∃ definition, MacroDefinition.ofDefinition node = .ok definition := by
  obtain ⟨list, here, _⟩ := exists_child? unmocked formed holds
  rw [← pattern_eq unmocked] at opens
  obtain ⟨front, behind, equal, head⟩ := formed.opens opens
  obtain ⟨name, second⟩ := identifiers_of_namedHead equal head
  simp only [MacroDefinition.ofDefinition, second, here]
  exact ⟨_, rfl⟩

theorem exists_define
    (formed : grammar.Formed node)
    (isDefine : node.rule = .functionlikeMacroDefinition ∨ node.rule = .objectlikeMacroDefinition) :
    ∃ definition, MacroDefinition.ofDefinition node = .ok definition := by
  have head : grammar.Shaped .definitionHead (NamedHead ["define"]) := shaped_namedHead ["define"]
  have list : grammar.Holds (.rule .replacementList) [.replacementList] :=
    holds_rule rfl List.mem_cons_self
  rcases isDefine with isDefine | isDefine
  · apply exists_ofDefinition unmocked formed
    · rw [isDefine]
      exact head.opens.append.append.append.append.append.append.append.append
    · rw [isDefine]
      exact list.behind.append
  · apply exists_ofDefinition unmocked formed
    · rw [isDefine]
      exact head.opens.append.append.append.append
    · rw [isDefine]
      exact list.behind.append

/-- A definition line has a reading. -/
theorem exists_ofNode_defineLine
    (formed : grammar.Formed node)
    (isDefine : node.rule = .defineLine) :
    ∃ definition, MacroDefinition.ofNode node = .ok definition := by
  obtain ⟨definition, children, _, kind, stems⟩ := exists_definition unmocked formed isDefine
  have found : (node.child? .functionlikeMacroDefinition).or
      (node.child? .objectlikeMacroDefinition) = some definition := by
    rcases kind with kind | kind <;> simp [Node.child?, children, kind]
  simp only [MacroDefinition.ofNode, isDefine, found]
  exact exists_define unmocked stems.formed kind

/-- An import has a reading. -/
theorem exists_importOfNode
    (formed : grammar.Formed node)
    (quoted : node.Quoted)
    (isImport : node.rule = .ppImport) :
    ∃ declaration, Directive.importOfNode node = .ok declaration := by
  have holds : grammar.Holds (grammar.pattern node.rule)
      [.includeBodyBracketed, .includeBodyQuoted, .moduleName] := by
    rw [pattern_eq unmocked, isImport]
    refine (Holds.behind (Holds.orElse ?_ ?_)).append
    · exact (Holds.orElse (holds_rule rfl (by simp)) (holds_rule rfl (by simp))).append
    · exact (holds_rule rfl (by simp)).behind.append.append
  obtain ⟨child, present, listed⟩ := formed.holds holds
  unfold Directive.importOfNode
  cases found : (node.child? .includeBodyBracketed).or (node.child? .includeBodyQuoted) with
  | some header =>
      obtain ⟨body, read⟩ : ∃ body, IncludeBody.ofNode header = .ok body := by
        rw [Option.or_eq_some_iff] at found
        rcases found with found | ⟨_, found⟩
        · obtain ⟨below, rule, stems⟩ := formed.stems_of_child? found
          simp only [IncludeBody.ofNode, rule]
          exact exists_ofForm unmocked stems (quoted.child below) (by simp [rule])
        · obtain ⟨below, rule, stems⟩ := formed.stems_of_child? found
          simp only [IncludeBody.ofNode, rule]
          exact exists_ofForm unmocked stems (quoted.child below) (by simp [rule])
      simp only [read]
      exact ⟨_, rfl⟩
  | none =>
      rw [Option.or_eq_none_iff] at found
      have here := isSome_child? present
      simp only [List.mem_cons, List.not_mem_nil, or_false] at listed
      rcases listed with rule | rule | rule
      · simp [rule, found] at here
      · simp [rule, found] at here
      · rw [rule] at here
        obtain ⟨name, named⟩ := Option.isSome_iff_exists.1 here
        simp only [named]
        exact ⟨_, rfl⟩

/-- An inclusion has a reading that tells its two names apart. -/
theorem exists_ofLine_includeLine
    (formed : grammar.Formed node)
    (quoted : node.Quoted)
    (isInclude : node.rule = .includeLine) :
    ∃ directive, Directive.ofLine node = .ok directive ∧
      node.lineName? = some directive.name := by
  have holds : grammar.Holds node.rule.pattern [.includeBody] := by
    rw [isInclude]
    exact (holds_rule rfl List.mem_cons_self).behind.append
  obtain ⟨body, here, below, isBody, stems⟩ := exists_child? unmocked formed holds
  obtain ⟨inclusion, read⟩ := exists_ofNode_includeBody unmocked stems (quoted.child below) isBody
  have opens : grammar.Opens node.rule.pattern (Head node.rule.directiveNames) :=
    opens_directiveNames (by simp [isInclude, Rule.directiveNames]) (by simp [isInclude])
  obtain ⟨name, listed, spelled, isNamed⟩ :=
    lineName?_of_opens unmocked formed opens (by simp [isInclude])
  have either : name = "include" ∨ name = "include_next" := by
    simpa [isInclude, Rule.directiveNames] using listed
  refine ⟨.inclusion (Directive.isNamed node "include_next") inclusion, ?_, ?_⟩
  · simp only [Directive.ofLine, isInclude, here, read]
    rfl
  · rw [spelled, Directive.name, isNamed]
    rcases either with rfl | rfl <;> rfl

/-- A test for a definition has a reading that tells its two names apart. -/
theorem exists_ofLine_ifdefLine
    (formed : grammar.Formed node)
    (isTest : node.rule = .ifdefLine) :
    ∃ directive, Directive.ofLine node = .ok directive ∧
      node.lineName? = some directive.name := by
  have named : grammar.Opens node.rule.pattern (NamedHead ["ifdef", "ifndef"]) := by
    rw [isTest]
    exact (shaped_namedHead _).opens.append
  obtain ⟨macroName, operand⟩ := exists_operand unmocked formed named
  have opens : grammar.Opens node.rule.pattern (Head node.rule.directiveNames) :=
    opens_directiveNames (by simp [isTest, Rule.directiveNames]) (by simp [isTest])
  obtain ⟨name, listed, spelled, isNamed⟩ :=
    lineName?_of_opens unmocked formed opens (by simp [isTest])
  have either : name = "ifdef" ∨ name = "ifndef" := by
    simpa [isTest, Rule.directiveNames] using listed
  refine ⟨.ifDefined macroName (Directive.isNamed node "ifndef"), ?_, ?_⟩
  · simp only [Directive.ofLine, isTest, operand]
    rfl
  · rw [spelled, Directive.name, isNamed]
    rcases either with rfl | rfl <;> rfl

/-- A condition is found on its line. -/
theorem exists_condition
    (formed : grammar.Formed node)
    (isTest : node.rule = .ifLine ∨ node.rule = .elifLine) :
    ∃ condition, node.child? .constantExpression = some condition := by
  have condition : grammar.Holds (.rule .constantExpression) [.constantExpression] :=
    holds_rule rfl List.mem_cons_self
  have holds : grammar.Holds node.rule.pattern [.constantExpression] := by
    rcases isTest with isTest | isTest
    · rw [isTest]
      exact condition.behind.append
    · rw [isTest]
      exact condition.behind.append
  obtain ⟨found, here, _⟩ := exists_child? unmocked formed holds
  exact ⟨found, here⟩

/-- Every line has a reading, and the directive goes by the name on the line. -/
theorem exists_ofLine
    (formed : grammar.Formed node)
    (quoted : node.Quoted)
    (listed : node.rule ∈ directiveRules) :
    ∃ directive, Directive.ofLine node = .ok directive ∧
      node.lineName? = some directive.name := by
  -- Most rules have one name, so that it is enough to read the line.
  have single (directive : Directive) (read : Directive.ofLine node = .ok directive)
      (names : node.rule.directiveNames = [directive.name]) (notDefine : node.rule ≠ .defineLine) :
      ∃ directive, Directive.ofLine node = .ok directive ∧
        node.lineName? = some directive.name :=
    ⟨directive, read, lineName?_eq_some unmocked formed names notDefine⟩
  simp only [directiveRules, lineRules, List.mem_cons, List.not_mem_nil, or_false] at listed
  rcases listed with rule | rule | rule | rule | rule | rule | rule | rule | rule | rule | rule |
    rule | rule | rule | rule | rule | rule
  · -- A definition with parameters.
    obtain ⟨definition, read⟩ := exists_define unmocked formed (.inl rule)
    refine ⟨.define definition, ?_, lineName?_of_define unmocked formed (.inl rule)⟩
    simp only [Directive.ofLine, MacroDefinition.ofNode, rule, read]
    rfl
  · -- A definition without parameters.
    obtain ⟨definition, read⟩ := exists_define unmocked formed (.inr rule)
    refine ⟨.define definition, ?_, lineName?_of_define unmocked formed (.inr rule)⟩
    simp only [Directive.ofLine, MacroDefinition.ofNode, rule, read]
    rfl
  · obtain ⟨definition, read⟩ := exists_ofNode_defineLine unmocked formed rule
    refine ⟨.define definition, ?_, lineName?_of_defineLine unmocked formed rule⟩
    simp only [Directive.ofLine, rule, read]
    rfl
  · exact exists_ofLine_includeLine unmocked formed quoted rule
  · obtain ⟨declaration, read⟩ := exists_importOfNode unmocked formed quoted rule
    refine ⟨.importing declaration, ?_, ?_⟩
    · simp only [Directive.ofLine, rule, read]
      rfl
    · refine lineName?_of_wordHead unmocked formed ?_ (by simp [Directive.name]) (by simp [rule])
      rw [rule]
      exact opens_ppImport
  · refine ⟨.moduleUnit (Directive.moduleOfNode node), ?_, ?_⟩
    · simp only [Directive.ofLine, rule]
    · refine lineName?_of_wordHead unmocked formed ?_ (by simp [Directive.name]) (by simp [rule])
      rw [rule]
      exact opens_ppModule
  · obtain ⟨condition, here⟩ := exists_condition unmocked formed (.inl rule)
    refine single (.ifTrue condition) ?_ (by rw [rule]; rfl) (by simp [rule])
    simp [Directive.ofLine, rule, here]
  · exact exists_ofLine_ifdefLine unmocked formed rule
  · obtain ⟨condition, here⟩ := exists_condition unmocked formed (.inr rule)
    refine single (.elifTrue condition) ?_ (by rw [rule]; rfl) (by simp [rule])
    simp [Directive.ofLine, rule, here]
  · exact single .otherwise (by simp [Directive.ofLine, rule]) (by rw [rule]; rfl) (by simp [rule])
  · exact single .endIf (by simp [Directive.ofLine, rule]) (by rw [rule]; rfl) (by simp [rule])
  · have named : grammar.Opens node.rule.pattern (NamedHead ["undef"]) := by
      rw [rule]
      exact (shaped_namedHead _).opens.append
    obtain ⟨name, operand⟩ := exists_operand unmocked formed named
    refine single (.undefine name) ?_ (by rw [rule]; rfl) (by simp [rule])
    simp only [Directive.ofLine, rule, operand]
    rfl
  · refine single (.line (Directive.tokensBehind node 2)) ?_ (by rw [rule]; rfl) (by simp [rule])
    simp only [Directive.ofLine, rule]
  · refine single (.error (Directive.message node)) ?_ (by rw [rule]; rfl) (by simp [rule])
    simp only [Directive.ofLine, rule]
  · refine single (.pragma (Directive.tokensBehind node 2)) ?_ (by rw [rule]; rfl) (by simp [rule])
    simp only [Directive.ofLine, rule]
  · refine single (.warning (Directive.message node)) ?_ (by rw [rule]; rfl) (by simp [rule])
    simp only [Directive.ofLine, rule]
  · refine ⟨.misc (Directive.tokensBehind node 1), ?_, ?_⟩
    · simp only [Directive.ofLine, rule]
    · rw [Node.lineName?, if_pos rule]
      rfl

end Unmocked

end Grammar
end PreprocessorSyntax
