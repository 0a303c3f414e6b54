import PreprocessorSyntax.Proofs.Directive.Readings
import PreprocessorSyntax.Proofs.Grammar.Coverage
import PreprocessorSyntax.Proofs.Lexer.Spelling

/-!
# Every tree of a directive has a reading

Whatever the grammar accepts as a directive line, `Directive.ofNode` can read,
and the directive goes by the name that stands on the line.  So the only fault
of a scan is a comment that is not closed.
-/

namespace PreprocessorSyntax

/-- What stands between two quotation marks can be taken out of them. -/
theorem IncludeBody.isSome_unquote?
    {text : String}
    {body : List Char}
    (quoted : text.toList = '"' :: (body ++ ['"'])) :
    (unquote? text).isSome = true := by
  simp [unquote?, quoted]

namespace Grammar

variable {grammar : Grammar} {rule : Rule} {source : String} {file : FileId} {line : UInt32}
variable {tokens : List Token} {node root : Node}

/-- The string literals in a tree are those of the text. -/
theorem quoted_of_parseTokens
    (lexed : tokenize source file line = .ok tokens)
    (parsed : grammar.parseTokens rule tokens = some root) :
    root.Quoted := by
  intro token present isString
  rw [(tokens_of_parseTokens parsed).2] at present
  have listed : token ∈ tokens := (List.takeWhile_sublist _).mem present
  obtain ⟨body, quoted⟩ := (Lexer.yields_of_tokens _ lexed).exists_of_string listed isString
  exact IncludeBody.isSome_unquote? quoted

/-- The root of a parse is a node as the grammar builds them. -/
theorem formed_of_parseTokens
    (keeps : rule.collapses = false)
    (parsed : grammar.parseTokens rule tokens = some root) :
    grammar.Formed root := by
  obtain ⟨node, after, trailing, reading, -, rfl, -⟩ := exists_of_rootOf? parsed
  have derived := derives_of_readRule grammar.maxDepth (Prod.ext reading rfl)
  obtain ⟨inner, single, isRule, cursor, last, body⟩ := exists_of_derives_rule keeps derived
  obtain rfl : node = inner := Node.toTree_injective (List.singleton_inj.1 single)
  subst isRule
  rw [if_pos rfl]
  exact ⟨cursor, node.children, last, _, trailing, body,
    fun token => Cursor.isTrivia_of_mem_trivia, rfl⟩

/-- A node with the rule of a directive has a reading, whether it wraps a line or is one. -/
theorem exists_ofNode
    (unmocked : grammar.mocked = [])
    (formed : grammar.Formed node)
    (quoted : node.Quoted)
    (listed : node.rule ∈ .preprocessorLine :: directiveRules) :
    ∃ directive, Directive.ofNode node = .ok directive ∧
      node.directiveName? = some directive.name := by
  rcases List.mem_cons.1 listed with isWrapper | isLine
  · have choice : grammar.pattern node.rule = .preprocessorLine := by
      rw [pattern_eq unmocked, isWrapper]
      rfl
    obtain ⟨child, children, _, listedChild, stems⟩ := formed.exists_child (by decide) choice
    have below : child ∈ node.childNodes := by simp [children]
    have isLine : child.rule ∈ directiveRules :=
      List.mem_cons_of_mem _ (List.mem_cons_of_mem _ listedChild)
    obtain ⟨directive, read, named⟩ :=
      exists_ofLine unmocked stems.formed (quoted.child below) isLine
    refine ⟨directive, ?_, ?_⟩
    · simp only [Directive.ofNode, isWrapper, children, read]
    · rw [Node.directiveName?, if_pos isWrapper, children]
      exact named
  · have notWrapper : node.rule ≠ .preprocessorLine := by
      intro isWrapper
      rw [isWrapper] at isLine
      exact absurd isLine (by decide)
    obtain ⟨directive, read, named⟩ := exists_ofLine unmocked formed quoted isLine
    refine ⟨directive, ?_, ?_⟩
    · unfold Directive.ofNode
      split
      next isWrapper => exact absurd isWrapper notWrapper
      next => exact read
    · rw [Node.directiveName?, if_neg notWrapper, named]

/-- What is read from a text as a directive has a reading. -/
theorem exists_ofNode_of_parseTokens
    (unmocked : grammar.mocked = [])
    (listed : rule ∈ .preprocessorLine :: directiveRules)
    (lexed : tokenize source file line = .ok tokens)
    (parsed : grammar.parseTokens rule tokens = some root) :
    ∃ directive, Directive.ofNode root = .ok directive ∧
      root.directiveName? = some directive.name := by
  have keeps : ∀ rule ∈ Rule.preprocessorLine :: directiveRules, rule.collapses = false := by
    decide
  apply exists_ofNode unmocked (formed_of_parseTokens (keeps rule listed) parsed)
  · exact quoted_of_parseTokens lexed parsed
  · rwa [(tokens_of_parseTokens parsed).1]

/-- A line at which a scan ends has a comment that is not closed. -/
theorem exists_of_scanLine_eq_error
    (unmocked : grammar.mocked = [])
    {line : LogicalLine}
    {fault : Fault}
    (failed : scanLine grammar file line = .error fault) :
    ∃ location, fault = .unterminatedComment location := by
  unfold scanLine at failed
  split at failed
  next =>
    split at failed
    next opening _ =>
      cases failed
      exact ⟨opening.location, rfl⟩
    next tokens lexed =>
      split at failed
      next => cases failed
      next root parsed =>
        obtain ⟨directive, read, _⟩ :=
          exists_ofNode_of_parseTokens unmocked List.mem_cons_self lexed parsed
        simp only [read] at failed
        cases failed
  next => cases failed

theorem exists_of_scanLines_eq_error
    (unmocked : grammar.mocked = [])
    {lines : List LogicalLine}
    {fault : Fault}
    (failed : scanLines grammar file lines = .error fault) :
    ∃ location, fault = .unterminatedComment location := by
  induction lines with
  | nil => cases failed
  | cons line lines inductionHypothesis =>
      unfold scanLines at failed
      split at failed
      next here =>
        cases failed
        exact exists_of_scanLine_eq_error unmocked here
      next found _ =>
        cases later : scanLines grammar file lines with
        | error last =>
            rw [later] at failed
            cases failed
            exact inductionHypothesis later
        | ok directives =>
            rw [later] at failed
            cases failed

/--
Every tree that the grammar makes of a text by one of the rules for directives
has a reading, and the directive goes by the name that stands on its line.  So a
scan ends early only at a comment that is not closed.
-/
theorem exists_ofNode_of_parse
    {grammar : Grammar}
    (unmocked : grammar.mocked = []) :
    (∀ rule ∈ Rule.preprocessorLine :: directiveRules, ∀ source file line node,
      grammar.parse rule source file line = .ok node →
        ∃ directive, Directive.ofNode node = .ok directive ∧
          node.directiveName? = some directive.name) ∧
      ∀ source file fault, scanSource grammar source file = .error fault →
        ∃ location, fault = .unterminatedComment location := by
  refine ⟨?_, ?_⟩
  · intro rule listed source file line node parsed
    obtain ⟨tokens, lexed, found⟩ := parseTokens_of_parse parsed
    exact exists_ofNode_of_parseTokens unmocked listed lexed found
  · intro source file fault failed
    exact exists_of_scanLines_eq_error unmocked failed

/-- The second name for inclusions is told from the first, and a comment can stay open. -/
theorem exists_ofNode_of_parse_include_next :
    (∃ node directive,
      standard.parse .preprocessorLine "/**/# include_next \"a\"//\n" 0 1 = .ok node ∧
        Directive.ofNode node = .ok directive ∧ node.directiveName? = some directive.name ∧
        directive.name = "include_next") ∧
      ∃ fault location, scanSource standard "#if A\n#else /*\n" 0 = .error fault ∧
        fault = .unterminatedComment location := by
  have unmocked : standard.mocked = [] := rfl
  obtain ⟨total, scans⟩ := exists_ofNode_of_parse unmocked
  refine ⟨?_, ?_⟩
  · have spelled :
        (standard.parse .preprocessorLine "/**/# include_next \"a\"//\n" 0 1).toOption.bind
          Node.directiveName? = some "include_next" := by
      decide +kernel
    cases parsed : standard.parse .preprocessorLine "/**/# include_next \"a\"//\n" 0 1 with
    | error fault =>
        rw [parsed] at spelled
        cases spelled
    | ok node =>
        rw [parsed] at spelled
        have same : node.directiveName? = some "include_next" := spelled
        obtain ⟨directive, read, named⟩ := total _ (by decide) _ _ _ node parsed
        exact ⟨node, directive, rfl, read, named, Option.some.inj (named.symm.trans same)⟩
  · cases scanned : scanSource standard "#if A\n#else /*\n" 0 with
    | ok directives =>
        have failed : (scanSource standard "#if A\n#else /*\n" 0).isOk = false := by decide +kernel
        simp [scanned, Except.isOk, Except.toBool] at failed
    | error fault =>
        obtain ⟨location, comment⟩ := scans _ _ fault scanned
        exact ⟨fault, location, rfl, comment⟩

end Grammar
end PreprocessorSyntax
