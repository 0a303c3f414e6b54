import PreprocessorSyntax.Proofs.Directive.Shapes

/-!
# Names of lines

The directive on a line has a name: the word behind the number sign or, where
there is none, the word for an import or a module.  In every node that the
grammar makes of a line, that word is one of those that the rule of the line
asks for.
-/

namespace PreprocessorSyntax

/--
The token behind the number sign or behind the keyword for exports, or the first
token if that is neither of them.
-/
def keywordOf? : List Token → Option Token
  | [] => none
  | first :: others =>
    if first.isPunctuator .hash || first.isWord "export" then others.head? else some first

/-- The keyword of the directive on a line. -/
def Node.keyword? (line : Node) : Option Token :=
  keywordOf? (line.tokens.filter Token.isContent)

/-- The name on a line; lines of no known kind share one name. -/
def Node.lineName? (line : Node) : Option String :=
  if line.rule = .miscLine then some "misc" else line.keyword?.map Token.text

/-- The name on the line that a node wraps or is. -/
def Node.directiveName? (node : Node) : Option String :=
  if node.rule = .preprocessorLine then node.childNodes.head?.bind Node.lineName?
  else node.lineName?

/-- The rules for lines and the two kinds of definitions that a line can hold. -/
def directiveRules : List Rule :=
  .functionlikeMacroDefinition :: .objectlikeMacroDefinition :: lineRules

namespace Grammar

variable {grammar : Grammar} {node : Node} {front behind : List Tree} {names : List String}

/-- Behind the number sign stands the keyword. -/
theorem keyword?_of_head
    (equal : significantTrees node.children = front ++ behind)
    (head : Head names front) :
    ∃ word, node.keyword? = some word ∧ node.identifiers.head? = some word ∧
      word.text ∈ names := by
  obtain ⟨hash, word, rfl, isHash, isName, listed⟩ := head
  have hashContent := Token.isContent_of_isPunctuator isHash
  have wordContent := Token.isContent_of_isIdentifier isName
  refine ⟨word, ?_, ?_, listed⟩
  · rw [Node.keyword?, filter_isContent_tokens, equal]
    simp [keywordOf?, hashContent, wordContent, isHash]
  · rw [Node.identifiers, childTokens_eq, equal]
    simp [Tree.token?, Token.isIdentifier, Token.kind_of_isPunctuator isHash,
      Token.kind_of_isIdentifier isName]

/-- Behind the keyword stands the name of a macro. -/
theorem identifiers_of_namedHead
    (equal : significantTrees node.children = front ++ behind)
    (head : NamedHead names front) :
    ∃ name, node.identifiers[1]? = some name := by
  obtain ⟨_, name, rfl, ⟨hash, word, rfl, isHash, isName, _⟩, isNameToo⟩ := head
  refine ⟨name, ?_⟩
  rw [Node.identifiers, childTokens_eq, equal]
  simp [Tree.token?, Token.isIdentifier, Token.kind_of_isPunctuator isHash,
    Token.kind_of_isIdentifier isName, Token.kind_of_isIdentifier isNameToo]

theorem keyword?_of_wordHead
    {word : String}
    (notExport : word ≠ "export")
    (equal : significantTrees node.children = front ++ behind)
    (head : WordHead word front) :
    ∃ found, node.keyword? = some found ∧ found.text = word := by
  obtain ⟨found, isWord, shape⟩ := head
  have spelled : found.isIdentifier = true ∧ found.text = word := by
    simpa [Token.isWord] using isWord
  have foundContent := Token.isContent_of_isIdentifier spelled.1
  refine ⟨found, ?_, spelled.2⟩
  rw [Node.keyword?, filter_isContent_tokens, equal]
  rcases shape with rfl | ⟨keyword, isKeyword, rfl⟩
  · have notHash : found.isPunctuator .hash = false := by
      simp [Token.isPunctuator, Token.kind_of_isIdentifier spelled.1]
    have otherWord : found.isWord "export" = false := by
      simp [Token.isWord, spelled.2, notExport]
    simp [keywordOf?, foundContent, notHash, otherWord]
  · have keywordContent : keyword.isContent = true :=
      Token.isContent_of_isIdentifier (Bool.and_eq_true_iff.1 isKeyword).1
    simp [keywordOf?, keywordContent, foundContent, isKeyword]

/-- What stands behind the keyword makes no difference. -/
theorem keyword?_of_append
    {inner : Node}
    {more : List Token}
    (equal : node.tokens.filter Token.isContent = inner.tokens.filter Token.isContent ++ more)
    {word : Token}
    (here : inner.keyword? = some word) :
    node.keyword? = some word := by
  rw [Node.keyword?, equal]
  rw [Node.keyword?] at here
  cases content : inner.tokens.filter Token.isContent with
  | nil =>
      rw [content] at here
      cases here
  | cons first others =>
      rw [content, keywordOf?] at here
      rw [List.cons_append, keywordOf?]
      split at here
      next known =>
        rw [if_pos known, List.head?_append, here]
        rfl
      next unknown => rwa [if_neg unknown]

/--
A node holds a derivation of what its rule accepts.  The root of a parse has
more leaves around it, those in front of it white space and comments.
-/
def Formed (grammar : Grammar) (node : Node) : Prop :=
  ∃ cursor children after, ∃ leading trailing : List Token,
    grammar.Derives (grammar.pattern node.rule) cursor children after ∧
    (∀ token ∈ leading, token.isTrivia = true) ∧
    node.children = leading.map .leaf ++ children ++ trailing.map .leaf

theorem Stems.formed (stems : grammar.Stems node) : grammar.Formed node := by
  obtain ⟨cursor, after, derived⟩ := stems
  exact ⟨cursor, node.children, after, [], [], derived, by simp, by simp⟩

namespace Formed

variable (formed : grammar.Formed node)
include formed

theorem opens
    {shape : List Tree → Prop}
    (opens : grammar.Opens (grammar.pattern node.rule) shape) :
    ∃ front behind, significantTrees node.children = front ++ behind ∧ shape front := by
  obtain ⟨cursor, children, after, leading, trailing, derived, trivial, equal⟩ := formed
  obtain ⟨front, behind, opened, shaped⟩ := opens _ _ _ derived
  refine ⟨front, behind ++ significantTrees (trailing.map .leaf), ?_, shaped⟩
  rw [equal, significantTrees_append, significantTrees_append, significantTrees_of_isTrivia trivial,
    opened, List.nil_append, List.append_assoc]

theorem holds
    {rules : List Rule}
    (holds : grammar.Holds (grammar.pattern node.rule) rules) :
    ∃ child ∈ node.childNodes, child.rule ∈ rules := by
  obtain ⟨cursor, children, after, leading, trailing, derived, _, equal⟩ := formed
  obtain ⟨rule, listed, grandchildren, present⟩ := holds _ _ _ derived
  refine ⟨⟨rule, grandchildren⟩, ?_, listed⟩
  rw [Node.childNodes, List.mem_filterMap]
  exact ⟨.node rule grandchildren, by simp [equal, present], rfl⟩

theorem stems {child : Node} (present : child ∈ node.childNodes) : grammar.Stems child := by
  obtain ⟨cursor, children, after, leading, trailing, derived, _, equal⟩ := formed
  obtain ⟨tree, listed, isChild⟩ := List.mem_filterMap.1 present
  cases tree with
  | leaf token => cases isChild
  | node rule grandchildren =>
      cases isChild
      have below : Tree.node rule grandchildren ∈ children := by simpa [equal] using listed
      exact derived.stems below

/-- A node that stands for a choice between rules wraps a node of one of them. -/
theorem exists_child
    {preferred : Rule}
    {others : List Rule}
    (keep : ∀ rule ∈ preferred :: others, rule.collapses = false)
    (choice : grammar.pattern node.rule = .firstOf preferred others) :
    ∃ child, node.childNodes = [child] ∧
      (∃ more, node.tokens.filter Token.isContent =
        child.tokens.filter Token.isContent ++ more) ∧
      child.rule ∈ preferred :: others ∧
      grammar.Stems child := by
  obtain ⟨cursor, children, after, leading, trailing, derived, trivial, equal⟩ := formed
  rw [choice] at derived
  obtain ⟨child, rfl, listed, stems⟩ := exists_of_derives_firstOf keep derived
  refine ⟨child, ?_, ⟨trailing.filter Token.isContent, ?_⟩, listed, stems⟩
  · rw [Node.childNodes, equal, filterMap_node?_between]
    rfl
  · have silent : leading.filter Token.isContent = [] := by
      rw [List.filter_eq_nil_iff]
      intro token present
      simp [Token.isContent, trivial token present]
    simp [Node.tokens, Node.toTree, equal, silent]

end Formed

section Unmocked

variable (unmocked : grammar.mocked = [])
include unmocked

/-- The name on a line with a number sign. -/
theorem lineName?_of_opens
    (formed : grammar.Formed node)
    (opens : grammar.Opens node.rule.pattern (Head names))
    (known : node.rule ≠ .miscLine) :
    ∃ name ∈ names, node.lineName? = some name ∧
      ∀ spelling, Directive.isNamed node spelling = (name == spelling) := by
  rw [← pattern_eq unmocked] at opens
  obtain ⟨front, behind, equal, head⟩ := formed.opens opens
  obtain ⟨word, keyword, first, listed⟩ := keyword?_of_head equal head
  refine ⟨word.text, listed, ?_, fun spelling => ?_⟩
  · rw [Node.lineName?, if_neg known, keyword]
    rfl
  · rw [Directive.isNamed, first]
    rfl

omit unmocked in
/-- The lines other than definitions begin with one of their names. -/
theorem opens_directiveNames
    {rule : Rule}
    (named : rule.directiveNames ≠ [])
    (notDefine : rule ≠ .defineLine) :
    grammar.Opens rule.pattern (Head rule.directiveNames) := by
  have headed (names : List String) : grammar.Opens (.directiveHead names) (Head names) :=
    (shaped_directiveHead names).opens
  have free (name : String) : grammar.Opens (.freeLine name) (Head [name]) := (headed [name]).append
  have condition (name : String) : grammar.Opens (.conditionLine name) (Head [name]) :=
    (headed [name]).append.append.append
  have operand (names : List String) : grammar.Opens (.nameLine names) (Head names) :=
    (headed names).append.append.append
  cases rule
  case includeLine => exact (headed ["include", "include_next"]).append.append.append
  case lineLine => exact (headed ["line"]).append.append.append
  case ifLine => exact condition "if"
  case elifLine => exact condition "elif"
  case ifdefLine => exact operand ["ifdef", "ifndef"]
  case undefLine => exact operand ["undef"]
  case elseLine => exact free "else"
  case endifLine => exact free "endif"
  case errorLine => exact free "error"
  case pragmaLine => exact free "pragma"
  case warningLine => exact free "warning"
  case defineLine => exact absurd rfl notDefine
  all_goals exact absurd rfl named

/-- A line that can have only one name has it. -/
theorem lineName?_eq_some
    (formed : grammar.Formed node)
    {name : String}
    (single : node.rule.directiveNames = [name])
    (notDefine : node.rule ≠ .defineLine) :
    node.lineName? = some name := by
  have opens : grammar.Opens node.rule.pattern (Head node.rule.directiveNames) :=
    opens_directiveNames (by simp [single]) notDefine
  have known : node.rule ≠ .miscLine := by
    intro misc
    rw [misc] at single
    cases single
  obtain ⟨found, listed, here, _⟩ := lineName?_of_opens unmocked formed opens known
  rw [single, List.mem_singleton] at listed
  rw [here, listed]

/-- Definitions begin with their name, too. -/
theorem lineName?_of_define
    (formed : grammar.Formed node)
    (isDefine : node.rule = .functionlikeMacroDefinition ∨ node.rule = .objectlikeMacroDefinition) :
    node.lineName? = some "define" := by
  have head : grammar.Opens (.directiveHead ["define"]) (Head ["define"]) :=
    (shaped_directiveHead ["define"]).opens
  have named : grammar.Opens .definitionHead (Head ["define"]) := head.append.append
  have opens : grammar.Opens node.rule.pattern (Head ["define"]) := by
    rcases isDefine with isDefine | isDefine
    · rw [isDefine]
      exact named.append.append.append.append.append.append.append.append
    · rw [isDefine]
      exact named.append.append.append.append
  have known : node.rule ≠ .miscLine := by
    rcases isDefine with isDefine | isDefine <;> simp [isDefine]
  obtain ⟨found, listed, here, _⟩ := lineName?_of_opens unmocked formed opens known
  rw [here, List.mem_singleton.1 listed]

/-- A definition line wraps a definition of one of the two kinds. -/
theorem exists_definition
    (formed : grammar.Formed node)
    (isDefine : node.rule = .defineLine) :
    ∃ definition, node.childNodes = [definition] ∧
      (∃ more, node.tokens.filter Token.isContent =
        definition.tokens.filter Token.isContent ++ more) ∧
      (definition.rule = .functionlikeMacroDefinition ∨
        definition.rule = .objectlikeMacroDefinition) ∧
      grammar.Stems definition := by
  have rule : grammar.pattern node.rule =
      .firstOf .functionlikeMacroDefinition [.objectlikeMacroDefinition] := by
    rw [pattern_eq unmocked, isDefine]
    rfl
  obtain ⟨definition, children, tokens, listed, stems⟩ := formed.exists_child (by decide) rule
  exact ⟨definition, children, tokens, by simpa using listed, stems⟩

/-- So do the lines that wrap them. -/
theorem lineName?_of_defineLine
    (formed : grammar.Formed node)
    (isDefine : node.rule = .defineLine) :
    node.lineName? = some "define" := by
  obtain ⟨definition, _, ⟨more, equal⟩, kind, stems⟩ := exists_definition unmocked formed isDefine
  have known : definition.rule ≠ .miscLine := by
    rcases kind with kind | kind <;> simp [kind]
  have inner := lineName?_of_define unmocked stems.formed kind
  rw [Node.lineName?, if_neg known, Option.map_eq_some_iff] at inner
  obtain ⟨word, keyword, spelled⟩ := inner
  rw [Node.lineName?, if_neg (by simp [isDefine]), keyword?_of_append equal keyword,
    Option.map_some, spelled]

/-- Imports and modules go by their keywords. -/
theorem lineName?_of_wordHead
    (formed : grammar.Formed node)
    {word : String}
    (opens : grammar.Opens node.rule.pattern (WordHead word))
    (notExport : word ≠ "export")
    (known : node.rule ≠ .miscLine) :
    node.lineName? = some word := by
  rw [← pattern_eq unmocked] at opens
  obtain ⟨front, behind, equal, head⟩ := formed.opens opens
  obtain ⟨found, keyword, spelled⟩ := keyword?_of_wordHead notExport equal head
  rw [Node.lineName?, if_neg known, keyword, Option.map_some, spelled]

end Unmocked

end Grammar
end PreprocessorSyntax
