import PreprocessorSyntax.Proofs.Grammar.Starts
import PreprocessorSyntax.Proofs.Line.Alternatives
import PreprocessorSyntax.Proofs.MacroDefinition.Segments

/-!
# Which operators a macro has

The nodes below a definition are read by the rules that its pattern calls, with
one level of nesting less at each step.  So the replacement list of a definition
either has been read with levels enough, and is cut into the elements that its
tokens write, or it has been given a single level and is empty.  In either case
the tokens that replace a macro tell whether it stringizes and whether it pastes.
-/

namespace PreprocessorSyntax

/-- The nodes directly below a node are among its children. -/
theorem Node.toTree_mem_children
    {node child : Node}
    (present : child ∈ node.childNodes) :
    child.toTree ∈ node.children := by
  obtain ⟨tree, listed, same⟩ := List.mem_filterMap.1 present
  cases tree with
  | leaf token => cases same
  | node rule children =>
      cases same
      exact listed

namespace Grammar

variable {grammar : Grammar} {levels : Nat} {rule : Rule} {cursor after : Cursor}
variable {failures : Failures} {node child : Node}

theorem rule_of_nodeAt?
    (keeps : rule.collapses = false)
    (read : grammar.nodeAt? rule cursor = some (node, after)) :
    node.rule = rule := by
  rw [nodeAt?_eq, Option.map_eq_some_iff] at read
  obtain ⟨_, _, equal⟩ := read
  cases equal
  rw [build_eq keeps]

/-- A node directly below another one was read with one level less. -/
theorem exists_readRule_of_mem_childNodes
    (keeps : rule.collapses = false)
    (read : (grammar.readRule levels rule cursor failures).1 = some (node, after))
    (present : child ∈ node.childNodes) :
    ∃ below, levels = below + 1 ∧ ∃ called ∈ (grammar.pattern rule).calls,
      ∃ place memory behind,
        (grammar.readRule below called place memory).1 = some (child, behind) := by
  obtain ⟨below, children, rfl, _, body, rfl⟩ := exists_of_readRule (Prod.ext read rfl)
  rw [build_eq keeps] at present
  exact ⟨below, rfl,
    Pattern.exists_of_mem_read (by rw [body]) (Node.toTree_mem_children present)⟩

theorem exists_nodeAt?_of_mem_childNodes
    (keeps : rule.collapses = false)
    (read : grammar.nodeAt? rule cursor = some (node, after))
    (present : child ∈ node.childNodes) :
    ∃ called ∈ (grammar.pattern rule).calls, ∃ place behind,
      grammar.nodeAt? called place = some (child, behind) := by
  rw [nodeAt?_eq, Option.map_eq_some_iff] at read
  obtain ⟨⟨children, _⟩, body, equal⟩ := read
  cases equal
  rw [build_eq keeps] at present
  obtain ⟨called, mentioned, place, _, behind, reading⟩ :=
    Pattern.exists_of_mem_read body (Node.toTree_mem_children present)
  exact ⟨called, mentioned, place, behind, reading⟩

/-- A node has been read as without a limit on nesting, or else with few levels left. -/
def ReadWithin (grammar : Grammar) (few : Nat) (rule : Rule) (node : Node) : Prop :=
  (∃ cursor after, grammar.nodeAt? rule cursor = some (node, after)) ∨
    ∃ levels ≤ few, ∃ cursor failures after,
      (grammar.readRule levels rule cursor failures).1 = some (node, after)

namespace ReadWithin

variable {few : Nat}

/-- What stands directly below has been read in the same way, with fewer levels. -/
theorem of_childNodes
    (unmocked : grammar.mocked = [])
    (keeps : rule.collapses = false)
    (keepsBelow : ∀ called ∈ rule.pattern.calls, called.collapses = false)
    (within : grammar.ReadWithin (few + 1) rule node)
    (present : child ∈ node.childNodes) :
    grammar.ReadWithin few child.rule child := by
  rw [← pattern_eq unmocked] at keepsBelow
  rcases within with ⟨cursor, after, read⟩ | ⟨levels, fits, cursor, failures, after, read⟩
  · obtain ⟨called, mentioned, place, behind, reading⟩ :=
      exists_nodeAt?_of_mem_childNodes keeps read present
    rw [rule_of_nodeAt? (keepsBelow called mentioned) reading]
    exact .inl ⟨place, behind, reading⟩
  · obtain ⟨below, rfl, called, mentioned, place, memory, behind, reading⟩ :=
      exists_readRule_of_mem_childNodes keeps read present
    rw [rule_of_readRule (keepsBelow called mentioned) reading]
    exact .inr ⟨below, Nat.le_of_succ_le_succ fits, place, memory, behind, reading⟩

/-- If a rule nests only so far, one level less than it needs is few. -/
theorem of_parseTokens
    {tokens : List Token}
    {root : Node}
    (unmocked : grammar.mocked = [])
    (keeps : rule.collapses = false)
    (nests : rule.nestsWithin (few + 1) = true)
    (parsed : grammar.parseTokens rule tokens = some root) :
    ∃ node, root.childNodes = node.childNodes ∧ grammar.ReadWithin few rule node := by
  have childNodes_root (leading trailing : List Token) (node : Node) :
      (Node.mk rule (leading.map .leaf ++ node.children ++ trailing.map .leaf)).childNodes =
        node.childNodes :=
    filterMap_node?_between leading trailing node.children
  by_cases enough : few + 1 ≤ grammar.maxDepth
  · rw [parseTokens_of_nestsWithin unmocked nests enough] at parsed
    obtain ⟨node, after, trailing, reading, _, rfl, _⟩ := exists_of_rootOf? parsed
    rw [if_pos (rule_of_nodeAt? keeps reading)]
    exact ⟨node, childNodes_root _ _ node, .inl ⟨_, after, reading⟩⟩
  · obtain ⟨node, after, trailing, reading, _, rfl, _⟩ := exists_of_rootOf? parsed
    rw [if_pos (rule_of_readRule keeps reading)]
    exact ⟨node, childNodes_root _ _ node,
      .inr ⟨_, Nat.le_of_lt_succ (Nat.lt_of_not_le enough), _, _, after, reading⟩⟩

end ReadWithin

/-- No element starts with white space or a comment. -/
theorem fails_replacementElement_of_isTrivia
    {token : Token}
    {rest : List Token}
    (unmocked : grammar.mocked = [])
    (trivial : token.isTrivia = true) :
    grammar.Fails .replacementElement (token :: rest) := by
  have kind := Token.isPunctuator_of_isTrivia trivial
  have noName := Token.isIdentifier_of_isTrivia trivial
  have unprefixed : grammar.Reads (.optional .stringizingPrefix) [] [] ([] ++ token :: rest) :=
    (fails_token_cons (by rw [noName, Bool.false_and])).append.optional
  have noOperator : grammar.Fails (.rule .stringizing) (token :: rest) :=
    fails_node unmocked (unprefixed.append_fails (fails_token_cons (kind .hash))).append.append
  have noPasting : grammar.Fails (.rule .tokenPasting) (token :: rest) :=
    fails_node unmocked (fails_token_cons (kind .hashHash))
  have noToken : grammar.Fails (.rule .ppToken) (token :: rest) :=
    fails_node unmocked (fails_token_cons (isContent_eq_false_of_isTrivia trivial))
  have ahead : grammar.Reads (.ahead fun kind => !kind.isLineEnd) [] [] (token :: rest) := by
    apply reads_ahead
    have notEnd : token.kind.isLineEnd = false := isLineEnd_eq_false_of_isTrivia trivial
    rw [peekKind_cons (readable_of_isTrivia trivial), notEnd]
    rfl
  exact ahead.append_fails (noOperator.orElse (noPasting.orElse noToken))

/-- An empty list replaces a macro by nothing. -/
theorem replaces_nil : Replaces ⟨.replacementList, []⟩ [] := ⟨rfl, rfl, rfl⟩

/-- Without a limit on nesting, a replacement list is told by its own content. -/
theorem replaces_of_nodeAt?
    (unmocked : grammar.mocked = [])
    (read : grammar.nodeAt? .replacementList cursor = some (node, after)) :
    Replaces node node.significantTokens := by
  obtain ⟨position, rest⟩ := cursor
  rw [nodeAt?_eq, pattern_eq unmocked, Option.map_eq_some_iff] at read
  obtain ⟨⟨children, _⟩, body, equal⟩ := read
  cases equal
  rw [build_eq rfl]
  rw [← firstLine_append_behindFirstLine rest] at body
  have inLine := inLine_firstLine rest
  have ends := isLineEnd_behindFirstLine rest
  generalize firstLine rest = line at body inLine
  generalize behindFirstLine rest = behind at body ends
  by_cases blank : ∃ token more, line = token :: more ∧ token.isTrivia = true
  · obtain ⟨token, more, rfl, trivial⟩ := blank
    have nothing : grammar.Reads .replacementList [] [] (token :: (more ++ behind)) :=
      (fails_replacementElement_of_isTrivia unmocked trivial).append.optional
    obtain ⟨rfl, _⟩ := Prod.mk.inj (Option.some.inj (body.symm.trans (nothing position)))
    exact replaces_nil
  · have significant : Significant line := by
      intro token first
      obtain ⟨more, rfl⟩ := List.head?_eq_some_iff.1 first
      exact Bool.eq_false_iff.2 fun trivial => blank ⟨token, more, rfl, trivial⟩
    obtain ⟨core, blanks, trees, rfl, _, reads, replaces⟩ :=
      exists_reads_replacementList ends unmocked inLine significant
    have again := reads position
    rw [← List.append_assoc] at again
    obtain ⟨rfl, _⟩ := Prod.mk.inj (Option.some.inj (body.symm.trans again))
    rw [replaces.significantTokens]
    exact replaces

/-- With no level left for its elements, a replacement list is empty. -/
theorem children_eq_nil_of_readRule
    (unmocked : grammar.mocked = [])
    (few : levels ≤ 1)
    (read : (grammar.readRule levels .replacementList cursor failures).1 = some (node, after)) :
    node.children = [] := by
  obtain ⟨below, children, rfl, _, body, rfl⟩ := exists_of_readRule (Prod.ext read rfl)
  obtain rfl : below = 0 := by omega
  rw [build_eq rfl]
  rw [pattern_eq unmocked] at body
  have derived : grammar.Derives .replacementList cursor children after :=
    derives_of_read (derives_of_readRule 0) _ body
  cases derived with
  | alternative nothing =>
      cases nothing
      rfl
  | preferred chosen =>
      cases chosen with
      | sequence first _ =>
      cases first with
      | sequence _ element =>
          obtain ⟨inner, rfl, -⟩ := exists_of_derives_firstOf (by decide) element
          obtain ⟨called, _, place, memory, behind, found⟩ :=
            Pattern.exists_of_mem_read (by rw [body]) (show inner.toTree ∈ _ from by simp)
          obtain ⟨_, _, impossible, -⟩ := exists_of_readRule (Prod.ext found rfl)
          cases impossible

/-- With at most one level left, a replacement list is told by its own content. -/
theorem ReadWithin.replaces
    (unmocked : grammar.mocked = [])
    (within : grammar.ReadWithin 1 .replacementList node) :
    Replaces node node.significantTokens := by
  rcases within with ⟨cursor, after, read⟩ | ⟨levels, few, cursor, failures, after, read⟩
  · exact replaces_of_nodeAt? unmocked read
  · have empty : node = ⟨.replacementList, []⟩ := by
      rw [← rule_of_readRule rfl read, ← children_eq_nil_of_readRule unmocked few read]
    rw [empty]
    exact replaces_nil

/-- The replacement list of a definition is told by its own content. -/
theorem replaces_of_definition
    {definition list : Node}
    (unmocked : grammar.mocked = [])
    (listed : rule ∈ [Rule.functionlikeMacroDefinition, .objectlikeMacroDefinition])
    (within : grammar.ReadWithin 2 rule definition)
    (held : definition.child? .replacementList = some list) :
    Replaces list list.significantTokens := by
  have keeps : ∀ rule ∈ [Rule.functionlikeMacroDefinition, .objectlikeMacroDefinition],
      rule.collapses = false ∧ ∀ called ∈ rule.pattern.calls, called.collapses = false := by
    decide
  have below := within.of_childNodes unmocked (keeps rule listed).1 (keeps rule listed).2
    (List.mem_of_find?_eq_some held)
  have isList : list.rule = .replacementList := by
    simpa using List.find?_some held
  rw [isList] at below
  exact below.replaces unmocked

end Grammar

namespace MacroDefinition

variable {node : Node} {definition : MacroDefinition}

/-- What a definition says about the replacement is read off its list. -/
theorem exists_list_of_ofDefinition (read : ofDefinition node = .ok definition) :
    ∃ list, node.child? .replacementList = some list ∧
      definition.replacement = list.significantTokens ∧
      definition.hasStringizing = (list.child? .stringizing).isSome ∧
      definition.hasTokenPasting = (list.child? .tokenPasting).isSome := by
  unfold ofDefinition at read
  split at read
  next => cases read
  next =>
    split at read
    next => cases read
    next list held =>
      cases read
      exact ⟨list, held, rfl, rfl, rfl⟩

/-- A line is read off the definition in it. -/
theorem exists_of_ofNode_defineLine
    (isLine : node.rule = .defineLine)
    (read : ofNode node = .ok definition) :
    ∃ below ∈ node.childNodes,
      below.rule ∈ [Rule.functionlikeMacroDefinition, .objectlikeMacroDefinition] ∧
      ofDefinition below = .ok definition := by
  rw [ofNode, isLine] at read
  simp only at read
  split at read
  next below held =>
    have child {rule : Rule} (found : node.child? rule = some below) :
        below ∈ node.childNodes ∧ below.rule = rule :=
      ⟨List.mem_of_find?_eq_some found, by simpa using List.find?_some found⟩
    rcases Option.or_eq_some_iff.1 held with found | ⟨-, found⟩
    · obtain ⟨present, isFunction⟩ := child found
      exact ⟨below, present, by simp [isFunction], read⟩
    · obtain ⟨present, isObject⟩ := child found
      exact ⟨below, present, by simp [isObject], read⟩
  next => cases read

end MacroDefinition

/-- Some number sign has a name behind it. -/
theorem stringizes_iff {content : List Token} :
    stringizes content = true ↔
      ∃ front hash name behind, content = front ++ hash :: name :: behind ∧
        hash.isPunctuator .hash = true ∧ name.isIdentifier = true := by
  induction content with
  | nil => simp [stringizes]
  | cons token content inductionHypothesis =>
      rw [stringizes, Bool.or_eq_true, Bool.and_eq_true, inductionHypothesis]
      constructor
      · rintro (⟨isHash, named⟩ | ⟨front, hash, name, behind, rfl, isHash, isName⟩)
        · obtain ⟨name, first, isName⟩ := (Option.any_eq_true _ _).1 named
          obtain ⟨behind, rfl⟩ := List.head?_eq_some_iff.1 first
          exact ⟨[], token, name, behind, rfl, isHash, isName⟩
        · exact ⟨token :: front, hash, name, behind, rfl, isHash, isName⟩
      · rintro ⟨_ | ⟨first, front⟩, hash, name, behind, equal, isHash, isName⟩
        · obtain ⟨rfl, rfl⟩ := List.cons.inj equal
          exact .inl ⟨isHash, isName⟩
        · obtain ⟨rfl, rfl⟩ := List.cons.inj equal
          exact .inr ⟨front, hash, name, behind, rfl, isHash, isName⟩

namespace Grammar

variable {grammar : Grammar} {tokens : List Token}

/-- Whatever the limit on nesting is, the replacement of a macro tells its operators. -/
theorem operators_of_parseTokens
    {rule : Rule}
    {root : Node}
    {definition : MacroDefinition}
    (unmocked : grammar.mocked = [])
    (listed : rule ∈
      [Rule.defineLine, .functionlikeMacroDefinition, .objectlikeMacroDefinition])
    (parsed : grammar.parseTokens rule tokens = some root)
    (read : MacroDefinition.ofNode root = .ok definition) :
    definition.hasStringizing = stringizes definition.replacement ∧
      definition.hasTokenPasting =
        definition.replacement.any (Token.isPunctuator .hashHash) := by
  -- The definition is the root or the node in it, and has a list that is told by its content.
  have told {below node : Node} (listed : below.rule ∈
        [Rule.functionlikeMacroDefinition, .objectlikeMacroDefinition])
      (within : grammar.ReadWithin 2 below.rule node)
      (same : below.childNodes = node.childNodes)
      (read : MacroDefinition.ofDefinition below = .ok definition) :
      definition.hasStringizing = stringizes definition.replacement ∧
        definition.hasTokenPasting =
          definition.replacement.any (Token.isPunctuator .hashHash) := by
    obtain ⟨list, held, replacement, stringizing, pasting⟩ :=
      MacroDefinition.exists_list_of_ofDefinition read
    rw [Node.child?, same] at held
    have replaces := replaces_of_definition unmocked listed within held
    rw [replacement, stringizing, pasting]
    exact ⟨replaces.stringizing, replaces.tokenPasting⟩
  have isRoot := (tokens_of_parseTokens parsed).1
  have alone (isDefinition : rule ∈
      [Rule.functionlikeMacroDefinition, .objectlikeMacroDefinition]) :
      definition.hasStringizing = stringizes definition.replacement ∧
        definition.hasTokenPasting =
          definition.replacement.any (Token.isPunctuator .hashHash) := by
    have nests : ∀ rule ∈ [Rule.functionlikeMacroDefinition, .objectlikeMacroDefinition],
        rule.collapses = false ∧ rule.nestsWithin 3 = true := by decide
    obtain ⟨node, same, within⟩ := ReadWithin.of_parseTokens unmocked (nests rule isDefinition).1
      (nests rule isDefinition).2 parsed
    rw [← isRoot] at isDefinition within
    refine told isDefinition within same ?_
    rw [← read, MacroDefinition.ofNode]
    simp only [List.mem_cons, List.not_mem_nil, or_false] at isDefinition
    rcases isDefinition with isFunction | isObject
    · rw [isFunction]
    · rw [isObject]
  simp only [List.mem_cons, List.not_mem_nil, or_false] at listed
  rcases listed with rfl | rfl | rfl
  · obtain ⟨node, same, within⟩ := ReadWithin.of_parseTokens unmocked rfl
      (by decide : Rule.defineLine.nestsWithin (3 + 1) = true) parsed
    obtain ⟨below, present, isDefinition, readBelow⟩ :=
      MacroDefinition.exists_of_ofNode_defineLine isRoot read
    rw [same] at present
    have fewer := within.of_childNodes unmocked rfl (by decide) present
    exact told isDefinition fewer rfl readBelow
  · exact alone (by simp)
  · exact alone (by simp)

/-- A replacement list is matched whatever it consists of, and its line is cut into elements. -/
theorem exists_parseTokens_replacementList
    (unmocked : grammar.mocked = [])
    (enough : 2 ≤ grammar.maxDepth)
    (noFeed : ∀ token ∈ tokens, token.kind ≠ .newline) :
    ∃ (leading trailing : List Token) (trees : List Tree) (after : Cursor),
      (grammar.readRule grammar.maxDepth .replacementList (Cursor.ofTokens tokens).trivia.2
        .empty).1 = some (⟨.replacementList, trees⟩, after) ∧
      grammar.parseTokens .replacementList tokens =
        some ⟨.replacementList, leading.map .leaf ++ trees ++ trailing.map .leaf⟩ ∧
      (∀ token ∈ leading ++ trailing, token.isTrivia = true) ∧
      CutIntoElements (firstLine tokens)
        (leading.map .leaf ++ trees ++ trailing.map .leaf) := by
  have nests : Rule.replacementList.nestsWithin 2 = true := by decide
  have parts := firstLine_append_behindFirstLine tokens
  have inLine := inLine_firstLine tokens
  have ends := isLineEnd_behindFirstLine tokens
  have last := kind_behindFirstLine noFeed
  generalize firstLine tokens = line at parts inLine
  generalize behindFirstLine tokens = behind at parts ends last
  subst parts
  obtain ⟨leading, further, rfl, trivial, significant⟩ := exists_significant line
  obtain ⟨core, trailing, trees, rfl, trivialToo, reads, segmented⟩ :=
    exists_reads_segments ends unmocked (InLine.append_iff.1 inLine).2 significant
  have whole : leading ++ (core ++ trailing) ++ behind = leading ++ (core ++ (trailing ++ behind)) := by
    simp
  have body : grammar.Reads Rule.replacementList.pattern core trees (trailing ++ behind) := reads
  have starts : Significant (core ++ (trailing ++ behind)) := by
    rw [← List.append_assoc]
    exact significant.append_ends ends
  refine ⟨leading, trailing, trees, ⟨leading.length + core.length, trailing ++ behind⟩, ?_, ?_,
    List.forall_mem_append.2 ⟨trivial, trivialToo⟩, ?_⟩
  · rw [readRule_of_nestsWithin unmocked nests enough, whole, trivia_ofTokens trivial starts]
    exact nodeAt?_of_reads unmocked rfl body leading.length
  · rw [parseTokens_of_nestsWithin unmocked nests enough, whole]
    exact rootOf?_of_reads unmocked rfl trivial trivialToo starts last body
  · rw [List.append_assoc]
    exact (segmented.append_blanks trivial).cutIntoElements inLine

/--
A replacement list is matched whatever it consists of.  It reaches up to the last
content token of its line and is cut into elements as the tokens say.  So the
tokens that replace a macro tell whether it stringizes and whether it pastes.
-/
theorem parseTokens_replacementList
    (unmocked : grammar.mocked = [])
    (enough : 2 ≤ grammar.maxDepth)
    (noFeed : ∀ token ∈ tokens, token.kind ≠ .newline) :
    (∃ (leading trailing : List Token) (trees : List Tree) (after : Cursor),
      (grammar.readRule grammar.maxDepth .replacementList (Cursor.ofTokens tokens).trivia.2
        .empty).1 = some (⟨.replacementList, trees⟩, after) ∧
      grammar.parseTokens .replacementList tokens =
        some ⟨.replacementList, leading.map .leaf ++ trees ++ trailing.map .leaf⟩ ∧
      (∀ token ∈ leading ++ trailing, token.isTrivia = true) ∧
      CutIntoElements (firstLine tokens)
        (leading.map .leaf ++ trees ++ trailing.map .leaf)) ∧
    ∀ rule ∈ [Rule.defineLine, .functionlikeMacroDefinition, .objectlikeMacroDefinition],
      ∀ root definition, grammar.parseTokens rule tokens = some root →
        MacroDefinition.ofNode root = .ok definition →
        (definition.hasStringizing = true ↔
          ∃ front hash name behind,
            definition.replacement = front ++ hash :: name :: behind ∧
            hash.isPunctuator .hash = true ∧ name.isIdentifier = true) ∧
        (definition.hasTokenPasting = true ↔
          ∃ token ∈ definition.replacement, token.isPunctuator .hashHash = true) := by
  refine ⟨exists_parseTokens_replacementList unmocked enough noFeed,
    fun rule listed root definition parsed read => ?_⟩
  obtain ⟨stringizing, pasting⟩ := operators_of_parseTokens unmocked listed parsed read
  rw [stringizing, pasting, stringizes_iff, List.any_eq_true]
  exact ⟨Iff.rfl, Iff.rfl⟩

/-- In `#L# x` the prefix is the name of the first operator and none of the second. -/
theorem parseTokens_replacementList_prefix_as_name :
    let hash : Token := ⟨.punctuator .hash, "#", .unknown⟩
    let blank : Token := ⟨.whitespace, " ", .unknown⟩
    let word (text : String) : Token := ⟨.identifier, text, .unknown⟩
    let ending : Token := ⟨.endOfInput, "", .unknown⟩
    (∃ children earlier later,
      standard.parseTokens .replacementList [hash, word "L", hash, blank, word "x", ending] =
        some ⟨.replacementList, children⟩ ∧
      children = earlier ++
        .node .stringizing ([hash, blank, word "x"].map .leaf) :: later ∧
      Tree.tokensOf earlier = [hash, word "L"]) ∧
    ∃ root definition,
      standard.parseTokens .defineLine
        [hash, word "define", blank, word "A", blank, hash, word "x", ending] = some root ∧
      MacroDefinition.ofNode root = .ok definition ∧ definition.hasStringizing = true := by
  intro hash blank word ending
  have unmocked : standard.mocked = [] := rfl
  constructor
  · obtain ⟨⟨leading, trailing, trees, _, _, parsed, _, cut⟩, _⟩ :=
      parseTokens_replacementList unmocked (by decide)
        (show ∀ token ∈ [hash, word "L", hash, blank, word "x", ending], token.kind ≠ .newline by
          decide)
    obtain ⟨earlier, later, whole, before⟩ :=
      cut.stringizing [hash, word "L"] hash [blank] (word "x") [] rfl rfl (by decide) rfl
    exact ⟨_, earlier, later, parsed, whole, (List.append_nil _).symm.trans before⟩
  · have matched :
        (standard.parseTokens .defineLine
            [hash, word "define", blank, word "A", blank, hash, word "x", ending]).bind
          (fun root => (MacroDefinition.ofNode root).toOption.map MacroDefinition.replacement) =
            some [hash, word "x"] := by
      decide +kernel
    obtain ⟨root, parsed, found⟩ := Option.bind_eq_some_iff.1 matched
    cases read : MacroDefinition.ofNode root with
    | error fault =>
        rw [read] at found
        cases found
    | ok definition =>
        rw [read] at found
        obtain ⟨stringizing, _⟩ :=
          (parseTokens_replacementList unmocked (by decide)
            (show ∀ token ∈ [hash, word "define", blank, word "A", blank, hash, word "x", ending],
              token.kind ≠ .newline by decide)).2 .defineLine (by simp) root definition parsed read
        exact ⟨root, definition, parsed, read,
          stringizing.2 ⟨[], hash, word "x", [], Option.some.inj found, rfl, rfl⟩⟩

end Grammar

end PreprocessorSyntax
