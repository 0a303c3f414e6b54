import PreprocessorSyntax.Directive
import PreprocessorSyntax.Proofs.Grammar.Relocation

/-!
# Moving directives

What a tree means does not depend on where it stands, apart from the locations
of the tokens that the meaning keeps.  The only thing that is looked at is
whether there is a gap between two tokens of a name, so the tokens may be moved
to other lines and columns but keep their offsets.
-/

namespace PreprocessorSyntax

section Trees

variable {move : Location → Location}

namespace Tree

mutual

theorem tokens_relocate :
    (tree : Tree) → (tree.relocate move).tokens = tree.tokens.map (Token.relocate move)
  | .leaf _ => by rw [relocate_leaf, tokens_leaf, tokens_leaf, List.map_singleton]
  | .node _ children => by rw [relocate_node, tokens_node, tokens_node, tokensOf_relocate children]

theorem tokensOf_relocate :
    (trees : List Tree) →
      tokensOf (trees.map (relocate move)) = (tokensOf trees).map (Token.relocate move)
  | [] => rfl
  | tree :: trees => by
      rw [List.map_cons, tokensOf_cons, tokensOf_cons, List.map_append, tokens_relocate tree,
        tokensOf_relocate trees]

end

theorem node?_relocate (tree : Tree) :
    (tree.relocate move).node? = tree.node?.map (Node.relocate move) := by
  cases tree with
  | leaf => rw [relocate_leaf]; rfl
  | node => rw [relocate_node]; rfl

theorem token?_relocate (tree : Tree) :
    (tree.relocate move).token? = tree.token?.map (Token.relocate move) := by
  cases tree with
  | leaf => rw [relocate_leaf]; rfl
  | node => rw [relocate_node]; rfl

end Tree

theorem Token.filter_map_relocate
    {accepts : Token → Bool}
    (same : ∀ token : Token, accepts (token.relocate move) = accepts token)
    (tokens : List Token) :
    (tokens.map (Token.relocate move)).filter accepts =
      (tokens.filter accepts).map (Token.relocate move) := by
  rw [List.filter_map]
  exact congrArg (List.map _) (List.filter_congr fun token _ => same token)

theorem Token.map_text_map_relocate (tokens : List Token) :
    (tokens.map (Token.relocate move)).map Token.text = tokens.map Token.text := by
  rw [List.map_map]
  rfl

namespace Node

variable (node : Node)

@[simp] theorem tokens_relocate :
    (node.relocate move).tokens = node.tokens.map (Token.relocate move) :=
  Tree.tokensOf_relocate node.children

@[simp] theorem significantTokens_relocate :
    (node.relocate move).significantTokens = node.significantTokens.map (Token.relocate move) := by
  rw [significantTokens, tokens_relocate]
  exact Token.filter_map_relocate (fun _ => rfl) node.tokens

@[simp] theorem text_relocate : (node.relocate move).text = node.text := by
  rw [text, tokens_relocate, Token.map_text_map_relocate, text]

@[simp] theorem childNodes_relocate :
    (node.relocate move).childNodes = node.childNodes.map (relocate move) := by
  unfold childNodes relocate
  rw [List.filterMap_map, List.map_filterMap]
  exact congrArg (List.filterMap · node.children) (funext Tree.node?_relocate)

@[simp] theorem childTokens_relocate :
    (node.relocate move).childTokens = node.childTokens.map (Token.relocate move) := by
  have leaves : (node.relocate move).children.filterMap Tree.token? =
      (node.children.filterMap Tree.token?).map (Token.relocate move) := by
    rw [relocate, List.filterMap_map, List.map_filterMap]
    exact congrArg (List.filterMap · node.children) (funext Tree.token?_relocate)
  rw [childTokens, leaves]
  exact Token.filter_map_relocate (fun _ => rfl) _

@[simp] theorem identifiers_relocate :
    (node.relocate move).identifiers = node.identifiers.map (Token.relocate move) := by
  rw [identifiers, childTokens_relocate]
  exact Token.filter_map_relocate (fun _ => rfl) _

@[simp] theorem child?_relocate (rule : Rule) :
    (node.relocate move).child? rule = (node.child? rule).map (relocate move) := by
  rw [child?, childNodes_relocate, List.find?_map]
  rfl

end Node

/-- Gaps are told by offsets alone. -/
theorem significantPieces_relocate
    (keepsOffset : ∀ location, (move location).offset = location.offset)
    (started pending : Bool)
    (lastEnd : Option Nat)
    (tokens : List Token) :
    significantPieces started pending lastEnd (tokens.map (Token.relocate move)) =
      significantPieces started pending lastEnd tokens := by
  induction tokens generalizing started pending lastEnd with
  | nil => rfl
  | cons token tokens inductionHypothesis =>
      have offset : (token.relocate move).location.offset = token.location.offset :=
        keepsOffset token.location
      have ending : (token.relocate move).endOffset = token.endOffset := by
        rw [Token.endOffset, offset, Token.text_relocate, Token.endOffset]
      have lineEnd : (token.relocate move).isLineEnd = token.isLineEnd := rfl
      rw [List.map_cons, significantPieces, significantPieces, offset, ending, lineEnd,
        Token.isTrivia_relocate, Token.text_relocate]
      simp only [inductionHypothesis]

theorem Node.significantText_relocate
    (keepsOffset : ∀ location, (move location).offset = location.offset)
    (node : Node) :
    (node.relocate move).significantText = node.significantText := by
  rw [significantText, tokens_relocate, PreprocessorSyntax.significantText,
    significantPieces_relocate keepsOffset]
  rfl

end Trees

/-- An include body whose tokens are moved. -/
def IncludeBody.relocate (move : Location → Location) : IncludeBody → IncludeBody
  | .bracketed path => .bracketed path
  | .quoted path => .quoted path
  | .freeform tokens => .freeform (tokens.map (Token.relocate move))

/-- A macro whose replacement is moved. -/
def MacroDefinition.relocate (move : Location → Location) (definition : MacroDefinition) :
    MacroDefinition :=
  { definition with replacement := definition.replacement.map (Token.relocate move) }

/-- An import whose header is moved. -/
def ImportTarget.relocate (move : Location → Location) : ImportTarget → ImportTarget
  | .header body => .header (body.relocate move)
  | .module name => .module name
  | .partition name => .partition name

/-- A directive whose tokens and conditions are moved. -/
def Directive.relocate (move : Location → Location) : Directive → Directive
  | .define definition => .define (definition.relocate move)
  | .inclusion next body => .inclusion next (body.relocate move)
  | .importing declaration =>
    .importing { declaration with target := declaration.target.relocate move }
  | .ifTrue condition => .ifTrue (condition.relocate move)
  | .elifTrue condition => .elifTrue (condition.relocate move)
  | .line tokens => .line (tokens.map (Token.relocate move))
  | .pragma tokens => .pragma (tokens.map (Token.relocate move))
  | .misc tokens => .misc (tokens.map (Token.relocate move))
  | directive => directive

/-- What came well through a function came out well before it. -/
private theorem exists_of_map_eq_ok
    {First Second : Type}
    {f : First → Second}
    {result : Except Fault First}
    {value : Second}
    (mapped : result.map f = .ok value) :
    ∃ before, result = .ok before ∧ f before = value := by
  cases result with
  | error fault => cases mapped
  | ok before => exact ⟨before, rfl, Except.ok.inj mapped⟩

section Meanings

variable {move : Location → Location} {node : Node}

theorem IncludeBody.ofForm_relocate
    {body : IncludeBody}
    (means : ofForm node = .ok body) :
    ofForm (node.relocate move) = .ok (body.relocate move) := by
  unfold ofForm at means ⊢
  rw [Node.rule_relocate]
  split at means
  next =>
    cases means
    rw [Node.tokens_relocate, ← List.map_drop, ← List.map_dropLast, Token.map_text_map_relocate]
    rfl
  next =>
    simp only [Node.text_relocate]
    split at means
    next path unquoted =>
      cases means
      rfl
    next => cases means
  next =>
    cases means
    rw [Node.significantTokens_relocate]
    rfl
  next => cases means

theorem IncludeBody.ofNode_relocate
    {body : IncludeBody}
    (means : ofNode node = .ok body) :
    ofNode (node.relocate move) = .ok (body.relocate move) := by
  unfold ofNode at means ⊢
  rw [Node.rule_relocate, Node.childNodes_relocate]
  split at means
  case h_3 => exact ofForm_relocate means
  all_goals
    split at means
    next => cases means
    next form others forms =>
      rw [forms]
      exact ofForm_relocate means

namespace MacroDefinition

theorem shapeOf_relocate (node : Node) : shapeOf (node.relocate move) = shapeOf node := by
  unfold shapeOf
  rw [Node.rule_relocate, Node.child?_relocate]
  split
  next =>
    cases node.child? .parameterList with
    | none => rfl
    | some list =>
        simp only [Option.map_some, shapeOfParameters, Node.identifiers_relocate,
          Token.map_text_map_relocate, Node.child?_relocate]
        cases list.child? .variadicParameter with
        | none => rfl
        | some variadic =>
            simp only [Option.map_some, Node.identifiers_relocate]
            cases variadic.identifiers <;> rfl
  next => rfl

theorem ofDefinition_relocate
    {definition : MacroDefinition}
    (means : ofDefinition node = .ok definition) :
    ofDefinition (node.relocate move) = .ok (definition.relocate move) := by
  unfold ofDefinition at means ⊢
  rw [Node.identifiers_relocate, List.getElem?_map, Node.child?_relocate]
  split at means
  next => cases means
  next name named =>
    split at means
    next => cases means
    next list found =>
      cases means
      rw [named, found]
      simp [shapeOf_relocate, relocate]

theorem ofNode_relocate
    {definition : MacroDefinition}
    (means : ofNode node = .ok definition) :
    ofNode (node.relocate move) = .ok (definition.relocate move) := by
  unfold ofNode at means ⊢
  rw [Node.rule_relocate, Node.child?_relocate, Node.child?_relocate, ← Option.map_or]
  split at means
  next =>
    split at means
    next inner found =>
      rw [found]
      exact ofDefinition_relocate means
    next => cases means
  next => exact ofDefinition_relocate means
  next => exact ofDefinition_relocate means
  next => cases means

end MacroDefinition

namespace Directive

theorem hasWord_relocate (node : Node) (word : String) :
    hasWord (node.relocate move) word = hasWord node word := by
  rw [hasWord, Node.childTokens_relocate, List.any_map]
  rfl

theorem isNamed_relocate (node : Node) (spelling : String) :
    isNamed (node.relocate move) spelling = isNamed node spelling := by
  rw [isNamed, Node.identifiers_relocate, List.head?_map, Option.any_map]
  rfl

theorem operand_relocate
    {name : String}
    (means : operand node = .ok name) :
    operand (node.relocate move) = .ok name := by
  unfold operand at means ⊢
  rw [Node.identifiers_relocate, List.getElem?_map]
  split at means
  next found =>
    rw [found]
    exact means
  next => cases means

theorem tokensBehind_relocate (node : Node) (skipped : Nat) :
    tokensBehind (node.relocate move) skipped =
      (tokensBehind node skipped).map (Token.relocate move) := by
  rw [tokensBehind, Node.tokens_relocate, Token.filter_map_relocate (fun _ => rfl),
    ← List.map_drop, tokensBehind]

theorem message_relocate (node : Node) : message (node.relocate move) = message node := by
  have behind : (((node.tokens.map (Token.relocate move)).filter fun token =>
        !token.isLineEnd).dropWhile fun token => !token.isIdentifier).drop 1 =
      (((node.tokens.filter fun token => !token.isLineEnd).dropWhile
        fun token => !token.isIdentifier).drop 1).map (Token.relocate move) := by
    rw [Token.filter_map_relocate (fun _ => rfl), List.dropWhile_map, List.map_drop]
    rfl
  unfold message
  simp only [Node.tokens_relocate, behind, Token.map_text_map_relocate]

theorem importOfNode_relocate
    (keepsOffset : ∀ location, (move location).offset = location.offset)
    {declaration : ImportDeclaration}
    (means : importOfNode node = .ok declaration) :
    importOfNode (node.relocate move) =
      .ok { declaration with target := declaration.target.relocate move } := by
  unfold importOfNode at means ⊢
  rw [hasWord_relocate, Node.child?_relocate, Node.child?_relocate, Node.child?_relocate,
    ← Option.map_or]
  split at means
  next header found =>
    rw [found]
    obtain ⟨body, reading, rfl⟩ := exists_of_map_eq_ok means
    simp only [Option.map_some, IncludeBody.ofNode_relocate reading]
    rfl
  next noToken =>
    rw [noToken]
    split at means
    next => cases means
    next name found =>
      cases means
      rw [found]
      simp only [Option.map_none, Option.map_some, Node.childTokens_relocate, List.any_map,
        Node.significantText_relocate keepsOffset]
      have same : Token.isPunctuator .colon ∘ Token.relocate move =
        Token.isPunctuator .colon := rfl
      rw [same]
      split <;> rfl

theorem moduleOfNode_relocate
    (keepsOffset : ∀ location, (move location).offset = location.offset)
    (node : Node) :
    moduleOfNode (node.relocate move) = moduleOfNode node := by
  have names : (node.childNodes.map (Node.relocate move)).filter
        (fun child => child.rule == .moduleName) =
      (node.childNodes.filter fun child => child.rule == .moduleName).map
        (Node.relocate move) := by
    rw [List.filter_map]
    rfl
  unfold moduleOfNode
  rw [Node.childNodes_relocate, names, hasWord_relocate, hasWord_relocate]
  cases node.childNodes.filter fun child => child.rule == .moduleName with
  | nil => rfl
  | cons name partitions =>
      cases partitions <;> simp [Node.significantText_relocate keepsOffset]

theorem ofLine_relocate
    (keepsOffset : ∀ location, (move location).offset = location.offset)
    {directive : Directive}
    (means : ofLine node = .ok directive) :
    ofLine (node.relocate move) = .ok (directive.relocate move) := by
  unfold ofLine at means ⊢
  rw [Node.rule_relocate]
  split at means
  case h_1 | h_2 | h_3 =>
    obtain ⟨definition, reading, rfl⟩ := exists_of_map_eq_ok means
    rw [MacroDefinition.ofNode_relocate reading]
    rfl
  case h_4 =>
    obtain ⟨name, reading, rfl⟩ := exists_of_map_eq_ok means
    rw [operand_relocate reading]
    rfl
  case h_5 =>
    split at means
    next => cases means
    next body found =>
      obtain ⟨form, reading, rfl⟩ := exists_of_map_eq_ok means
      rw [Node.child?_relocate, found, Option.map_some]
      simp only [IncludeBody.ofNode_relocate reading, isNamed_relocate]
      rfl
  case h_6 =>
    obtain ⟨declaration, reading, rfl⟩ := exists_of_map_eq_ok means
    rw [importOfNode_relocate keepsOffset reading]
    rfl
  case h_7 =>
    cases means
    rw [moduleOfNode_relocate keepsOffset]
    rfl
  case h_8 | h_9 =>
    split at means
    next => cases means
    next condition found =>
      cases means
      rw [Node.child?_relocate, found]
      simp only [Option.map_some]
      split <;> rfl
  case h_10 =>
    obtain ⟨name, reading, rfl⟩ := exists_of_map_eq_ok means
    rw [operand_relocate reading, isNamed_relocate]
    rfl
  case h_11 | h_12 =>
    cases means
    rfl
  case h_13 | h_16 | h_17 =>
    cases means
    rw [tokensBehind_relocate]
    rfl
  case h_14 | h_15 =>
    cases means
    rw [message_relocate]
    rfl
  case h_18 => cases means

/-- A moved tree means the same at its new place. -/
theorem ofNode_relocate
    (keepsOffset : ∀ location, (move location).offset = location.offset)
    {directive : Directive}
    (means : ofNode node = .ok directive) :
    ofNode (node.relocate move) = .ok (directive.relocate move) := by
  unfold ofNode at means ⊢
  rw [Node.rule_relocate, Node.childNodes_relocate]
  split at means
  next =>
    split at means
    next => cases means
    next inner others lines =>
      rw [lines]
      exact ofLine_relocate keepsOffset means
  next => exact ofLine_relocate keepsOffset means

end Directive
end Meanings
end PreprocessorSyntax
