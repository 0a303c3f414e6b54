import PreprocessorSyntax.Grammar.Parse

/-!
# Moving tokens

No pattern looks at the locations of tokens.  So a parse of tokens that were
moved to other places gives the tree of the original ones, moved in the same way.
-/

namespace PreprocessorSyntax

/-- A token moved to another place. -/
def Token.relocate (move : Location → Location) (token : Token) : Token :=
  { token with location := move token.location }

namespace Tree

mutual

/-- A tree all of whose tokens are moved. -/
def relocate (move : Location → Location) : Tree → Tree
  | .leaf token => .leaf (token.relocate move)
  | .node rule children => .node rule (relocateAll move children)

/-- Some neighbouring trees all of whose tokens are moved. -/
def relocateAll (move : Location → Location) : List Tree → List Tree
  | [] => []
  | tree :: trees => tree.relocate move :: relocateAll move trees

end

variable (move : Location → Location)

@[simp] theorem relocateAll_eq_map (trees : List Tree) :
    relocateAll move trees = trees.map (relocate move) := by
  induction trees with
  | nil => rw [relocateAll, List.map_nil]
  | cons tree trees inductionHypothesis =>
      rw [relocateAll, List.map_cons, inductionHypothesis]

@[simp] theorem relocate_leaf (token : Token) :
    (leaf token).relocate move = .leaf (token.relocate move) := by
  rw [relocate]

@[simp] theorem relocate_comp_leaf : relocate move ∘ leaf = leaf ∘ Token.relocate move := by
  funext token
  exact relocate_leaf move token

@[simp] theorem relocate_node (rule : Rule) (children : List Tree) :
    (node rule children).relocate move = .node rule (children.map (relocate move)) := by
  rw [relocate, relocateAll_eq_map]

end Tree

/-- A node all of whose tokens are moved. -/
def Node.relocate (move : Location → Location) (node : Node) : Node :=
  { node with children := node.children.map (Tree.relocate move) }

/-- A place in a token list all of whose tokens are moved. -/
def Cursor.relocate (move : Location → Location) (cursor : Cursor) : Cursor :=
  { cursor with rest := cursor.rest.map (Token.relocate move) }

section Moved

variable {move : Location → Location}

@[simp] theorem Token.isTrivia_relocate (token : Token) :
    (token.relocate move).isTrivia = token.isTrivia := rfl

@[simp] theorem Token.kind_relocate (token : Token) :
    (token.relocate move).kind = token.kind := rfl

@[simp] theorem Token.text_relocate (token : Token) :
    (token.relocate move).text = token.text := rfl

/-- Tokens that are written alike are the same if they stand in the same place. -/
theorem Token.map_relocate_of_kindAndText
    {tokens others : List Token}
    (alike : tokens.map Token.kindAndText = others.map Token.kindAndText)
    (place : Location) :
    tokens.map (Token.relocate fun _ => place) = others.map (Token.relocate fun _ => place) := by
  have placed : Token.relocate (fun _ => place) =
      (fun said => ⟨said.1, said.2, place⟩) ∘ Token.kindAndText := rfl
  rw [placed, ← List.map_map, alike, List.map_map]

@[simp] theorem Node.rule_relocate (node : Node) : (node.relocate move).rule = node.rule := rfl

@[simp] theorem Node.toTree_relocate (node : Node) :
    (node.relocate move).toTree = node.toTree.relocate move := by
  rw [toTree, toTree, Tree.relocate_node, relocate]

/-- A node keeps its rule, so moved children make a moved node. -/
theorem Rule.build_relocate (rule : Rule) (children : List Tree) :
    rule.build (children.map (Tree.relocate move)) = (rule.build children).relocate move := by
  match children with
  | [] => rfl
  | [.leaf token] => simp [Rule.build, Node.relocate]
  | [.node inner grandchildren] =>
      cases collapses : rule.collapses <;> simp [Rule.build, collapses, Node.relocate]
  | first :: second :: others => simp [Rule.build, Node.relocate]

namespace Cursor

variable (cursor : Cursor)

@[simp] theorem relocate_ofTokens (tokens : List Token) :
    ofTokens (tokens.map (Token.relocate move)) = (ofTokens tokens).relocate move := rfl

@[simp] theorem position_relocate : (cursor.relocate move).position = cursor.position := rfl

theorem bump?_relocate :
    (cursor.relocate move).bump? =
      cursor.bump?.map fun found => (found.1.relocate move, found.2.relocate move) := by
  rcases cursor with ⟨position, _ | ⟨token, rest⟩⟩
  · rfl
  · simp only [relocate, bump?, List.map_cons, Token.kind_relocate]
    split <;> rfl

theorem peekKind_relocate : (cursor.relocate move).peekKind = cursor.peekKind := by
  rw [peekKind, peekKind, peek?_eq_map_bump?, peek?_eq_map_bump?, bump?_relocate]
  cases cursor.bump? <;> rfl

theorem atEnd_relocate : (cursor.relocate move).atEnd = cursor.atEnd := by
  rw [atEnd, atEnd, peek?_eq_map_bump?, peek?_eq_map_bump?, bump?_relocate]
  cases cursor.bump? <;> rfl

theorem trivia_relocate :
    (cursor.relocate move).trivia =
      (cursor.trivia.1.map (Token.relocate move), cursor.trivia.2.relocate move) := by
  have same : Token.isTrivia ∘ Token.relocate move = Token.isTrivia := rfl
  simp only [trivia, relocate, List.takeWhile_map, List.dropWhile_map, List.length_map, same]

end Cursor
end Moved

namespace Pattern

/-- No token test of a pattern looks at locations. -/
inductive Blind : Pattern → Prop
  | token
      {accepts : Token → Bool}
      (same : ∀ move token, accepts (token.relocate move) = accepts token) :
      Blind (.token accepts)
  | rule (called : Rule) : Blind (.rule called)
  | ahead (accepts : TokenKind → Bool) : Blind (.ahead accepts)
  | absent (refused : Rule) : Blind (.absent refused)
  | empty : Blind .empty
  | sequence
      {first second : Pattern}
      (front : Blind first)
      (back : Blind second) :
      Blind (.sequence first second)
  | choice
      {preferred alternative : Pattern}
      (first : Blind preferred)
      (otherwise : Blind alternative) :
      Blind (.choice preferred alternative)
  | many
      {item : Pattern}
      (each : Blind item) :
      Blind (.many item)

end Pattern

/-- The patterns of the grammar look at kinds and spellings of tokens only. -/
theorem Rule.blind_pattern (rule : Rule) : rule.pattern.Blind := by
  cases rule <;> (repeat' constructor) <;> exact fun _ _ => rfl

/-- Moved tokens are read as the original ones, and what is kept in mind is the same. -/
def Relocates
    {State Result : Type}
    (move : Location → Location)
    (moved : Result → Result)
    (reader : Pattern.Reader State Result) : Prop :=
  ∀ cursor state, reader (cursor.relocate move) state =
    ((reader cursor state).1.map fun found => (moved found.1, found.2.relocate move),
      (reader cursor state).2)

namespace Relocates

variable {State : Type} {move : Location → Location}
variable {readRule : Rule → Pattern.Reader State Node}

theorem readMany
    {item : Pattern.Reader State (List Tree)}
    (each : Relocates move (List.map (Tree.relocate move)) item)
    (bound otherBound : List Token)
    (sameBound : bound.length = otherBound.length)
    (cursor : Cursor)
    (state : State) :
    Pattern.readMany item bound (cursor.relocate move) state =
      (((Pattern.readMany item otherBound cursor state).1.1.map (Tree.relocate move),
          (Pattern.readMany item otherBound cursor state).1.2.relocate move),
        (Pattern.readMany item otherBound cursor state).2) := by
  induction bound generalizing otherBound cursor state with
  | nil =>
      cases List.eq_nil_of_length_eq_zero sameBound.symm
      rw [Pattern.readMany, Pattern.readMany, each]
      rcases item cursor state with ⟨_ | ⟨trees, after⟩, later⟩ <;> rfl
  | cons token bound inductionHypothesis =>
      obtain ⟨other, otherBound, rfl⟩ := List.exists_cons_of_length_eq_add_one sameBound.symm
      rw [Pattern.readMany, Pattern.readMany, each]
      rcases item cursor state with ⟨_ | ⟨trees, after⟩, later⟩
      · rfl
      · simp only [Option.map_some]
        rw [inductionHypothesis otherBound (by simpa using sameBound)]
        simp

/-- A pattern that does not look at locations reads as its rules do. -/
theorem read
    (rules : ∀ rule, Relocates move (Node.relocate move) (readRule rule))
    {pattern : Pattern}
    (blind : pattern.Blind) :
    Relocates move (List.map (Tree.relocate move)) (pattern.read readRule) := by
  induction blind with
  | @token accepts same =>
      intro cursor state
      simp only [Pattern.read, Cursor.bump?_relocate]
      rcases cursor.bump? with _ | ⟨found, after⟩
      · rfl
      · simp only [Option.map_some, same]
        cases accepts found <;> simp
  | rule called =>
      intro cursor state
      simp only [Pattern.read_rule, rules called cursor state, Option.map_map]
      congr 2
      funext found
      simp
  | ahead accepts =>
      intro cursor state
      simp only [Pattern.read, Cursor.peekKind_relocate]
      split <;> rfl
  | absent refused =>
      intro cursor state
      simp only [Pattern.read_absent, rules refused cursor state, Option.isNone_map]
      split <;> rfl
  | empty => exact fun cursor state => rfl
  | @sequence first second front back frontRelocates backRelocates =>
      intro cursor state
      simp only [Pattern.read]
      rw [frontRelocates cursor state]
      rcases first.read readRule cursor state with ⟨_ | ⟨trees, middle⟩, between⟩
      · rfl
      · simp only [Option.map_some]
        rw [backRelocates middle between]
        rcases second.read readRule middle between with ⟨_ | ⟨more, after⟩, later⟩ <;> simp
  | @choice preferred alternative first otherwise firstRelocates otherwiseRelocates =>
      intro cursor state
      simp only [Pattern.read]
      rw [firstRelocates cursor state]
      rcases preferred.read readRule cursor state with ⟨_ | ⟨trees, after⟩, between⟩
      · exact otherwiseRelocates cursor between
      · rfl
  | @many item each eachRelocates =>
      intro cursor state
      simp only [Pattern.read]
      rw [readMany eachRelocates _ cursor.rest (by simp [Cursor.relocate])]
      rfl

end Relocates

namespace Grammar

variable {move : Location → Location}

theorem blind_pattern (grammar : Grammar) (rule : Rule) : (grammar.pattern rule).Blind := by
  unfold pattern
  split
  next => exact .token fun _ _ => rfl
  next => exact rule.blind_pattern

/-- Rules do not look at locations, and failures are kept by position. -/
theorem relocates_readRule (grammar : Grammar) (levels : Nat) (rule : Rule) :
    Relocates move (Node.relocate move) (grammar.readRule levels rule) := by
  induction levels generalizing rule with
  | zero =>
      intro cursor failures
      rw [readRule, readRule, Cursor.position_relocate]
      cases failures.contains rule cursor.position <;> rfl
  | succ levels inductionHypothesis =>
      intro cursor failures
      have patternRelocates := Relocates.read inductionHypothesis (grammar.blind_pattern rule)
      rw [readRule, readRule, Cursor.position_relocate, patternRelocates cursor failures]
      cases failures.contains rule cursor.position with
      | true => rfl
      | false =>
        rcases (grammar.pattern rule).read (grammar.readRule levels) cursor failures with
          ⟨_ | ⟨children, after⟩, later⟩
        · rfl
        · simp [Rule.build_relocate]

theorem closing?_relocate (cursor : Cursor) :
    closing? (cursor.relocate move) = (closing? cursor).map (List.map (Token.relocate move)) := by
  unfold closing?
  rw [Cursor.trivia_relocate]
  rcases cursor.trivia with ⟨before, behind⟩
  simp only [Cursor.bump?_relocate]
  rcases behind.bump? with _ | ⟨token, last⟩
  · rfl
  · simp only [Option.map_some, Token.kind_relocate, Cursor.trivia_relocate]
    rcases last.trivia with ⟨after, finish⟩
    simp only [Cursor.atEnd_relocate]
    split
    next => split <;> simp
    next => rfl

/-- A parse of moved tokens gives the moved tree. -/
theorem parseTokens_relocate (grammar : Grammar) (rule : Rule) (tokens : List Token) :
    grammar.parseTokens rule (tokens.map (Token.relocate move)) =
      (grammar.parseTokens rule tokens).map (Node.relocate move) := by
  unfold parseTokens rootOf?
  rw [Cursor.relocate_ofTokens, Cursor.trivia_relocate]
  rcases (Cursor.ofTokens tokens).trivia with ⟨leading, start⟩
  simp only [grammar.relocates_readRule grammar.maxDepth rule start .empty]
  rcases (grammar.readRule grammar.maxDepth rule start .empty).1 with _ | ⟨node, after⟩
  · rfl
  · simp only [Option.map_some, closing?_relocate]
    cases closing? after with
    | none => rfl
    | some trailing =>
        simp only [Option.map_some, Node.rule_relocate, Node.toTree_relocate]
        split <;> simp [Node.relocate]

/-- Token lists that are written alike have parses that differ in locations only. -/
theorem parseTokens_of_kindAndText
    (grammar : Grammar)
    (rule : Rule)
    {tokens others : List Token}
    (alike : tokens.map Token.kindAndText = others.map Token.kindAndText)
    (place : Location) :
    (grammar.parseTokens rule tokens).map (Node.relocate fun _ => place) =
      (grammar.parseTokens rule others).map (Node.relocate fun _ => place) := by
  rw [← parseTokens_relocate, ← parseTokens_relocate, Token.map_relocate_of_kindAndText alike]

end Grammar
end PreprocessorSyntax
