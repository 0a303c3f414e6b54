import PreprocessorSyntax.Proofs.Condition.Precedence
import PreprocessorSyntax.Proofs.Grammar.Relocation
import PreprocessorSyntax.Proofs.Grammar.Spacing
import PreprocessorSyntax.Proofs.Line.Isolation

/-!
# The layout of conditions

White space and comments may stand between any two tokens of a condition, and
what they are makes no difference to what the condition says.  Two lines with
the same content are read side by side: wherever a rule is tried, all white
space has been skipped, so the places at which it is tried in the two lines
belong together one by one, and so do the failures that are remembered.

The tests for headers are left out: inside angle brackets, white space counts.
-/

namespace PreprocessorSyntax

mutual

/-- A tree without white space and comments; `none` if it is one of these itself. -/
def Tree.condense? : Tree → Option Tree
  | .leaf token => if token.isTrivia then none else some (.leaf token)
  | .node rule children => some (.node rule (Tree.condenseAll children))

/-- Some neighbouring trees without white space and comments. -/
def Tree.condenseAll : List Tree → List Tree
  | [] => []
  | tree :: trees => tree.condense?.toList ++ Tree.condenseAll trees

end

/-- A node without white space and comments below it. -/
def Node.condense (node : Node) : Node :=
  { node with children := Tree.condenseAll node.children }

/-- A node without white space and comments below it, wherever its tokens stand. -/
def Node.outline (node : Node) : Node :=
  (node.relocate fun _ => .unknown).condense

/-- The name of a test whether a header can be included. -/
def Token.isInclusionTest (token : Token) : Bool :=
  token.isIdentifier && ["__has_include", "__has_include_next"].contains token.text

namespace Tree

@[simp] theorem condenseAll_nil : condenseAll [] = [] := by
  rw [condenseAll]

@[simp] theorem condenseAll_append (front back : List Tree) :
    condenseAll (front ++ back) = condenseAll front ++ condenseAll back := by
  induction front with
  | nil => rw [condenseAll_nil, List.nil_append, List.nil_append]
  | cons tree trees inductionHypothesis =>
      rw [List.cons_append, condenseAll, condenseAll, inductionHypothesis, List.append_assoc]

@[simp] theorem condenseAll_toTree (node : Node) (trees : List Tree) :
    condenseAll (node.toTree :: trees) = node.condense.toTree :: condenseAll trees := by
  rw [condenseAll, Node.toTree, condense?]
  rfl

/-- Nothing is left of white space and comments, and of nothing else. -/
theorem condenseAll_eq_nil {trees : List Tree} : condenseAll trees = [] ↔ Blanks trees := by
  induction trees with
  | nil => simp [Blanks]
  | cons tree trees inductionHypothesis =>
      rw [condenseAll, List.append_eq_nil_iff, inductionHypothesis, Blanks, Blanks,
        List.forall_mem_cons]
      refine and_congr ?_ Iff.rfl
      cases tree with
      | leaf token => cases trivial : token.isTrivia <;> simp [condense?, isTrivia, trivial]
      | node rule children => simp [condense?, isTrivia]

theorem condenseAll_map_leaf
    {blanks : List Token}
    (trivial : ∀ token ∈ blanks, token.isTrivia = true) :
    condenseAll (blanks.map .leaf) = [] := by
  rw [condenseAll_eq_nil]
  intro tree present
  obtain ⟨token, listed, rfl⟩ := List.mem_map.1 present
  exact trivial token listed

end Tree

namespace Grammar

variable {grammar : Grammar}

section Unmocked

variable (unmocked : grammar.mocked = [])
include unmocked

/-- Behind the first operand of a layer stands an operator, or nothing at all. -/
theorem exists_first_of_derives
    {rule : Rule}
    {cursor after : Cursor}
    {trees : List Tree}
    (collapses : rule.collapses = true)
    (derived : grammar.Derives (grammar.pattern rule) cursor trees after) :
    ∃ (first : Node) (others : List Tree), trees = first.toTree :: others ∧
      (Blanks others → others = []) := by
  rw [pattern_eq unmocked] at derived
  have leaves := leaves_expressions unmocked
  rcases Rule.kind_of_mem_expressions (Rule.mem_expressions_of_collapses collapses) with
    ⟨layer, rfl⟩ | rfl | rfl | rfl
  · obtain ⟨first, others, equal, _, chain⟩ :=
      exists_of_derives_layer (leaves layer.operand (by cases layer <;> decide)) derived
    refine ⟨first, others, equal, fun blanks => Classical.byContradiction fun several => ?_⟩
    obtain ⟨operator, present, isOperator⟩ := chain.exists_operator several
    have trivial : operator.isTrivia = true := blanks _ present
    rw [isTrivia_of_isAnyPunctuator isOperator] at trivial
    cases trivial
  · obtain ⟨_, condition, others, equal, _, optional⟩ :=
      exists_of_derives_conditional (leaves .logicalOrExpression (by decide)) derived
    refine ⟨condition, others, equal, fun blanks => ?_⟩
    cases optional with
    | preferred derived =>
        obtain ⟨_, _, last, rfl, _, refused⟩ := exists_of_derives_append derived
        obtain ⟨node, rfl, _⟩ := leaves .conditionalExpression (by decide) _ _ _ refused
        exact absurd (List.mem_append_right _ List.mem_cons_self) (blanks.not_mem node)
    | alternative derived =>
        cases derived
        rfl
  · cases derived with
    | preferred derived =>
        obtain ⟨_, _, last, rfl, derived, operand⟩ := exists_of_derives_append derived
        obtain ⟨_, _, between, rfl, front, _⟩ := exists_of_derives_append derived
        obtain ⟨sign, rfl, _⟩ := exists_of_derives_rule rfl front
        obtain ⟨node, rfl, _⟩ := leaves_unaryExpression unmocked _ _ _ operand
        refine ⟨sign, between ++ [node.toTree], by simp, fun blanks => ?_⟩
        exact absurd (List.mem_append_right _ List.mem_cons_self) (blanks.not_mem node)
    | alternative derived =>
        obtain ⟨node, rfl, _⟩ := leaves_primaryExpression unmocked _ _ _ derived
        exact ⟨node, [], rfl, fun _ => rfl⟩
  · cases collapses

/-- White space between the trees that a rule reads does not matter for the node it makes. -/
theorem condense_build
    {rule : Rule}
    {cursor after place last : Cursor}
    {trees others : List Tree}
    (derived : grammar.Derives (grammar.pattern rule) cursor trees after)
    (otherDerived : grammar.Derives (grammar.pattern rule) place others last)
    (alike : Tree.condenseAll trees = Tree.condenseAll others) :
    (rule.build trees).condense = (rule.build others).condense := by
  cases collapses : rule.collapses with
  | false => simp [build_eq collapses, Node.condense, alike]
  | true =>
      obtain ⟨first, more, rfl, alone⟩ := exists_first_of_derives unmocked collapses derived
      obtain ⟨otherFirst, further, rfl, otherAlone⟩ :=
        exists_first_of_derives unmocked collapses otherDerived
      have equal := alike
      rw [Tree.condenseAll_toTree, Tree.condenseAll_toTree, List.cons.injEq] at equal
      obtain ⟨sameFirst, sameOthers⟩ := equal
      have own (node : Node) {others : List Tree} (several : others ≠ []) :
          rule.build (node.toTree :: others) = ⟨rule, node.toTree :: others⟩ := by
        cases others with
        | nil => contradiction
        | cons tree others => rfl
      have given (node : Node) : rule.build [node.toTree] = node := by
        simp [Rule.build, Node.toTree, collapses]
      by_cases single : more = []
      · subst single
        rw [Tree.condenseAll_nil, eq_comm, Tree.condenseAll_eq_nil] at sameOthers
        rw [otherAlone sameOthers, given, given]
        exact Node.toTree_injective sameFirst
      · have several : further ≠ [] := by
          rintro rfl
          rw [Tree.condenseAll_nil, Tree.condenseAll_eq_nil] at sameOthers
          exact single (alone sameOthers)
        rw [own first single, own otherFirst several, Node.condense, Node.condense, alike]

end Unmocked

/-! ## Two lines with the same content -/

namespace Layout

/-- What is known of a pair of places in two lines with the same content. -/
inductive Footing where
  /-- The same content is left, and all white space and comments have been skipped. -/
  | settled
  /-- The same content is left. -/
  | loose
  /-- There is no such pair of places. -/
  | never

/-- What was read in two lines has the same outline, and so has what is left of them. -/
structure Alike
    (line other : List Token)
    (found matching : List Tree × Cursor) : Prop where
  /-- The one place is in the one line. -/
  reached : Reached line found.2
  /-- The other place is in the other line. -/
  otherReached : Reached other matching.2
  /-- White space and comments apart, the trees are the same. -/
  trees : Tree.condenseAll found.1 = Tree.condenseAll matching.1
  /-- White space and comments apart, the same tokens are left. -/
  content : found.2.rest.filter Token.isContent = matching.2.rest.filter Token.isContent

/-- Which readings of two lines with the same content correspond. -/
def Meets (line other : List Token) :
    Footing → List Tree × Cursor → List Tree × Cursor → Prop
  | .settled, found, matching =>
    Alike line other found matching ∧ Significant found.2.rest ∧ Significant matching.2.rest
  | .loose, found, matching => Alike line other found matching
  | .never, _, _ => False

/-- The same is known of the places in both lines behind white space and comments. -/
def Remembers (line other : List Token) (failures others : Failures) : Prop :=
  ∀ rule cursor place, Meets line other .settled ([], cursor) ([], place) →
    failures.contains rule cursor.position = others.contains rule place.position

/-- Two lines with the same content, read side by side. -/
def alignment (line other : List Token) : Alignment Footing where
  meets := Meets line other
  related := Remembers line other

/-- These rules are tried behind white space and comments only, and leave them where they are. -/
def Signed (rules : List Rule) (rule : Rule) (before after : Footing) : Prop :=
  rule ∈ rules ∧ before = .settled ∧ after = .loose

section Lines

variable {line other : List Token} {signature : Rule → Footing → Footing → Prop}
variable {rules : List Rule}

/-- Behind white space, either the same token stands in both lines, or both of them end. -/
theorem Meets.next
    (inLine : InLine line)
    (otherInLine : InLine other)
    {cursor place : Cursor}
    (meets : Meets line other .settled ([], cursor) ([], place)) :
    (cursor.rest = [] ∧ place.rest = []) ∨
      ∃ token behind otherBehind, cursor.rest = token :: behind ∧
        place.rest = token :: otherBehind ∧ token.isContent = true ∧
        behind.filter Token.isContent = otherBehind.filter Token.isContent := by
  obtain ⟨⟨reached, otherReached, _, content⟩, significant, otherSignificant⟩ := meets
  replace inLine := reached.inLine inLine
  replace otherInLine := otherReached.inLine otherInLine
  simp only at content significant otherSignificant inLine otherInLine
  cases here : cursor.rest with
  | nil =>
      rw [here, List.filter_nil] at content
      cases there : place.rest with
      | nil => exact .inl ⟨rfl, rfl⟩
      | cons token behind =>
          rw [there] at content otherSignificant otherInLine
          rw [List.filter_cons_of_pos (otherInLine.isContent otherSignificant)] at content
          cases content
  | cons token behind =>
      rw [here] at content significant inLine
      have isContent := inLine.isContent significant
      rw [List.filter_cons_of_pos isContent] at content
      cases there : place.rest with
      | nil =>
          rw [there] at content
          cases content
      | cons otherToken otherBehind =>
          rw [there] at content otherSignificant otherInLine
          rw [List.filter_cons_of_pos (otherInLine.isContent otherSignificant),
            List.cons.injEq] at content
          obtain ⟨rfl, content⟩ := content
          exact .inr ⟨token, behind, otherBehind, rfl, rfl, isContent, content⟩

theorem Remembers.insert
    (inLine : InLine line)
    (otherInLine : InLine other)
    {failures others : Failures}
    {cursor place : Cursor}
    (remembers : Remembers line other failures others)
    (meets : Meets line other .settled ([], cursor) ([], place))
    (rule : Rule) :
    Remembers line other (failures.insert rule cursor.position)
      (others.insert rule place.position) := by
  intro asked here there asks
  have same : cursor.position = here.position ↔ place.position = there.position := by
    obtain ⟨alike, significant, otherSignificant⟩ := meets
    obtain ⟨asksAlike, asksSignificant, asksOther⟩ := asks
    constructor
    · intro position
      have rest := alike.reached.rest_eq asksAlike.reached position
      have content := alike.content.symm.trans ((congrArg _ rest).trans asksAlike.content)
      exact congrArg Cursor.position (alike.otherReached.unique otherInLine asksAlike.otherReached
        otherSignificant asksOther content)
    · intro position
      have rest := alike.otherReached.rest_eq asksAlike.otherReached position
      have content := alike.content.trans ((congrArg _ rest).trans asksAlike.content.symm)
      exact congrArg Cursor.position (alike.reached.unique inLine asksAlike.reached significant
        asksSignificant content)
  rw [Failures.contains_insert, Failures.contains_insert, remembers asked here there asks]
  simp only [same]

theorem lawful (line other : List Token) : (alignment line other).Lawful where
  forget {footing found matching} meets := by
    have forget (alike : Alike line other found matching) :
        Alike line other ([], found.2) ([], matching.2) := { alike with trees := rfl }
    cases footing with
    | settled => exact ⟨forget meets.1, meets.2⟩
    | loose => exact forget meets
    | never => exact meets.elim
  join {before after trees cursor others place more last further otherLast} first _ _ second := by
    have early : Tree.condenseAll trees = Tree.condenseAll others := by
      cases before with
      | settled => exact first.1.trees
      | loose => exact first.trees
      | never => exact first.elim
    have join (late : Alike line other (more, last) (further, otherLast)) :
        Alike line other (trees ++ more, last) (others ++ further, otherLast) :=
      { late with trees := by rw [Tree.condenseAll_append, early, late.trees,
          Tree.condenseAll_append] }
    cases after with
    | settled => exact ⟨join second.1, second.2⟩
    | loose => exact join second
    | never => exact second.elim

/-- White space and comments are no content. -/
theorem filter_isContent_trivia (cursor : Cursor) :
    cursor.trivia.2.rest.filter Token.isContent = cursor.rest.filter Token.isContent := by
  have silent : cursor.trivia.1.filter Token.isContent = [] :=
    filter_isContent_eq_nil fun _ => Cursor.isTrivia_of_mem_trivia
  rw [← Cursor.trivia_append cursor, List.filter_append, silent, List.nil_append]

/-- White space and comments are skipped in both lines. -/
theorem leads_trivia :
    (alignment line other).Leads grammar signature .loose .settled .trivia := by
  refine .step rfl fun cursor place starts => ?_
  obtain ⟨reached, otherReached, _, content⟩ := starts
  rw [treesAt?_trivia_eq, treesAt?_trivia_eq]
  have further := reached.advances cursor.advances_trivia
  have otherFurther := otherReached.advances place.advances_trivia
  refine .some ⟨⟨further, otherFurther, ?_, ?_⟩, significant_dropWhile _, significant_dropWhile _⟩
  · rw [Tree.condenseAll_map_leaf fun _ => Cursor.isTrivia_of_mem_trivia,
      Tree.condenseAll_map_leaf fun _ => Cursor.isTrivia_of_mem_trivia]
  · rw [filter_isContent_trivia, filter_isContent_trivia]
    exact content

section Step

variable (inLine : InLine line) (otherInLine : InLine other)
include inLine otherInLine

/-- Behind white space, both lines go on with the same token, if at all. -/
theorem leads_token (accepts : Token → Bool) :
    (alignment line other).Leads grammar signature .settled .loose (.token accepts) := by
  refine .step rfl fun cursor place starts => ?_
  obtain ⟨position, rest⟩ := cursor
  obtain ⟨otherPosition, otherRest⟩ := place
  obtain ⟨rfl, rfl⟩ | ⟨token, behind, otherBehind, rfl, rfl, isContent, content⟩ :=
    Meets.next inLine otherInLine starts
  · exact .none
  · have readable := readable_of_isContent isContent
    have reads (position : Nat) (behind : List Token) :
        grammar.treesAt? (.token accepts) ⟨position, token :: behind⟩ =
          if accepts token then some ([.leaf token], ⟨position + 1, behind⟩) else none := by
      rw [treesAt?_token_cons, if_neg readable]
    have advances (position : Nat) (behind : List Token) :
        Cursor.Advances ⟨position, token :: behind⟩ [token] ⟨position + 1, behind⟩ :=
      ⟨rfl, rfl, by simpa using readable⟩
    rw [reads, reads]
    split
    next =>
      exact .some ⟨starts.1.reached.advances (advances _ _),
        starts.1.otherReached.advances (advances _ _), rfl, content⟩
    next => exact .none

/-- A word that does not occur is not read. -/
theorem leads_hasIncludeExpression
    (noTest : ∀ token ∈ line, token.isInclusionTest = false) :
    (alignment line other).Leads grammar signature .settled .loose .hasIncludeExpression := by
  have word : (alignment line other).Leads grammar signature .settled .never
      (.word ["__has_include", "__has_include_next"]) := by
    refine .step rfl fun cursor place starts => ?_
    obtain ⟨front, early⟩ := starts.1.reached
    obtain ⟨position, rest⟩ := cursor
    obtain ⟨otherPosition, otherRest⟩ := place
    obtain ⟨rfl, rfl⟩ | ⟨token, behind, otherBehind, rfl, rfl, isContent, _⟩ :=
      Meets.next inLine otherInLine starts
    · exact .none
    · have refused : token.isInclusionTest = false := by
        refine noTest token ?_
        have whole : line = front ++ token :: behind := early.rest
        simp [whole]
      have fails (position : Nat) (behind : List Token) :
          grammar.treesAt? (.word ["__has_include", "__has_include_next"])
            ⟨position, token :: behind⟩ = none := by
        rw [Pattern.word, treesAt?_token_cons, if_neg (readable_of_isContent isContent)]
        exact if_neg (by simpa [Token.isInclusionTest] using refused)
      rw [fails, fails]
      exact .none
  have never (after : Footing) (pattern : Pattern) :
      (alignment line other).Leads grammar signature .never after pattern :=
    .never after pattern fun _ _ starts => starts
  exact (((((word.sequence (never .never _)).sequence (never .never _)).sequence
    (never .never _)).sequence (never .never _)).sequence (never .never _)).sequence
    (never .loose _)

/-- White space leads from any place to the next content token. -/
theorem skips :
    (alignment line other).Skips grammar signature .settled .loose .loose where
  loosen meets := meets
  unsettle meets := meets.1
  trivia := leads_trivia
  token := leads_token inLine otherInLine

/-- Rules that treat both lines alike are read alike in two lines with the same content. -/
theorem sound_of_leads
    (unmocked : grammar.mocked = [])
    (leads : ∀ rule ∈ rules,
      (alignment line other).Leads grammar (Signed rules) .settled .loose rule.pattern) :
    (alignment line other).Sound grammar (Signed rules) where
  toLawful := lawful line other
  known := by
    rintro rule _ _ cursor place failures others ⟨_, rfl, rfl⟩ starts remembers
    exact remembers rule cursor place starts
  noted := by
    rintro rule _ _ cursor place failures others ⟨_, rfl, rfl⟩ starts remembers
    exact Remembers.insert inLine otherInLine remembers starts rule
  body := by
    rintro rule _ _ ⟨listed, rfl, rfl⟩
    rw [pattern_eq unmocked]
    refine ⟨.loose, leads rule listed, ?_⟩
    intro cursor place trees last others otherLast _ derived otherDerived alike
    rw [← pattern_eq unmocked] at derived otherDerived
    refine { (alike : Alike line other _ _) with trees := ?_ }
    rw [Tree.condenseAll_toTree, Tree.condenseAll_toTree,
      condense_build unmocked derived otherDerived alike.trees, Tree.condenseAll_nil]

/-- Every rule that may occur in a condition treats both lines alike. -/
theorem leads_pattern
    (noTest : ∀ token ∈ line, token.isInclusionTest = false)
    {rule : Rule}
    (listed : rule ∈ Rule.ofConditions) :
    (alignment line other).Leads grammar (Signed Rule.ofConditions) .settled .loose
      rule.pattern := by
  have skips : (alignment line other).Skips grammar (Signed Rule.ofConditions)
      .settled .loose .loose :=
    skips inLine otherInLine
  have called : ∀ rule ∈ Rule.ofConditions, rule ≠ .argumentList →
      Signed Rule.ofConditions rule .settled .loose :=
    fun rule listed _ => ⟨listed, rfl, rfl⟩
  have inCalls : Rule.ofCalls ⊆ Rule.ofConditions := by decide
  by_cases isList : rule = .argumentList
  · rw [isList]
    exact skips.argumentList fun rule listed => called rule (inCalls listed)
  · exact skips.ofConditions called ⟨by decide, rfl, rfl⟩
      (leads_hasIncludeExpression inLine otherInLine noTest) listed isList

/-- Conditions are read alike in two lines with the same content. -/
theorem sound
    (unmocked : grammar.mocked = [])
    (noTest : ∀ token ∈ line, token.isInclusionTest = false) :
    (alignment line other).Sound grammar (Signed Rule.ofConditions) :=
  sound_of_leads inLine otherInLine unmocked fun _ listed =>
    leads_pattern inLine otherInLine noTest listed

end Step

/-- The rest of a line closes the input if there is nothing but white space and comments in it. -/
theorem closing?_eq_ite
    {cursor : Cursor}
    (inLine : InLine cursor.rest) :
    closing? cursor =
      if cursor.rest.filter Token.isContent = [] then some cursor.rest else none := by
  have parts := cursor.trivia_append
  have trivial (token : Token) := @Cursor.isTrivia_of_mem_trivia cursor token
  have significant : Significant cursor.trivia.2.rest := significant_dropWhile _
  rw [← parts] at inLine ⊢
  unfold closing?
  generalize cursor.trivia = split at trivial significant inLine ⊢
  obtain ⟨blanks, position, rest⟩ := split
  rw [List.filter_append, filter_isContent_eq_nil trivial, List.nil_append]
  cases rest with
  | nil => simp [Cursor.bump?]
  | cons token rest =>
      have inLineRest := (InLine.append_iff.1 inLine).2
      have isContent := inLineRest.isContent significant
      have noFeed := inLineRest.noFeed token List.mem_cons_self
      simp [Cursor.bump?, inLineRest.readable token List.mem_cons_self, noFeed,
        List.filter_cons_of_pos isContent]

/-- A root has the children that its rule read; the white space around them is left out. -/
theorem condense_root
    {leading trailing : List Token}
    (blanksBefore : ∀ token ∈ leading, token.isTrivia = true)
    (blanksBehind : ∀ token ∈ trailing, token.isTrivia = true)
    (rule : Rule)
    (node : Node) :
    (Node.mk rule (leading.map .leaf ++ (if node.rule = rule then node.children
      else [node.toTree]) ++ trailing.map .leaf)).condense =
      ⟨rule, if node.condense.rule = rule then node.condense.children
        else [node.condense.toTree]⟩ := by
  have rules : node.condense.rule = node.rule := rfl
  rw [Node.condense, Tree.condenseAll_append, Tree.condenseAll_append,
    Tree.condenseAll_map_leaf blanksBefore, Tree.condenseAll_map_leaf blanksBehind, rules]
  split <;> simp [Node.condense]

/-- The first content token of both lines stands behind white space. -/
theorem meets_start (content : line.filter Token.isContent = other.filter Token.isContent) :
    Meets line other .settled ([], (Cursor.ofTokens line).trivia.2)
      ([], (Cursor.ofTokens other).trivia.2) := by
  have here := (Cursor.ofTokens line).advances_trivia
  have there := (Cursor.ofTokens other).advances_trivia
  refine ⟨⟨⟨_, here⟩, ⟨_, there⟩, rfl, ?_⟩, significant_dropWhile _, significant_dropWhile _⟩
  rw [filter_isContent_trivia, filter_isContent_trivia]
  exact content

/-- Two lines with the same content have parses with the same outline. -/
theorem condense_parseTokens
    (unmocked : grammar.mocked = [])
    (inLine : InLine line)
    (otherInLine : InLine other)
    (content : line.filter Token.isContent = other.filter Token.isContent)
    (noTest : ∀ token ∈ line, token.isInclusionTest = false)
    {rule : Rule}
    (listed : rule ∈ Rule.ofConditions) :
    (grammar.parseTokens rule line).map Node.condense =
      (grammar.parseTokens rule other).map Node.condense := by
  have nothing : Remembers line other .empty .empty := fun _ _ _ _ => by simp
  have alike := ((sound inLine otherInLine unmocked noTest).corresponds_rule grammar.maxDepth
    ⟨listed, rfl, rfl⟩ _ _ _ _ (meets_start content) nothing).1
  rw [Pattern.read_rule, Pattern.read_rule] at alike
  unfold parseTokens rootOf?
  simp only
  generalize (grammar.readRule grammar.maxDepth rule _ _).1 = reading at alike ⊢
  generalize (grammar.readRule grammar.maxDepth rule _ _).1 = otherReading at alike ⊢
  rcases reading with _ | ⟨node, after⟩ <;> rcases otherReading with _ | ⟨otherNode, last⟩ <;>
    cases alike
  · rfl
  next alike =>
    obtain ⟨reached, otherReached, trees, left⟩ := alike
    have inLineAfter := reached.inLine inLine
    have inLineLast := otherReached.inLine otherInLine
    simp only [Tree.condenseAll_toTree, List.cons.injEq] at trees left inLineAfter inLineLast
    simp only [closing?_eq_ite inLineAfter, closing?_eq_ite inLineLast]
    have same := Node.toTree_injective trees.1
    have leading {cursor : Cursor} (token : Token) :=
      @Cursor.isTrivia_of_mem_trivia cursor token
    by_cases closed : last.rest.filter Token.isContent = []
    · have trailing := inLineAfter.isTrivia_of_filter_eq_nil (left.trans closed)
      have otherTrailing := inLineLast.isTrivia_of_filter_eq_nil closed
      rw [left, if_pos closed, if_pos closed, Option.map_some, Option.map_some,
        condense_root leading trailing, condense_root leading otherTrailing, same]
    · rw [left, if_neg closed, if_neg closed]

end Lines
end Layout

/-- Without line feeds, the content of the first line is all there is. -/
theorem filter_isContent_firstLine
    {tokens : List Token}
    (noFeed : ∀ token ∈ tokens, token.kind ≠ .newline) :
    (firstLine tokens).filter Token.isContent = contentTokens tokens := by
  induction tokens with
  | nil => rfl
  | cons token tokens inductionHypothesis =>
      rw [List.forall_mem_cons] at noFeed
      have behind := inductionHypothesis noFeed.2
      by_cases last : token.kind = .endOfInput
      · simp [firstLine, contentTokens, Cursor.upcoming, Cursor.ofTokens, Token.isLineEnd, last,
          TokenKind.isLineEnd]
      · have notEnd : token.isLineEnd = false := by
          cases kind : token.kind <;> simp_all [Token.isLineEnd, TokenKind.isLineEnd]
        rw [firstLine, List.takeWhile_cons_of_pos (by simp [notEnd]), contentTokens,
          upcoming_cons last, List.filter_cons, List.filter_cons]
        rw [firstLine, contentTokens] at behind
        rw [behind]

theorem contentTokens_relocate (move : Location → Location) (tokens : List Token) :
    contentTokens (tokens.map (Token.relocate move)) =
      (contentTokens tokens).map (Token.relocate move) := by
  rw [contentTokens, contentTokens, Cursor.upcoming, Cursor.upcoming, Cursor.ofTokens,
    Cursor.ofTokens, List.takeWhile_map, List.filter_map]
  rfl

/-- Without line feeds, an outline is made in the first line, with its tokens moved anywhere. -/
theorem outline_parseTokens
    (grammar : Grammar)
    (rule : Rule)
    {tokens : List Token}
    (noFeed : ∀ token ∈ tokens, token.kind ≠ .newline) :
    (grammar.parseTokens rule tokens).map Node.outline =
      (grammar.parseTokens rule
        (firstLine (tokens.map (Token.relocate fun _ => .unknown)))).map Node.condense := by
  have noFeedMoved : ∀ token ∈ tokens.map (Token.relocate fun _ => .unknown),
      token.kind ≠ .newline := by
    rw [List.forall_mem_map]
    exact noFeed
  rw [parseTokens_firstLine grammar rule noFeedMoved, parseTokens_relocate, Option.map_map]
  rfl

/--
White space and comments do not matter in conditions.  Two token lists without
line feeds that say the same, token by token, are both conditions or neither of
them is, and their trees differ in white space, comments and locations at most.
Only the tests for headers are not to occur.
-/
theorem outline_parseTokens_constantExpression
    (unmocked : grammar.mocked = [])
    {tokens others : List Token}
    (noFeed : ∀ token ∈ tokens, token.kind ≠ .newline)
    (otherNoFeed : ∀ token ∈ others, token.kind ≠ .newline)
    (alike : (contentTokens tokens).map Token.kindAndText =
      (contentTokens others).map Token.kindAndText)
    (noTest : ∀ token ∈ contentTokens tokens, token.isInclusionTest = false) :
    (grammar.parseTokens .constantExpression tokens).map Node.outline =
      (grammar.parseTokens .constantExpression others).map Node.outline := by
  let elsewhere : Token → Token := Token.relocate fun _ => .unknown
  have contentOf {tokens : List Token} (noFeed : ∀ token ∈ tokens, token.kind ≠ .newline) :
      (firstLine (tokens.map elsewhere)).filter Token.isContent =
        (contentTokens tokens).map elsewhere := by
    rw [filter_isContent_firstLine (by rw [List.forall_mem_map]; exact noFeed),
      contentTokens_relocate]
  have moved : (contentTokens tokens).map elsewhere = (contentTokens others).map elsewhere :=
    Token.map_relocate_of_kindAndText alike .unknown
  have noTestMoved : ∀ token ∈ firstLine (tokens.map elsewhere), token.isInclusionTest = false := by
    intro token present
    rw [Bool.eq_false_iff]
    intro isTest
    have isContent := Token.isContent_of_isIdentifier (Bool.and_eq_true_iff.1 isTest).1
    have listed := List.mem_filter.2 ⟨present, isContent⟩
    rw [contentOf noFeed, List.mem_map] at listed
    obtain ⟨original, here, rfl⟩ := listed
    rw [show (elsewhere original).isInclusionTest = original.isInclusionTest from rfl,
      noTest original here] at isTest
    cases isTest
  rw [outline_parseTokens grammar _ noFeed, outline_parseTokens grammar _ otherNoFeed]
  exact Layout.condense_parseTokens unmocked (inLine_firstLine _) (inLine_firstLine _)
    ((contentOf noFeed).trans (moved.trans (contentOf otherNoFeed).symm)) noTestMoved (by decide)

/-- A comment between an operator and its operand, and one behind them. -/
theorem outline_parseTokens_constantExpression_comments :
    let bang : Token := ⟨.punctuator .bang, "!", .unknown⟩
    let name : Token := ⟨.identifier, "A", .unknown⟩
    let comment : Token := ⟨.comment .block, "/* c */", .unknown⟩
    let tree : Node := ⟨.constantExpression,
      [.node .unaryExpression [.node .unaryOperator [.leaf bang],
        .node .primaryExpression [.leaf name]]]⟩
    Grammar.standard.parseTokens .constantExpression [bang, name] = some tree ∧
      (Grammar.standard.parseTokens .constantExpression
        [bang, comment, name, comment]).map Node.outline = some tree := by
  intro bang name comment tree
  have parsed : Grammar.standard.parseTokens .constantExpression [bang, name] = some tree := by
    decide +kernel
  refine ⟨parsed, ?_⟩
  rw [← outline_parseTokens_constantExpression rfl (show ∀ token ∈ [bang, name], _ by decide)
    (by decide) (by decide) (by decide), parsed]
  decide

end Grammar
end PreprocessorSyntax
