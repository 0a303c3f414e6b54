import PreprocessorSyntax.Proofs.Directive.Relocation
import PreprocessorSyntax.Proofs.Directive.Shapes
import PreprocessorSyntax.Proofs.Line.Dispatch
import PreprocessorSyntax.Proofs.Line.Isolation

/-!
# The two directives with a condition

The rules for `if` and for `elif` differ in one word.  Behind that word both
read the same pattern at the same place, with the same number of levels left
and nothing known of that place, so they accept the same conditions.  This also
holds where the rules are tried among all other alternatives, since none of
these notes anything behind the place where the line starts.
-/

namespace PreprocessorSyntax

/-- What stands behind the directive name in a line with a condition. -/
def Pattern.conditionBehind : Pattern :=
  .trivia ++ .rule .constantExpression ++ .endOfLine

/-- The rule that reads a directive line, given the root of its parse. -/
def Node.lineRule? (root : Node) : Option Rule :=
  root.childNodes.head?.map Node.rule

/-- Two roots stand for directives with the same condition, wherever its tokens stand. -/
def SameCondition (root other : Node) : Prop :=
  ∃ here there, Directive.ofNode root = .ok (.ifTrue here) ∧
    Directive.ofNode other = .ok (.elifTrue there) ∧
    here.relocate (fun _ => .unknown) = there.relocate (fun _ => .unknown)

/-- A root is a line of some rule, or it wraps one, and there is a condition in this line. -/
def HasCondition (rule : Rule) (root condition : Node) : Prop :=
  (root.rule = rule ∧ root.child? .constantExpression = some condition) ∨
    (root.rule = .preprocessorLine ∧ ∃ line, root.childNodes = [line] ∧ line.rule = rule ∧
      line.child? .constantExpression = some condition)

namespace HasCondition

variable {rule : Rule} {root other condition : Node}

theorem ofNode_if (has : HasCondition .ifLine root condition) :
    Directive.ofNode root = .ok (.ifTrue condition) := by
  rcases has with ⟨isLine, found⟩ | ⟨wraps, line, children, isLine, found⟩
  · simp [Directive.ofNode, Directive.ofLine, isLine, found]
  · simp [Directive.ofNode, Directive.ofLine, wraps, children, isLine, found]

theorem ofNode_elif (has : HasCondition .elifLine root condition) :
    Directive.ofNode root = .ok (.elifTrue condition) := by
  rcases has with ⟨isLine, found⟩ | ⟨wraps, line, children, isLine, found⟩
  · simp [Directive.ofNode, Directive.ofLine, isLine, found]
  · simp [Directive.ofNode, Directive.ofLine, wraps, children, isLine, found]

/-- If only locations differ, they differ in the condition only. -/
theorem moved
    {move : Location → Location}
    (has : HasCondition rule root condition)
    (same : other.relocate move = root.relocate move) :
    ∃ there, HasCondition rule other there ∧ there.relocate move = condition.relocate move := by
  have below {node other found : Node}
      (same : other.relocate move = node.relocate move)
      (here : node.child? .constantExpression = some found) :
      ∃ there, other.child? .constantExpression = some there ∧
        there.relocate move = found.relocate move := by
    have moved := congrArg (Node.child? · .constantExpression) same
    simp only [Node.child?_relocate, here, Option.map_some] at moved
    exact Option.map_eq_some_iff.1 moved
  have sameRule : other.rule = root.rule := by simpa using congrArg Node.rule same
  rcases has with ⟨isLine, found⟩ | ⟨wraps, line, children, isLine, found⟩
  · obtain ⟨there, foundThere, equal⟩ := below same found
    exact ⟨there, .inl ⟨sameRule.trans isLine, foundThere⟩, equal⟩
  · have moved := congrArg Node.childNodes same
    rw [Node.childNodes_relocate, Node.childNodes_relocate, children, List.map_singleton] at moved
    obtain ⟨otherLine, otherChildren, equalLine⟩ := List.map_eq_singleton_iff.1 moved
    obtain ⟨there, foundThere, equal⟩ := below equalLine found
    have sameLine : otherLine.rule = line.rule := by simpa using congrArg Node.rule equalLine
    exact ⟨there, .inr ⟨sameRule.trans wraps, otherLine, otherChildren, sameLine.trans isLine,
      foundThere⟩, equal⟩

theorem same
    {otherRoot there : Node}
    (has : HasCondition .ifLine root condition)
    (hasThere : HasCondition .elifLine otherRoot there)
    (equal : there.relocate (fun _ => .unknown) = condition.relocate (fun _ => .unknown)) :
    SameCondition root otherRoot :=
  ⟨condition, there, has.ofNode_if, hasThere.ofNode_elif, equal.symm⟩

end HasCondition

/-- If only locations differ, the same rule reads the line. -/
theorem Node.lineRule?_eq_of_relocate
    {move : Location → Location}
    {root other : Node}
    (same : other.relocate move = root.relocate move) :
    other.lineRule? = root.lineRule? := by
  have keeps (node : Node) : (node.relocate move).lineRule? = node.lineRule? := by
    rw [lineRule?, childNodes_relocate, List.head?_map, Option.map_map]
    rfl
  rw [← keeps other, same, keeps root]

/-- What corresponds to a tree corresponds to every tree that differs in locations only. -/
theorem rel_of_relocate
    {move : Location → Location}
    {related moved : Node → Node → Prop}
    {first second third : Option Node}
    (rel : Option.Rel related first second)
    (same : third.map (Node.relocate move) = second.map (Node.relocate move))
    (further : ∀ root other there, related root other → there.relocate move = other.relocate move →
      moved root there) :
    Option.Rel moved first third := by
  cases rel with
  | none =>
      rw [Option.map_none, Option.map_eq_none_iff] at same
      rw [same]
      exact .none
  | some relates =>
      obtain ⟨there, rfl, equal⟩ := Option.map_eq_some_iff.1 same
      exact .some (further _ _ _ relates equal)

namespace Grammar

variable {grammar : Grammar}

/-- Reading one pattern comes down to reading another one further on. -/
def ComesDownTo
    (grammar : Grammar)
    (levels : Nat)
    (cursor middle : Cursor)
    (front : List Tree)
    (pattern behind : Pattern) : Prop :=
  ∀ failures, pattern.read (grammar.readRule levels) cursor failures =
    ((behind.read (grammar.readRule levels) middle failures).1.map
        fun found => (front ++ found.1, found.2),
      (behind.read (grammar.readRule levels) middle failures).2)

/-- A pattern without rules notes nothing, so only what stands behind it is left. -/
theorem comesDownTo_append
    {first : Pattern}
    (callsNone : first.calls = [])
    {cursor middle : Cursor}
    {front : List Tree}
    (read : grammar.treesAt? first cursor = some (front, middle))
    (levels : Nat)
    (behind : Pattern) :
    grammar.ComesDownTo levels cursor middle front (first ++ behind) behind := by
  intro failures
  simp only [Pattern.append_eq, Pattern.read, read_of_calls_eq_nil grammar callsNone, read]
  rcases behind.read (grammar.readRule levels) middle failures with ⟨_ | found, later⟩ <;> rfl

/-- What is read next is read next on both sides. -/
theorem ComesDownTo.append
    {levels : Nat}
    {cursor middle : Cursor}
    {front : List Tree}
    {pattern behind : Pattern}
    (comesDown : grammar.ComesDownTo levels cursor middle front pattern behind)
    (last : Pattern) :
    grammar.ComesDownTo levels cursor middle front (pattern ++ last) (behind ++ last) := by
  intro failures
  simp only [Pattern.append_eq, Pattern.read, comesDown failures]
  rcases behind.read (grammar.readRule levels) middle failures with ⟨_ | ⟨trees, after⟩, later⟩
  · rfl
  · simp only [Option.map_some]
    rcases last.read (grammar.readRule levels) after later with ⟨_ | ⟨more, behindMore⟩, latest⟩
    · rfl
    · simp

theorem fst_readRule_zero (rule : Rule) (cursor : Cursor) (failures : Failures) :
    (grammar.readRule 0 rule cursor failures).1 = none := by
  rw [readRule]
  split <;> rfl

/-- Without levels, none of some rules matches. -/
theorem read_firstOf_zero
    (preferred : Rule)
    (others : List Rule)
    (cursor : Cursor)
    (failures : Failures) :
    ((Pattern.firstOf preferred others).read (grammar.readRule 0) cursor failures).1 = none := by
  induction others generalizing preferred failures with
  | nil => rw [Pattern.firstOf, Pattern.read_rule, fst_readRule_zero]; rfl
  | cons next others inductionHypothesis =>
      rw [read_firstOf_of_none (fst_readRule_zero preferred cursor failures)]
      exact inductionHypothesis next _

/-- Without two levels, no line can be read. -/
theorem parseTokens_line_of_lt
    (unmocked : grammar.mocked = [])
    (tokens : List Token)
    (shallow : grammar.maxDepth < 2) :
    grammar.parseTokens .preprocessorLine tokens = none := by
  have failed (start : Cursor) :
      (grammar.readRule grammar.maxDepth .preprocessorLine start .empty).1 = none := by
    obtain depth | depth : grammar.maxDepth = 0 ∨ grammar.maxDepth = 0 + 1 := by omega
    · rw [depth, fst_readRule_zero]
    · rw [depth, readRule_succ (Failures.contains_empty _ _), pattern_eq unmocked, Rule.pattern,
        Pattern.preprocessorLine, read_firstOf_zero]
      rfl
  unfold parseTokens rootOf?
  simp only [failed]

/-- What the rule for a line with a condition reads behind the name of the directive. -/
def condition? (grammar : Grammar) : Nat → Cursor → Pattern.Reading (List Tree)
  | 0, _ => none
  | levels + 1, cursor =>
    (Pattern.conditionBehind.read (grammar.readRule levels) cursor .empty).1

/-- There is a condition in what is read, whatever leaves stand around it. -/
theorem exists_condition_of_read
    {levels : Nat}
    {cursor after : Cursor}
    {trees : List Tree}
    (read : grammar.condition? levels cursor = some (trees, after)) :
    ∃ condition, ∀ (rule : Rule) (front back : List Token),
      (Node.mk rule (front.map .leaf ++ trees ++ back.map .leaf)).child? .constantExpression =
        some condition := by
  cases levels with
  | zero => cases read
  | succ levels =>
      have derived := derives_of_read (derives_of_readRule levels) _ (Prod.ext read rfl)
      have holds : grammar.Holds .conditionBehind [.constantExpression] :=
        (holds_rule rfl List.mem_cons_self).behind.append
      obtain ⟨called, listed, children, present⟩ := holds _ _ _ derived
      obtain rfl := List.mem_singleton.1 listed
      have isSome : ((trees.filterMap Tree.node?).find? fun child =>
          child.rule == .constantExpression).isSome = true := by
        rw [List.find?_isSome]
        exact ⟨⟨.constantExpression, children⟩, List.mem_filterMap.2 ⟨_, present, rfl⟩, rfl⟩
      obtain ⟨condition, found⟩ := Option.isSome_iff_exists.1 isSome
      refine ⟨condition, fun rule front back => ?_⟩
      rw [Node.child?, Node.childNodes, filterMap_node?_between, found]

section Line

variable {leading blanks behind : List Token} {hash keyword : Token} {rule : Rule}
variable (unmocked : grammar.mocked = [])
variable (isHash : hash.isPunctuator .hash = true)
variable (trivial : ∀ token ∈ blanks, token.isTrivia = true)
variable (isName : keyword.isIdentifier = true)
include unmocked isHash trivial isName

/-- A rule for lines with a condition reads its head, and then all such rules read the same. -/
theorem readRule_condition
    (pattern : rule.pattern = .conditionLine keyword.text)
    (keeps : rule.collapses = false)
    (levels position : Nat) :
    (grammar.readRule levels rule ⟨position, hash :: (blanks ++ keyword :: behind)⟩ .empty).1 =
      (grammar.condition? levels ⟨position + (blanks.length + 2), behind⟩).map fun found =>
        (⟨rule, (hash :: (blanks ++ [keyword])).map .leaf ++ found.1⟩, found.2) := by
  cases levels with
  | zero =>
      rw [readRule, Failures.contains_empty]
      rfl
  | succ levels =>
      have head : grammar.Reads (.directiveHead [keyword.text]) (hash :: (blanks ++ [keyword]))
          (.leaf hash :: (blanks.map .leaf ++ [.leaf keyword])) behind :=
        reads_directiveHead isHash trivial isName (List.mem_singleton_self keyword.text)
      have leaves : Tree.leaf hash :: (blanks.map .leaf ++ [.leaf keyword]) =
          (hash :: (blanks ++ [keyword])).map .leaf := by simp
      rw [leaves] at head
      have read := head position
      have whole : hash :: (blanks ++ [keyword]) ++ behind =
          hash :: (blanks ++ keyword :: behind) := by simp
      have long : (hash :: (blanks ++ [keyword])).length = blanks.length + 2 := by simp
      rw [whole, long] at read
      have comesDown : grammar.ComesDownTo levels ⟨position, hash :: (blanks ++ keyword :: behind)⟩
          ⟨position + (blanks.length + 2), behind⟩ ((hash :: (blanks ++ [keyword])).map .leaf)
          (.conditionLine keyword.text) .conditionBehind :=
        ((comesDownTo_append rfl read levels .trivia).append _).append _
      rw [readRule_succ (Failures.contains_empty _ _), pattern_eq unmocked, pattern,
        comesDown .empty, condition?, Option.map_map]
      exact congrArg (Option.map · _) (funext fun found => by simp [build_eq keeps])

variable (trivialLeading : ∀ token ∈ leading, token.isTrivia = true)
include trivialLeading

omit unmocked trivial isName in
/-- A line starts where its number sign stands. -/
theorem trivia_line (rest : List Token) :
    (Cursor.ofTokens (leading ++ hash :: rest)).trivia =
      (leading, ⟨leading.length, hash :: rest⟩) := by
  have notTrivia := Token.isTrivia_of_isPunctuator isHash
  simp [Cursor.trivia, Cursor.ofTokens, List.takeWhile_append_of_pos trivialLeading,
    List.dropWhile_append_of_pos trivialLeading, notTrivia]

/-- Lines with a condition are parsed alike, but for their names. -/
theorem parseTokens_condition
    (pattern : rule.pattern = .conditionLine keyword.text)
    (keeps : rule.collapses = false) :
    grammar.parseTokens rule (leading ++ hash :: (blanks ++ keyword :: behind)) =
      (grammar.condition? grammar.maxDepth
          ⟨leading.length + (blanks.length + 2), behind⟩).bind fun found =>
        (closing? found.2).map fun trailing =>
          ⟨rule, (leading ++ hash :: (blanks ++ [keyword])).map .leaf ++ found.1 ++
            trailing.map .leaf⟩ := by
  unfold parseTokens rootOf?
  rw [trivia_line isHash trivialLeading]
  simp only [readRule_condition unmocked isHash trivial isName pattern keeps]
  rcases grammar.condition? grammar.maxDepth _ with _ | ⟨trees, after⟩
  · rfl
  · simp only [Option.map_some, Option.bind_some]
    cases closing? after with
    | none => rfl
    | some trailing => simp

omit trivialLeading in
/-- The last rule takes the rest of a line, whatever the name of the directive is. -/
theorem readRule_misc (levels position : Nat) :
    (grammar.readRule (levels + 1) .miscLine
        ⟨position, hash :: (blanks ++ keyword :: behind)⟩ .empty).1 =
      some (⟨.miscLine, (hash :: (blanks ++ keyword :: firstLine behind)).map .leaf⟩,
        ⟨position + (blanks.length + 2) + (firstLine behind).length, behindFirstLine behind⟩) := by
  have callsNone : (grammar.pattern .miscLine).calls = [] := by
    rw [pattern_eq unmocked]
    rfl
  have front : grammar.treesAt? (.trivia ++ .symbol .hash)
      ⟨position, hash :: (blanks ++ keyword :: behind)⟩ =
        some ([.leaf hash], ⟨position + 1, blanks ++ keyword :: behind⟩) :=
    reads_hash isHash position
  have inLine : InLine (blanks ++ [keyword]) := by
    refine InLine.append_iff.2 ⟨fun token present => ?_, List.forall_mem_singleton.2 ?_⟩
    · exact isLineEnd_eq_false_of_isTrivia (trivial token present)
    · rw [Token.isLineEnd, Token.kind_of_isIdentifier isName]
      rfl
  have regroup : blanks ++ keyword :: behind = blanks ++ [keyword] ++ behind := by simp
  rw [readRule_of_calls_eq_nil callsNone (Failures.contains_empty _ _), pattern_eq unmocked,
    Rule.pattern, Pattern.miscLine, treesAt?_append, front, Option.bind_some,
    treesAt?_restOfLine, regroup, firstLine_append inLine, behindFirstLine_append inLine,
    Option.map_some, Option.map_some, build_eq rfl]
  simp
  omega

/-- Among all alternatives, the rule for the name reads the line, or else the last one does. -/
theorem parseTokens_line_condition
    (pattern : rule.pattern = .conditionLine keyword.text)
    (keeps : rule.collapses = false)
    (means : keyword.lineRule? = some rule)
    {levels : Nat}
    (depth : grammar.maxDepth = levels + 2) :
    grammar.parseTokens .preprocessorLine (leading ++ hash :: (blanks ++ keyword :: behind)) =
      match grammar.condition? (levels + 1) ⟨leading.length + (blanks.length + 2), behind⟩ with
      | some (trees, after) =>
        (closing? after).map fun trailing =>
          ⟨.preprocessorLine, leading.map .leaf ++
            .node rule ((hash :: (blanks ++ [keyword])).map .leaf ++ trees) ::
            trailing.map .leaf⟩
      | none =>
        (closing? ⟨leading.length + (blanks.length + 2) + (firstLine behind).length,
            behindFirstLine behind⟩).map fun trailing =>
          ⟨.preprocessorLine, leading.map .leaf ++
            .node .miscLine ((hash :: (blanks ++ keyword :: firstLine behind)).map .leaf) ::
            trailing.map .leaf⟩ := by
  have significant : Significant (keyword :: behind) :=
    significant_cons (Token.isTrivia_of_isIdentifier isName) behind
  have stands : (Cursor.mk leading.length (hash :: (blanks ++ keyword :: behind))).rest =
      hash :: (blanks ++ keyword :: behind) := rfl
  have chosen := read_preprocessorLine unmocked stands isHash trivial significant levels
  rw [List.head?_cons, Option.bind_some, means, Option.bind_some,
    readRule_condition unmocked isHash trivial isName pattern keeps,
    readRule_misc unmocked isHash trivial isName] at chosen
  have own (children : List Tree) : Rule.preprocessorLine.build children = ⟨_, children⟩ :=
    build_eq rfl children
  unfold parseTokens rootOf?
  rw [trivia_line isHash trivialLeading, depth]
  simp only [readRule_succ (Failures.contains_empty _ _), pattern_eq unmocked, Rule.pattern, chosen]
  rcases grammar.condition? (levels + 1) _ with _ | ⟨trees, after⟩
  · simp only [Option.map_none, Option.none_or, Option.map_some, own]
    cases closing? _ <;> simp [Node.toTree]
  · simp only [Option.map_some, Option.some_or, own]
    cases closing? after <;> simp [Node.toTree]

end Line

section Names

variable {leading blanks behind : List Token} {hash word other : Token}
variable (unmocked : grammar.mocked = [])
variable (isHash : hash.isPunctuator .hash = true)
variable (trivialLeading : ∀ token ∈ leading, token.isTrivia = true)
variable (trivial : ∀ token ∈ blanks, token.isTrivia = true)
variable (isIf : word.isWord "if" = true) (isElif : other.isWord "elif" = true)
include unmocked isHash trivialLeading trivial isIf isElif

/-- The two rules for lines with a condition match alike. -/
theorem parseTokens_ifLine_elifLine :
    Option.Rel (fun root otherRoot => ∃ condition,
        HasCondition .ifLine root condition ∧ HasCondition .elifLine otherRoot condition)
      (grammar.parseTokens .ifLine (leading ++ hash :: (blanks ++ word :: behind)))
      (grammar.parseTokens .elifLine (leading ++ hash :: (blanks ++ other :: behind))) := by
  rw [Token.isWord, Bool.and_eq_true, beq_iff_eq] at isIf isElif
  rw [parseTokens_condition unmocked isHash trivial isIf.1 trivialLeading (by rw [isIf.2]; rfl) rfl,
    parseTokens_condition unmocked isHash trivial isElif.1 trivialLeading (by rw [isElif.2]; rfl)
      rfl]
  cases read : grammar.condition? grammar.maxDepth
      ⟨leading.length + (blanks.length + 2), behind⟩ with
  | none => exact .none
  | some found =>
      obtain ⟨condition, has⟩ := exists_condition_of_read read
      simp only [Option.bind_some]
      cases closing? found.2 with
      | none => exact .none
      | some trailing => exact .some ⟨condition, .inl ⟨rfl, has _ _ _⟩, .inl ⟨rfl, has _ _ _⟩⟩

/-- The rule for all lines reads the two lines alike. -/
theorem parseTokens_preprocessorLine_alike :
    Option.Rel (fun root otherRoot =>
        (root.lineRule? = some .ifLine ∧ otherRoot.lineRule? = some .elifLine ∧ ∃ condition,
          HasCondition .ifLine root condition ∧ HasCondition .elifLine otherRoot condition) ∨
        (root.lineRule? = some .miscLine ∧ otherRoot.lineRule? = some .miscLine))
      (grammar.parseTokens .preprocessorLine (leading ++ hash :: (blanks ++ word :: behind)))
      (grammar.parseTokens .preprocessorLine (leading ++ hash :: (blanks ++ other :: behind))) := by
  by_cases shallow : grammar.maxDepth < 2
  · rw [parseTokens_line_of_lt unmocked _ shallow, parseTokens_line_of_lt unmocked _ shallow]
    exact .none
  obtain ⟨levels, depth⟩ : ∃ levels, grammar.maxDepth = levels + 2 :=
    ⟨grammar.maxDepth - 2, by omega⟩
  rw [Token.isWord, Bool.and_eq_true, beq_iff_eq] at isIf isElif
  have means {word : Token} {name : String} (named : word.isIdentifier = true ∧ word.text = name) :
      word.lineRule? = Rule.ofDirectiveName? name := by
    rw [Token.lineRule?, if_pos named.1, named.2]
  have wraps (trailing : List Token) (line : Node) :
      Node.childNodes
          ⟨.preprocessorLine, leading.map .leaf ++ line.toTree :: trailing.map .leaf⟩ =
        [line] := by
    have nodes := filterMap_node?_between leading trailing [line.toTree]
    simpa [Node.childNodes, Tree.node?, Node.toTree] using nodes
  have lineRule (trailing : List Token) (line : Node) :
      (Node.mk .preprocessorLine
        (leading.map .leaf ++ line.toTree :: trailing.map .leaf)).lineRule? = some line.rule := by
    rw [Node.lineRule?, wraps]
    rfl
  rw [parseTokens_line_condition unmocked isHash trivial isIf.1 trivialLeading
      (by rw [isIf.2]; rfl) rfl (means isIf) depth,
    parseTokens_line_condition unmocked isHash trivial isElif.1 trivialLeading
      (by rw [isElif.2]; rfl) rfl (means isElif) depth]
  cases read : grammar.condition? (levels + 1)
      ⟨leading.length + (blanks.length + 2), behind⟩ with
  | none =>
      simp only
      cases closing? _ with
      | none => exact .none
      | some trailing => exact .some (.inr ⟨lineRule trailing ⟨_, _⟩, lineRule trailing ⟨_, _⟩⟩)
  | some found =>
      obtain ⟨trees, after⟩ := found
      obtain ⟨condition, has⟩ := exists_condition_of_read read
      have hasLine (rule : Rule) (front trailing : List Token) :
          HasCondition rule (Node.mk .preprocessorLine
            (leading.map .leaf ++ .node rule (front.map .leaf ++ trees) :: trailing.map .leaf))
            condition :=
        .inr ⟨rfl, _, wraps trailing ⟨_, _⟩, rfl, by simpa using has rule front []⟩
      simp only
      cases closing? after with
      | none => exact .none
      | some trailing =>
          exact .some (.inl ⟨lineRule trailing ⟨_, _⟩, lineRule trailing ⟨_, _⟩, condition,
            hasLine .ifLine _ _, hasLine .elifLine _ _⟩)

end Names

/--
The two directives accept the same conditions.  Let the first line have the name
`if`, and let another token list be written like it but for the name `elif`.
Then one rule matches the first list exactly if the other one matches the
second, alone or as the alternative chosen among all lines, the last rule is
left to take both or neither, and the directives have the same condition.
-/
theorem parseTokens_elif
    (unmocked : grammar.mocked = [])
    {leading blanks behind others : List Token}
    {hash word : Token}
    (isHash : hash.isPunctuator .hash = true)
    (trivialLeading : ∀ token ∈ leading, token.isTrivia = true)
    (trivial : ∀ token ∈ blanks, token.isTrivia = true)
    (isIf : word.isWord "if" = true)
    (alike : others.map Token.kindAndText =
      (leading ++ hash :: (blanks ++ { word with text := "elif" } :: behind)).map Token.kindAndText) :
    let tokens := leading ++ hash :: (blanks ++ word :: behind)
    (grammar.parseTokens .ifLine tokens).isSome = (grammar.parseTokens .elifLine others).isSome ∧
      ((grammar.parseTokens .preprocessorLine tokens).bind Node.lineRule? = some .ifLine ↔
        (grammar.parseTokens .preprocessorLine others).bind Node.lineRule? = some .elifLine) ∧
      ((grammar.parseTokens .preprocessorLine tokens).bind Node.lineRule? = some .miscLine ↔
        (grammar.parseTokens .preprocessorLine others).bind Node.lineRule? = some .miscLine) ∧
      (∀ root other, grammar.parseTokens .ifLine tokens = some root →
        grammar.parseTokens .elifLine others = some other → SameCondition root other) ∧
      ∀ root other, grammar.parseTokens .preprocessorLine tokens = some root →
        grammar.parseTokens .preprocessorLine others = some other →
        root.lineRule? = some .ifLine → SameCondition root other := by
  intro tokens
  have isElif : Token.isWord "elif" { word with text := "elif" } = true := by
    rw [Token.isWord, Bool.and_eq_true] at isIf ⊢
    exact ⟨isIf.1, rfl⟩
  have moved (rule : Rule) := parseTokens_of_kindAndText grammar rule alike .unknown
  have alone : Option.Rel SameCondition (grammar.parseTokens .ifLine tokens)
      (grammar.parseTokens .elifLine others) := by
    refine rel_of_relocate (parseTokens_ifLine_elifLine unmocked isHash trivialLeading trivial isIf
      isElif) (moved .elifLine) ?_
    rintro root other there ⟨condition, has, hasOther⟩ same
    obtain ⟨found, hasThere, equal⟩ := hasOther.moved same
    exact has.same hasThere equal
  have lines : Option.Rel (fun root other =>
        (root.lineRule? = some .ifLine ∧ other.lineRule? = some .elifLine ∧
          SameCondition root other) ∨
        (root.lineRule? = some .miscLine ∧ other.lineRule? = some .miscLine))
      (grammar.parseTokens .preprocessorLine tokens)
      (grammar.parseTokens .preprocessorLine others) := by
    refine rel_of_relocate
      (parseTokens_preprocessorLine_alike unmocked isHash trivialLeading trivial isIf isElif)
      (moved .preprocessorLine) ?_
    intro root other there related same
    have sameRule := Node.lineRule?_eq_of_relocate same
    rcases related with ⟨isIf, isElif, condition, has, hasOther⟩ | ⟨isMisc, isMiscToo⟩
    · obtain ⟨found, hasThere, equal⟩ := hasOther.moved same
      exact .inl ⟨isIf, sameRule.trans isElif, has.same hasThere equal⟩
    · exact .inr ⟨isMisc, sameRule.trans isMiscToo⟩
  generalize grammar.parseTokens .ifLine tokens = first at alone ⊢
  generalize grammar.parseTokens .elifLine others = second at alone ⊢
  generalize grammar.parseTokens .preprocessorLine tokens = line at lines ⊢
  generalize grammar.parseTokens .preprocessorLine others = otherLine at lines ⊢
  refine ⟨?_, ?_, ?_, ?_, ?_⟩
  · cases alone <;> rfl
  · cases lines with
    | none => simp
    | some related => rcases related with ⟨isIf, isElif, _⟩ | ⟨isMisc, isMiscToo⟩ <;> simp [*]
  · cases lines with
    | none => simp
    | some related => rcases related with ⟨isIf, isElif, _⟩ | ⟨isMisc, isMiscToo⟩ <;> simp [*]
  · rintro root other rfl rfl
    cases alone with
    | some same => exact same
  · rintro root other rfl rfl isIf
    cases lines with
    | some related =>
        rcases related with ⟨_, _, same⟩ | ⟨isMisc, _⟩
        · exact same
        · rw [isIf] at isMisc
          cases isMisc

/-- Both names in front of the same condition, and a limit at which neither rule matches. -/
theorem parseTokens_elif_name :
    let hash : Token := ⟨.punctuator .hash, "#", .unknown⟩
    let word : Token := ⟨.identifier, "if", .unknown⟩
    let other : Token := ⟨.identifier, "elif", ⟨0, 7, 2, 40⟩⟩
    let blank : Token := ⟨.whitespace, " ", .unknown⟩
    let name : Token := ⟨.identifier, "A", .unknown⟩
    (∃ root otherRoot, Grammar.standard.parseTokens .ifLine [hash, word, blank, name] = some root ∧
        Grammar.standard.parseTokens .elifLine [hash, other, blank, name] = some otherRoot ∧
        SameCondition root otherRoot) ∧
      (parseTokens ⟨9, []⟩ .preprocessorLine [hash, word, blank, name]).bind Node.lineRule? =
        some .miscLine ∧
      (parseTokens ⟨9, []⟩ .preprocessorLine [hash, other, blank, name]).bind Node.lineRule? =
        some .miscLine := by
  intro hash word other blank name
  have accepted :
      (Grammar.standard.parseTokens .ifLine [hash, word, blank, name]).isSome = true := by
    decide +kernel
  have misc : (parseTokens ⟨9, []⟩ .preprocessorLine [hash, word, blank, name]).bind
      Node.lineRule? = some .miscLine := by
    decide +kernel
  have alike (grammar : Grammar) (unmocked : grammar.mocked = []) :=
    @parseTokens_elif grammar unmocked [] [] [blank, name] [hash, other, blank, name] hash word rfl
      (List.forall_mem_nil _) (List.forall_mem_nil _) rfl rfl
  obtain ⟨matched, _, _, same, _⟩ := alike standard rfl
  obtain ⟨root, parsed⟩ := Option.isSome_iff_exists.1 accepted
  obtain ⟨otherRoot, otherParsed⟩ := Option.isSome_iff_exists.1 (matched.symm.trans accepted)
  exact ⟨⟨root, otherRoot, parsed, otherParsed, same root otherRoot parsed otherParsed⟩, misc,
    (alike ⟨9, []⟩ rfl).2.2.1.1 misc⟩

end Grammar
end PreprocessorSyntax
