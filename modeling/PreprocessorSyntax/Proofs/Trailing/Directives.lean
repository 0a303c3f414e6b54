import Mathlib.Data.List.TakeWhile
import PreprocessorSyntax.Proofs.Directive.Totality
import PreprocessorSyntax.Proofs.Line.Conditions
import PreprocessorSyntax.Proofs.Trailing.Lines
import PreprocessorSyntax.Proofs.Tree.Queries

/-!
# Directives with white space added

Most directives are read off the children of a line that are neither white space
nor comments, so nothing that is added behind a line makes a difference to them.
A message is the text of the line instead.  Only its ends are trimmed, and so it
changes with every comment that is added.
-/

namespace PreprocessorSyntax

/-- Whether only white space is spelled, all of which can be trimmed off. -/
def Token.isBlank (token : Token) : Bool :=
  token.text.toList.all isWhiteSpace

theorem filter_trimStart (text : List Char) :
    (trimStart text).filter (fun c => !isWhiteSpace c) = text.filter fun c => !isWhiteSpace c := by
  induction text with
  | nil => rfl
  | cons c text inductionHypothesis =>
      by_cases white : isWhiteSpace c = true
      · rw [trimStart, List.dropWhile_cons_of_pos white, List.filter_cons_of_neg (by simp [white])]
        exact inductionHypothesis
      · rw [trimStart, List.dropWhile_cons_of_neg white]

/-- Nothing but white space is trimmed off. -/
theorem filter_trim (text : List Char) :
    (trim text).filter (fun c => !isWhiteSpace c) = text.filter fun c => !isWhiteSpace c := by
  rw [trim, List.filter_reverse, filter_trimStart, List.filter_reverse, List.reverse_reverse,
    filter_trimStart]

theorem trim_append_of_white
    {text blanks : List Char}
    (white : ∀ c ∈ blanks, isWhiteSpace c = true) :
    trim (text ++ blanks) = trim text := by
  rw [trim, trim, trimStart, trimStart, List.dropWhile_append, List.dropWhile_eq_nil_iff.2 white,
    trimStart]
  split
  next empty => rw [trimStart, List.isEmpty_iff.1 empty]
  next =>
    rw [List.reverse_append, trimStart,
      List.dropWhile_append_of_pos fun c present => white c (List.mem_reverse.1 present)]

/-- What is added behind a text is trimmed off exactly if it is white space. -/
theorem trim_append_eq_iff {text blanks : List Char} :
    trim (text ++ blanks) = trim text ↔ ∀ c ∈ blanks, isWhiteSpace c = true := by
  refine ⟨fun same => ?_, trim_append_of_white⟩
  have visible := congrArg (List.filter fun c => !isWhiteSpace c) same
  rw [filter_trim, filter_trim, List.filter_append, List.append_right_eq_self,
    List.filter_eq_nil_iff] at visible
  simpa using visible

/-- Nodes of one rule that begin with one token and differ only in white space and comments. -/
structure SameParts (node other : Node) : Prop where
  rule : other.rule = node.rule
  parts : significantTrees other.children = significantTrees node.children
  first : other.firstToken? = node.firstToken?

namespace SameParts

variable {node other : Node} (same : SameParts node other)
include same

theorem childNodes : other.childNodes = node.childNodes := by
  rw [childNodes_eq, childNodes_eq, same.parts]

theorem child? (rule : Rule) : other.child? rule = node.child? rule := by
  rw [Node.child?, same.childNodes, Node.child?]

theorem childTokens : other.childTokens = node.childTokens := by
  rw [childTokens_eq, childTokens_eq, same.parts]

theorem identifiers : other.identifiers = node.identifiers := by
  rw [Node.identifiers, same.childTokens, Node.identifiers]

theorem ofShape (fault : ShapeFault) : Fault.ofShape other fault = Fault.ofShape node fault := by
  rw [Fault.ofShape, same.first, Fault.ofShape]

theorem ofDefinition : MacroDefinition.ofDefinition other = MacroDefinition.ofDefinition node := by
  simp only [MacroDefinition.ofDefinition, MacroDefinition.shapeOf, same.rule, same.identifiers,
    same.child?, same.ofShape]

theorem macroDefinition : MacroDefinition.ofNode other = MacroDefinition.ofNode node := by
  simp only [MacroDefinition.ofNode, same.rule, same.child?, same.ofShape, same.ofDefinition]

theorem isNamed (spelling : String) :
    Directive.isNamed other spelling = Directive.isNamed node spelling := by
  rw [Directive.isNamed, same.identifiers, Directive.isNamed]

theorem operand : Directive.operand other = Directive.operand node := by
  simp only [Directive.operand, same.rule, same.identifiers, same.ofShape]

theorem tokensBehind (skipped : Nat) :
    Directive.tokensBehind other skipped = Directive.tokensBehind node skipped := by
  rw [Directive.tokensBehind, Directive.tokensBehind, filter_isContent_tokens, same.parts,
    filter_isContent_tokens]

theorem hasWord (word : String) : Directive.hasWord other word = Directive.hasWord node word := by
  rw [Directive.hasWord, same.childTokens, Directive.hasWord]

theorem importOfNode : Directive.importOfNode other = Directive.importOfNode node := by
  simp only [Directive.importOfNode, same.rule, same.child?, same.childTokens, same.hasWord,
    same.ofShape]

theorem moduleOfNode : Directive.moduleOfNode other = Directive.moduleOfNode node := by
  simp only [Directive.moduleOfNode, same.childNodes, same.hasWord]

/-- Only messages are read off white space and comments. -/
theorem ofLine (noMessage : node.rule ∉ [.errorLine, .warningLine]) :
    Directive.ofLine other = Directive.ofLine node := by
  have known : node.rule ≠ .errorLine ∧ node.rule ≠ .warningLine := by simpa using noMessage
  cases rule : node.rule
  case errorLine => exact absurd rule known.1
  case warningLine => exact absurd rule known.2
  all_goals
    simp only [Directive.ofLine, same.rule, rule, same.macroDefinition, same.operand, same.child?,
      same.isNamed, same.importOfNode, same.moduleOfNode, same.tokensBehind, same.ofShape]

end SameParts

namespace Directive

/-- The tokens whose texts make the message of a line. -/
def messageTokens (tokens : List Token) : List Token :=
  ((tokens.filter fun token => !token.isLineEnd).dropWhile fun token => !token.isIdentifier).drop 1

/-- Behind the name on a line, everything is part of the message. -/
theorem messageTokens_append
    {tokens blanks : List Token}
    {name : Token}
    (present : name ∈ tokens)
    (isName : name.isIdentifier = true)
    (trivial : ∀ token ∈ blanks, token.isTrivia = true) :
    messageTokens (tokens ++ blanks) = messageTokens tokens ++ blanks := by
  have kept : blanks.filter (fun token => !token.isLineEnd) = blanks := by
    rw [List.filter_eq_self]
    intro token present
    simp [isLineEnd_eq_false_of_isTrivia (trivial token present)]
  have inLine : name.isLineEnd = false := by
    rw [Token.isLineEnd, Token.kind_of_isIdentifier isName]
    rfl
  have found : (tokens.filter fun token => !token.isLineEnd).dropWhile
      (fun token => !token.isIdentifier) ≠ [] := by
    rw [Ne, List.dropWhile_eq_nil_iff]
    intro nameless
    have notName := nameless name (List.mem_filter.2 ⟨present, by simp [inLine]⟩)
    simp [isName] at notName
  rw [messageTokens, List.filter_append, kept, List.dropWhile_append,
    if_neg (by simpa using found), List.drop_one, List.tail_append_of_ne_nil found, messageTokens,
    List.drop_one]

theorem toList_join_texts (tokens : List Token) :
    (String.join (tokens.map Token.text)).toList =
      tokens.flatMap fun token => token.text.toList := by
  induction tokens with
  | nil => simp [String.join]
  | cons token tokens inductionHypothesis =>
      rw [List.map_cons, String.join_cons, String.toList_append, inductionHypothesis,
        List.flatMap_cons]

/-- Two lines have the same message if the same is left of their texts. -/
theorem message_eq_iff {node other : Node} :
    message other = message node ↔
      trim (String.join ((messageTokens other.tokens).map Token.text)).toList =
        trim (String.join ((messageTokens node.tokens).map Token.text)).toList := by
  have injective (first second : List Char) :
      ((if first.isEmpty then none else some (String.ofList first)) =
        if second.isEmpty then none else some (String.ofList second)) ↔ first = second := by
    cases first <;> cases second <;> simp [String.ofList_inj]
  exact injective _ _

/-- A message stays as it is exactly if nothing but white space is added to its line. -/
theorem message_append_iff
    {node other : Node}
    {blanks : List Token}
    (named : node.identifiers ≠ [])
    (trivial : ∀ token ∈ blanks, token.isTrivia = true)
    (longer : other.tokens = node.tokens ++ blanks) :
    message other = message node ↔ ∀ token ∈ blanks, token.isBlank = true := by
  obtain ⟨name, listed⟩ := List.exists_mem_of_ne_nil _ named
  obtain ⟨present, isName⟩ := List.mem_filter.1 listed
  rw [message_eq_iff, longer, messageTokens_append (mem_tokens_of_mem_childTokens present) isName
    trivial, List.map_append, String.join_append, String.toList_append, trim_append_eq_iff,
    toList_join_texts]
  simp only [List.mem_flatMap, Token.isBlank, List.all_eq_true]
  exact ⟨fun white token present c spelled => white c ⟨token, present, spelled⟩,
    fun white c ⟨token, present, spelled⟩ => white token present c spelled⟩

end Directive

namespace Grammar
namespace Trailing

variable {grammar : Grammar} {blanks : List Token} {node other : Node}

theorem Lengthened.tokens (lengthened : Lengthened blanks node other) :
    other.tokens = node.tokens ++ blanks := by
  obtain ⟨front, back, _, ends, children, rfl⟩ := lengthened
  simp [Node.tokens, children, ends]

theorem Lengthened.sameParts
    (trivial : ∀ token ∈ blanks, token.isTrivia = true)
    (lengthened : Lengthened blanks node other) :
    SameParts node other := by
  obtain ⟨front, back, starts, ends, children, rfl⟩ := lengthened
  refine ⟨rfl, ?_, ?_⟩
  · simp [children, significantTrees_of_isTrivia trivial]
  · rw [Node.firstToken?, Node.firstToken?, Tree.firstTokenOf?_eq, Tree.firstTokenOf?_eq, children]
    simp only [Tree.tokensOf_append, Tree.tokensOf_map_leaf, ends, List.append_nil]
    rw [List.head?_append, Option.or_of_isSome (by simpa using starts)]

/-- A line that wraps a definition is read as the definition. -/
theorem ofLine_of_wrapped
    (trivial : ∀ token ∈ blanks, token.isTrivia = true)
    (wrapped : Wrapped .defineLine (Lengthened blanks) node other) :
    Directive.ofLine other = Directive.ofLine node := by
  obtain ⟨below, further, rfl, rfl, lengthened⟩ := wrapped
  have same := lengthened.sameParts trivial
  have found (child : Node) (rule : Rule) :
      Node.child? ⟨.defineLine, [child.toTree]⟩ rule =
        if child.rule = rule then some child else none := by
    have single : Node.childNodes ⟨.defineLine, [child.toTree]⟩ = [child] := rfl
    rw [Node.child?, single]
    by_cases known : child.rule = rule <;> simp [known]
  have first (child : Node) :
      Node.firstToken? ⟨.defineLine, [child.toTree]⟩ = child.firstToken? := by
    simp [Node.firstToken?, Tree.firstTokenOf?, Node.toTree, Tree.firstToken?]
  have empty : Fault.ofShape ⟨.defineLine, [further.toTree]⟩ .emptyDefinition =
      Fault.ofShape ⟨.defineLine, [below.toTree]⟩ .emptyDefinition := by
    rw [Fault.ofShape, first, same.first, Fault.ofShape, first]
  simp only [Directive.ofLine, MacroDefinition.ofNode, found, same.rule, empty]
  by_cases function : below.rule = .functionlikeMacroDefinition
  · simp [function, same.ofDefinition]
  · by_cases object : below.rule = .objectlikeMacroDefinition
    · simp [object, same.ofDefinition]
    · simp [function, object]

/-- The name of the directive stands on a line with a message. -/
theorem identifiers_ne_nil_of_message
    (unmocked : grammar.mocked = [])
    (formed : grammar.Formed node)
    (hasMessage : node.rule ∈ [.errorLine, .warningLine]) :
    node.identifiers ≠ [] := by
  have facts : ∀ rule ∈ [Rule.errorLine, .warningLine],
      rule.directiveNames ≠ [] ∧ rule ≠ .defineLine := by
    decide
  obtain ⟨named, notDefine⟩ := facts _ hasMessage
  have opens : grammar.Opens (grammar.pattern node.rule) (Head node.rule.directiveNames) := by
    rw [pattern_eq unmocked]
    exact opens_directiveNames named notDefine
  obtain ⟨front, behind, equal, head⟩ := formed.opens opens
  obtain ⟨word, _, first, _⟩ := keyword?_of_head equal head
  intro nameless
  rw [nameless] at first
  cases first

/-- What is added behind a line makes a difference only if it becomes part of a message. -/
theorem Extended.ofLine_eq_iff
    (unmocked : grammar.mocked = [])
    (formed : grammar.Formed node)
    (trivial : ∀ token ∈ blanks, token.isTrivia = true)
    (extended : Extended blanks node other) :
    Directive.ofLine other = Directive.ofLine node ↔
      (node.rule ∈ [.errorLine, .warningLine] → ∀ token ∈ blanks, token.isBlank = true) := by
  rcases extended with lengthened | wrapped
  · have same := lengthened.sameParts trivial
    by_cases hasMessage : node.rule ∈ [.errorLine, .warningLine]
    · have message := Directive.message_append_iff
        (identifiers_ne_nil_of_message unmocked formed hasMessage) trivial lengthened.tokens
      rw [← message]
      have either : node.rule = .errorLine ∨ node.rule = .warningLine := by simpa using hasMessage
      rcases either with isError | isWarning
      · simp [Directive.ofLine, same.rule, isError]
      · simp [Directive.ofLine, same.rule, isWarning]
    · simp only [hasMessage, false_implies, iff_true]
      exact same.ofLine hasMessage
  · have noMessage : node.rule ∉ [.errorLine, .warningLine] := by
      obtain ⟨below, further, rfl, rfl, _⟩ := wrapped
      simp
    simp only [noMessage, false_implies, iff_true]
    exact ofLine_of_wrapped trivial wrapped

theorem Extended.rule_eq (extended : Extended blanks node other) : other.rule = node.rule := by
  rcases extended with ⟨_, _, _, _, _, rfl⟩ | ⟨_, _, rfl, rfl, _⟩ <;> rfl

end Trailing

/-- Without line feeds, what stands behind the first line makes no difference. -/
theorem parseTokens_append_behindFirstLine
    {grammar : Grammar}
    {rule : Rule}
    {line tokens : List Token}
    (inLine : InLine line)
    (noFeed : ∀ token ∈ tokens, token.kind ≠ .newline) :
    grammar.parseTokens rule (line ++ behindFirstLine tokens) = grammar.parseTokens rule line := by
  have noFeedBehind : ∀ token ∈ line ++ behindFirstLine tokens, token.kind ≠ .newline :=
    List.forall_mem_append.2 ⟨inLine.noFeed, fun token present =>
      noFeed token ((List.dropWhile_sublist _).mem present)⟩
  rw [← parseTokens_firstLine grammar rule noFeedBehind, firstLine_append inLine,
    firstLine_of_ends (isLineEnd_behindFirstLine tokens), List.append_nil]

/--
White space and comments may be added at the end of any directive line.  It is
read by the same rule, and the directive stays the same, with one exception: the
message of an error or a warning stays the same exactly if no more than white
space is added.
-/
theorem ofNode_parseTokens_append
    {grammar : Grammar}
    (unmocked : grammar.mocked = [])
    {tokens blanks : List Token}
    {root : Node}
    (noFeed : ∀ token ∈ tokens, token.kind ≠ .newline)
    (trivial : ∀ token ∈ blanks, token.isTrivia = true)
    (parsed : grammar.parseTokens .preprocessorLine tokens = some root) :
    ∃ rule other,
      grammar.parseTokens .preprocessorLine
        (firstLine tokens ++ blanks ++ behindFirstLine tokens) = some other ∧
      root.lineRule? = some rule ∧ other.lineRule? = some rule ∧
      (Directive.ofNode other = Directive.ofNode root ↔
        (rule ∈ [.errorLine, .warningLine] → ∀ token ∈ blanks, token.isBlank = true)) := by
  have inLineBlanks : InLine blanks := fun token present =>
    isLineEnd_eq_false_of_isTrivia (trivial token present)
  have inLine : InLine (firstLine tokens ++ blanks) :=
    InLine.append_iff.2 ⟨inLine_firstLine tokens, inLineBlanks⟩
  have parsedLine := parsed
  rw [← parseTokens_firstLine grammar .preprocessorLine noFeed] at parsedLine
  obtain ⟨leading, node, other, rfl, parsedLonger, extended⟩ :=
    Trailing.exists_parseTokens_append (inLine_firstLine tokens) trivial unmocked parsedLine
  have single (line : Node) :
      Node.childNodes ⟨.preprocessorLine, leading.map .leaf ++ [line.toTree]⟩ = [line] := by
    rw [Node.childNodes, List.filterMap_append, filterMap_node?_map_leaf]
    rfl
  have formed : grammar.Formed node :=
    ((formed_of_parseTokens rfl parsed).stems (by simp [single])).formed
  refine ⟨node.rule, ⟨.preprocessorLine, leading.map .leaf ++ [other.toTree]⟩, ?_, ?_, ?_, ?_⟩
  · rw [parseTokens_append_behindFirstLine inLine noFeed, parsedLonger]
  · rw [Node.lineRule?, single]
    rfl
  · rw [Node.lineRule?, single, List.head?_cons, Option.map_some, extended.rule_eq]
  · simp only [Directive.ofNode, single]
    exact extended.ofLine_eq_iff unmocked formed trivial

/-- A comment behind `#endif` makes no difference, and neither does a blank behind a warning. -/
theorem ofNode_parseTokens_append_endif :
    let hash : Token := ⟨.punctuator .hash, "#", .unknown⟩
    let word (text : String) : Token := ⟨.identifier, text, .unknown⟩
    let blank : Token := ⟨.whitespace, " ", .unknown⟩
    let comment : Token := ⟨.comment .line, "// A", .unknown⟩
    let ending : Token := ⟨.endOfInput, "", .unknown⟩
    (∃ root other,
      standard.parseTokens .preprocessorLine [hash, word "endif", ending] = some root ∧
      standard.parseTokens .preprocessorLine [hash, word "endif", blank, comment, ending] =
        some other ∧
      other.lineRule? = some .endifLine ∧ Directive.ofNode other = Directive.ofNode root) ∧
    ∃ root other,
      standard.parseTokens .preprocessorLine [hash, word "warning", comment, ending] = some root ∧
      standard.parseTokens .preprocessorLine [hash, word "warning", comment, blank, ending] =
        some other ∧
      other.lineRule? = some .warningLine ∧ Directive.ofNode other = Directive.ofNode root := by
  intro hash word blank comment ending
  have parses (tokens : List Token) (rule : Rule)
      (read : (standard.parseTokens .preprocessorLine tokens).bind Node.lineRule? = some rule) :=
    Option.bind_eq_some_iff.1 read
  constructor
  · obtain ⟨root, parsed, isEndif⟩ :=
      parses [hash, word "endif", ending] .endifLine (by decide +kernel)
    obtain ⟨rule, other, longer, here, there, same⟩ :=
      ofNode_parseTokens_append rfl (by decide) (show ∀ token ∈ [blank, comment], _ by decide)
        parsed
    obtain rfl := Option.some.inj (isEndif.symm.trans here)
    exact ⟨root, other, parsed, longer, there, same.2 (by decide)⟩
  · obtain ⟨root, parsed, isWarning⟩ :=
      parses [hash, word "warning", comment, ending] .warningLine (by decide +kernel)
    obtain ⟨rule, other, longer, here, there, same⟩ :=
      ofNode_parseTokens_append rfl (by decide) (show ∀ token ∈ [blank], _ by decide) parsed
    obtain rfl := Option.some.inj (isWarning.symm.trans here)
    exact ⟨root, other, parsed, longer, there, same.2 fun _ => by decide⟩

/-- A comment behind the message of an error becomes part of the message. -/
theorem ofNode_parseTokens_ne_of_comment :
    let line : List Token := [⟨.punctuator .hash, "#", .unknown⟩, ⟨.identifier, "error", .unknown⟩,
      ⟨.whitespace, " ", .unknown⟩, ⟨.identifier, "a", .unknown⟩]
    let blanks : List Token :=
      [⟨.whitespace, " ", .unknown⟩, ⟨.comment .block, "/* c */", .unknown⟩]
    let ending : Token := ⟨.endOfInput, "", .unknown⟩
    (∀ token ∈ blanks, token.isTrivia = true) ∧
    ∃ root other,
      standard.parseTokens .preprocessorLine (line ++ [ending]) = some root ∧
      standard.parseTokens .preprocessorLine (line ++ blanks ++ [ending]) = some other ∧
      root.lineRule? = some .errorLine ∧ other.lineRule? = some .errorLine ∧
      Directive.ofNode root = .ok (.error (some "a")) ∧
      Directive.ofNode other = .ok (.error (some "a /* c */")) ∧
      Directive.ofNode other ≠ Directive.ofNode root := by
  intro line blanks ending
  have alone : (standard.parseTokens .preprocessorLine (line ++ [ending])).map (fun root =>
      (root.lineRule?, Directive.ofNode root)) =
        some (some .errorLine, .ok (.error (some "a"))) := by
    decide +kernel
  have commented : (standard.parseTokens .preprocessorLine (line ++ blanks ++ [ending])).map
      (fun root => (root.lineRule?, Directive.ofNode root)) =
        some (some .errorLine, .ok (.error (some "a /* c */"))) := by
    decide +kernel
  obtain ⟨root, parsed, equal⟩ := Option.map_eq_some_iff.1 alone
  obtain ⟨other, parsedLonger, equalLonger⟩ := Option.map_eq_some_iff.1 commented
  obtain ⟨isError, read⟩ := Prod.mk.inj equal
  obtain ⟨isErrorToo, readLonger⟩ := Prod.mk.inj equalLonger
  refine ⟨by decide, root, other, parsed, parsedLonger, isError, isErrorToo, read, readLonger, ?_⟩
  rw [read, readLonger]
  decide

end Grammar
end PreprocessorSyntax
