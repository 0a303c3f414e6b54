import PreprocessorSyntax.Proofs.Grammar.Coverage
import PreprocessorSyntax.Proofs.Lexer.Lines
import PreprocessorSyntax.Proofs.Lexer.Locations
import PreprocessorSyntax.Proofs.Lexer.Spelling
import PreprocessorSyntax.Proofs.SExpression.Layouts

/-!
# What an S-expression tells of a tree

An S-expression that shows trivia tells the whole shape of a tree but for its
line feeds: which rules its nodes have, how they are nested and what the texts
of the leaves are.  That the texts of identifiers and numbers need no quotes is
a fact about the lexer, so it holds for the trees that are parsed from a text.
-/

namespace PreprocessorSyntax

/-- What a tree is when the kinds and the places of its tokens do not count. -/
inductive Shape where
  | leaf (text : String)
  | node (rule : Rule) (children : List Shape)
  deriving Repr

mutual

/-- The shape of a tree; line feeds have none. -/
def Tree.shapes : Tree → List Shape
  | .leaf token => if token.kind = .newline then [] else [.leaf token.text]
  | .node rule children => [.node rule (Tree.shapesOf children)]

/-- The shapes of some neighbouring trees. -/
def Tree.shapesOf : List Tree → List Shape
  | [] => []
  | tree :: trees => tree.shapes ++ Tree.shapesOf trees

end

theorem SExpression.isPlain_of_isIdentifierPart {c : Char} (part : isIdentifierPart c = true) :
    SExpression.isPlain c = true := by
  simp only [SExpression.isPlain, Bool.and_eq_true, bne_iff_ne]
  refine ⟨⟨⟨⟨?_, ?_⟩, ?_⟩, ?_⟩, ?_⟩ <;> rintro rfl <;> contradiction

/-- A name needs no quotes. -/
theorem SExpression.isWord_of_isName
    {text : String}
    (named : isName text.toList = true) :
    SExpression.IsWord text := by
  refine ⟨?_, fun c inside => isPlain_of_isIdentifierPart
    (List.all_eq_true.1 (Bool.and_eq_true_iff.1 named).2 c inside)⟩
  rintro rfl
  cases named

/-- Characters that continue a number need no quotes. -/
theorem isPlain_of_part_or_dot
    {c : Char}
    (part : (isIdentifierPart c || c == '.') = true) :
    SExpression.isPlain c = true := by
  rcases Bool.or_eq_true_iff.1 part with part | dot
  · exact SExpression.isPlain_of_isIdentifierPart part
  · rw [beq_iff_eq.1 dot]
    rfl

/-- Nor do two characters that continue it together. -/
theorem isPlain_of_pair
    {c d : Char}
    (pair : (isExponentLetter c && (d == '+' || d == '-') || c == '\'' && d.isAlphanum) = true) :
    SExpression.isPlain c = true ∧ SExpression.isPlain d = true := by
  simp only [isExponentLetter, Bool.or_eq_true, Bool.and_eq_true, beq_iff_eq] at pair
  rcases pair with ⟨letter, sign⟩ | ⟨rfl, digit⟩
  · constructor
    · rcases letter with ((rfl | rfl) | rfl) | rfl <;> rfl
    · rcases sign with rfl | rfl <;> rfl
  · exact ⟨rfl, SExpression.isPlain_of_isIdentifierPart (by simp [isIdentifierPart, digit])⟩

theorem isPlain_of_mem_take_numberTail (text : List Char) :
    ∀ c ∈ text.take (numberTail text), SExpression.isPlain c = true := by
  fun_induction numberTail text with
  | case1 => simp
  | case2 c part =>
      rw [List.take_succ_cons, List.take_zero, List.forall_mem_singleton]
      exact isPlain_of_part_or_dot part
  | case3 => simp
  | case4 c d rest pair inductionHypothesis =>
      rw [List.take_succ_cons, List.take_succ_cons, List.forall_mem_cons, List.forall_mem_cons]
      exact ⟨(isPlain_of_pair pair).1, (isPlain_of_pair pair).2, inductionHypothesis⟩
  | case5 c d rest _ part inductionHypothesis =>
      rw [List.take_succ_cons, List.forall_mem_cons]
      exact ⟨isPlain_of_part_or_dot part, inductionHypothesis⟩
  | case6 => simp

/-- A number needs no quotes. -/
theorem isPlain_of_munch_number
    {text : List Char}
    {length : Nat}
    (munched : munch text = some (.number, length)) :
    ∀ c ∈ text.take length, SExpression.isPlain c = true := by
  have munches := munches_of_munch munched
  generalize number : TokenKind.number = kind at munches
  cases munches with
  | number c rest =>
      rw [List.take_succ_cons, List.forall_mem_cons]
      refine ⟨?_, isPlain_of_mem_take_numberTail rest⟩
      rcases front_of_munch_number munched with digit | rfl
      · refine SExpression.isPlain_of_isIdentifierPart ?_
        simp [isIdentifierPart, Char.isAlphanum, digit]
      · rfl
  | @literal _ rest encoding quote _ =>
      rcases literalToken_kind encoding quote rest with other | other | other <;>
        rw [other] at number <;>
        cases number
  | punctuator c rest =>
      rcases punctuatorToken_kind (c :: rest) with other | ⟨symbol, other⟩ <;>
        rw [other] at number <;>
        cases number
  | _ => cases number

/-- A token that is written without quotes is a word. -/
def Token.IsShown (token : Token) : Prop :=
  token.kind ≠ .endOfInput ∧
    (token.kind = .identifier ∨ token.kind = .number → SExpression.IsWord token.text)

/-- The tokens of a text in front of its end are shown without loss. -/
theorem Lexer.Yields.isShown_of_mem
    {lexer : Lexer}
    {tokens : List Token}
    {token : Token}
    (yields : lexer.Yields tokens)
    (present : token ∈ tokens)
    (notEnd : token.kind ≠ .endOfInput) :
    token.IsShown := by
  refine ⟨notEnd, fun bare => ?_⟩
  rcases bare with identifier | number
  · exact SExpression.isWord_of_isName (yields.isName_of_mem present (beq_iff_eq.2 identifier))
  · refine ⟨yields.text_ne_empty present notEnd, ?_⟩
    obtain ⟨before, after, read⟩ := yields.exists_next_of_mem present
    obtain ⟨length, munched, text, _, _⟩ := next_eq_ok read
    rw [number] at munched
    rw [text, String.toList_ofList]
    exact isPlain_of_munch_number munched

namespace SExpression

/-- The names of rules are names. -/
theorem isWord_name (rule : Rule) : IsWord rule.name := by
  have named : Rule.all.all (fun rule => isName rule.name.toList) = true := by
    decide +kernel
  exact isWord_of_isName (List.all_eq_true.1 named rule rule.mem_all)

/-- A token is shown as nothing or as one atom. -/
theorem allWellFormed_ofToken
    {token : Token}
    (shown : token.IsShown)
    (showTrivia : Bool) :
    AllWellFormed (ofToken showTrivia token) := by
  unfold ofToken
  split
  next => trivial
  next =>
  split
  next bare => exact ⟨.inl (shown.2 bare), trivial⟩
  next => exact ⟨.inr ⟨_, rfl⟩, trivial⟩

mutual

theorem allWellFormed_ofTree (showTrivia : Bool) :
    (tree : Tree) → (∀ token ∈ tree.tokens, token.IsShown) →
    AllWellFormed (ofTree showTrivia tree)
  | .leaf token, shown => by
      rw [ofTree]
      exact allWellFormed_ofToken (shown token (by simp)) showTrivia
  | .node rule children, shown => by
      rw [ofTree]
      exact ⟨⟨isWord_name rule, allWellFormed_ofTrees showTrivia children shown⟩, trivial⟩

theorem allWellFormed_ofTrees (showTrivia : Bool) :
    (trees : List Tree) → (∀ token ∈ Tree.tokensOf trees, token.IsShown) →
    AllWellFormed (ofTrees showTrivia trees)
  | [], _ => trivial
  | tree :: trees, shown => by
      rw [Tree.tokensOf_cons, List.forall_mem_append] at shown
      rw [ofTrees, allWellFormed_append]
      exact ⟨allWellFormed_ofTree showTrivia tree shown.1,
        allWellFormed_ofTrees showTrivia trees shown.2⟩

end

mutual

/-- The shape that an expression tells; a list whose head is no rule tells none. -/
def shape : SExpression → Shape
  | .atom text => .leaf (unquote text)
  | .list head items =>
    match Rule.ofName? head with
    | some rule => .node rule (shapes items)
    | none => .leaf head

/-- The shapes that some expressions tell. -/
def shapes : List SExpression → List Shape
  | [] => []
  | item :: items => item.shape :: shapes items

end

theorem shapes_append (first second : List SExpression) :
    shapes (first ++ second) = shapes first ++ shapes second := by
  induction first with
  | nil => rfl
  | cons item first inductionHypothesis =>
      rw [List.cons_append, shapes, shapes, inductionHypothesis, List.cons_append]

/-- Where trivia is shown, only line feeds are left out. -/
theorem shapes_ofToken {token : Token} (shown : token.IsShown) :
    shapes (ofToken true token) = (Tree.leaf token).shapes := by
  have ends : token.isLineEnd = true ↔ token.kind = .newline := by
    rw [Token.isLineEnd]
    cases kind : token.kind <;> simp_all [Token.IsShown, TokenKind.isLineEnd]
  rw [ofToken, Tree.shapes, Bool.not_true, Bool.and_false, Bool.or_false]
  split
  next feed => rw [if_pos (ends.1 feed), shapes]
  next inLine =>
  rw [if_neg (mt ends.2 inLine)]
  split
  next bare => rw [shapes, shape, unquote_of_isWord (shown.2 bare), shapes]
  next => rw [shapes, shape, unquote_quote, shapes]

mutual

theorem shapes_ofTree :
    (tree : Tree) → (∀ token ∈ tree.tokens, token.IsShown) →
    shapes (ofTree true tree) = tree.shapes
  | .leaf token, shown => by
      rw [ofTree]
      exact shapes_ofToken (shown token (by simp))
  | .node rule children, shown => by
      rw [ofTree, shapes, shape, Rule.ofName?_name, shapes_ofTrees children shown, shapes,
        Tree.shapes]

/-- The expressions of trees tell their shapes. -/
theorem shapes_ofTrees :
    (trees : List Tree) → (∀ token ∈ Tree.tokensOf trees, token.IsShown) →
    shapes (ofTrees true trees) = Tree.shapesOf trees
  | [], _ => rfl
  | tree :: trees, shown => by
      rw [Tree.tokensOf_cons, List.forall_mem_append] at shown
      rw [ofTrees, shapes_append, shapes_ofTree tree shown.1, shapes_ofTrees trees shown.2,
        Tree.shapesOf]

end

theorem wellFormed_ofNode
    {node : Node}
    (shown : ∀ token ∈ node.tokens, token.IsShown)
    (showTrivia : Bool) :
    (ofNode showTrivia node).WellFormed :=
  ⟨isWord_name node.rule, allWellFormed_ofTrees showTrivia node.children shown⟩

end SExpression

/-- Every leaf of a parsed tree is shown without loss. -/
theorem Grammar.isShown_of_parse
    {grammar : Grammar}
    {rule : Rule}
    {source : String}
    {file : FileId}
    {line : UInt32}
    {node : Node}
    (parsed : grammar.parse rule source file line = .ok node) :
    ∀ token ∈ node.tokens, token.IsShown := by
  obtain ⟨tokens, lexed, found⟩ := parseTokens_of_parse parsed
  obtain ⟨content, ending, rfl, ends, before, spelled⟩ := tokenize_eq_ok lexed
  obtain ⟨sameRule, leaves⟩ := tokens_of_parseTokens found
  rw [Cursor.upcoming_ofTokens before ends] at leaves
  intro token present
  rw [leaves] at present
  exact (Lexer.yields_of_tokens _ lexed).isShown_of_mem (List.mem_append_left _ present)
    (before token present)

open SExpression

/--
S-expressions are faithful.  A parsed tree is written as a sequence of marks in
which no line feed occurs; its compact layout sets items apart by single spaces,
its pretty layout by a line feed and two spaces for each open list, and this is
all the difference.  If another parsed tree has the same compact text, trivia
shown, then it has the same rules, nested in the same way, and the same texts of
leaves that are not line feeds.
-/
theorem faithful_of_parse
    {grammar : Grammar}
    {rule : Rule}
    {source : String}
    {file : FileId}
    {line : UInt32}
    {node : Node}
    (parsed : grammar.parse rule source file line = .ok node) :
    (∀ showTrivia,
      let marks := (ofNode showTrivia node).marks
      render .compact (ofNode showTrivia node) = spell (fun _ => " ") 0 marks ∧
        render .pretty (ofNode showTrivia node) =
          spell (fun depth => "\n" ++ String.ofList (List.replicate (2 * depth) ' ')) 0 marks ∧
        ∀ mark ∈ marks, '\n' ∉ mark.text.toList) ∧
    ∀ {other : Grammar} {otherRule : Rule} {otherSource : String} {otherFile : FileId}
      {otherLine : UInt32} {otherNode : Node},
      other.parse otherRule otherSource otherFile otherLine = .ok otherNode →
      render .compact (ofNode true node) = render .compact (ofNode true otherNode) →
      node.toTree.shapes = otherNode.toTree.shapes := by
  have shown := Grammar.isShown_of_parse parsed
  refine ⟨fun showTrivia => ⟨?_, ?_, ?_⟩, ?_⟩
  · exact render_eq_spell .compact _
  · exact render_eq_spell .pretty _
  · exact feed_not_mem_marks _ (wellFormed_ofNode shown showTrivia)
  · intro other otherRule otherSource otherFile otherLine otherNode otherParsed same
    have otherShown := Grammar.isShown_of_parse otherParsed
    have equal := eq_of_render_compact (wellFormed_ofNode shown true)
      (wellFormed_ofNode otherShown true) same
    have told := congrArg (fun expression => shapes [expression]) equal
    have first : shapes [ofNode true node] = node.toTree.shapes :=
      shapes_ofTree node.toTree shown
    have second : shapes [ofNode true otherNode] = otherNode.toTree.shapes :=
      shapes_ofTree otherNode.toTree otherShown
    rw [← first, ← second]
    exact told

/-- A line with and without its line feed, read by two grammars: the texts agree. -/
theorem faithful_of_parse_line_feed :
    let mocking : Grammar := ⟨40, [.pragmaLine]⟩
    ∃ node other,
      Grammar.standard.parse .errorLine "#error\t\"(\\ 1e+2\n" 0 1 = .ok node ∧
      mocking.parse .errorLine "#error\t\"(\\ 1e+2" 3 7 = .ok other ∧
      render .compact (ofNode true node) = render .compact (ofNode true other) ∧
      (∀ mark ∈ (ofNode false node).marks, '\n' ∉ mark.text.toList) ∧
      node.toTree.shapes = other.toTree.shapes := by
  intro mocking
  have same : (Grammar.standard.parse .errorLine "#error\t\"(\\ 1e+2\n" 0 1).toOption.any
      (fun node => (mocking.parse .errorLine "#error\t\"(\\ 1e+2" 3 7).toOption.any
        fun other =>
          render .compact (ofNode true node) == render .compact (ofNode true other)) = true := by
    decide +kernel
  cases parsed : Grammar.standard.parse .errorLine "#error\t\"(\\ 1e+2\n" 0 1 with
  | error fault => simp [parsed, Except.toOption] at same
  | ok node =>
      cases otherParsed : mocking.parse .errorLine "#error\t\"(\\ 1e+2" 3 7 with
      | error fault => simp [parsed, otherParsed, Except.toOption] at same
      | ok other =>
          simp only [parsed, otherParsed, Except.toOption, Option.any_some, beq_iff_eq] at same
          obtain ⟨layouts, told⟩ := faithful_of_parse parsed
          exact ⟨node, other, rfl, rfl, same, (layouts false).2.2, told otherParsed same⟩

end PreprocessorSyntax
