import PreprocessorSyntax.Directive
import PreprocessorSyntax.Proofs.Line.Head

/-!
# Shapes of nodes

Directives are read off the children of a node that are neither white space nor
comments.  `Grammar.Opens` says what these significant children begin with in
every derivation of a pattern, and `Grammar.Holds` that there is a node of some
rule among them.  Every node that stands anywhere below a derived one stems
from the pattern of its own rule, so shapes can be followed downwards.
-/

namespace PreprocessorSyntax

/-- A leaf that is white space or a comment. -/
def Tree.isTrivia : Tree → Bool
  | .leaf token => token.isTrivia
  | .node _ _ => false

/-- Neighbouring trees without white space and comments. -/
def significantTrees (trees : List Tree) : List Tree :=
  trees.filter fun tree => !tree.isTrivia

variable {front back trees : List Tree} {node : Node}

@[simp] theorem significantTrees_append :
    significantTrees (front ++ back) = significantTrees front ++ significantTrees back :=
  List.filter_append front back

@[simp] theorem significantTrees_node (rule : Rule) (children : List Tree) :
    significantTrees (.node rule children :: trees) =
      .node rule children :: significantTrees trees := rfl

theorem significantTrees_leaf {token : Token} (notTrivia : token.isTrivia = false) :
    significantTrees (.leaf token :: trees) = .leaf token :: significantTrees trees := by
  simp [significantTrees, Tree.isTrivia, notTrivia]

theorem significantTrees_map_leaf (tokens : List Token) :
    significantTrees (tokens.map .leaf) =
      (tokens.filter fun token => !token.isTrivia).map .leaf :=
  List.filter_map

theorem significantTrees_of_isTrivia
    {blanks : List Token}
    (trivial : ∀ token ∈ blanks, token.isTrivia = true) :
    significantTrees (blanks.map .leaf) = [] := by
  rw [significantTrees_map_leaf, List.map_eq_nil_iff, List.filter_eq_nil_iff]
  intro token present
  simp [trivial token present]

theorem childTokens_eq :
    node.childTokens = (significantTrees node.children).filterMap Tree.token? := by
  rw [Node.childTokens, significantTrees, List.filterMap_filter, List.filter_filterMap]
  congr 1
  funext tree
  cases tree with
  | leaf token => simp [Tree.token?, Tree.isTrivia, Option.filter_some]
  | node rule children => rfl

theorem childNodes_eq :
    node.childNodes = (significantTrees node.children).filterMap Tree.node? := by
  rw [Node.childNodes, significantTrees, List.filterMap_filter]
  congr 1
  funext tree
  cases tree with
  | leaf token => simp [Tree.node?]
  | node rule children => rfl

theorem Node.toTree_injective {first second : Node} (equal : first.toTree = second.toTree) :
    first = second := by
  cases first
  cases second
  cases equal
  rfl

/-- White space and comments are not part of what a line says. -/
theorem filter_isContent_tokens :
    node.tokens.filter Token.isContent =
      (Tree.tokensOf (significantTrees node.children)).filter Token.isContent := by
  rw [Node.tokens]
  induction node.children with
  | nil => rfl
  | cons tree trees inductionHypothesis =>
      rw [Tree.tokensOf_cons, List.filter_append, inductionHypothesis]
      cases tree with
      | node rule children =>
          rw [significantTrees_node, Tree.tokensOf_cons, List.filter_append]
      | leaf token =>
          cases trivial : token.isTrivia with
          | false => rw [significantTrees_leaf trivial, Tree.tokensOf_cons, List.filter_append]
          | true =>
              simp [significantTrees, Tree.isTrivia, Token.isContent, trivial]

theorem mem_tokensOf
    {tree : Tree}
    {token : Token}
    (present : tree ∈ trees)
    (below : token ∈ tree.tokens) :
    token ∈ Tree.tokensOf trees := by
  induction trees with
  | nil => cases present
  | cons first others inductionHypothesis =>
      rw [Tree.tokensOf_cons, List.mem_append]
      rcases List.mem_cons.1 present with rfl | later
      · exact .inl below
      · exact .inr (inductionHypothesis later)

/-- A node directly below another one holds some of its tokens. -/
theorem mem_tokens_of_mem_childNodes
    {child : Node}
    {token : Token}
    (present : child ∈ node.childNodes)
    (below : token ∈ child.tokens) :
    token ∈ node.tokens := by
  obtain ⟨tree, listed, isChild⟩ := List.mem_filterMap.1 present
  cases tree with
  | leaf token => cases isChild
  | node rule children =>
      cases isChild
      exact mem_tokensOf listed below

/-- A leaf directly below a node is one of its tokens. -/
theorem mem_tokens_of_mem_childTokens
    {token : Token}
    (present : token ∈ node.childTokens) :
    token ∈ node.tokens := by
  obtain ⟨tree, listed, isLeaf⟩ := List.mem_filterMap.1 (List.mem_filter.1 present).1
  cases tree with
  | leaf found =>
      cases isLeaf
      exact mem_tokensOf listed (List.mem_singleton_self _)
  | node rule children => cases isLeaf

namespace Grammar

variable {grammar : Grammar} {pattern first second preferred alternative : Pattern}

/-- The children of a node are a derivation of what its rule accepts. -/
def Stems (grammar : Grammar) (node : Node) : Prop :=
  ∃ cursor after, grammar.Derives (grammar.pattern node.rule) cursor node.children after

/-- The nodes of a derivation stem from their rules, even if they stand for a layer around them. -/
theorem Derives.stems
    {cursor after : Cursor}
    (derived : grammar.Derives pattern cursor trees after)
    {rule : Rule}
    {children : List Tree}
    (present : .node rule children ∈ trees) :
    grammar.Stems ⟨rule, children⟩ := by
  induction derived with
  | token _ _ => simp at present
  | rule body inductionHypothesis =>
      rw [List.mem_singleton] at present
      unfold Rule.build at present
      split at present
      next inner grandchildren =>
        split at present
        next =>
          rw [present] at inductionHypothesis
          exact inductionHypothesis List.mem_cons_self
        next =>
          cases present
          exact ⟨_, _, body⟩
      next =>
        cases present
        exact ⟨_, _, body⟩
  | ahead _ => cases present
  | absent _ _ => cases present
  | empty _ => cases present
  | sequence _ _ frontHypothesis backHypothesis =>
      exact (List.mem_append.1 present).elim frontHypothesis backHypothesis
  | preferred _ inductionHypothesis => exact inductionHypothesis present
  | alternative _ inductionHypothesis => exact inductionHypothesis present
  | stop _ _ => cases present
  | further _ _ frontHypothesis backHypothesis =>
      exact (List.mem_append.1 present).elim frontHypothesis backHypothesis

/-- The significant trees of every derivation begin in a certain way. -/
def Opens (grammar : Grammar) (pattern : Pattern) (shape : List Tree → Prop) : Prop :=
  ∀ cursor trees after, grammar.Derives pattern cursor trees after →
    ∃ front behind, significantTrees trees = front ++ behind ∧ shape front

/-- The significant trees of every derivation are certain ones. -/
def Shaped (grammar : Grammar) (pattern : Pattern) (shape : List Tree → Prop) : Prop :=
  ∀ cursor trees after, grammar.Derives pattern cursor trees after →
    shape (significantTrees trees)

/-- There is a node of one of some rules among the trees of every derivation. -/
def Holds (grammar : Grammar) (pattern : Pattern) (rules : List Rule) : Prop :=
  ∀ cursor trees after, grammar.Derives pattern cursor trees after →
    ∃ rule ∈ rules, ∃ children, Tree.node rule children ∈ trees

variable {shape further : List Tree → Prop} {rules : List Rule}

/-- Repetition of a token leaves leaves only. -/
theorem exists_leaves_of_many
    {accepts : Token → Bool}
    {cursor after : Cursor}
    (derived : grammar.Derives (.many (.token accepts)) cursor trees after) :
    ∃ tokens : List Token, trees = tokens.map .leaf ∧ ∀ token ∈ tokens, accepts token = true := by
  generalize repeated : Pattern.many (.token accepts) = pattern at derived
  induction derived with
  | stop => exact ⟨[], rfl, by simp⟩
  | further front _ _ backHypothesis =>
      cases repeated
      obtain ⟨tokens, rfl, accepted⟩ := backHypothesis rfl
      cases front with
      | token _ acceptedFirst =>
          exact ⟨_ :: tokens, rfl, List.forall_mem_cons.2 ⟨acceptedFirst, accepted⟩⟩
  | _ => cases repeated

theorem shaped_trivia : grammar.Shaped .trivia (· = []) := by
  intro cursor trees after derived
  obtain ⟨tokens, rfl, trivial⟩ := exists_leaves_of_many derived
  exact significantTrees_of_isTrivia trivial

theorem shaped_token
    {accepts : Token → Bool}
    (notTrivia : ∀ token, accepts token = true → token.isTrivia = false) :
    grammar.Shaped (.token accepts) fun trees =>
      ∃ token, trees = [.leaf token] ∧ accepts token = true := by
  intro cursor trees after derived
  cases derived with
  | token read accepted =>
      exact ⟨_, by rw [significantTrees_leaf (notTrivia _ accepted)]; rfl, accepted⟩

theorem Shaped.append
    (front : grammar.Shaped first shape)
    (back : grammar.Shaped second further) :
    grammar.Shaped (first ++ second) fun trees =>
      ∃ before behind, trees = before ++ behind ∧ shape before ∧ further behind := by
  intro cursor trees after derived
  cases derived with
  | sequence derivedFront derivedBack =>
      exact ⟨_, _, significantTrees_append, front _ _ _ derivedFront, back _ _ _ derivedBack⟩

theorem Shaped.mono
    (shaped : grammar.Shaped pattern shape)
    (weaker : ∀ trees, shape trees → further trees) :
    grammar.Shaped pattern further :=
  fun cursor trees after derived => weaker _ (shaped cursor trees after derived)

theorem Shaped.opens (shaped : grammar.Shaped pattern shape) : grammar.Opens pattern shape :=
  fun cursor trees after derived =>
    ⟨_, [], (List.append_nil _).symm, shaped cursor trees after derived⟩

theorem Opens.append (opens : grammar.Opens first shape) :
    grammar.Opens (first ++ second) shape := by
  intro cursor trees after derived
  cases derived with
  | @sequence _ _ _ _ _ _ more derivedFront derivedBack =>
      obtain ⟨front, behind, equal, opened⟩ := opens _ _ _ derivedFront
      refine ⟨front, behind ++ significantTrees more, ?_, opened⟩
      rw [significantTrees_append, equal, List.append_assoc]

theorem Opens.behind_trivia (opens : grammar.Opens second shape) :
    grammar.Opens (.trivia ++ second) shape := by
  intro cursor trees after derived
  cases derived with
  | sequence derivedFront derivedBack =>
      obtain ⟨front, behind, equal, opened⟩ := opens _ _ _ derivedBack
      refine ⟨front, behind, ?_, opened⟩
      rw [significantTrees_append, shaped_trivia _ _ _ derivedFront, List.nil_append, equal]

theorem Opens.orElse
    (left : grammar.Opens preferred shape)
    (right : grammar.Opens alternative shape) :
    grammar.Opens (preferred <|> alternative) shape := by
  intro cursor trees after derived
  cases derived with
  | preferred chosen => exact left _ _ _ chosen
  | alternative chosen => exact right _ _ _ chosen

/-- A rule that is no layer leaves a node of its own. -/
theorem exists_of_derives_rule
    {rule : Rule}
    (keeps : rule.collapses = false)
    {cursor after : Cursor}
    (derived : grammar.Derives (.rule rule) cursor trees after) :
    ∃ node : Node, trees = [node.toTree] ∧ node.rule = rule ∧ grammar.Stems node := by
  cases derived with
  | rule body =>
      rw [build_eq keeps]
      exact ⟨⟨rule, _⟩, rfl, rfl, _, _, body⟩

theorem holds_rule
    {rule : Rule}
    (keeps : rule.collapses = false)
    (listed : rule ∈ rules) :
    grammar.Holds (.rule rule) rules := by
  intro cursor trees after derived
  obtain ⟨node, rfl, rfl, _⟩ := exists_of_derives_rule keeps derived
  exact ⟨node.rule, listed, node.children, List.mem_cons_self⟩

theorem Holds.append (holds : grammar.Holds first rules) :
    grammar.Holds (first ++ second) rules := by
  intro cursor trees after derived
  cases derived with
  | sequence front _ =>
      obtain ⟨rule, listed, children, present⟩ := holds _ _ _ front
      exact ⟨rule, listed, children, List.mem_append_left _ present⟩

theorem Holds.behind (holds : grammar.Holds second rules) :
    grammar.Holds (first ++ second) rules := by
  intro cursor trees after derived
  cases derived with
  | sequence _ back =>
      obtain ⟨rule, listed, children, present⟩ := holds _ _ _ back
      exact ⟨rule, listed, children, List.mem_append_right _ present⟩

theorem Holds.orElse
    (left : grammar.Holds preferred rules)
    (right : grammar.Holds alternative rules) :
    grammar.Holds (preferred <|> alternative) rules := by
  intro cursor trees after derived
  cases derived with
  | preferred chosen => exact left _ _ _ chosen
  | alternative chosen => exact right _ _ _ chosen

/-- The first of some rules that matches is one of them. -/
theorem exists_of_derives_firstOf
    {preferred : Rule}
    {others : List Rule}
    (keep : ∀ rule ∈ preferred :: others, rule.collapses = false)
    {cursor after : Cursor}
    (derived : grammar.Derives (.firstOf preferred others) cursor trees after) :
    ∃ node : Node, trees = [node.toTree] ∧ node.rule ∈ preferred :: others ∧
      grammar.Stems node := by
  induction others generalizing preferred with
  | nil =>
      obtain ⟨node, equal, rfl, stems⟩ :=
        exists_of_derives_rule (keep preferred List.mem_cons_self) derived
      exact ⟨node, equal, List.mem_cons_self, stems⟩
  | cons next others inductionHypothesis =>
      rw [List.forall_mem_cons] at keep
      cases derived with
      | preferred chosen =>
          obtain ⟨node, equal, rfl, stems⟩ := exists_of_derives_rule keep.1 chosen
          exact ⟨node, equal, List.mem_cons_self, stems⟩
      | alternative chosen =>
          obtain ⟨node, equal, listed, stems⟩ := inductionHypothesis keep.2 chosen
          exact ⟨node, equal, List.mem_cons_of_mem _ listed, stems⟩

/-- A number sign and one of some names. -/
def Head (names : List String) (trees : List Tree) : Prop :=
  ∃ hash word, trees = [.leaf hash, .leaf word] ∧ hash.isPunctuator .hash = true ∧
    word.isIdentifier = true ∧ word.text ∈ names

/-- A number sign, one of some names, and the name of a macro. -/
def NamedHead (names : List String) (trees : List Tree) : Prop :=
  ∃ head name, trees = head ++ [.leaf name] ∧ Head names head ∧ name.isIdentifier = true

/-- A certain word, perhaps with the keyword for exports in front of it. -/
def WordHead (word : String) (trees : List Tree) : Prop :=
  ∃ found, found.isWord word = true ∧
    (trees = [.leaf found] ∨
      ∃ keyword, keyword.isWord "export" = true ∧ trees = [.leaf keyword, .leaf found])

theorem shaped_directiveHead (names : List String) :
    grammar.Shaped (.directiveHead names) (Head names) := by
  have hash : grammar.Shaped (.symbol .hash) fun trees =>
      ∃ token, trees = [.leaf token] ∧ token.isPunctuator .hash = true :=
    shaped_token fun _ => Token.isTrivia_of_isPunctuator
  have word : grammar.Shaped (.word names) fun trees =>
      ∃ token, trees = [.leaf token] ∧
        (token.isIdentifier && names.contains token.text) = true := by
    refine shaped_token fun token accepted => Token.isTrivia_of_isIdentifier ?_
    exact (Bool.and_eq_true_iff.1 accepted).1
  refine (((shaped_trivia.append hash).append shaped_trivia).append word).mono ?_
  rintro _ ⟨_, _, rfl, ⟨_, _, rfl, ⟨_, _, rfl, rfl, hash, rfl, isHash⟩, rfl⟩, word, rfl, accepted⟩
  rw [Bool.and_eq_true, List.contains_iff_mem] at accepted
  exact ⟨hash, word, rfl, isHash, accepted⟩

theorem shaped_namedHead (names : List String) :
    grammar.Shaped (.directiveHead names ++ .trivia ++ .identifier) (NamedHead names) := by
  have name : grammar.Shaped .identifier fun trees =>
      ∃ token, trees = [.leaf token] ∧ token.isIdentifier = true :=
    shaped_token fun _ => Token.isTrivia_of_isIdentifier
  refine (((shaped_directiveHead names).append shaped_trivia).append name).mono ?_
  rintro _ ⟨_, _, rfl, ⟨head, _, rfl, isHead, rfl⟩, name, rfl, isName⟩
  exact ⟨head, name, by rw [List.append_nil], isHead, isName⟩

theorem shaped_word (word : String) :
    grammar.Shaped (.word [word]) fun trees =>
      ∃ token, trees = [.leaf token] ∧ token.isWord word = true := by
  have same (token : Token) :
      (token.isIdentifier && [word].contains token.text) = token.isWord word := by
    simp only [List.contains_cons, List.contains_nil, Bool.or_false, Token.isWord]
  refine (shaped_token ?_).mono fun trees => ?_
  · intro token accepted
    exact Token.isTrivia_of_isIdentifier (Bool.and_eq_true_iff.1 accepted).1
  · rintro ⟨token, equal, accepted⟩
    exact ⟨token, equal, same token ▸ accepted⟩

theorem shaped_exported :
    grammar.Shaped .exported fun trees =>
      trees = [] ∨ ∃ keyword, keyword.isWord "export" = true ∧ trees = [.leaf keyword] := by
  intro cursor trees after derived
  cases derived with
  | preferred chosen =>
      obtain ⟨_, _, equal, ⟨keyword, rfl, isKeyword⟩, rfl⟩ :=
        (shaped_word "export").append shaped_trivia _ _ _ chosen
      exact .inr ⟨keyword, isKeyword, by rw [equal, List.append_nil]⟩
  | alternative chosen =>
      cases chosen
      exact .inl rfl

theorem shaped_wordHead
    (word : String)
    (exported : grammar.Shaped first fun trees =>
      trees = [] ∨ ∃ keyword, keyword.isWord "export" = true ∧ trees = [.leaf keyword]) :
    grammar.Shaped (first ++ .word [word]) (WordHead word) := by
  refine (exported.append (shaped_word word)).mono ?_
  rintro _ ⟨_, _, rfl, rfl | ⟨keyword, isKeyword, rfl⟩, found, rfl, isWord⟩
  · exact ⟨found, isWord, .inl rfl⟩
  · exact ⟨found, isWord, .inr ⟨keyword, isKeyword, rfl⟩⟩

theorem opens_ppImport : grammar.Opens .ppImport (WordHead "import") := by
  have exported : grammar.Shaped (.trivia ++ .exported) fun trees =>
      trees = [] ∨ ∃ keyword, keyword.isWord "export" = true ∧ trees = [.leaf keyword] := by
    refine (shaped_trivia.append shaped_exported).mono ?_
    rintro _ ⟨_, _, rfl, rfl, exported⟩
    exact exported
  exact (shaped_wordHead "import" exported).opens.append.append.append

theorem opens_ppModule : grammar.Opens .ppModule (WordHead "module") := by
  have word : grammar.Opens (.word ["module"]) (WordHead "module") := by
    refine ((shaped_word "module").mono ?_).opens
    rintro _ ⟨found, rfl, isWord⟩
    exact ⟨found, isWord, .inl rfl⟩
  refine (Opens.behind_trivia (Opens.orElse ?_ (Opens.orElse ?_ ?_))).append
  · exact word.append.append
  · exact word.append.append.append.append.append.append
  · exact (shaped_wordHead "module" shaped_exported).opens.append.append.append.append.append

end Grammar
end PreprocessorSyntax
