import Mathlib.Data.List.Forall2
import PreprocessorSyntax.Proofs.Directive.Shapes
import PreprocessorSyntax.Proofs.Module.Phrases

/-!
# Declarations of modules and imports

The words of a declaration are no keywords: a module may be called `module`, and
one of its partitions `private`.  Which declaration a line makes is told by the
places of its phrases alone.  Here every declaration is written as phrases, read
by the grammar and read off the tree again.
-/

namespace PreprocessorSyntax

/-- A declaration without a header name, as it is written. -/
inductive Declaration where
  | globalFragment
  | privateFragment
  | named (exported : Bool) (name : List String) (partition : Option (List String))
  | importing (exported : Bool) (ofPartition : Bool) (name : List String)
  deriving DecidableEq, Repr

namespace Declaration

/-- The word in front of what importers see. -/
def exportPhrases : Bool → List Phrase
  | true => [.name ["export"]]
  | false => []

/-- How a declaration is written. -/
def phrases : Declaration → List Phrase
  | .globalFragment => [.name ["module"], .symbol .semicolon]
  | .privateFragment =>
    [.name ["module"], .symbol .colon, .name ["private"], .symbol .semicolon]
  | .named exported name none =>
    exportPhrases exported ++ [.name ["module"], .name name, .symbol .semicolon]
  | .named exported name (some partition) =>
    exportPhrases exported ++
      [.name ["module"], .name name, .symbol .colon, .name partition, .symbol .semicolon]
  | .importing exported false name =>
    exportPhrases exported ++ [.name ["import"], .name name, .symbol .semicolon]
  | .importing exported true name =>
    exportPhrases exported ++ [.name ["import"], .symbol .colon, .name name, .symbol .semicolon]

/-- The names that a declaration is free to choose. -/
def names : Declaration → List (List String)
  | .globalFragment | .privateFragment => []
  | .named _ name partition => name :: partition.toList
  | .importing _ _ name => [name]

/-- What a declaration means. -/
def directive : Declaration → Directive
  | .globalFragment => .moduleUnit .globalFragment
  | .privateFragment => .moduleUnit .privateFragment
  | .named exported name partition =>
    .moduleUnit (.named exported (".".intercalate name) (partition.map (".".intercalate ·)))
  | .importing exported ofPartition name =>
    .importing ⟨exported,
      if ofPartition then .partition (".".intercalate name) else .module (".".intercalate name)⟩

/-- Every phrase of a declaration is one of its names, a keyword or a symbol. -/
theorem mem_phrases
    {declaration : Declaration}
    {phrase : Phrase}
    (present : phrase ∈ declaration.phrases) :
    phrase ∈ declaration.names.map .name ∨
      phrase ∈ [Phrase.name ["export"], .name ["module"], .name ["import"], .name ["private"],
        .symbol .colon, .symbol .semicolon] := by
  rcases declaration with _ | _ | ⟨_ | _, _, _ | _⟩ | ⟨_ | _, _ | _, _⟩ <;>
    simp only [phrases, names, exportPhrases, Option.toList, List.mem_append, List.mem_cons,
      List.map_cons, List.map_nil, List.not_mem_nil] at present ⊢ <;>
    tauto

/-- Where its names are made of identifiers, so are all phrases of a declaration. -/
theorem isPlain_of_mem_phrases
    {declaration : Declaration}
    (plain : ∀ name ∈ declaration.names, (Phrase.name name).IsPlain) :
    ∀ phrase ∈ declaration.phrases, phrase.IsPlain := by
  have keyword (word : String) (single : munch word.toList = some (.identifier, word.length)) :
      (Phrase.name [word]).IsPlain :=
    ⟨by simp, List.forall_mem_singleton.2 single⟩
  intro phrase present
  rcases mem_phrases present with chosen | fixed
  · obtain ⟨name, listed, rfl⟩ := List.mem_map.1 chosen
    exact plain name listed
  · simp only [List.mem_cons, List.not_mem_nil, or_false] at fixed
    rcases fixed with rfl | rfl | rfl | rfl | rfl | rfl
    · exact keyword "export" (by decide)
    · exact keyword "module" (by decide)
    · exact keyword "import" (by decide)
    · exact keyword "private" (by decide)
    · exact .inl rfl
    · exact .inr rfl

end Declaration

variable {word : String} {mark : Punctuator} {parts : List String} {tokens : List Token}

/-- White space and comments are no words. -/
theorem Directive.hasWord_eq (node : Node) (word : String) :
    hasWord node word = (node.children.filterMap Tree.token?).any (Token.isWord word) := by
  rw [hasWord, Node.childTokens, List.any_filter]
  congr 1
  funext token
  cases trivial : token.isTrivia with
  | false => rfl
  | true => simp [Token.isWord, Token.isIdentifier_of_isTrivia trivial]

theorem any_isPunctuator_childTokens (node : Node) (mark : Punctuator) :
    node.childTokens.any (Token.isPunctuator mark) =
      (node.children.filterMap Tree.token?).any (Token.isPunctuator mark) := by
  rw [Node.childTokens, List.any_filter]
  congr 1
  funext token
  cases trivial : token.isTrivia with
  | false => rfl
  | true => simp [Token.isPunctuator_of_isTrivia trivial]

theorem filterMap_token?_map_leaf (tokens : List Token) :
    (tokens.map Tree.leaf).filterMap Tree.token? = tokens := by
  rw [List.filterMap_map]
  exact List.filterMap_some

/-- White space and comments hold neither words nor symbols. -/
theorem any_isWord_of_isTrivia
    (trivial : ∀ token ∈ tokens, token.isTrivia = true)
    (word : String) :
    tokens.any (Token.isWord word) = false := by
  rw [List.any_eq_false]
  intro token present
  simp [Token.isWord, Token.isIdentifier_of_isTrivia (trivial token present)]

theorem any_isPunctuator_of_isTrivia
    (trivial : ∀ token ∈ tokens, token.isTrivia = true)
    (mark : Punctuator) :
    tokens.any (Token.isPunctuator mark) = false := by
  rw [List.any_eq_false]
  intro token present
  simp [Token.isPunctuator_of_isTrivia (trivial token present)]

/-- A word is not another one. -/
theorem Token.isWord_eq
    {token : Token}
    (isWord : token.isWord word = true)
    (other : String) :
    token.isWord other = (word == other) := by
  obtain ⟨isIdentifier, text⟩ := Bool.and_eq_true_iff.1 isWord
  rw [Token.isWord, isIdentifier, beq_iff_eq.1 text, Bool.true_and]

theorem Token.isWord_of_isPunctuator
    {token : Token}
    (isSymbol : token.isPunctuator mark = true)
    (word : String) :
    token.isWord word = false := by
  rw [Token.isWord, Token.isIdentifier_of_isPunctuator isSymbol, Bool.false_and]

theorem Token.isPunctuator_of_isWord
    {token : Token}
    (isWord : token.isWord word = true)
    (mark : Punctuator) :
    token.isPunctuator mark = false := by
  rw [Bool.eq_false_iff]
  intro isSymbol
  rw [Token.isWord_of_isPunctuator isSymbol] at isWord
  cases isWord

/-- A node for a dotted name, and the tokens of the name among those of a line. -/
inductive IsNameNode (tokens : List Token) (parts : List String) : Node → Prop
  | intro
      {region : List Token}
      (writes : WritesName parts region)
      (within : region <:+: tokens) :
      IsNameNode tokens parts ⟨.moduleName, region.map .leaf⟩

/-- What is left of a declaration: whether it is exported, whether it has a colon, and its names. -/
structure Declares
    (tokens : List Token)
    (exported : Bool)
    (colon : Bool)
    (names : List (List String))
    (trees : List Tree) : Prop where
  exports : (trees.filterMap Tree.token?).any (Token.isWord "export") = exported
  colons : (trees.filterMap Tree.token?).any (Token.isPunctuator .colon) = colon
  named : List.Forall₂ (IsNameNode tokens) names (trees.filterMap Tree.node?)

theorem Declares.append
    {exported exportedToo colon colonToo : Bool}
    {names others : List (List String)}
    {trees more : List Tree}
    (front : Declares tokens exported colon names trees)
    (back : Declares tokens exportedToo colonToo others more) :
    Declares tokens (exported || exportedToo) (colon || colonToo) (names ++ others)
      (trees ++ more) where
  exports := by rw [List.filterMap_append, List.any_append, front.exports, back.exports]
  colons := by rw [List.filterMap_append, List.any_append, front.colons, back.colons]
  named := by
    rw [List.filterMap_append]
    exact List.rel_append front.named back.named

theorem declares_leaves (tokens leaves : List Token) :
    Declares tokens (leaves.any (Token.isWord "export")) (leaves.any (Token.isPunctuator .colon)) []
      (leaves.map .leaf) where
  exports := by rw [filterMap_token?_map_leaf]
  colons := by rw [filterMap_token?_map_leaf]
  named := by
    rw [Grammar.filterMap_node?_map_leaf]
    exact .nil

/-- White space and comments declare nothing. -/
theorem declares_blanks
    {blanks : List Token}
    (trivial : ∀ token ∈ blanks, token.isTrivia = true) :
    Declares tokens false false [] (blanks.map .leaf) := by
  have leaves := declares_leaves tokens blanks
  rwa [any_isWord_of_isTrivia trivial, any_isPunctuator_of_isTrivia trivial] at leaves

theorem declares_word
    {token : Token}
    (isWord : token.isWord word = true) :
    Declares tokens (word == "export") false [] [.leaf token] := by
  have leaves := declares_leaves tokens [token]
  rwa [List.any_cons, List.any_cons, Token.isWord_eq isWord, Token.isPunctuator_of_isWord isWord,
    List.any_nil, List.any_nil, Bool.or_false, Bool.or_false] at leaves

theorem declares_mark
    {token : Token}
    (isSymbol : token.isPunctuator mark = true) :
    Declares tokens false (decide (mark = .colon)) [] [.leaf token] := by
  have leaves := declares_leaves tokens [token]
  have colon : token.isPunctuator .colon = decide (mark = .colon) := by
    rw [Token.isPunctuator, Token.kind_of_isPunctuator isSymbol, Bool.eq_iff_iff]
    simp
  rwa [List.any_cons, List.any_cons, Token.isWord_of_isPunctuator isSymbol, colon, List.any_nil,
    List.any_nil, Bool.or_false, Bool.or_false] at leaves

theorem declares_name
    {region : List Token}
    (writes : WritesName parts region)
    (within : region <:+: tokens) :
    Declares tokens false false [parts] [.node .moduleName (region.map .leaf)] where
  exports := rfl
  colons := rfl
  named := .cons (.intro writes within) .nil

/-- A symbol behind white space and comments adds a colon or nothing. -/
theorem Declares.append_mark
    {exported colon : Bool}
    {names : List (List String)}
    {trees : List Tree}
    {blanks : List Token}
    {token : Token}
    (declares : Declares tokens exported colon names trees)
    (trivial : ∀ token ∈ blanks, token.isTrivia = true)
    (isSymbol : token.isPunctuator mark = true) :
    Declares tokens exported (colon || decide (mark = .colon)) names
      (trees ++ blanks.map .leaf ++ [.leaf token]) := by
  have whole := (declares.append (declares_blanks trivial)).append (declares_mark isSymbol)
  simpa using whole

namespace Directive

variable {exported colon : Bool} {names : List (List String)} {name : List String}
variable {partition : Option (List String)} {trees : List Tree}

/-- Node by node, the text of a name is the name. -/
theorem significantText_of_isNameNode
    {node : Node}
    (spelled : ∀ parts region, region <:+: tokens → WritesName parts region →
      significantText region = ".".intercalate parts)
    (named : IsNameNode tokens parts node) :
    node.rule = .moduleName ∧ node.significantText = ".".intercalate parts := by
  cases named with
  | @intro region writes within =>
      refine ⟨rfl, ?_⟩
      rw [Node.significantText, Node.tokens, Tree.tokensOf_map_leaf]
      exact spelled parts region within writes

section Spelled

variable (spelled : ∀ parts region, region <:+: tokens → WritesName parts region →
  significantText region = ".".intercalate parts)
include spelled

theorem importOfNode_of_declares (declares : Declares tokens exported colon [name] trees) :
    importOfNode ⟨.ppImport, trees⟩ =
      .ok ⟨exported,
        if colon then .partition (".".intercalate name) else .module (".".intercalate name)⟩ := by
  obtain ⟨exports, colons, named⟩ := declares
  generalize nodes : trees.filterMap Tree.node? = found at named
  cases named with
  | @cons _ node _ _ isName listedBelow =>
      cases listedBelow
      obtain ⟨rule, text⟩ := significantText_of_isNameNode spelled isName
      have exportsNode : hasWord ⟨.ppImport, trees⟩ "export" = exported := by
        rw [hasWord_eq, exports]
      have colonsNode : (Node.mk .ppImport trees).childTokens.any (Token.isPunctuator .colon) =
          colon := by
        rw [any_isPunctuator_childTokens, colons]
      simp [importOfNode, Node.child?, Node.childNodes, nodes, rule, text, exportsNode, colonsNode]

theorem moduleOfNode_of_declares
    (declares : Declares tokens exported colon (name :: partition.toList) trees) :
    moduleOfNode ⟨.ppModule, trees⟩ =
      .named exported (".".intercalate name) (partition.map (".".intercalate ·)) := by
  obtain ⟨exports, -, named⟩ := declares
  generalize nodes : trees.filterMap Tree.node? = found at named
  have exportsNode : hasWord ⟨.ppModule, trees⟩ "export" = exported := by
    rw [hasWord_eq, exports]
  cases named with
  | @cons _ node _ _ isName more =>
      obtain ⟨rule, text⟩ := significantText_of_isNameNode spelled isName
      cases partition with
      | none =>
          cases more
          simp [moduleOfNode, Node.childNodes, nodes, rule, text, exportsNode]
      | some partition =>
          cases more with
          | @cons _ other _ _ isNameToo listedBelow =>
              cases listedBelow
              obtain ⟨ruleToo, textToo⟩ := significantText_of_isNameNode spelled isNameToo
              simp [moduleOfNode, Node.childNodes, nodes, rule, text, ruleToo, textToo, exportsNode]

end Spelled

theorem moduleOfNode_map_leaf (tokens : List Token) :
    moduleOfNode ⟨.ppModule, tokens.map .leaf⟩ =
      if tokens.any (Token.isWord "private") then .privateFragment else .globalFragment := by
  have words := hasWord_eq ⟨.ppModule, tokens.map .leaf⟩ "private"
  rw [filterMap_token?_map_leaf] at words
  rw [moduleOfNode, Node.childNodes, Grammar.filterMap_node?_map_leaf, words]
  rfl

end Directive

end PreprocessorSyntax
