import PreprocessorSyntax.Rule
import PreprocessorSyntax.Token

/-!
# Syntax trees

A tree is a leaf, which holds one token, or a node, which holds the rule that
produced it and its children in source order.  Trivia are leaves like every
other token, so the leaves of a tree spell the text it was read from.
-/

namespace PreprocessorSyntax

/-- A leaf or a node of a syntax tree. -/
inductive Tree where
  | leaf (token : Token)
  | node (rule : Rule) (children : List Tree)
  deriving Repr

/-- A node on its own: the root of a tree that is not a leaf. -/
structure Node where
  /-- The rule that produced the node. -/
  rule : Rule
  /-- The leaves and nodes directly below, in source order. -/
  children : List Tree
  deriving Repr

mutual

/-- Whether two trees are the same. -/
def Tree.same : Tree → Tree → Bool
  | .leaf first, .leaf second => first == second
  | .node firstRule first, .node secondRule second =>
    firstRule == secondRule && Tree.sameAll first second
  | _, _ => false

/-- Whether two lists of trees are the same. -/
def Tree.sameAll : List Tree → List Tree → Bool
  | [], [] => true
  | first :: firsts, second :: seconds => first.same second && Tree.sameAll firsts seconds
  | _, _ => false

end

mutual

theorem Tree.same_iff_eq : (first second : Tree) → (first.same second = true ↔ first = second)
  | .leaf _, .leaf _ => by simp [Tree.same]
  | .leaf _, .node _ _ => by simp [Tree.same]
  | .node _ _, .leaf _ => by simp [Tree.same]
  | .node _ first, .node _ second => by
      simp [Tree.same, Tree.sameAll_iff_eq first second]

theorem Tree.sameAll_iff_eq :
    (first second : List Tree) → (Tree.sameAll first second = true ↔ first = second)
  | [], [] => by simp [Tree.sameAll]
  | [], _ :: _ => by simp [Tree.sameAll]
  | _ :: _, [] => by simp [Tree.sameAll]
  | first :: firsts, second :: seconds => by
      simp [Tree.sameAll, Tree.same_iff_eq first second, Tree.sameAll_iff_eq firsts seconds]

end

instance : DecidableEq Tree := fun first second =>
  decidable_of_iff _ (Tree.same_iff_eq first second)

deriving instance DecidableEq for Node

mutual

/-- The tokens of all leaves, in source order, in front of some more tokens. -/
def Tree.tokensBefore (rest : List Token) : Tree → List Token
  | .leaf token => token :: rest
  | .node _ children => Tree.tokensOfBefore rest children

/-- The tokens of all leaves of some neighbouring trees in front of some more tokens. -/
def Tree.tokensOfBefore (rest : List Token) : List Tree → List Token
  | [] => rest
  | tree :: trees => tree.tokensBefore (Tree.tokensOfBefore rest trees)

end

/-- The tokens of all leaves, in source order. -/
def Tree.tokens (tree : Tree) : List Token :=
  tree.tokensBefore []

/-- The tokens of all leaves of some neighbouring trees. -/
def Tree.tokensOf (trees : List Tree) : List Token :=
  Tree.tokensOfBefore [] trees

mutual

theorem Tree.tokensBefore_eq (rest : List Token) :
    (tree : Tree) → tree.tokensBefore rest = tree.tokens ++ rest
  | .leaf _ => rfl
  | .node _ children => Tree.tokensOfBefore_eq rest children

theorem Tree.tokensOfBefore_eq (rest : List Token) :
    (trees : List Tree) → Tree.tokensOfBefore rest trees = Tree.tokensOf trees ++ rest
  | [] => rfl
  | tree :: trees => by
      rw [tokensOf, tokensOfBefore, tokensOfBefore, tokensBefore_eq _ tree,
        tokensBefore_eq (tokensOfBefore [] trees) tree, tokensOfBefore_eq rest trees, tokensOf,
        List.append_assoc]

end

@[simp] theorem Tree.tokens_leaf (token : Token) : (Tree.leaf token).tokens = [token] := rfl

@[simp] theorem Tree.tokens_node (rule : Rule) (children : List Tree) :
    (Tree.node rule children).tokens = Tree.tokensOf children := rfl

@[simp] theorem Tree.tokensOf_nil : Tree.tokensOf [] = [] := rfl

@[simp] theorem Tree.tokensOf_cons (tree : Tree) (trees : List Tree) :
    Tree.tokensOf (tree :: trees) = tree.tokens ++ Tree.tokensOf trees :=
  Tree.tokensBefore_eq _ tree

@[simp] theorem Tree.tokensOf_append (first second : List Tree) :
    Tree.tokensOf (first ++ second) = Tree.tokensOf first ++ Tree.tokensOf second := by
  induction first with
  | nil => rfl
  | cons tree trees inductionHypothesis => simp [inductionHypothesis]

@[simp] theorem Tree.tokensOf_map_leaf (tokens : List Token) :
    Tree.tokensOf (tokens.map Tree.leaf) = tokens := by
  induction tokens with
  | nil => rfl
  | cons token tokens inductionHypothesis => simp [inductionHypothesis]

mutual

/-- The first leaf, if the tree has leaves at all. -/
def Tree.firstToken? : Tree → Option Token
  | .leaf token => some token
  | .node _ children => Tree.firstTokenOf? children

/-- The first leaf of some neighbouring trees. -/
def Tree.firstTokenOf? : List Tree → Option Token
  | [] => none
  | tree :: trees => tree.firstToken?.or (Tree.firstTokenOf? trees)

end

mutual

/-- The last leaf, if the tree has leaves at all. -/
def Tree.lastToken? : Tree → Option Token
  | .leaf token => some token
  | .node _ children => Tree.lastTokenOf? children

/-- The last leaf of some neighbouring trees. -/
def Tree.lastTokenOf? : List Tree → Option Token
  | [] => none
  | tree :: trees => (Tree.lastTokenOf? trees).or tree.lastToken?

end

/-- The node that a tree is, unless it is a leaf. -/
def Tree.node? : Tree → Option Node
  | .leaf _ => none
  | .node rule children => some ⟨rule, children⟩

/-- The token of a leaf. -/
def Tree.token? : Tree → Option Token
  | .leaf token => some token
  | .node _ _ => none

mutual

/-- The nodes of a tree, each before those below it. -/
def Tree.nodes : Tree → List Node
  | .leaf _ => []
  | .node rule children => ⟨rule, children⟩ :: Tree.nodesOf children

/-- The nodes of some neighbouring trees. -/
def Tree.nodesOf : List Tree → List Node
  | [] => []
  | tree :: trees => tree.nodes ++ Tree.nodesOf trees

end

mutual

/-- The first node of one rule in a tree; the search ends where it is found. -/
def Tree.findNode? (rule : Rule) : Tree → Option Node
  | .leaf _ => none
  | .node found children =>
    if found = rule then some ⟨found, children⟩ else Tree.findNodeOf? rule children

/-- The first node of one rule in some neighbouring trees. -/
def Tree.findNodeOf? (rule : Rule) : List Tree → Option Node
  | [] => none
  | tree :: trees => (tree.findNode? rule).or (Tree.findNodeOf? rule trees)

end

mutual

/-- A tree without the nodes of some rules; `none` if its own root is one of them. -/
def Tree.prune? (rules : List Rule) : Tree → Option Tree
  | .leaf token => some (.leaf token)
  | .node rule children =>
    if rules.contains rule then none else some (.node rule (Tree.pruneAll rules children))

/-- Some neighbouring trees without the nodes of some rules. -/
def Tree.pruneAll (rules : List Rule) : List Tree → List Tree
  | [] => []
  | tree :: trees => (tree.prune? rules).toList ++ Tree.pruneAll rules trees

end

namespace Node

/-- A node as a tree. -/
def toTree (node : Node) : Tree :=
  .node node.rule node.children

/-- The tokens of all leaves below a node, in source order. -/
def tokens (node : Node) : List Token :=
  Tree.tokensOf node.children

/-- The leaves that are neither white space nor comments. -/
def significantTokens (node : Node) : List Token :=
  node.tokens.filter fun token => !token.isTrivia

/-- The source text that a node covers. -/
def text (node : Node) : String :=
  String.join (node.tokens.map Token.text)

/-- The first leaf below a node. -/
def firstToken? (node : Node) : Option Token :=
  Tree.firstTokenOf? node.children

/-- The last leaf below a node. -/
def lastToken? (node : Node) : Option Token :=
  Tree.lastTokenOf? node.children

/-- The offsets of the first and of the first following byte of a node that has leaves. -/
def span? (node : Node) : Option (Nat × Nat) :=
  match node.firstToken?, node.lastToken? with
  | some first, some last => some (first.location.offset, last.endOffset)
  | _, _ => none

/-- The nodes directly below a node. -/
def childNodes (node : Node) : List Node :=
  node.children.filterMap Tree.node?

/-- The leaves directly below a node, without white space and comments. -/
def childTokens (node : Node) : List Token :=
  (node.children.filterMap Tree.token?).filter fun token => !token.isTrivia

/-- The first node of one rule directly below a node. -/
def child? (node : Node) (rule : Rule) : Option Node :=
  node.childNodes.find? fun child => child.rule == rule

/-- All nodes of one rule below a node, each before those below it. -/
def descendants (node : Node) (rule : Rule) : List Node :=
  (Tree.nodesOf node.children).filter fun below => below.rule == rule

/-- The first node of one rule below a node. -/
def firstDescendant? (node : Node) (rule : Rule) : Option Node :=
  Tree.findNodeOf? rule node.children

/-- Whether there is a node of one rule below a node. -/
def hasDescendant (node : Node) (rule : Rule) : Bool :=
  (node.firstDescendant? rule).isSome

/-- A node without the nodes of some rules below it. -/
def prune (node : Node) (rules : List Rule) : Node :=
  { node with children := Tree.pruneAll rules node.children }

end Node
end PreprocessorSyntax
