import Mathlib.Data.List.Sort
import PreprocessorSyntax.Proofs.Grammar.Coverage
import PreprocessorSyntax.Proofs.Lexer.Locations
import PreprocessorSyntax.Proofs.Tree.Paths

/-!
# Questions about trees

Some questions about a tree are answered by a search that stops where it has
found what it looks for, others by a walk over the whole tree.  Both give the
same answers.  Neither depends on how the tree came about, so this also holds
where nodes have been removed or have no leaves.

Only the span of a node says where its leaves stand in a source.  In a parse
they stand side by side, so a node with leaves spans as many bytes as its text.
-/

namespace PreprocessorSyntax

namespace Tree

mutual

theorem firstToken?_eq : (tree : Tree) → tree.firstToken? = tree.tokens.head?
  | .leaf _ => rfl
  | .node _ children => firstTokenOf?_eq children

theorem firstTokenOf?_eq : (trees : List Tree) → firstTokenOf? trees = (tokensOf trees).head?
  | [] => rfl
  | tree :: trees => by
      rw [firstTokenOf?, firstToken?_eq tree, firstTokenOf?_eq trees, tokensOf_cons,
        List.head?_append]

end

mutual

theorem lastToken?_eq : (tree : Tree) → tree.lastToken? = tree.tokens.getLast?
  | .leaf _ => rfl
  | .node _ children => lastTokenOf?_eq children

theorem lastTokenOf?_eq : (trees : List Tree) → lastTokenOf? trees = (tokensOf trees).getLast?
  | [] => rfl
  | tree :: trees => by
      rw [lastTokenOf?, lastToken?_eq tree, lastTokenOf?_eq trees, tokensOf_cons,
        List.getLast?_append]

end

mutual

/-- The search for a node finds the first one on the list of all nodes. -/
theorem findNode?_eq (rule : Rule) :
    (tree : Tree) → tree.findNode? rule = tree.nodes.find? fun node => node.rule == rule
  | .leaf _ => rfl
  | .node found children => by
      by_cases same : found = rule
      · simp [findNode?, nodes, same]
      · simp [findNode?, nodes, same, findNodeOf?_eq rule children]

theorem findNodeOf?_eq (rule : Rule) :
    (trees : List Tree) →
      findNodeOf? rule trees = (nodesOf trees).find? fun node => node.rule == rule
  | [] => rfl
  | tree :: trees => by
      rw [findNodeOf?, findNode?_eq rule tree, findNodeOf?_eq rule trees, nodesOf,
        List.find?_append]

end
end Tree

namespace Node

theorem firstToken?_eq_head? (node : Node) : node.firstToken? = node.tokens.head? :=
  Tree.firstTokenOf?_eq node.children

theorem lastToken?_eq_getLast? (node : Node) : node.lastToken? = node.tokens.getLast? :=
  Tree.lastTokenOf?_eq node.children

/-- A node spans its leaves from the first to the last. -/
theorem span?_eq_some_iff {node : Node} {start stop : Nat} :
    node.span? = some (start, stop) ↔
      ∃ first last, node.tokens.head? = some first ∧ node.tokens.getLast? = some last ∧
        first.location.offset = start ∧ last.endOffset = stop := by
  rw [span?, firstToken?_eq_head?, lastToken?_eq_getLast?]
  cases node.tokens.head? <;> cases node.tokens.getLast? <;> simp

/--
A list of the nodes of one rule strictly below a node: there are paths, in
ascending order, that are all those to such a node, and the list has what stands
at their ends.
-/
def ListsBelow (node : Node) (rule : Rule) (found : List Node) : Prop :=
  ∃ paths : List (List Nat), paths.Pairwise (· < ·) ∧
    (∀ path, path ∈ paths ↔
      path ≠ [] ∧ ∃ inner, node.toTree.nodeAt? path = some inner ∧ inner.rule = rule) ∧
    paths.map (fun path => node.toTree.nodeAt? path) = found.map some

theorem listsBelow_descendants (node : Node) (rule : Rule) :
    node.ListsBelow rule (node.descendants rule) := by
  let below := Tree.locatedFrom 0 node.children
  let listed := below.filter fun found => found.2.rule == rule
  have mem_below (path : List Nat) (inner : Node) :
      (path, inner) ∈ below ↔ path ≠ [] ∧ node.toTree.nodeAt? path = some inner :=
    Tree.mem_locatedFrom_children_iff
  have nodes : listed.map Prod.snd = node.descendants rule := by
    rw [descendants, ← Tree.map_snd_locatedFrom 0, List.filter_map]
    rfl
  refine ⟨listed.map Prod.fst, ?_, ?_, ?_⟩
  · exact List.pairwise_map.2 ((Tree.pairwise_locatedFrom 0 node.children).filter _)
  · intro path
    simp [listed, mem_below, and_assoc]
  · rw [← nodes, List.map_map, List.map_map]
    refine List.map_congr_left fun found present => ?_
    exact ((mem_below found.1 found.2).1 (List.mem_filter.1 present).1).2

/-- There is no other such list, because the paths and their order are given. -/
theorem listsBelow_iff {node : Node} {rule : Rule} {found : List Node} :
    node.ListsBelow rule found ↔ found = node.descendants rule := by
  constructor
  · rintro ⟨paths, ascending, mem_iff, ends⟩
    obtain ⟨others, ascendingToo, memToo, endsToo⟩ := node.listsBelow_descendants rule
    have same : paths = others :=
      ascending.eq_of_mem_iff ascendingToo fun path => (mem_iff path).trans (memToo path).symm
    rw [same, endsToo] at ends
    exact (List.map_injective_iff.2 (Option.some_injective Node) ends).symm
  · rintro rfl
    exact node.listsBelow_descendants rule

theorem firstDescendant?_eq_head? (node : Node) (rule : Rule) :
    node.firstDescendant? rule = (node.descendants rule).head? := by
  rw [firstDescendant?, Tree.findNodeOf?_eq, descendants, List.head?_filter]

theorem hasDescendant_iff {node : Node} {rule : Rule} :
    node.hasDescendant rule = true ↔ node.descendants rule ≠ [] := by
  rw [hasDescendant, firstDescendant?_eq_head?]
  cases node.descendants rule <;> simp

end Node

/-- Tokens that were lexed one after the other are as long as their text. -/
theorem Lexer.Yields.endOffset_eq
    {lexer : Lexer}
    {before run after : List Token}
    {first last : Token}
    (yields : lexer.Yields (before ++ run ++ after))
    (begins : run.head? = some first)
    (ends : run.getLast? = some last) :
    last.endOffset = first.location.offset + (String.join (run.map Token.text)).utf8ByteSize := by
  obtain ⟨others, rfl⟩ := List.head?_eq_some_iff.1 begins
  obtain ⟨front, split⟩ := List.getLast?_eq_some_iff.1 ends
  have fromFirst : lexer.Yields (before ++ first :: (others ++ after)) := by simpa using yields
  have fromLast : lexer.Yields (before ++ front ++ last :: after) := by simpa [split] using yields
  have text : String.join ((front ++ [last]).map Token.text) =
      String.join (front.map Token.text) ++ last.text := by
    simp [String.join_append]
  rw [split, text, Token.endOffset, fromLast.location_eq, fromFirst.location_eq, List.map_append,
    String.join_append, Location.offset_advance, Location.offset_advance, String.ofList_toList,
    String.ofList_toList, String.utf8ByteSize_append, String.utf8ByteSize_append]
  omega

/-- The leaves of a node of a parse were lexed one after the other. -/
theorem Grammar.exists_yields_of_parse
    {grammar : Grammar}
    {rule : Rule}
    {source : String}
    {file : FileId}
    {line : UInt32}
    {root inner : Node}
    (parsed : grammar.parse rule source file line = .ok root)
    (present : inner ∈ root.toTree.nodes) :
    ∃ lexer before after, Lexer.Yields lexer (before ++ inner.tokens ++ after) := by
  obtain ⟨tokens, lexed, found⟩ := parseTokens_of_parse parsed
  obtain ⟨content, ending, rfl, ends, readable, _⟩ := tokenize_eq_ok lexed
  have leaves := (tokens_of_parseTokens found).2
  rw [Cursor.upcoming_ofTokens readable ends] at leaves
  obtain ⟨before, after, whole⟩ := Tree.tokens_infix_of_mem_nodes present
  rw [tokens_toTree, leaves] at whole
  refine ⟨.ofString source file line, before, after ++ [ending], ?_⟩
  rw [← List.append_assoc, whole]
  exact Lexer.yields_of_tokens _ lexed

/--
The questions about a tree agree.  In every tree, also in one from which nodes
have been removed or whose nodes have no leaves, the first and the last token
are the ends of the list of all tokens.  The descendants of one rule are the
nodes of this rule strictly below the root, each once, in pre-order; the first
descendant is the head of this list, and there is a descendant exactly if the
list is not empty.  In a parse, a node with tokens spans as many bytes as its
text has.
-/
theorem queries_agree :
    (∀ node : Node,
      node.firstToken? = node.tokens.head? ∧ node.lastToken? = node.tokens.getLast? ∧
      ∀ rule, (∀ found, node.ListsBelow rule found ↔ found = node.descendants rule) ∧
        node.firstDescendant? rule = (node.descendants rule).head? ∧
        (node.hasDescendant rule = true ↔ node.descendants rule ≠ [])) ∧
    ∀ (grammar : Grammar) (rule : Rule) (source : String) (file : FileId) (line : UInt32) (root),
      grammar.parse rule source file line = .ok root →
        ∀ inner ∈ root.toTree.nodes, inner.tokens ≠ [] →
          ∃ start, inner.span? = some (start, start + inner.text.utf8ByteSize) := by
  refine ⟨fun node => ⟨node.firstToken?_eq_head?, node.lastToken?_eq_getLast?, fun rule =>
    ⟨fun _ => Node.listsBelow_iff, node.firstDescendant?_eq_head? rule,
      Node.hasDescendant_iff⟩⟩, ?_⟩
  intro grammar rule source file line root parsed inner present leaves
  obtain ⟨lexer, before, after, yields⟩ := Grammar.exists_yields_of_parse parsed present
  have begins := List.head?_eq_some_head leaves
  have ends := List.getLast?_eq_some_getLast leaves
  exact ⟨_, Node.span?_eq_some_iff.2 ⟨_, _, begins, ends, rfl, yields.endOffset_eq begins ends⟩⟩

/-- An empty replacement list is found behind a name of two bytes, and has no first token. -/
theorem queries_agree_empty_replacement :
    ∃ root, Grammar.standard.parse .defineLine "#define É /**/" 0 1 = .ok root ∧
      root.firstDescendant? .replacementList = some ⟨.replacementList, []⟩ ∧
      root.ListsBelow .replacementList [⟨.replacementList, []⟩] ∧
      (⟨.replacementList, []⟩ : Node).firstToken? = none ∧
      ∃ start, root.span? = some (start, start + root.text.utf8ByteSize) := by
  have found : ((Grammar.standard.parse .defineLine "#define É /**/" 0 1).toOption.map fun root =>
      (root.descendants .replacementList, root.tokens.isEmpty)) =
        some ([⟨.replacementList, []⟩], false) := by
    decide +kernel
  cases parsed : Grammar.standard.parse .defineLine "#define É /**/" 0 1 with
  | error fault =>
      rw [parsed] at found
      cases found
  | ok root =>
      rw [parsed] at found
      obtain ⟨list, leaves⟩ := Prod.mk.inj (Option.some.inj found)
      obtain ⟨agree, spans⟩ := queries_agree
      obtain ⟨_, _, below⟩ := agree root
      obtain ⟨lists, first, _⟩ := below .replacementList
      have spanned := spans .standard .defineLine "#define É /**/" 0 1 root parsed root
        List.mem_cons_self (List.isEmpty_eq_false_iff.1 leaves)
      rw [list] at first
      exact ⟨root, rfl, first, (lists _).2 list.symm, (agree ⟨.replacementList, []⟩).1, spanned⟩

end PreprocessorSyntax
