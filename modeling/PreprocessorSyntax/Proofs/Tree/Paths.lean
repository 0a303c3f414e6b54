import PreprocessorSyntax.Tree

/-!
# Where nodes stand in a tree

A path leads from a tree down to a node in it and names a child by its number at
each step.  Paths are compared like words: a node comes before those below it,
and what is below one child comes before what is below a later one.  This is the
order in which `Tree.nodes` lists the nodes of a tree, each of them once.
-/

namespace PreprocessorSyntax
namespace Tree

/-- The node at the end of a path. -/
def nodeAt? : List Nat → Tree → Option Node
  | [], tree => tree.node?
  | _ :: _, .leaf _ => none
  | index :: path, .node _ children => children[index]?.bind (nodeAt? path)

mutual

/-- The nodes of a tree with the paths to them, each before those below it. -/
def located : Tree → List (List Nat × Node)
  | .leaf _ => []
  | .node rule children => ([], ⟨rule, children⟩) :: locatedFrom 0 children

/-- The same for some neighbouring trees, numbered from the given number on. -/
def locatedFrom : Nat → List Tree → List (List Nat × Node)
  | _, [] => []
  | index, tree :: trees =>
    tree.located.map (fun found => (index :: found.1, found.2)) ++ locatedFrom (index + 1) trees

end

mutual

/-- Without their paths, these are the nodes of the tree. -/
theorem map_snd_located : (tree : Tree) → tree.located.map Prod.snd = tree.nodes
  | .leaf _ => rfl
  | .node _ children => by
      rw [located, List.map_cons, map_snd_locatedFrom 0 children, nodes]

theorem map_snd_locatedFrom (index : Nat) :
    (trees : List Tree) → (locatedFrom index trees).map Prod.snd = nodesOf trees
  | [] => rfl
  | tree :: trees => by
      rw [locatedFrom, List.map_append, List.map_map, map_snd_locatedFrom (index + 1) trees,
        nodesOf, ← map_snd_located tree]
      rfl

end

/-- A path among neighbouring trees names one of them first and then leads on in it. -/
theorem mem_locatedFrom_iff
    {start : Nat}
    {trees : List Tree}
    {path : List Nat}
    {inner : Node} :
    (path, inner) ∈ locatedFrom start trees ↔
      ∃ index tree rest, trees[index]? = some tree ∧ (rest, inner) ∈ tree.located ∧
        path = (start + index) :: rest := by
  induction trees generalizing start with
  | nil => simp [locatedFrom]
  | cons tree trees inductionHypothesis =>
      rw [locatedFrom, List.mem_append, List.mem_map, inductionHypothesis]
      constructor
      · rintro (⟨⟨rest, _⟩, present, equal⟩ | ⟨index, later, rest, listed, present, rfl⟩)
        · cases equal
          exact ⟨0, tree, rest, rfl, present, rfl⟩
        · exact ⟨index + 1, later, rest, listed, present, by rw [Nat.add_assoc, Nat.add_comm 1]⟩
      · rintro ⟨index, found, rest, listed, present, rfl⟩
        cases index with
        | zero =>
            cases listed
            exact .inl ⟨_, present, rfl⟩
        | succ index =>
            exact .inr ⟨index, found, rest, listed, present, by rw [Nat.add_assoc, Nat.add_comm 1]⟩

/-- A node is listed with a path exactly if the path leads to it. -/
theorem mem_located_iff {tree : Tree} {path : List Nat} {inner : Node} :
    (path, inner) ∈ tree.located ↔ tree.nodeAt? path = some inner := by
  induction path generalizing tree with
  | nil =>
      cases tree with
      | leaf token => simp [located, nodeAt?, node?]
      | node rule children => simp [located, nodeAt?, node?, mem_locatedFrom_iff, eq_comm]
  | cons index path inductionHypothesis =>
      cases tree with
      | leaf token => simp [located, nodeAt?]
      | node rule children =>
          rw [located, List.mem_cons, mem_locatedFrom_iff, nodeAt?, Option.bind_eq_some_iff]
          constructor
          · rintro (root | ⟨_, child, rest, listed, present, equal⟩)
            · cases root
            · rw [Nat.zero_add] at equal
              cases equal
              exact ⟨child, listed, inductionHypothesis.1 present⟩
          · rintro ⟨child, listed, leads⟩
            exact .inr ⟨index, child, path, listed, inductionHypothesis.2 leads, by
              rw [Nat.zero_add]⟩

/-- Below a node, the nodes are those at the ends of the paths that are not empty. -/
theorem mem_locatedFrom_children_iff
    {rule : Rule}
    {children : List Tree}
    {path : List Nat}
    {inner : Node} :
    (path, inner) ∈ locatedFrom 0 children ↔
      path ≠ [] ∧ (Tree.node rule children).nodeAt? path = some inner := by
  rw [← mem_located_iff, located, List.mem_cons]
  constructor
  · intro present
    refine ⟨?_, .inr present⟩
    obtain ⟨index, _, rest, _, _, rfl⟩ := mem_locatedFrom_iff.1 present
    exact List.cons_ne_nil _ rest
  · rintro ⟨isBelow, root | present⟩
    · cases root
      exact absurd rfl isBelow
    · exact present

mutual

/-- Paths are listed in their order, so no path is listed twice. -/
theorem pairwise_located :
    (tree : Tree) → tree.located.Pairwise fun first second => first.1 < second.1
  | .leaf _ => .nil
  | .node _ children => by
      rw [located, List.pairwise_cons]
      refine ⟨?_, pairwise_locatedFrom 0 children⟩
      rintro ⟨path, inner⟩ present
      obtain ⟨index, _, rest, _, _, rfl⟩ := mem_locatedFrom_iff.1 present
      exact List.nil_lt_cons _ rest

theorem pairwise_locatedFrom (start : Nat) :
    (trees : List Tree) → (locatedFrom start trees).Pairwise fun first second => first.1 < second.1
  | [] => .nil
  | tree :: trees => by
      rw [locatedFrom, List.pairwise_append, List.pairwise_map]
      refine ⟨?_, pairwise_locatedFrom (start + 1) trees, ?_⟩
      · exact (pairwise_located tree).imp fun before => List.cons_lt_cons_iff.2 (.inr ⟨rfl, before⟩)
      · rintro found listed ⟨path, inner⟩ present
        obtain ⟨below, _, rfl⟩ := List.mem_map.1 listed
        obtain ⟨index, _, rest, _, _, rfl⟩ := mem_locatedFrom_iff.1 present
        exact List.cons_lt_cons_iff.2 (.inl (by omega))

end

example :
    (Tree.node .argument [.node .argument [.node .literal []], .node .literal []]).located.map
      Prod.fst = [[], [0], [0, 0], [1]] := rfl

end Tree
end PreprocessorSyntax
