import PreprocessorSyntax.Proofs.Grammar.Simulation

/-!
# Rules that nest a fixed number of times

The expression grammar is recursive, but most rules are not: following the rules
that they call, one ends after a few steps.  Such a rule never runs out of
levels if it is given as many as it takes steps, however long the input is, so
it reads what it reads with levels enough.
-/

namespace PreprocessorSyntax

/-- Whether the calls of a rule end within a number of steps. -/
def Rule.nestsWithin : Nat → Rule → Bool
  | 0, _ => false
  | levels + 1, rule => rule.pattern.calls.all (nestsWithin levels)

namespace Grammar

variable {grammar : Grammar} {levels : Nat} {rule : Rule}

/-- With levels enough for its calls, a rule refuses nothing. -/
theorem readAfresh_of_nestsWithin
    (unmocked : grammar.mocked = [])
    (nests : rule.nestsWithin levels = true)
    (cursor : Cursor) :
    grammar.readAfresh levels rule cursor false = (grammar.nodeAt? rule cursor, false) := by
  induction levels generalizing rule cursor with
  | zero => cases nests
  | succ levels inductionHypothesis =>
      have rules (called : Rule) (mentioned : called ∈ (grammar.pattern rule).calls) :
          Simulates (fun _ => True) (fun _ => True) (fun refused (_ : Unit) => refused = false)
            (grammar.readAfresh levels called)
            (fun place (_ : Unit) => (grammar.nodeAt? called place, ())) := by
        rw [pattern_eq unmocked] at mentioned
        have fits := List.all_eq_true.1 nests called mentioned
        rintro place _ _ _ rfl
        rw [inductionHypothesis fits]
        exact ⟨rfl, rfl, fun _ _ _ => trivial⟩
      obtain ⟨same, accepted, _⟩ :=
        simulates_read (fun _ _ => trivial) rules cursor false () trivial rfl
      rw [readAfresh_succ, same, accepted, nodeAt?_eq]
      rfl

/-- More levels than that make no difference. -/
theorem readAfresh_of_nestsWithin_of_le
    {more : Nat}
    (unmocked : grammar.mocked = [])
    (nests : rule.nestsWithin levels = true)
    (enough : levels ≤ more)
    (cursor : Cursor) :
    grammar.readAfresh more rule cursor false = (grammar.nodeAt? rule cursor, false) := by
  have accepted := readAfresh_of_nestsWithin unmocked nests cursor
  rw [readAfresh_of_le enough (by rw [accepted]), accepted]

/-- However long the input is, such a rule is read as if there were no limit. -/
theorem readRule_of_nestsWithin
    (unmocked : grammar.mocked = [])
    (nests : rule.nestsWithin levels = true)
    (enough : levels ≤ grammar.maxDepth)
    (tokens : List Token) :
    (grammar.readRule grammar.maxDepth rule (Cursor.ofTokens tokens).trivia.2 .empty).1 =
      grammar.nodeAt? rule (Cursor.ofTokens tokens).trivia.2 := by
  have accepted := readAfresh_of_nestsWithin_of_le unmocked nests enough
    (Cursor.ofTokens tokens).trivia.2
  rw [readRule_eq_readAfresh (by rw [accepted]), accepted]

theorem parseTokens_of_nestsWithin
    (unmocked : grammar.mocked = [])
    (nests : rule.nestsWithin levels = true)
    (enough : levels ≤ grammar.maxDepth)
    (tokens : List Token) :
    grammar.parseTokens rule tokens = rootOf? rule tokens (grammar.nodeAt? rule) :=
  rootOf?_congr (readRule_of_nestsWithin unmocked nests enough tokens)

end Grammar
end PreprocessorSyntax
