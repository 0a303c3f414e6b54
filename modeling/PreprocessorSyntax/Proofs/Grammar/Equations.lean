import PreprocessorSyntax.Proofs.Grammar.Nesting

/-!
# What patterns read, given levels enough

One equation for each kind of pattern says what `Grammar.treesAt?` reads, so no
proof about a rule has to open the interpreter.  Repetition has its expected
equation because its items take tokens.
-/

namespace PreprocessorSyntax
namespace Grammar

variable {grammar : Grammar}

/-- What is read without memory is a derivation. -/
theorem derives_of_nodeAt?
    {rule : Rule}
    {cursor after : Cursor}
    {node : Node}
    (read : grammar.nodeAt? rule cursor = some (node, after)) :
    grammar.Derives (.rule rule) cursor [node.toTree] after :=
  derives_of_readAfresh _ (Prod.ext read rfl)

/-- What a pattern reads is a derivation. -/
theorem derives_of_treesAt?
    {pattern : Pattern}
    {cursor after : Cursor}
    {trees : List Tree}
    (read : grammar.treesAt? pattern cursor = some (trees, after)) :
    grammar.Derives pattern cursor trees after := by
  refine derives_of_read ?_ pattern (Prod.ext read rfl)
  intro rule place state node behind later found
  exact derives_of_nodeAt? (Prod.ext_iff.1 found).1

theorem treesAt?_token_nil (accepts : Token → Bool) (position : Nat) :
    grammar.treesAt? (.token accepts) ⟨position, []⟩ = none := rfl

theorem treesAt?_token_cons
    (accepts : Token → Bool)
    (position : Nat)
    (token : Token)
    (rest : List Token) :
    grammar.treesAt? (.token accepts) ⟨position, token :: rest⟩ =
      if token.kind = .endOfInput then none
      else if accepts token then some ([.leaf token], ⟨position + 1, rest⟩) else none := by
  unfold treesAt?
  by_cases ends : token.kind = .endOfInput
  · simp [Pattern.read, Cursor.bump?, ends]
  · simp only [Pattern.read, Cursor.bump?, if_neg ends]
    split <;> rfl

theorem exists_of_treesAt?_token
    {accepts : Token → Bool}
    {cursor after : Cursor}
    {trees : List Tree}
    (read : grammar.treesAt? (.token accepts) cursor = some (trees, after)) :
    ∃ token, cursor.bump? = some (token, after) ∧ accepts token = true ∧ trees = [.leaf token] := by
  cases derives_of_treesAt? read with
  | token found accepted => exact ⟨_, found, accepted, rfl⟩

theorem treesAt?_rule (called : Rule) (cursor : Cursor) :
    grammar.treesAt? (.rule called) cursor =
      (grammar.nodeAt? called cursor).map fun found => ([found.1.toTree], found.2) := by
  rw [treesAt?, Pattern.read_rule]

theorem treesAt?_ahead (accepts : TokenKind → Bool) (cursor : Cursor) :
    grammar.treesAt? (.ahead accepts) cursor =
      if accepts cursor.peekKind then some ([], cursor) else none := rfl

theorem treesAt?_absent (refused : Rule) (cursor : Cursor) :
    grammar.treesAt? (.absent refused) cursor =
      if (grammar.nodeAt? refused cursor).isNone then some ([], cursor) else none := by
  rw [treesAt?, Pattern.read_absent]

theorem treesAt?_empty (cursor : Cursor) :
    grammar.treesAt? .empty cursor = some ([], cursor) := rfl

theorem treesAt?_append (first second : Pattern) (cursor : Cursor) :
    grammar.treesAt? (first ++ second) cursor =
      (grammar.treesAt? first cursor).bind fun front =>
        (grammar.treesAt? second front.2).map fun back => (front.1 ++ back.1, back.2) := by
  rw [Pattern.append_eq]
  unfold treesAt?
  simp only [Pattern.read]
  split
  next failed => simp [failed]
  next read =>
    simp only [read, Option.bind_some]
    split <;> simp_all

/-- A sequence is read by reading its parts one after the other. -/
theorem exists_of_treesAt?_append
    {first second : Pattern}
    {cursor after : Cursor}
    {trees : List Tree}
    (read : grammar.treesAt? (first ++ second) cursor = some (trees, after)) :
    ∃ front middle back, grammar.treesAt? first cursor = some (front, middle) ∧
      grammar.treesAt? second middle = some (back, after) ∧ trees = front ++ back := by
  rw [treesAt?_append, Option.bind_eq_some_iff] at read
  obtain ⟨⟨front, middle⟩, first, read⟩ := read
  obtain ⟨⟨back, _⟩, second, read⟩ := Option.map_eq_some_iff.1 read
  cases read
  exact ⟨front, middle, back, first, second, rfl⟩

theorem treesAt?_orElse (preferred alternative : Pattern) (cursor : Cursor) :
    grammar.treesAt? (preferred <|> alternative) cursor =
      (grammar.treesAt? preferred cursor).or (grammar.treesAt? alternative cursor) := by
  rw [Pattern.orElse_eq]
  unfold treesAt?
  simp only [Pattern.read]
  split <;> simp_all

/-- The bound on the number of items has no influence if it is not smaller than the input. -/
theorem readMany_eq_of_le
    {item : Pattern}
    (consumes : item.consumes = true)
    {limit other : List Token}
    {cursor : Cursor}
    (enough : cursor.upcoming.length ≤ limit.length)
    (enoughToo : cursor.upcoming.length ≤ other.length) :
    let reader := item.read fun rule place (_ : Unit) => (grammar.nodeAt? rule place, ())
    Pattern.readMany reader limit cursor () = Pattern.readMany reader other cursor () := by
  intro reader
  induction limit generalizing other cursor with
  | nil =>
      unfold Pattern.readMany
      rcases read : reader cursor () with ⟨_ | ⟨trees, after⟩, _⟩
      · rfl
      · have derived := derives_of_treesAt? (congrArg Prod.fst read)
        have shorter := derived.upcoming_lt consumes
        simp only [List.length_nil] at enough
        omega
  | cons token limit inductionHypothesis =>
      unfold Pattern.readMany
      rcases read : reader cursor () with ⟨_ | ⟨trees, after⟩, _⟩
      · rfl
      · have derived := derives_of_treesAt? (congrArg Prod.fst read)
        have shorter := derived.upcoming_lt consumes
        cases other with
        | nil =>
            simp only [List.length_nil] at enoughToo
            omega
        | cons otherToken other =>
            simp only [List.length_cons] at enough enoughToo
            have fits : after.upcoming.length ≤ limit.length := by omega
            have fitsToo : after.upcoming.length ≤ other.length := by omega
            simp only [inductionHypothesis fits fitsToo]

/-- There are no more tokens to be read than tokens. -/
theorem upcoming_length_le (cursor : Cursor) : cursor.upcoming.length ≤ cursor.rest.length :=
  (List.takeWhile_prefix _).length_le

/-- Repetition may be given any bound that is not smaller than the input. -/
theorem treesAt?_many_of_le
    {item : Pattern}
    (consumes : item.consumes = true)
    {limit : List Token}
    {cursor : Cursor}
    (enough : cursor.upcoming.length ≤ limit.length) :
    grammar.treesAt? (.many item) cursor =
      some (Pattern.readMany
        (item.read fun rule place (_ : Unit) => (grammar.nodeAt? rule place, ()))
        limit cursor ()).1 := by
  rw [← readMany_eq_of_le consumes (upcoming_length_le cursor) enough]
  rfl

/-- Repetition stops where no item can be read. -/
theorem treesAt?_many_stop
    {item : Pattern}
    {cursor : Cursor}
    (stops : grammar.treesAt? item cursor = none) :
    grammar.treesAt? (.many item) cursor = some ([], cursor) := by
  unfold treesAt? at stops ⊢
  simp only [Pattern.read]
  unfold Pattern.readMany
  split
  next => rfl
  next read => simp [read] at stops

/-- Repetition goes on behind an item. -/
theorem treesAt?_many_further
    {item : Pattern}
    (consumes : item.consumes = true)
    {cursor after : Cursor}
    {trees : List Tree}
    (front : grammar.treesAt? item cursor = some (trees, after)) :
    grammar.treesAt? (.many item) cursor =
      (grammar.treesAt? (.many item) after).map fun more => (trees ++ more.1, more.2) := by
  have shorter := (derives_of_treesAt? front).upcoming_lt consumes
  obtain ⟨token, limit, here⟩ : ∃ token limit, cursor.rest = token :: limit := by
    apply List.exists_cons_of_length_pos
    have bounded := upcoming_length_le cursor
    omega
  have enough : after.upcoming.length ≤ limit.length := by
    have bounded := upcoming_length_le cursor
    rw [here, List.length_cons] at bounded
    omega
  rw [treesAt?_many_of_le consumes enough]
  unfold treesAt? at front ⊢
  simp only [Pattern.read, here]
  rw [Pattern.readMany]
  split
  next read => simp [read] at front
  next read =>
    rw [read] at front
    cases front
    rfl

/-- Repetition ends where no further item can be read. -/
theorem treesAt?_many_end
    {item : Pattern}
    (consumes : item.consumes = true)
    {cursor after : Cursor}
    {trees : List Tree}
    (read : grammar.treesAt? (.many item) cursor = some (trees, after)) :
    grammar.treesAt? item after = none := by
  cases front : grammar.treesAt? item cursor with
  | none =>
      rw [treesAt?_many_stop front] at read
      cases read
      exact front
  | some found =>
      rw [treesAt?_many_further consumes front, Option.map_eq_some_iff] at read
      obtain ⟨⟨more, last⟩, readMore, equal⟩ := read
      cases equal
      exact treesAt?_many_end consumes readMore
termination_by cursor.upcoming.length
decreasing_by exact (derives_of_treesAt? front).upcoming_lt consumes

/-- Tokens are taken as long as they pass the test. -/
theorem treesAt?_many_token
    {accepts : Token → Bool}
    (stops : ∀ token, token.kind = .endOfInput → accepts token = false)
    (position : Nat)
    (rest : List Token) :
    grammar.treesAt? (.many (.token accepts)) ⟨position, rest⟩ =
      some ((rest.takeWhile accepts).map .leaf,
        ⟨position + (rest.takeWhile accepts).length, rest.dropWhile accepts⟩) := by
  induction rest generalizing position with
  | nil => exact treesAt?_many_stop (treesAt?_token_nil _ _)
  | cons token rest inductionHypothesis =>
      have item : grammar.treesAt? (.token accepts) ⟨position, token :: rest⟩ = _ :=
        treesAt?_token_cons accepts position token rest
      cases accepted : accepts token with
      | false =>
          rw [accepted] at item
          simp only [List.takeWhile_cons, List.dropWhile_cons, accepted]
          exact treesAt?_many_stop (by simpa using item)
      | true =>
          have readable : token.kind ≠ .endOfInput := by
            intro ends
            rw [stops token ends] at accepted
            cases accepted
          rw [accepted, if_neg readable] at item
          rw [treesAt?_many_further rfl item, inductionHypothesis]
          simp only [Option.map_some, List.takeWhile_cons, List.dropWhile_cons, accepted, if_true,
            List.map_cons, List.length_cons, List.singleton_append, Nat.add_assoc]
          rw [Nat.add_comm 1]

/-- A run of tokens that must not be empty. -/
theorem treesAt?_atLeastOnce_token
    {accepts : Token → Bool}
    (stops : ∀ token, token.kind = .endOfInput → accepts token = false)
    (position : Nat)
    (rest : List Token) :
    grammar.treesAt? (.atLeastOnce (.token accepts)) ⟨position, rest⟩ =
      if rest.takeWhile accepts = [] then none
      else some ((rest.takeWhile accepts).map .leaf,
        ⟨position + (rest.takeWhile accepts).length, rest.dropWhile accepts⟩) := by
  rw [Pattern.atLeastOnce, treesAt?_append]
  cases rest with
  | nil => rfl
  | cons token rest =>
      rw [treesAt?_token_cons]
      cases accepted : accepts token with
      | false => simp [accepted]
      | true =>
          have readable : token.kind ≠ .endOfInput := by
            intro ends
            rw [stops token ends] at accepted
            cases accepted
          rw [if_neg readable, if_pos rfl, Option.bind_some, treesAt?_many_token stops]
          simp [accepted, Nat.add_assoc, Nat.add_comm 1]

/-- All white space and comments are skipped at once. -/
theorem treesAt?_trivia (position : Nat) (rest : List Token) :
    grammar.treesAt? .trivia ⟨position, rest⟩ =
      some ((rest.takeWhile Token.isTrivia).map .leaf,
        ⟨position + (rest.takeWhile Token.isTrivia).length, rest.dropWhile Token.isTrivia⟩) :=
  treesAt?_many_token (fun token ends => by rw [Token.isTrivia, ends]; rfl) position rest

theorem treesAt?_trivia_eq (cursor : Cursor) :
    grammar.treesAt? .trivia cursor = some (cursor.trivia.1.map .leaf, cursor.trivia.2) :=
  treesAt?_trivia cursor.position cursor.rest

/-- The limit on nesting is the only thing that its change changes. -/
theorem readRule_withDepth (depth levels : Nat) :
    readRule { grammar with maxDepth := depth } levels = grammar.readRule levels := by
  induction levels with
  | zero => rfl
  | succ levels inductionHypothesis =>
      funext rule cursor failures
      unfold readRule
      simp only [inductionHypothesis]
      rfl

/-- With 54 levels for every token and 54 more, a rule is read as if there were no limit. -/
theorem readRule_eq_nodeAt?
    {levels : Nat}
    {rule : Rule}
    {tokens : List Token}
    (enough : 54 * ((Cursor.ofTokens tokens).upcoming.length + 1) ≤ levels) :
    (grammar.readRule levels rule (Cursor.ofTokens tokens).trivia.2 .empty).1 =
      grammar.nodeAt? rule (Cursor.ofTokens tokens).trivia.2 := by
  have shorter := (Cursor.ofTokens tokens).advances_trivia.upcoming_length
  have accepted : (grammar.readAfresh levels rule
      (Cursor.ofTokens tokens).trivia.2 false).2 = false := by
    apply accepts_readAfresh
    have bounded := rule.rank_lt
    omega
  rw [readRule_eq_readAfresh accepted, readAfresh_eq_nodeAt? accepted]

/-- A parse with so many levels reads its rule in this way. -/
theorem parseTokens_eq_rootOf?
    {rule : Rule}
    {tokens : List Token}
    (enough : 54 * ((Cursor.ofTokens tokens).upcoming.length + 1) ≤ grammar.maxDepth) :
    grammar.parseTokens rule tokens = rootOf? rule tokens (grammar.nodeAt? rule) :=
  rootOf?_congr (readRule_eq_nodeAt? enough)

end Grammar
end PreprocessorSyntax
