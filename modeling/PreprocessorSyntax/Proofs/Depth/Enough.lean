import PreprocessorSyntax.Proofs.Condition.RoundTrip
import PreprocessorSyntax.Proofs.Depth.Replay

/-!
# Levels that are enough

A parse in which no rule is refused for want of levels reads the same with or
without memory.  `Grammar.ReadsWithin` says that a given number of levels is
enough to read exactly some tokens, and `Grammar.FailsWithin` that it is enough
to find out that nothing matches.  Each rule that is entered takes one level, so
the levels that a construct needs are counted along its rules.
-/

namespace PreprocessorSyntax

/-- The test that the first token of a pattern has to pass, if the pattern begins with one. -/
def Pattern.firstTest? : Pattern → Option (Token → Bool)
  | .token accepts => some accepts
  | .sequence first _ => first.firstTest?
  | _ => none

namespace Grammar

/-- In front of `rest`, so many levels are enough for a pattern to read exactly some tokens. -/
def ReadsWithin
    (grammar : Grammar)
    (levels : Nat)
    (pattern : Pattern)
    (tokens rest : List Token) : Prop :=
  ∀ position, ∃ trees, pattern.read (grammar.readAfresh levels) ⟨position, tokens ++ rest⟩ false =
    (some (trees, ⟨position + tokens.length, rest⟩), false)

/-- So many levels are enough to find out that a pattern matches nothing here. -/
def FailsWithin
    (grammar : Grammar)
    (levels : Nat)
    (pattern : Pattern)
    (rest : List Token) : Prop :=
  ∀ position, pattern.read (grammar.readAfresh levels) ⟨position, rest⟩ false = (none, false)

variable {grammar : Grammar} {levels more : Nat} {called : Rule}
variable {pattern first second item preferred alternative : Pattern}
variable {token : Token} {tokens further rest : List Token} {trees : List Tree}

/-- A pattern that calls no rules needs no levels. -/
theorem Reads.within
    (reads : grammar.Reads pattern tokens trees rest)
    (callsNone : pattern.calls = []) :
    grammar.ReadsWithin levels pattern tokens rest := by
  intro position
  rw [read_of_calls_eq_nil grammar callsNone, reads position]
  exact ⟨trees, rfl⟩

theorem Fails.within
    (fails : grammar.Fails pattern rest)
    (callsNone : pattern.calls = []) :
    grammar.FailsWithin levels pattern rest := by
  intro position
  rw [read_of_calls_eq_nil grammar callsNone, fails position]

/-- A rule takes one level more than what it accepts. -/
theorem readsWithin_rule
    (unmocked : grammar.mocked = [])
    (body : grammar.ReadsWithin levels called.pattern tokens rest) :
    grammar.ReadsWithin (levels + 1) (.rule called) tokens rest := by
  intro position
  obtain ⟨trees, read⟩ := body position
  rw [Pattern.read_rule, readAfresh_succ, pattern_eq unmocked, read]
  exact ⟨_, rfl⟩

theorem failsWithin_rule
    (unmocked : grammar.mocked = [])
    (body : grammar.FailsWithin levels called.pattern rest) :
    grammar.FailsWithin (levels + 1) (.rule called) rest := by
  intro position
  rw [Pattern.read_rule, readAfresh_succ, pattern_eq unmocked, body position]
  rfl

/-- More levels than are enough make no difference. -/
theorem ReadsWithin.of_le
    (reads : grammar.ReadsWithin levels (.rule called) tokens rest)
    (le : levels ≤ more) :
    grammar.ReadsWithin more (.rule called) tokens rest := by
  intro position
  obtain ⟨trees, read⟩ := reads position
  rw [Pattern.read_rule] at read
  refine ⟨trees, ?_⟩
  rw [Pattern.read_rule, readAfresh_of_le le (Prod.ext_iff.1 read).2, read]

theorem ReadsWithin.append
    (front : grammar.ReadsWithin levels first tokens (further ++ rest))
    (back : grammar.ReadsWithin levels second further rest) :
    grammar.ReadsWithin levels (first ++ second) (tokens ++ further) rest := by
  intro position
  obtain ⟨trees, read⟩ := front position
  obtain ⟨behind, readBack⟩ := back (position + tokens.length)
  refine ⟨trees ++ behind, ?_⟩
  rw [List.append_assoc, read_append_of_some read, readBack, List.length_append, Nat.add_assoc]
  rfl

theorem FailsWithin.append (front : grammar.FailsWithin levels first rest) :
    grammar.FailsWithin levels (first ++ second) rest :=
  fun position => read_append_of_none (front position)

theorem ReadsWithin.append_fails
    (front : grammar.ReadsWithin levels first tokens rest)
    (back : grammar.FailsWithin levels second rest) :
    grammar.FailsWithin levels (first ++ second) (tokens ++ rest) := by
  intro position
  obtain ⟨trees, read⟩ := front position
  rw [read_append_of_some read, back]
  rfl

/-- What can be left out may be left out behind anything. -/
theorem ReadsWithin.append_nil
    (front : grammar.ReadsWithin levels first tokens rest)
    (back : grammar.ReadsWithin levels second [] rest) :
    grammar.ReadsWithin levels (first ++ second) tokens rest := by
  have behind : grammar.ReadsWithin levels first tokens ([] ++ rest) := front
  have both := behind.append back
  rwa [List.append_nil] at both

theorem ReadsWithin.skip
    (front : grammar.ReadsWithin levels first tokens rest)
    (significant : Significant rest) :
    grammar.ReadsWithin levels (first ++ .trivia) tokens rest :=
  front.append_nil ((reads_trivia_nil significant).within rfl)

theorem ReadsWithin.orElse_left
    (chosen : grammar.ReadsWithin levels preferred tokens rest) :
    grammar.ReadsWithin levels (preferred <|> alternative) tokens rest := by
  intro position
  obtain ⟨trees, read⟩ := chosen position
  exact ⟨trees, read_orElse_of_some read⟩

theorem FailsWithin.orElse_right
    (failed : grammar.FailsWithin levels preferred (tokens ++ rest))
    (chosen : grammar.ReadsWithin levels alternative tokens rest) :
    grammar.ReadsWithin levels (preferred <|> alternative) tokens rest := by
  intro position
  obtain ⟨trees, read⟩ := chosen position
  exact ⟨trees, (read_orElse_of_none (failed position)).trans read⟩

theorem FailsWithin.orElse
    (failed : grammar.FailsWithin levels preferred rest)
    (failedToo : grammar.FailsWithin levels alternative rest) :
    grammar.FailsWithin levels (preferred <|> alternative) rest :=
  fun position => (read_orElse_of_none (failed position)).trans (failedToo position)

theorem ReadsWithin.optional (read : grammar.ReadsWithin levels item tokens rest) :
    grammar.ReadsWithin levels (.optional item) tokens rest :=
  read.orElse_left

theorem FailsWithin.optional (failed : grammar.FailsWithin levels item rest) :
    grammar.ReadsWithin levels (.optional item) [] rest :=
  fun position => ⟨[], read_optional_of_none (failed position)⟩

theorem FailsWithin.many (failed : grammar.FailsWithin levels item rest) :
    grammar.ReadsWithin levels (.many item) [] rest := by
  intro position
  refine ⟨[], ?_⟩
  rw [List.nil_append, Pattern.read, Pattern.readMany, failed position]
  rfl

/-- A pattern that begins with a test fails where the test does, however rules are read. -/
theorem read_of_firstTest?
    {State : Type}
    {accepts : Token → Bool}
    (begins : pattern.firstTest? = some accepts)
    (refused : accepts token = false)
    (readRule : Rule → Pattern.Reader State Node)
    (position : Nat)
    (state : State) :
    pattern.read readRule ⟨position, token :: rest⟩ state = (none, state) := by
  induction pattern with
  | token tested =>
      cases begins
      have failed : standard.Fails (.token accepts) (token :: rest) := fails_token_cons refused
      rw [read_of_calls_eq_nil standard rfl, failed position]
  | sequence first second firstHypothesis _ => exact read_append_of_none (firstHypothesis begins)
  | _ => cases begins

theorem failsWithin_of_firstTest?
    {accepts : Token → Bool}
    (begins : pattern.firstTest? = some accepts)
    (refused : accepts token = false) :
    grammar.FailsWithin levels pattern (token :: rest) :=
  fun position => read_of_firstTest? begins refused _ position false

section Unmocked

variable (unmocked : grammar.mocked = [])
include unmocked

/-- One level is enough for a rule that fails at its first token. -/
theorem failsWithin_first
    {accepts : Token → Bool}
    (begins : called.pattern.firstTest? = some accepts)
    (refused : accepts token = false) :
    grammar.FailsWithin (levels + 1) (.rule called) (token :: rest) :=
  failsWithin_rule unmocked (failsWithin_of_firstTest? begins refused)

theorem readsWithin_layer
    (layer : Layer)
    (operand : grammar.ReadsWithin levels (.rule layer.operand) tokens rest)
    (stops : Stops layer.rule rest) :
    grammar.ReadsWithin (levels + 1) (.rule layer.rule) tokens rest := by
  apply readsWithin_rule unmocked
  rw [layer.pattern_rule]
  have skipped : grammar.Reads .trivia [] [] rest := reads_trivia_nil stops.significant
  have failed : grammar.FailsWithin levels _ rest :=
    (skipped.append_fails (fails_token stops.isOperator_eq_false)).within rfl
  exact operand.append_nil failed.append.append.many

theorem readsWithin_unaryExpression
    (primary : grammar.ReadsWithin (levels + 1) (.rule .primaryExpression) tokens rest)
    (unsigned : ∀ token ∈ (tokens ++ rest).head?,
      token.isAnyPunctuator Punctuator.signs = false) :
    grammar.ReadsWithin (levels + 2) (.rule .unaryExpression) tokens rest := by
  have failed : grammar.FailsWithin (levels + 1) (.rule .unaryOperator) (tokens ++ rest) :=
    failsWithin_rule unmocked ((fails_token unsigned).within rfl)
  exact readsWithin_rule unmocked (failed.append.append.orElse_right primary)

theorem readsWithin_conditionalExpression
    (condition : grammar.ReadsWithin levels (.rule .logicalOrExpression) tokens rest)
    (stops : Stops .conditionalExpression rest) :
    grammar.ReadsWithin (levels + 1) (.rule .conditionalExpression) tokens rest := by
  apply readsWithin_rule unmocked
  have skipped : grammar.Reads .trivia [] [] rest := reads_trivia_nil stops.significant
  have failed : grammar.FailsWithin levels _ rest :=
    (skipped.append_fails (fails_token stops.isQuestion_eq_false)).within rfl
  exact condition.append_nil failed.append.append.append.append.append.optional

/-- Between a condition and a primary expression there are twelve rules. -/
theorem readsWithin_condition
    (primary : grammar.ReadsWithin (levels + 1) (.rule .primaryExpression) tokens rest)
    (unsigned : ∀ token ∈ (tokens ++ rest).head?,
      token.isAnyPunctuator Punctuator.signs = false)
    (stops : Stops .conditionalExpression rest) :
    grammar.ReadsWithin (levels + 13) (.rule .conditionalExpression) tokens rest := by
  have layers (layer : Layer) (tighter : layer.rule.rank ≤ Rule.conditionalExpression.rank)
      {levels : Nat}
      (operand : grammar.ReadsWithin levels (.rule layer.operand) tokens rest) :
      grammar.ReadsWithin (levels + 1) (.rule layer.rule) tokens rest :=
    readsWithin_layer unmocked layer operand (stops.of_rank_le tighter)
  have unary := readsWithin_unaryExpression unmocked primary unsigned
  have additive := layers .additive (by decide) (layers .multiplicative (by decide) unary)
  have relational := layers .relational (by decide) (layers .shift (by decide) additive)
  have and := layers .and (by decide) (layers .equality (by decide) relational)
  have inclusive := layers .inclusiveOr (by decide) (layers .exclusiveOr (by decide) and)
  have or := layers .logicalOr (by decide) (layers .logicalAnd (by decide) inclusive)
  exact readsWithin_conditionalExpression unmocked or stops

end Unmocked
end Grammar
end PreprocessorSyntax
