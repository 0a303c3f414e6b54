import PreprocessorSyntax.Proofs.Depth.Enough

/-!
# Levels that are not enough

A parse that runs out of levels does not just fail: other alternatives are tried,
and every refusal is remembered.  `Grammar.Confines` says how far a pattern can
get at all with fewer levels than some bound, whatever is remembered already, and
that a fact about the memory on which the bound rests stays true.
-/

namespace PreprocessorSyntax

/-- An opening parenthesis is the very next token. -/
def Cursor.AtParenthesis (cursor : Cursor) : Prop :=
  ∃ token rest, cursor.rest = token :: rest ∧ token.isPunctuator .leftParen = true

namespace Cursor.AtParenthesis

variable {cursor : Cursor}

theorem refuses
    {accepts : Token → Bool}
    (here : cursor.AtParenthesis)
    (refused : ∀ token, token.isPunctuator .leftParen = true → accepts token = false) :
    ∀ token ∈ cursor.rest.head?, accepts token = false := by
  obtain ⟨opening, behind, stands, opens⟩ := here
  rw [stands]
  rintro _ ⟨⟩
  exact refused opening opens

theorem significant (here : cursor.AtParenthesis) : Significant cursor.rest :=
  here.refuses fun _ => Token.isTrivia_of_isPunctuator

theorem of_eq
    {opening : Token}
    {rest : List Token}
    {position : Nat}
    (opens : opening.isPunctuator .leftParen = true)
    (here : cursor = ⟨position, opening :: rest⟩) :
    cursor.AtParenthesis :=
  ⟨opening, rest, by rw [here], opens⟩

end Cursor.AtParenthesis

namespace Grammar

/--
With fewer levels than the bound, a pattern leads from a place to certain others
only, and what is known of the memory stays true.
-/
def Confines
    (grammar : Grammar)
    (known : Failures → Prop)
    (bound : Nat)
    (pattern : Pattern)
    (cursor : Cursor)
    (ends : Cursor → Prop) : Prop :=
  ∀ levels failures reading later, levels < bound → known failures →
    pattern.read (grammar.readRule levels) cursor failures = (reading, later) →
    known later ∧ ∀ found ∈ reading, ends found.2

/-- What is known of the memory stays true if a rule is noted that is no call among arguments. -/
def StaysKnown (known : Failures → Prop) : Prop :=
  ∀ rule, rule ≠ .somethingContainingParentheses →
    ∀ failures position, known failures → known (failures.insert rule position)

variable {grammar : Grammar} {known : Failures → Prop} {bound more position : Nat}
variable {pattern first second item preferred alternative : Pattern} {called : Rule}
variable {cursor : Cursor} {ends middles others : Cursor → Prop}
variable {token : Token} {tokens rest : List Token} {trees : List Tree}

theorem Reads.confines
    (reads : grammar.Reads pattern tokens trees rest)
    (callsNone : pattern.calls = [])
    (reached : ends ⟨position + tokens.length, rest⟩) :
    grammar.Confines known bound pattern ⟨position, tokens ++ rest⟩ ends := by
  intro levels failures reading later _ knows read
  rw [read_of_calls_eq_nil grammar callsNone, reads position] at read
  cases read
  exact ⟨knows, by rintro _ ⟨⟩; exact reached⟩

theorem Fails.confines
    (fails : grammar.Fails pattern rest)
    (callsNone : pattern.calls = []) :
    grammar.Confines known bound pattern ⟨position, rest⟩ ends := by
  intro levels failures reading later _ knows read
  rw [read_of_calls_eq_nil grammar callsNone, fails position] at read
  cases read
  exact ⟨knows, by rintro _ ⟨⟩⟩

/-- Where nothing is to be skipped, nothing is. -/
theorem confines_trivia
    (significant : Significant cursor.rest)
    (here : ends cursor) :
    grammar.Confines known bound .trivia cursor ends :=
  (reads_trivia_nil significant).confines rfl here

theorem confines_token
    {accepts : Token → Bool}
    (refused : ∀ token ∈ cursor.rest.head?, accepts token = false) :
    grammar.Confines known bound (.token accepts) cursor ends :=
  (fails_token refused).confines rfl

namespace Confines

theorem mono
    (confines : grammar.Confines known bound pattern cursor ends)
    (weaker : ∀ place, ends place → others place) :
    grammar.Confines known bound pattern cursor others := by
  intro levels failures reading later fewer knows read
  obtain ⟨knowsLater, reached⟩ := confines levels failures reading later fewer knows read
  exact ⟨knowsLater, fun found present => weaker _ (reached found present)⟩

theorem of_le
    (confines : grammar.Confines known more pattern cursor ends)
    (le : bound ≤ more) :
    grammar.Confines known bound pattern cursor ends :=
  fun levels failures reading later fewer =>
    confines levels failures reading later (Nat.lt_of_lt_of_le fewer le)

theorem append
    (front : grammar.Confines known bound first cursor middles)
    (back : ∀ middle, middles middle → grammar.Confines known bound second middle ends) :
    grammar.Confines known bound (first ++ second) cursor ends := by
  intro levels failures reading later fewer knows read
  rcases readFront : first.read (grammar.readRule levels) cursor failures with
    ⟨_ | ⟨trees, middle⟩, between⟩
  · rw [read_append_of_none readFront] at read
    cases read
    exact ⟨(front _ _ _ _ fewer knows readFront).1, by rintro _ ⟨⟩⟩
  · obtain ⟨knowsBetween, reached⟩ := front _ _ _ _ fewer knows readFront
    rw [read_append_of_some readFront] at read
    cases read
    obtain ⟨knowsLater, reachedBack⟩ := back middle (reached _ rfl) _ _ _ _ fewer knowsBetween rfl
    refine ⟨knowsLater, fun found present => ?_⟩
    obtain ⟨behind, there, rfl⟩ := Option.map_eq_some_iff.1 present
    exact reachedBack behind there

theorem append_at
    {middle : Cursor}
    (front : grammar.Confines known bound first cursor (· = middle))
    (back : grammar.Confines known bound second middle ends) :
    grammar.Confines known bound (first ++ second) cursor ends :=
  front.append fun _ here => by rwa [here]

/-- Nothing is read behind what leads nowhere. -/
theorem append_nowhere (front : grammar.Confines known bound first cursor fun _ => False) :
    grammar.Confines known bound (first ++ second) cursor ends :=
  front.append fun _ => False.elim

theorem orElse
    (first : grammar.Confines known bound preferred cursor ends)
    (otherwise : grammar.Confines known bound alternative cursor ends) :
    grammar.Confines known bound (preferred <|> alternative) cursor ends := by
  intro levels failures reading later fewer knows read
  rcases readFirst : preferred.read (grammar.readRule levels) cursor failures with
    ⟨_ | found, between⟩
  · rw [read_orElse_of_none readFirst] at read
    exact otherwise _ _ _ _ fewer (first _ _ _ _ fewer knows readFirst).1 read
  · rw [read_orElse_of_some readFirst] at read
    cases read
    exact first _ _ _ _ fewer knows readFirst

theorem optional
    (confines : grammar.Confines known bound item cursor ends)
    (here : ends cursor) :
    grammar.Confines known bound (.optional item) cursor ends := by
  refine confines.orElse fun levels failures reading later _ knows read => ?_
  cases read
  exact ⟨knows, by rintro _ ⟨⟩; exact here⟩

/-- A repetition stays where its item leads nowhere. -/
theorem many
    (nowhere : grammar.Confines known bound item cursor fun _ => False)
    (here : ends cursor) :
    grammar.Confines known bound (.many item) cursor ends := by
  intro levels failures reading later fewer knows read
  rw [Pattern.read, Pattern.readMany] at read
  rcases readItem : item.read (grammar.readRule levels) cursor failures with ⟨_ | found, between⟩
  · rw [readItem] at read
    cases read
    exact ⟨(nowhere _ _ _ _ fewer knows readItem).1, by rintro _ ⟨⟩; exact here⟩
  · exact ((nowhere _ _ _ _ fewer knows readItem).2 found rfl).elim

end Confines

/-- A rule takes one level more than what it accepts; that it failed may be noted. -/
theorem confines_rule
    (unmocked : grammar.mocked = [])
    (noted : ∀ failures, known failures → known (failures.insert called cursor.position))
    (body : grammar.Confines known bound called.pattern cursor ends) :
    grammar.Confines known (bound + 1) (.rule called) cursor ends := by
  intro levels failures reading later fewer knows read
  rw [Pattern.read_rule] at read
  cases remembered : failures.contains called cursor.position with
  | true =>
      rw [readRule_of_contains remembered] at read
      cases read
      exact ⟨knows, by rintro _ ⟨⟩⟩
  | false =>
      cases levels with
      | zero =>
          rw [readRule_zero remembered] at read
          cases read
          exact ⟨noted _ knows, by rintro _ ⟨⟩⟩
      | succ levels =>
          have within : levels < bound := Nat.lt_of_succ_lt_succ fewer
          rcases readBody : called.pattern.read (grammar.readRule levels) cursor failures with
            ⟨_ | ⟨children, after⟩, between⟩
          · obtain ⟨knowsBetween, _⟩ := body _ _ _ _ within knows readBody
            rw [← pattern_eq unmocked] at readBody
            rw [readRule_of_none remembered readBody] at read
            cases read
            exact ⟨noted _ knowsBetween, by rintro _ ⟨⟩⟩
          · obtain ⟨knowsBetween, reached⟩ := body _ _ _ _ within knows readBody
            rw [← pattern_eq unmocked] at readBody
            rw [readRule_of_some remembered readBody] at read
            cases read
            exact ⟨knowsBetween, by rintro _ ⟨⟩; exact reached (children, after) rfl⟩

/-- A pattern that begins with a test leads nowhere where the test fails. -/
theorem confines_of_firstTest?
    {accepts : Token → Bool}
    (begins : pattern.firstTest? = some accepts)
    (refused : accepts token = false) :
    grammar.Confines known bound pattern ⟨position, token :: rest⟩ ends := by
  intro levels failures reading later _ knows read
  rw [read_of_firstTest? begins refused] at read
  cases read
  exact ⟨knows, by rintro _ ⟨⟩⟩

/-- Operators are read behind white space; a parenthesis is not taken for one. -/
theorem confines_at_parenthesis
    {accepts : Token → Bool}
    (here : cursor.AtParenthesis)
    (refused : ∀ token, token.isPunctuator .leftParen = true → accepts token = false) :
    grammar.Confines known bound (.trivia ++ .token accepts) cursor ends := by
  have skipped : grammar.Confines known bound .trivia cursor Cursor.AtParenthesis :=
    confines_trivia here.significant here
  exact skipped.append fun place there => confines_token (there.refuses refused)

section Unmocked

variable (unmocked : grammar.mocked = []) (stays : StaysKnown known)
include unmocked stays

theorem confines_called
    (notCall : called ≠ .somethingContainingParentheses)
    (body : grammar.Confines known bound called.pattern cursor ends) :
    grammar.Confines known (bound + 1) (.rule called) cursor ends :=
  confines_rule unmocked (fun failures => stays called notCall failures cursor.position) body

/-- If its pattern leads nowhere, so does a rule, also with a level less. -/
theorem confines_called_nowhere
    (notCall : called ≠ .somethingContainingParentheses)
    (nowhere : grammar.Confines known bound called.pattern cursor fun _ => False) :
    grammar.Confines known bound (.rule called) cursor ends := by
  have whole := confines_called unmocked stays notCall nowhere
  exact (whole.of_le (Nat.le_succ bound)).mono fun _ => False.elim

/-- A rule leads nowhere if it fails at its first token. -/
theorem confines_first
    {accepts : Token → Bool}
    (notCall : called ≠ .somethingContainingParentheses)
    (begins : called.pattern.firstTest? = some accepts)
    (refused : accepts token = false) :
    grammar.Confines known bound (.rule called) ⟨position, token :: rest⟩ ends :=
  confines_called_nowhere unmocked stays notCall (confines_of_firstTest? begins refused)

theorem confines_layer
    (layer : Layer)
    (operand : grammar.Confines known bound (.rule layer.operand) cursor Cursor.AtParenthesis) :
    grammar.Confines known (bound + 1) (.rule layer.rule) cursor Cursor.AtParenthesis := by
  apply confines_called unmocked stays (by cases layer <;> decide)
  rw [layer.pattern_rule]
  refine operand.append fun place here => Confines.many ?_ here
  refine (confines_at_parenthesis here ?_).append_nowhere.append_nowhere
  intro token isOpening
  rw [Token.isAnyPunctuator, List.any_eq_false]
  intro symbol listed
  rw [Token.isPunctuator_eq_false isOpening]
  · decide
  · rintro rfl
    cases layer <;> exact absurd listed (by decide)

theorem confines_unaryExpression
    (primary : grammar.Confines known bound (.rule .primaryExpression) ⟨position, tokens⟩
      Cursor.AtParenthesis)
    (unsigned : ∀ token ∈ tokens.head?, token.isAnyPunctuator Punctuator.signs = false) :
    grammar.Confines known (bound + 1) (.rule .unaryExpression) ⟨position, tokens⟩
      Cursor.AtParenthesis := by
  apply confines_called unmocked stays (by decide)
  have failed : grammar.Fails Pattern.unaryOperator tokens := fails_token unsigned
  have sign : grammar.Confines known bound (.rule .unaryOperator) ⟨position, tokens⟩
      fun _ => False :=
    confines_called_nowhere unmocked stays (by decide) (failed.confines rfl)
  exact sign.append_nowhere.append_nowhere.orElse primary

theorem confines_conditionalExpression
    (condition : grammar.Confines known bound (.rule .logicalOrExpression) cursor
      Cursor.AtParenthesis) :
    grammar.Confines known (bound + 1) (.rule .conditionalExpression) cursor
      Cursor.AtParenthesis := by
  apply confines_called unmocked stays (by decide)
  refine condition.append fun place here => Confines.optional ?_ here
  have nowhere : grammar.Confines known bound (.trivia ++ .symbol .question) place
      fun _ => False :=
    confines_at_parenthesis here fun token isOpening =>
      Token.isPunctuator_eq_false isOpening (by decide)
  exact nowhere.append_nowhere.append_nowhere.append_nowhere.append_nowhere.append_nowhere

/-- Between a condition and a primary expression there are twelve rules. -/
theorem confines_condition
    (primary : grammar.Confines known bound (.rule .primaryExpression) ⟨position, tokens⟩
      Cursor.AtParenthesis)
    (unsigned : ∀ token ∈ tokens.head?, token.isAnyPunctuator Punctuator.signs = false) :
    grammar.Confines known (bound + 12) (.rule .conditionalExpression) ⟨position, tokens⟩
      Cursor.AtParenthesis := by
  have unary := confines_unaryExpression unmocked stays primary unsigned
  have multiplicative := confines_layer unmocked stays .multiplicative unary
  have additive := confines_layer unmocked stays .additive multiplicative
  have shift := confines_layer unmocked stays .shift additive
  have relational := confines_layer unmocked stays .relational shift
  have equality := confines_layer unmocked stays .equality relational
  have and := confines_layer unmocked stays .and equality
  have exclusiveOr := confines_layer unmocked stays .exclusiveOr and
  have inclusiveOr := confines_layer unmocked stays .inclusiveOr exclusiveOr
  have logicalAnd := confines_layer unmocked stays .logicalAnd inclusiveOr
  have logicalOr := confines_layer unmocked stays .logicalOr logicalAnd
  exact confines_conditionalExpression unmocked stays logicalOr

end Unmocked
end Grammar
end PreprocessorSyntax
