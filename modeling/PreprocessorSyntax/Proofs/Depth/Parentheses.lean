import PreprocessorSyntax.Proofs.Depth.Enough
import PreprocessorSyntax.Proofs.Depth.Shortage

/-!
# Levels for parentheses

The alternatives of a primary expression are tried in order.  In front of a
number only the literal can match, in front of a parenthesis only the expression
in parentheses, and each pair of parentheses goes once through all levels of
precedence.  That makes fourteen levels for each pair.
-/

namespace PreprocessorSyntax

/-- A number in a number of pairs of parentheses. -/
inductive InParentheses : Nat → List Token → Prop
  | number {token : Token} (isNumber : token.kind = .number) : InParentheses 0 [token]
  | enclose
      {depth : Nat}
      {opening closing : Token}
      {inner : List Token}
      (opens : opening.isPunctuator .leftParen = true)
      (closes : closing.isPunctuator .rightParen = true)
      (nest : InParentheses depth inner) :
      InParentheses (depth + 1) (opening :: (inner ++ [closing]))

/-- A number or an opening parenthesis comes first. -/
theorem InParentheses.exists_cons
    {depth : Nat}
    {tokens : List Token}
    (nest : InParentheses depth tokens) :
    ∃ token others, tokens = token :: others ∧
      (token.kind = .number ∨ token.isPunctuator .leftParen = true) := by
  cases nest with
  | number isNumber => exact ⟨_, _, rfl, .inl isNumber⟩
  | enclose opens _ _ => exact ⟨_, _, rfl, .inr opens⟩

namespace InParentheses

variable {depth : Nat} {tokens rest : List Token}
variable (nest : InParentheses depth tokens)
include nest

/-- The first token is of some use to a primary expression only. -/
theorem refuses
    {accepts : Token → Bool}
    (refused : ∀ token, token.kind = .number ∨ token.isPunctuator .leftParen = true →
      accepts token = false) :
    ∀ token ∈ (tokens ++ rest).head?, accepts token = false := by
  obtain ⟨token, others, rfl, first⟩ := nest.exists_cons
  rintro _ ⟨⟩
  exact refused token first

theorem significant : Significant (tokens ++ rest) := by
  refine nest.refuses fun token first => ?_
  rcases first with isNumber | opens
  · rw [Token.isTrivia, isNumber]
    rfl
  · exact Token.isTrivia_of_isPunctuator opens

theorem unsigned :
    ∀ token ∈ (tokens ++ rest).head?, token.isAnyPunctuator Punctuator.signs = false := by
  refine nest.refuses fun token first => ?_
  have kind : token.kind = .number ∨ token.kind = .punctuator .leftParen :=
    first.imp_right Token.kind_of_isPunctuator
  rcases kind with kind | kind <;>
    simp [Token.isAnyPunctuator, Token.isPunctuator, kind, Punctuator.signs]

theorem not_rightParen :
    ∀ token ∈ (tokens ++ rest).head?, token.isPunctuator .rightParen = false := by
  refine nest.refuses fun token first => ?_
  rcases first with isNumber | opens
  · simp [Token.isPunctuator, isNumber]
  · exact Token.isPunctuator_eq_false opens (by decide)

end InParentheses

namespace Grammar

variable {grammar : Grammar} {known : Failures → Prop} {levels bound depth position : Nat}
variable {opening closing token : Token} {tokens rest : List Token} {ends : Cursor → Prop}
variable (unmocked : grammar.mocked = [])
include unmocked

/-- A parenthesis is not the first token of a literal, a test or a macro call. -/
theorem failsWithin_firstOf (opens : opening.isPunctuator .leftParen = true) :
    grammar.FailsWithin (levels + 1)
      (.firstOf .literal [.hasIncludeExpression, .definedExpression, .functionlikeMacro])
      (opening :: rest) := by
  have notName := Token.isIdentifier_of_isPunctuator opens
  have notLiteral : opening.isLiteral = false := by
    rw [Token.isLiteral, Token.kind_of_isPunctuator opens]
  refine FailsWithin.orElse ?_ (FailsWithin.orElse ?_ (FailsWithin.orElse ?_ ?_))
  · exact failsWithin_first unmocked rfl notLiteral
  · exact failsWithin_first unmocked rfl (by simp [notName])
  · exact failsWithin_first unmocked rfl (by simp [notName])
  · exact failsWithin_first unmocked rfl (by simp [notName])

theorem readsWithin_number (isNumber : token.kind = .number) :
    grammar.ReadsWithin 2 (.rule .primaryExpression) [token] rest := by
  have isLiteral : token.isLiteral = true := by rw [Token.isLiteral, isNumber]
  have readable : token.kind ≠ .endOfInput := by simp [isNumber]
  have literal : grammar.ReadsWithin 1 (.rule .literal) [token] rest :=
    readsWithin_rule unmocked ((reads_token isLiteral readable).within rfl)
  exact readsWithin_rule unmocked literal.orElse_left.orElse_left

theorem readsWithin_parenthesized
    (opens : opening.isPunctuator .leftParen = true)
    (closes : closing.isPunctuator .rightParen = true)
    (significant : Significant (tokens ++ closing :: rest))
    (expression : grammar.ReadsWithin (levels + 1) (.rule .expression) tokens (closing :: rest)) :
    grammar.ReadsWithin (levels + 2) (.rule .primaryExpression) (opening :: (tokens ++ [closing]))
      rest := by
  have begun : grammar.ReadsWithin (levels + 1) (.symbol .leftParen) [opening]
      (tokens ++ closing :: rest) :=
    (reads_symbol opens).within rfl
  have inside : grammar.ReadsWithin (levels + 1)
      (.symbol .leftParen ++ .trivia ++ .rule .expression ++ .trivia) ([opening] ++ tokens)
      ([closing] ++ rest) :=
    ((begun.skip significant).append expression).skip
      (significant_cons (Token.isTrivia_of_isPunctuator closes) rest)
  have closed : grammar.ReadsWithin (levels + 1) (.symbol .rightParen) [closing] rest :=
    (reads_symbol closes).within rfl
  apply readsWithin_rule unmocked
  exact (failsWithin_firstOf unmocked opens).orElse_right (inside.append closed).orElse_left

/-- Each pair of parentheses takes fourteen levels, and the number two. -/
theorem readsWithin_of_inParentheses (nest : InParentheses depth tokens) :
    grammar.ReadsWithin (2 + 14 * depth) (.rule .primaryExpression) tokens rest := by
  induction nest generalizing rest with
  | number isNumber => exact readsWithin_number unmocked isNumber
  | @enclose depth opening closing inner opens closes nest inductionHypothesis =>
      have stops : Stops .expression (closing :: rest) := .of_continued?_eq_none closes rfl
      have primary : grammar.ReadsWithin (1 + 14 * depth + 1) (.rule .primaryExpression) inner
          (closing :: rest) := by
        rw [Nat.add_right_comm]
        exact inductionHypothesis
      have condition := readsWithin_condition unmocked primary nest.unsigned
        (stops.of_rank_le (by decide))
      have expression := readsWithin_layer unmocked .comma condition stops
      have whole := readsWithin_parenthesized unmocked opens closes nest.significant expression
      have levels : 2 + 14 * (depth + 1) = 1 + 14 * depth + 13 + 2 := by omega
      rwa [levels]

section Shortage

variable (stays : StaysKnown known)
include stays

/-- In front of something that is no name, only a literal can be tried. -/
theorem confines_firstOf
    (notName : token.isIdentifier = false)
    (literal : grammar.Confines known bound (.rule .literal) ⟨position, token :: rest⟩ ends) :
    grammar.Confines known bound
      (.firstOf .literal [.hasIncludeExpression, .definedExpression, .functionlikeMacro])
      ⟨position, token :: rest⟩ ends := by
  refine literal.orElse (Confines.orElse ?_ (Confines.orElse ?_ ?_))
  · exact confines_first unmocked stays (by decide) rfl (by simp [notName])
  · exact confines_first unmocked stays (by decide) rfl (by simp [notName])
  · exact confines_first unmocked stays (by decide) rfl (by simp [notName])

/-- A number is a literal, or nothing. -/
theorem confines_number (isNumber : token.kind = .number) :
    grammar.Confines known 2 (.rule .primaryExpression) ⟨position, token :: rest⟩ ends := by
  have notName : token.isIdentifier = false := by simp [Token.isIdentifier, isNumber]
  have notLeft : token.isPunctuator .leftParen = false := by simp [Token.isPunctuator, isNumber]
  have refused : grammar.Confines known 0 Rule.literal.pattern ⟨position, token :: rest⟩ ends :=
    fun _ _ _ _ fewer => absurd fewer (Nat.not_lt_zero _)
  apply confines_called unmocked stays (by decide)
  refine Confines.orElse ?_ (Confines.orElse ?_ (Confines.orElse ?_ ?_))
  · exact confines_firstOf unmocked stays notName
      (confines_called unmocked stays (by decide) refused)
  · exact confines_of_firstTest? rfl notLeft
  · exact confines_of_firstTest? rfl notLeft
  · exact confines_of_firstTest? rfl notName

/-- An expression that gets no further than to a parenthesis is not closed. -/
theorem confines_parenthesized
    (opens : opening.isPunctuator .leftParen = true)
    (significant : Significant tokens)
    (filled : ∀ token ∈ tokens.head?, token.isPunctuator .rightParen = false)
    (expression : grammar.Confines known bound (.rule .expression) ⟨position + 1, tokens⟩
      Cursor.AtParenthesis) :
    grammar.Confines known (bound + 1) (.rule .primaryExpression) ⟨position, opening :: tokens⟩
      ends := by
  have notName := Token.isIdentifier_of_isPunctuator opens
  have notLiteral : opening.isLiteral = false := by
    rw [Token.isLiteral, Token.kind_of_isPunctuator opens]
  have begun : grammar.Confines known bound (.symbol .leftParen ++ .trivia)
      ⟨position, opening :: tokens⟩ (· = ⟨position + 1, tokens⟩) :=
    ((reads_symbol opens).skip significant).confines rfl rfl
  apply confines_called unmocked stays (by decide)
  refine Confines.orElse ?_ (Confines.orElse ?_ (Confines.orElse ?_ ?_))
  · exact confines_firstOf unmocked stays notName
      (confines_first unmocked stays (by decide) rfl notLiteral)
  · have inside : grammar.Confines known bound
        (.symbol .leftParen ++ .trivia ++ .rule .expression) ⟨position, opening :: tokens⟩
        Cursor.AtParenthesis :=
      begun.append_at expression
    have skipped : grammar.Confines known bound
        (.symbol .leftParen ++ .trivia ++ .rule .expression ++ .trivia)
        ⟨position, opening :: tokens⟩ Cursor.AtParenthesis :=
      inside.append fun place here => confines_trivia here.significant here
    exact skipped.append fun place here => confines_token
      (here.refuses fun token opens => Token.isPunctuator_eq_false opens (by decide))
  · exact begun.append_at (confines_token filled)
  · exact confines_of_firstTest? rfl notName

/-- With fewer levels a nest is not read, nor any part of it. -/
theorem confines_of_inParentheses (nest : InParentheses depth tokens) :
    grammar.Confines known (2 + 14 * depth) (.rule .primaryExpression) ⟨position, tokens ++ rest⟩
      Cursor.AtParenthesis := by
  induction nest generalizing position rest with
  | number isNumber => exact confines_number unmocked stays isNumber
  | @enclose depth opening closing inner opens closes nest inductionHypothesis =>
      have primary : grammar.Confines known (2 + 14 * depth) (.rule .primaryExpression)
          ⟨position + 1, inner ++ closing :: rest⟩ Cursor.AtParenthesis :=
        inductionHypothesis
      have condition := confines_condition unmocked stays primary nest.unsigned
      have expression := confines_layer unmocked stays .comma condition
      have levels : 2 + 14 * (depth + 1) = 2 + 14 * depth + 12 + 1 + 1 := by omega
      rw [levels, List.cons_append, List.append_assoc]
      exact confines_parenthesized unmocked stays opens nest.significant nest.not_rightParen
        expression

end Shortage
end Grammar
end PreprocessorSyntax
