import PreprocessorSyntax.Proofs.Grammar.Correspondence

/-!
# Patterns between which white space is skipped

Most patterns of this grammar skip white space and comments before they test a
token.  `Alignment.Skips` is what an alignment of two inputs needs for this: a
footing behind white space, one behind a token, and one that is weaker than
both, from which white space can be skipped.  From these three the rules for
conditions, and for the macro calls in them, are followed once and for all.
-/

namespace PreprocessorSyntax

/-- The rules for macro calls and for their arguments. -/
def Rule.ofCalls : List Rule :=
  [.functionlikeMacro, .argumentList, .argument, .somethingContainingParentheses,
   .somethingWithoutParentheses]

/-- The rules for conditions and for the macro calls in them. -/
def Rule.ofConditions : List Rule :=
  [.argumentList, .argument, .somethingContainingParentheses, .somethingWithoutParentheses,
   .constantExpression, .conditionalExpression, .expression, .logicalOrExpression,
   .logicalAndExpression, .inclusiveOrExpression, .exclusiveOrExpression, .andExpression,
   .equalityExpression, .relationalExpression, .shiftExpression, .additiveExpression,
   .multiplicativeExpression, .unaryExpression, .unaryOperator, .primaryExpression, .literal,
   .definedExpression, .hasIncludeExpression, .functionlikeMacro]

namespace Grammar

variable {Footing : Type} {alignment : Alignment Footing} {grammar : Grammar}
variable {signature : Rule → Footing → Footing → Prop} {settled tight loose : Footing}

/-- White space leads from one footing to another one, and a token from there to a third one. -/
structure Alignment.Skips
    (alignment : Alignment Footing)
    (grammar : Grammar)
    (signature : Rule → Footing → Footing → Prop)
    (settled tight loose : Footing) : Prop where
  /-- White space may be skipped behind a token. -/
  loosen : ∀ {found matching}, alignment.meets tight found matching →
    alignment.meets loose found matching
  /-- White space may be skipped once more. -/
  unsettle : ∀ {found matching}, alignment.meets settled found matching →
    alignment.meets loose found matching
  /-- White space is skipped. -/
  trivia : alignment.Leads grammar signature loose settled .trivia
  /-- A token is read behind white space. -/
  token : ∀ accepts, alignment.Leads grammar signature settled tight (.token accepts)

namespace Alignment.Skips

variable (skips : alignment.Skips grammar signature settled tight loose)
variable {item pattern : Pattern} {after : Footing}
include skips

/-- A pattern that skips white space first may be read behind a token. -/
theorem of_tight (leads : alignment.Leads grammar signature loose after pattern) :
    alignment.Leads grammar signature tight after pattern :=
  .strengthen (fun starts => skips.loosen starts) leads

/-- A pattern that skips white space first may be read where it was skipped before. -/
theorem of_settled (leads : alignment.Leads grammar signature loose after pattern) :
    alignment.Leads grammar signature settled after pattern :=
  .strengthen (fun starts => skips.unsettle starts) leads

/-- White space does not matter where it was skipped and where it is skipped next. -/
theorem behind (leads : alignment.Leads grammar signature settled tight pattern) :
    alignment.Leads grammar signature settled settled (pattern ++ .trivia) :=
  leads.sequence (skips.of_tight skips.trivia)

/-- Items may stand behind white space, as many as there are. -/
theorem manyBehind
    (consumes : item.consumes = true)
    (leads : alignment.Leads grammar signature settled tight item) :
    alignment.Leads grammar signature tight tight (.many (.trivia ++ item)) := by
  refine .many ?_ ((skips.of_tight skips.trivia).sequence leads)
  simpa [Pattern.append_eq, Pattern.consumes] using .inr consumes

theorem optional (leads : alignment.Leads grammar signature settled tight item) :
    alignment.Leads grammar signature settled loose (.optional item) :=
  (leads.weaken skips.loosen).choice ((Leads.empty settled).weaken skips.unsettle)

omit skips in
theorem optionalBehind (leads : alignment.Leads grammar signature settled settled item) :
    alignment.Leads grammar signature settled settled (.optional item) :=
  leads.choice (.empty settled)

/-- White space stands around a token. -/
theorem around {accepts : Token → Bool} :
    alignment.Leads grammar signature loose settled (.trivia ++ .token accepts ++ .trivia) :=
  (skips.trivia.sequence (skips.token accepts)).sequence (skips.of_tight skips.trivia)

section Calls

variable
  (called : ∀ rule ∈ Rule.ofCalls, rule ≠ .argumentList → signature rule settled tight)

section Parts

include called

theorem furtherArgument : alignment.Leads grammar signature loose loose .furtherArgument :=
  skips.around.sequence (skips.optional (.rule (called _ (by decide) (by decide))))

/-- Behind the last comma of an argument list, white space may have been read. -/
theorem argumentList : alignment.Leads grammar signature settled loose .argumentList := by
  have piece : alignment.Leads grammar signature settled tight (.rule .argument) :=
    .rule (called _ (by decide) (by decide))
  have first : alignment.Leads grammar signature settled loose
      (.rule .argument <|> .furtherArgument) :=
    (piece.weaken skips.loosen).choice (skips.of_settled (skips.furtherArgument called))
  exact first.sequence ((skips.furtherArgument called).many rfl)

theorem argument : alignment.Leads grammar signature settled tight .argument := by
  have piece : alignment.Leads grammar signature settled tight .argumentPiece :=
    (Leads.rule (called _ (by decide) (by decide))).choice
      (.rule (called _ (by decide) (by decide)))
  exact piece.sequence (skips.manyBehind rfl piece)

end Parts

theorem somethingWithoutParentheses :
    alignment.Leads grammar signature settled tight .somethingWithoutParentheses :=
  (skips.token _).sequence (skips.manyBehind rfl (skips.token _))

variable (lists : signature .argumentList settled loose)
include lists

theorem parenthesizedArguments :
    alignment.Leads grammar signature settled tight .parenthesizedArguments := by
  have list : alignment.Leads grammar signature settled loose
      (.optional (.rule .argumentList)) :=
    (Leads.rule lists).choice ((Leads.empty settled).weaken skips.unsettle)
  exact (((skips.behind (skips.token _)).sequence list).sequence skips.trivia).sequence
    (skips.token _)

theorem functionlikeMacro : alignment.Leads grammar signature settled tight .functionlikeMacro :=
  (skips.behind (skips.token _)).sequence (skips.parenthesizedArguments lists)

include called

theorem somethingContainingParentheses :
    alignment.Leads grammar signature settled tight .somethingContainingParentheses :=
  (optionalBehind (skips.behind (.rule (called _ (by decide) (by decide))))).sequence
    (skips.parenthesizedArguments lists)

/-- The rules for macro calls lead from behind white space to behind a token. -/
theorem ofCalls
    {rule : Rule}
    (listed : rule ∈ Rule.ofCalls)
    (noList : rule ≠ .argumentList) :
    alignment.Leads grammar signature settled tight rule.pattern := by
  cases rule with
  | functionlikeMacro => exact skips.functionlikeMacro lists
  | argumentList => contradiction
  | argument => exact skips.argument called
  | somethingContainingParentheses => exact skips.somethingContainingParentheses called lists
  | somethingWithoutParentheses => exact skips.somethingWithoutParentheses
  | _ => exact absurd listed (by decide)

end Calls

section Conditions

variable
  (called : ∀ rule ∈ Rule.ofConditions, rule ≠ .argumentList → signature rule settled tight)
include called

omit skips in
theorem rule {rule : Rule} (listed : rule ∈ Rule.ofConditions ∧ rule ≠ .argumentList) :
    alignment.Leads grammar signature settled tight (.rule rule) :=
  .rule (called rule listed.1 listed.2)

theorem layer
    {operand : Rule}
    (listed : operand ∈ Rule.ofConditions ∧ operand ≠ .argumentList)
    (operators : List Punctuator) :
    alignment.Leads grammar signature settled tight (.layer operand operators) := by
  have operator : alignment.Leads grammar signature tight settled
      (.trivia ++ .token (Token.isAnyPunctuator operators) ++ .trivia) :=
    skips.of_tight skips.around
  exact (rule called listed).sequence ((operator.sequence (rule called listed)).many rfl)

theorem conditionalExpression :
    alignment.Leads grammar signature settled tight .conditionalExpression := by
  have question : alignment.Leads grammar signature tight settled
      (.trivia ++ .symbol .question ++ .trivia) :=
    skips.of_tight skips.around
  have accepted : alignment.Leads grammar signature settled settled
      (.optional (.rule .expression ++ .trivia)) :=
    optionalBehind (skips.behind (rule called (by decide)))
  have colon : alignment.Leads grammar signature tight settled
      (.trivia ++ .symbol .question ++ .trivia ++ .optional (.rule .expression ++ .trivia) ++
        .symbol .colon ++ .trivia) :=
    ((question.sequence accepted).sequence (skips.token _)).sequence (skips.of_tight skips.trivia)
  exact (rule called (by decide)).sequence
    ((colon.sequence (rule called (by decide))).choice (.empty tight))

theorem unaryExpression : alignment.Leads grammar signature settled tight .unaryExpression :=
  ((skips.behind (rule called (by decide))).sequence (rule called (by decide))).choice
    (rule called (by decide))

theorem primaryExpression : alignment.Leads grammar signature settled tight .primaryExpression := by
  have operand : alignment.Leads grammar signature settled tight
      (.firstOf .literal [.hasIncludeExpression, .definedExpression, .functionlikeMacro]) :=
    (rule called (by decide)).choice ((rule called (by decide)).choice
      ((rule called (by decide)).choice (rule called (by decide))))
  have group : alignment.Leads grammar signature settled tight
      (.symbol .leftParen ++ .trivia ++ .rule .expression ++ .trivia ++ .symbol .rightParen) :=
    (skips.behind ((skips.behind (skips.token _)).sequence (rule called (by decide)))).sequence
      (skips.token _)
  have nothing : alignment.Leads grammar signature settled tight
      (.symbol .leftParen ++ .trivia ++ .symbol .rightParen) :=
    (skips.behind (skips.token _)).sequence (skips.token _)
  exact operand.choice (group.choice (nothing.choice (skips.token _)))

omit called in
theorem definedExpression : alignment.Leads grammar signature settled tight .definedExpression := by
  have group : alignment.Leads grammar signature settled tight
      (.symbol .leftParen ++ .trivia ++ .identifier ++ .trivia ++ .symbol .rightParen) :=
    (skips.behind ((skips.behind (skips.token _)).sequence (skips.token _))).sequence
      (skips.token _)
  exact (skips.behind (skips.token _)).sequence (group.choice (skips.token _))

/-- The rules for conditions lead from behind white space to behind a token. -/
theorem ofConditions
    (lists : signature .argumentList settled loose)
    (headers : alignment.Leads grammar signature settled tight .hasIncludeExpression)
    {rule : Rule}
    (listed : rule ∈ Rule.ofConditions)
    (noList : rule ≠ .argumentList) :
    alignment.Leads grammar signature settled tight rule.pattern := by
  have layer {operand : Rule} (listed : operand ∈ Rule.ofConditions ∧ operand ≠ .argumentList)
      (operators : List Punctuator) :
      alignment.Leads grammar signature settled tight (.layer operand operators) :=
    skips.layer called listed operators
  have inCalls : Rule.ofCalls ⊆ Rule.ofConditions := by decide
  have call {rule : Rule} (listed : rule ∈ Rule.ofCalls ∧ rule ≠ .argumentList) :
      alignment.Leads grammar signature settled tight rule.pattern :=
    skips.ofCalls (fun rule listed => called rule (inCalls listed)) lists listed.1 listed.2
  cases rule with
  | argumentList => contradiction
  | argument => exact call (by decide)
  | somethingContainingParentheses => exact call (by decide)
  | somethingWithoutParentheses => exact call (by decide)
  | constantExpression => exact .rule (called _ (by decide) (by decide))
  | conditionalExpression => exact skips.conditionalExpression called
  | expression => exact layer (by decide) _
  | logicalOrExpression => exact layer (by decide) _
  | logicalAndExpression => exact layer (by decide) _
  | inclusiveOrExpression => exact layer (by decide) _
  | exclusiveOrExpression => exact layer (by decide) _
  | andExpression => exact layer (by decide) _
  | equalityExpression => exact layer (by decide) _
  | relationalExpression => exact layer (by decide) _
  | shiftExpression => exact layer (by decide) _
  | additiveExpression => exact layer (by decide) _
  | multiplicativeExpression => exact layer (by decide) _
  | unaryExpression => exact skips.unaryExpression called
  | unaryOperator => exact skips.token _
  | primaryExpression => exact skips.primaryExpression called
  | literal => exact skips.token _
  | definedExpression => exact skips.definedExpression
  | hasIncludeExpression => exact headers
  | functionlikeMacro => exact call (by decide)
  | _ => exact absurd listed (by decide)

end Conditions
end Alignment.Skips
end Grammar
end PreprocessorSyntax
