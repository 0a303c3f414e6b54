import PreprocessorSyntax.Proofs.Trailing.Places

/-!
# Operands in front of added white space

The operands of directives are read alike in a line and in the line with white
space and comments added behind it.  Nothing needs to be known of trees that
reach beyond the end of the line, because no operand ends in white space: only
the arguments of a macro call do, and behind them a parenthesis is missing.
-/

namespace PreprocessorSyntax
namespace Grammar
namespace Trailing

variable {grammar : Grammar} {line blanks : List Token}

/-- What is known of a pair of places inside an operand. -/
inductive Inner where
  /-- White space and comments have been skipped. -/
  | settled
  /-- The same was read, up to the same place. -/
  | tight
  /-- The same was read up to the same place, or both lines are over. -/
  | loose

/-- Which readings of the two lines correspond inside an operand. -/
def Inner.Meets (line blanks : List Token) :
    Inner → List Tree × Cursor → List Tree × Cursor → Prop
  | .settled, found, matching =>
    Here line blanks found matching ∧ Faces found.2 ∨ Over line blanks found.2 matching.2
  | .tight, found, matching => Here line blanks found matching
  | .loose, found, matching =>
    Here line blanks found matching ∨ Over line blanks found.2 matching.2

/-- The two lines inside operands. -/
def inner (line blanks : List Token) : Alignment Inner where
  meets := Inner.Meets line blanks
  related := Remembers line blanks

/-- The rules for what operands are made of. -/
def Inner.rules : List Rule :=
  Rule.ofConditions ++
    [.parameterList, .variadicParameter, .stringizing, .tokenPasting, .ppToken, .includeBody,
     .includeBodyBracketed, .includeBodyQuoted, .includeBodyFreeform, .moduleName]

/-- Operands start behind white space and end with a token, all but lists of arguments. -/
def Inner.Signed (rule : Rule) (before after : Inner) : Prop :=
  rule ∈ Inner.rules ∧ before = .settled ∧
    after = if rule = .argumentList then .loose else .tight

theorem Inner.Meets.cases
    {footing : Inner}
    {found matching : List Tree × Cursor}
    (meets : Inner.Meets line blanks footing found matching) :
    Here line blanks found matching ∨ Over line blanks found.2 matching.2 := by
  cases footing with
  | settled => exact meets.imp_left And.left
  | tight => exact .inl meets
  | loose => exact meets

theorem lawful_inner (added : blanks ≠ []) : (inner line blanks).Lawful where
  forget {footing found matching} meets := by
    cases footing with
    | settled => exact Or.imp_left (And.imp_left Here.forget) meets
    | tight => exact Here.forget meets
    | loose => exact Or.imp_left Here.forget meets
  join {before after trees cursor others place more last further otherLast} first _ advances
      second := by
    have join (late : Here line blanks (more, last) (further, otherLast)) :
        Here line blanks (trees ++ more, last) (others ++ further, otherLast) := by
      rcases Inner.Meets.cases first with early | past
      · exact early.join late
      · exact absurd late (past.not_here added advances)
    cases after with
    | settled => exact Or.imp_left (And.imp_left join) second
    | tight => exact join second
    | loose => exact Or.imp_left join second

section Operands

variable (inLine : InLine line) (trivial : ∀ token ∈ blanks, token.isTrivia = true)
include inLine trivial

theorem skips_inner :
    (inner line blanks).Skips grammar Inner.Signed .settled .tight .loose where
  loosen meets := .inl meets
  unsettle meets := Or.imp_left And.left meets
  trivia := by
    refine .step rfl fun cursor place starts => ?_
    rw [treesAt?_trivia_eq, treesAt?_trivia_eq]
    rcases starts with here | past
    · exact .some ((here.skip trivial).imp_right And.left)
    · exact .some (.inr past.skip.1)
  token accepts := .step rfl fun _ _ settled => Settled.read inLine settled accepts

/-- A test that refuses white space and comments may stand behind a token. -/
theorem leads_inner_token
    {accepts : Token → Bool}
    (refuses : ∀ token, accepts token = true → token.isTrivia = false) :
    (inner line blanks).Leads grammar Inner.Signed .loose .tight (.token accepts) := by
  refine .step rfl fun cursor place starts => ?_
  rcases starts with here | ⟨rfl, rfl⟩
  · exact here.read_of_refuses inLine trivial refuses
  · exact .none

theorem leads_moduleName :
    (inner line blanks).Leads grammar Inner.Signed .settled .tight .moduleName := by
  have skips : (inner line blanks).Skips grammar Inner.Signed .settled .tight .loose :=
    skips_inner inLine trivial
  have dot : (inner line blanks).Leads grammar Inner.Signed .tight .tight (.symbol .dot) :=
    skips.of_tight (leads_inner_token inLine trivial fun _ => Token.isTrivia_of_isPunctuator)
  have name : (inner line blanks).Leads grammar Inner.Signed .tight .tight .identifier :=
    skips.of_tight (leads_inner_token inLine trivial fun _ => Token.isTrivia_of_isIdentifier)
  exact (skips.token _).sequence ((dot.sequence name).many rfl)

/-- An encoding prefix stands directly in front of the number sign. -/
theorem leads_stringizing :
    (inner line blanks).Leads grammar Inner.Signed .settled .tight .stringizing := by
  have skips : (inner line blanks).Skips grammar Inner.Signed .settled .tight .loose :=
    skips_inner inLine trivial
  have blind : ∀ kind : TokenKind, kind.isTrivia = true →
      (kind == .punctuator .hash) = (TokenKind.endOfInput == .punctuator .hash) := by
    intro kind isTrivia
    cases kind <;> first | rfl | cases isTrivia
  have ahead : (inner line blanks).Leads grammar Inner.Signed .tight .tight
      (.ahead fun kind => kind == .punctuator .hash) :=
    .step rfl fun _ _ here => Here.ahead trivial here blind
  have hash : (inner line blanks).Leads grammar Inner.Signed .loose .tight (.symbol .hash) :=
    leads_inner_token inLine trivial fun _ => Token.isTrivia_of_isPunctuator
  exact (((skips.optional ((skips.token _).sequence ahead)).sequence hash).sequence
    (skips.of_tight skips.trivia)).sequence (skips.token _)

theorem leads_parameterList :
    (inner line blanks).Leads grammar Inner.Signed .settled .tight .parameterList := by
  have skips : (inner line blanks).Skips grammar Inner.Signed .settled .tight .loose :=
    skips_inner inLine trivial
  have variadic : Inner.Signed .variadicParameter .settled .tight := ⟨by decide, rfl, rfl⟩
  have separator : (inner line blanks).Leads grammar Inner.Signed .tight .settled .separator :=
    skips.of_tight skips.around
  have further : (inner line blanks).Leads grammar Inner.Signed .tight .tight
      (.separator ++ .absent .variadicParameter ++ .identifier) :=
    (separator.sequence (.absent variadic)).sequence (skips.token _)
  have last : (inner line blanks).Leads grammar Inner.Signed .tight .tight
      (.optional (.separator ++ .rule .variadicParameter)) :=
    (separator.sequence (.rule variadic)).choice (.empty Inner.tight)
  have names : (inner line blanks).Leads grammar Inner.Signed .settled .tight
      (.identifier ++ .many (.separator ++ .absent .variadicParameter ++ .identifier)) :=
    (skips.token _).sequence (further.many rfl)
  exact (Alignment.Leads.rule variadic).choice (names.sequence last)

theorem leads_hasIncludeExpression :
    (inner line blanks).Leads grammar Inner.Signed .settled .tight .hasIncludeExpression := by
  have skips : (inner line blanks).Skips grammar Inner.Signed .settled .tight .loose :=
    skips_inner inLine trivial
  have header : (inner line blanks).Leads grammar Inner.Signed .settled .tight .headerName :=
    (Alignment.Leads.rule ⟨by decide, rfl, rfl⟩).choice (.rule ⟨by decide, rfl, rfl⟩)
  have opening : (inner line blanks).Leads grammar Inner.Signed .settled .settled
      (.word ["__has_include", "__has_include_next"] ++ .trivia ++ .symbol .leftParen ++
        .trivia) :=
    skips.behind ((skips.behind (skips.token _)).sequence (skips.token _))
  exact (skips.behind (opening.sequence header)).sequence (skips.token _)

omit inLine trivial in
theorem Inner.signed {rule : Rule} (listed : rule ∈ Inner.rules ∧ rule ≠ .argumentList) :
    Inner.Signed rule .settled .tight :=
  ⟨listed.1, rfl, (if_neg listed.2).symm⟩

omit inLine trivial in
theorem Inner.signed_ofConditions :
    ∀ rule ∈ Rule.ofConditions, rule ≠ .argumentList → Inner.Signed rule .settled .tight :=
  fun _ listed noList => Inner.signed ⟨List.mem_append_left _ listed, noList⟩

/-- Operands are read alike in both lines. -/
theorem leads_operand
    {rule : Rule}
    (listed : rule ∈ Inner.rules)
    (noList : rule ≠ .argumentList) :
    (inner line blanks).Leads grammar Inner.Signed .settled .tight rule.pattern := by
  have skips : (inner line blanks).Skips grammar Inner.Signed .settled .tight .loose :=
    skips_inner inLine trivial
  have operand {rule : Rule} (listed : rule ∈ Inner.rules ∧ rule ≠ .argumentList) :
      (inner line blanks).Leads grammar Inner.Signed .settled .tight (.rule rule) :=
    .rule (Inner.signed listed)
  rcases List.mem_append.1 listed with ofCondition | further
  · exact skips.ofConditions Inner.signed_ofConditions ⟨by decide, rfl, rfl⟩
      (leads_hasIncludeExpression inLine trivial) ofCondition noList
  · simp only [List.mem_cons, List.not_mem_nil, or_false] at further
    rcases further with rfl | rfl | rfl | rfl | rfl | rfl | rfl | rfl | rfl | rfl
    · exact leads_parameterList inLine trivial
    · exact (Alignment.Skips.optionalBehind (skips.behind (skips.token _))).sequence (skips.token _)
    · exact leads_stringizing inLine trivial
    · exact skips.token _
    · exact skips.token _
    · exact (operand (by decide)).choice ((operand (by decide)).choice (operand (by decide)))
    · exact .step rfl fun _ _ settled => Settled.bracketed inLine trivial settled
    · exact skips.token _
    · exact (operand (by decide)).choice (skips.token _)
    · exact leads_moduleName inLine trivial

/-- Operands correspond in both lines. -/
theorem sound_inner (added : blanks ≠ []) (unmocked : grammar.mocked = []) :
    (inner line blanks).Sound grammar Inner.Signed where
  toLawful := lawful_inner added
  known := by
    rintro rule _ _ cursor place failures others ⟨_, rfl, _⟩ settled remembers
    exact remembers rule cursor place settled
  noted := by
    rintro rule _ _ cursor place failures others ⟨_, rfl, _⟩ settled remembers
    exact Remembers.insert added remembers settled rule
  body := by
    rintro rule _ _ ⟨listed, rfl, rfl⟩
    rw [pattern_eq unmocked]
    by_cases isList : rule = .argumentList
    · subst isList
      rw [if_pos rfl]
      have inCalls : Rule.ofCalls ⊆ Rule.ofConditions := by decide
      have list : (inner line blanks).Leads grammar Inner.Signed .settled .loose .argumentList :=
        (skips_inner inLine trivial).argumentList fun rule listed =>
          Inner.signed_ofConditions rule (inCalls listed)
      exact ⟨.loose, list, fun _ _ _ reached =>
        reached.imp_left (Here.build · _)⟩
    · rw [if_neg isList]
      exact ⟨.tight, leads_operand inLine trivial listed isList, fun _ _ _ here =>
        Here.build here rule⟩

end Operands
end Trailing
end Grammar
end PreprocessorSyntax
