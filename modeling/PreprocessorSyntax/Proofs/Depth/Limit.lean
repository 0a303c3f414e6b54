import PreprocessorSyntax.Proofs.Depth.Calls
import PreprocessorSyntax.Proofs.Depth.Parentheses
import PreprocessorSyntax.Proofs.Lexer.Lines

/-!
# What nesting costs

The limit on nesting is exact for nested parentheses and for nested macro calls:
so many levels are needed for a number in parentheses, and so many for a name in
calls.  With one level less such a text is not accepted at all.
-/

namespace PreprocessorSyntax

/-- The digit one in a number of pairs of parentheses. -/
def parenthesizedText (depth : Nat) : List Char :=
  List.replicate depth '(' ++ '1' :: List.replicate depth ')'

/-- A name in a number of calls of a macro. -/
def callText (depth : Nat) : List Char :=
  (List.replicate depth ['F', '(']).flatten ++ 'x' :: List.replicate depth ')'

section Texts

variable {depth : Nat} {later : List Char} {shape : List Token → Prop}

theorem parenthesizedText_succ (depth : Nat) (later : List Char) :
    parenthesizedText (depth + 1) ++ later = '(' :: (parenthesizedText depth ++ ')' :: later) := by
  rw [parenthesizedText, parenthesizedText, List.replicate_succ, List.replicate_succ']
  simp

theorem callText_succ (depth : Nat) (later : List Char) :
    callText (depth + 1) ++ later = 'F' :: '(' :: (callText depth ++ ')' :: later) := by
  rw [callText, callText, List.replicate_succ, List.replicate_succ']
  simp

/-- A parenthesis is no part of a number. -/
theorem numberTail_rightParen (later : List Char) : numberTail (')' :: later) = 0 := by
  refine numberTail_eq_zero_iff.2 ⟨?_, by decide⟩
  cases later with
  | nil => rfl
  | cons c later => simp [joinsNext, isExponentLetter]

theorem munch_digit (stops : numberTail later = 0) : munch ('1' :: later) = some (.number, 1) := by
  have visible : Visible '1' later := by
    refine ⟨by decide, by decide, ?_⟩
    intro mark listed here
    simp only [triviaMarks, List.mem_cons, List.not_mem_nil, or_false] at listed
    rcases listed with rfl | rfl | rfl | rfl <;>
      cases (List.cons_prefix_cons.1 here).1
  rw [munch_of_visible visible, stops]
  rfl

/-- The tokens of a nest come in front of those of what follows. -/
theorem lexes_parenthesizedText
    (lexes : Lexes later shape)
    (stops : numberTail later = 0)
    (depth : Nat) :
    Lexes (parenthesizedText depth ++ later) fun tokens =>
      ∃ nest behind, tokens = nest ++ behind ∧ InParentheses depth nest ∧ shape behind := by
  induction depth generalizing later shape with
  | zero =>
      have munched : munch (['1'] ++ later) = some (.number, ['1'].length) := munch_digit stops
      exact lexes.cons munched rfl fun token tokens isNumber _ holds =>
        ⟨[token], tokens, rfl, .number isNumber, holds⟩
  | succ depth inductionHypothesis =>
      have closed : Lexes (Punctuator.rightParen.spelling.toList ++ later) _ :=
        lexes.symbol (by decide)
      have inside := inductionHypothesis closed (numberTail_rightParen later)
      have opened : Lexes (Punctuator.leftParen.spelling.toList ++ _) _ :=
        inside.symbol (by decide)
      rw [parenthesizedText_succ]
      refine opened.mono ?_
      rintro _ ⟨opening, _, rfl, opens, nest, _, rfl, isNest, closing, behind, rfl, closes, holds⟩
      exact ⟨opening :: (nest ++ [closing]), behind, by simp, .enclose opens closes isNest, holds⟩

theorem lexes_callText
    (lexes : Lexes later shape)
    (ends : EndsName later)
    (depth : Nat) :
    Lexes (callText depth ++ later) fun tokens =>
      ∃ nest behind, tokens = nest ++ behind ∧ InCalls depth nest ∧ shape behind := by
  induction depth generalizing later shape with
  | zero =>
      have named : Lexes (['x'] ++ later) _ := lexes.identifier (by decide) ends
      refine named.mono ?_
      rintro _ ⟨name, behind, rfl, isName, _, holds⟩
      exact ⟨[name], behind, rfl, .plain (Token.isPlain_of_isIdentifier isName), holds⟩
  | succ depth inductionHypothesis =>
      have closed : Lexes (Punctuator.rightParen.spelling.toList ++ later) _ :=
        lexes.symbol (by decide)
      have inside := inductionHypothesis closed (endsName_cons (by decide) later)
      have opened : Lexes (Punctuator.leftParen.spelling.toList ++ _) _ :=
        inside.symbol (by decide)
      have named : Lexes (['F'] ++ '(' :: (callText depth ++ ')' :: later)) _ :=
        opened.identifier (by decide) (endsName_cons (by decide) _)
      rw [callText_succ]
      refine named.mono ?_
      rintro _ ⟨name, _, rfl, isName, spelling, opening, _, rfl, opens, nest, _, rfl, isNest,
        closing, behind, rfl, closes, holds⟩
      have unreserved : name.text ∉ reservedWords := by
        rw [spelling]
        decide
      exact ⟨name :: opening :: (nest ++ [closing]), behind, by simp,
        .call isName unreserved opens closes isNest, holds⟩

end Texts

namespace Grammar

variable {grammar : Grammar} {known : Failures → Prop} {levels bound depth : Nat} {rule : Rule}
variable {ending : Token} {tokens : List Token}

/-- What a rule reads up to the end of the input is accepted. -/
theorem isSome_parseTokens_of_readsWithin
    (reads : grammar.ReadsWithin grammar.maxDepth (.rule rule) tokens [ending])
    (significant : Significant (tokens ++ [ending]))
    (ends : ending.kind = .endOfInput) :
    (grammar.parseTokens rule (tokens ++ [ending])).isSome = true := by
  have start : (Cursor.ofTokens (tokens ++ [ending])).trivia.2 = ⟨0, tokens ++ [ending]⟩ :=
    congrArg Prod.snd (trivia_of_significant significant)
  obtain ⟨trees, read⟩ := reads 0
  obtain ⟨node, found, _⟩ := exists_of_read_rule read
  rw [← start] at found
  have reading := readRule_eq_readAfresh (Prod.ext_iff.1 found).2
  rw [found] at reading
  have nothing : ∀ token ∈ ([] : List Token), token.isTrivia = true := List.forall_mem_nil _
  have closed : closing? ⟨0 + tokens.length, [] ++ [ending]⟩ = some [] :=
    closing?_blanks _ nothing (by simpa using ends)
  rw [parseTokens, rootOf?_eq_some reading closed]
  rfl

/-- The input does not end in front of a parenthesis. -/
theorem closing?_of_atParenthesis {cursor : Cursor} (here : cursor.AtParenthesis) :
    closing? cursor = none := by
  rw [closing?, trivia_of_significant here.significant]
  obtain ⟨opening, rest, stands, opens⟩ := here
  simp [Cursor.bump?, stands, Token.kind_of_isPunctuator opens]

/-- What a rule reads up to a parenthesis at most is not accepted. -/
theorem parseTokens_of_confines
    (confines : grammar.Confines known bound (.rule rule) ⟨0, tokens⟩ Cursor.AtParenthesis)
    (knows : known .empty)
    (fewer : grammar.maxDepth < bound)
    (significant : Significant tokens) :
    grammar.parseTokens rule tokens = none := by
  have start : (Cursor.ofTokens tokens).trivia.2 = ⟨0, tokens⟩ :=
    congrArg Prod.snd (trivia_of_significant significant)
  rw [Option.eq_none_iff_forall_not_mem]
  intro root found
  obtain ⟨node, after, trailing, reading, closed, _⟩ := exists_of_rootOf? found
  rw [start] at reading
  have read := read_rule_of_some (Prod.ext reading rfl)
  have reached := (confines _ _ _ _ fewer knows read).2 _ rfl
  rw [closing?_of_atParenthesis reached] at closed
  cases closed

theorem accepts_eq
    {source : String}
    (lexed : tokenize source 0 1 = .ok tokens) :
    grammar.accepts rule source = (grammar.parseTokens rule tokens).isSome := by
  rw [accepts, parse, lexed]
  cases found : grammar.parseTokens rule tokens with
  | none => simp only [found]; rfl
  | some root => simp only [found]; rfl

/-- A condition has an expression for its only part. -/
theorem accepts_constantExpression_iff
    {source : String}
    (unmocked : grammar.mocked = [])
    (lexed : tokenize source 0 1 = .ok (tokens ++ [ending]))
    (ends : ending.kind = .endOfInput)
    (significant : Significant (tokens ++ [ending]))
    (unsigned : ∀ token ∈ (tokens ++ [ending]).head?,
      token.isAnyPunctuator Punctuator.signs = false)
    (enough : grammar.ReadsWithin (levels + 1) (.rule .primaryExpression) tokens [ending])
    (stays : StaysKnown known)
    (knows : known .empty)
    (shortage : grammar.Confines known (levels + 1) (.rule .primaryExpression)
      ⟨0, tokens ++ [ending]⟩ Cursor.AtParenthesis) :
    grammar.accepts .constantExpression source = true ↔ levels + 14 ≤ grammar.maxDepth := by
  have stops : Stops .conditionalExpression [ending] := by
    rintro token ⟨⟩ continued continues
    rw [ends] at continues
    cases continues
  have condition : grammar.ReadsWithin (levels + 14) (.rule .constantExpression) tokens
      [ending] :=
    readsWithin_rule unmocked (readsWithin_condition unmocked enough unsigned stops)
  have refused : grammar.Confines known (levels + 14) (.rule .constantExpression)
      ⟨0, tokens ++ [ending]⟩ Cursor.AtParenthesis :=
    confines_called unmocked stays (by decide)
      (confines_condition unmocked stays shortage unsigned)
  rw [accepts_eq lexed]
  constructor
  · intro accepted
    by_contra fewer
    rw [parseTokens_of_confines refused knows (Nat.lt_of_not_le fewer) significant] at accepted
    cases accepted
  · intro le
    exact isSome_parseTokens_of_readsWithin (condition.of_le le) significant ends

/-- Whatever else is true of a number in parentheses, it takes so many levels. -/
theorem accepts_iff_of_inParentheses
    {source : String}
    (unmocked : grammar.mocked = [])
    (lexed : tokenize source 0 1 = .ok (tokens ++ [ending]))
    (ends : ending.kind = .endOfInput)
    (nest : InParentheses depth tokens) :
    grammar.accepts .constantExpression source = true ↔ 15 + 14 * depth ≤ grammar.maxDepth := by
  have stays : StaysKnown fun _ => True := fun _ _ _ _ _ => trivial
  -- The primary expression takes two levels of its own, a condition thirteen more.
  have levels : 2 + 14 * depth = 1 + 14 * depth + 1 := by omega
  have enough : grammar.ReadsWithin (2 + 14 * depth) (.rule .primaryExpression) tokens [ending] :=
    readsWithin_of_inParentheses unmocked nest
  have shortage : grammar.Confines (fun _ => True) (2 + 14 * depth) (.rule .primaryExpression)
      ⟨0, tokens ++ [ending]⟩ Cursor.AtParenthesis :=
    confines_of_inParentheses unmocked stays nest
  rw [levels] at enough shortage
  rw [accepts_constantExpression_iff unmocked lexed ends nest.significant nest.unsigned enough stays
    trivial shortage]
  omega

theorem accepts_iff_of_inCalls
    {source : String}
    (unmocked : grammar.mocked = [])
    (lexed : tokenize source 0 1 = .ok (tokens ++ [ending]))
    (ends : ending.kind = .endOfInput)
    (nest : InCalls (depth + 1) tokens) :
    grammar.accepts .constantExpression source = true ↔
      16 + 3 * (depth + 1) ≤ grammar.maxDepth := by
  have levels : 6 + 3 * depth = 5 + 3 * depth + 1 := by omega
  have enough : grammar.ReadsWithin (6 + 3 * depth) (.rule .primaryExpression) tokens [ending] :=
    readsWithin_primary_of_inCalls unmocked nest
  have shortage : grammar.Confines (RunRefused (0 + 2 * (depth + 1))) (6 + 3 * depth)
      (.rule .primaryExpression) ⟨0, tokens ++ [ending]⟩ Cursor.AtParenthesis :=
    confines_primary_of_inCalls unmocked nest
  have knows : RunRefused (0 + 2 * (depth + 1)) .empty := by
    intro remembered
    rw [Failures.contains_empty] at remembered
    cases remembered
  rw [levels] at enough shortage
  rw [accepts_constantExpression_iff unmocked lexed ends nest.significant nest.unsigned enough
    (staysKnown_runRefused _) knows shortage]
  omega

/--
What nesting costs: each pair of parentheses takes fourteen levels more, each macro
call three, and nothing is accepted with one level less.
-/
theorem accepts_nests_iff (depth levels : Nat) :
    ((Grammar.mk levels []).accepts .constantExpression
        (String.ofList (parenthesizedText depth)) = true ↔ 15 + 14 * depth ≤ levels) ∧
      ((Grammar.mk levels []).accepts .constantExpression
        (String.ofList (callText (depth + 1))) = true ↔ 16 + 3 * (depth + 1) ≤ levels) := by
  have nothing : Lexes [] (· = []) := lexes_nil rfl
  constructor
  · have lexes := lexes_parenthesizedText nothing rfl depth
    rw [List.append_nil, ← @String.toList_ofList (parenthesizedText depth)] at lexes
    obtain ⟨_, ending, lexed, ends, _, nest, _, rfl, isNest, rfl⟩ := lexes.tokenize 0 1
    rw [List.append_nil] at lexed
    exact accepts_iff_of_inParentheses rfl lexed ends isNest
  · have lexes := lexes_callText nothing (by rintro _ ⟨⟩) (depth + 1)
    rw [List.append_nil, ← @String.toList_ofList (callText (depth + 1))] at lexes
    obtain ⟨_, ending, lexed, ends, _, nest, _, rfl, isNest, rfl⟩ := lexes.tokenize 0 1
    rw [List.append_nil] at lexed
    exact accepts_iff_of_inCalls rfl lexed ends isNest

end Grammar
end PreprocessorSyntax
