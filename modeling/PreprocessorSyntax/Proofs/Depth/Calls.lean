import PreprocessorSyntax.Proofs.Depth.Enough
import PreprocessorSyntax.Proofs.Depth.Shortage
import PreprocessorSyntax.Proofs.MacroCall.Arguments

/-!
# Levels for macro calls

A piece of an argument is first read as a call, in which the run of tokens in
front of the parentheses takes a level of its own.  If that level is missing, the
run is noted as a failure.  A piece without parentheses is the same run at the
same place, so it is refused, too: an argument of a single token takes one level
more than its own reading.
-/

namespace PreprocessorSyntax

/-- A token in a number of calls; only the innermost argument is no call. -/
inductive InCalls : Nat → List Token → Prop
  | plain {token : Token} (isPlain : token.isPlain = true) : InCalls 0 [token]
  | call
      {depth : Nat}
      {name opening closing : Token}
      {inner : List Token}
      (isName : name.isIdentifier = true)
      (unreserved : name.text ∉ reservedWords)
      (opens : opening.isPunctuator .leftParen = true)
      (closes : closing.isPunctuator .rightParen = true)
      (nest : InCalls depth inner) :
      InCalls (depth + 1) (name :: opening :: (inner ++ [closing]))

theorem Token.isPlain_of_isIdentifier {token : Token} (isName : token.isIdentifier = true) :
    token.isPlain = true := by
  simp [isPlain, isContent_of_isIdentifier isName, isAnyPunctuator, isPunctuator,
    kind_of_isIdentifier isName]

theorem Token.isPunctuator_of_isPlain
    {token : Token}
    {symbol : Punctuator}
    (isPlain : token.isPlain = true)
    (listed : symbol ∈ [.comma, .leftParen, .rightParen]) :
    token.isPunctuator symbol = false := by
  have isOther := (Bool.and_eq_true_iff.1 isPlain).2
  rw [Bool.not_eq_true', isAnyPunctuator, List.any_eq_false] at isOther
  simpa using isOther symbol listed

namespace InCalls

variable {depth : Nat} {tokens rest : List Token}

/-- A plain token comes first. -/
theorem exists_cons (nest : InCalls depth tokens) :
    ∃ token others, tokens = token :: others ∧ token.isPlain = true := by
  cases nest with
  | plain isPlain => exact ⟨_, _, rfl, isPlain⟩
  | call isName _ _ _ _ => exact ⟨_, _, rfl, Token.isPlain_of_isIdentifier isName⟩

theorem significant (nest : InCalls depth tokens) : Significant (tokens ++ rest) := by
  obtain ⟨token, others, rfl, isPlain⟩ := nest.exists_cons
  exact significant_cons (Token.isTrivia_of_isPlain isPlain) _

theorem not_rightParen (nest : InCalls depth tokens) :
    ∀ token ∈ (tokens ++ rest).head?, token.isPunctuator .rightParen = false := by
  obtain ⟨token, others, rfl, isPlain⟩ := nest.exists_cons
  rintro _ ⟨⟩
  exact Token.isPunctuator_of_isPlain isPlain (by decide)

/-- A call begins with a name. -/
theorem unsigned (nest : InCalls (depth + 1) tokens) :
    ∀ token ∈ (tokens ++ rest).head?, token.isAnyPunctuator Punctuator.signs = false := by
  cases nest with
  | call isName _ _ _ _ =>
      rintro _ ⟨⟩
      simp [Token.isAnyPunctuator, Token.isPunctuator, Token.kind_of_isIdentifier isName]

end InCalls

namespace Grammar

variable {grammar : Grammar} {known : Failures → Prop} {levels bound depth position : Nat}
variable {name opening closing token : Token} {tokens rest : List Token}
variable {ends middles : Cursor → Prop}

/-- A plain token in front of something else that is significant is a run of its own. -/
theorem reads_run
    (isPlain : token.isPlain = true)
    (notPlain : closing.isPlain = false)
    (notTrivia : closing.isTrivia = false) :
    grammar.Reads .somethingWithoutParentheses [token] [.leaf token] (closing :: rest) := by
  have skipped : grammar.Reads .trivia [] [] (closing :: rest) :=
    reads_trivia_nil (significant_cons notTrivia rest)
  have failed : grammar.Fails (.trivia ++ .plain) (closing :: rest) :=
    skipped.append_fails (fails_token_cons notPlain)
  have first : grammar.Reads .plain [token] [.leaf token] ([] ++ closing :: rest) :=
    reads_plain isPlain
  exact first.append failed.many

section Unmocked

variable (unmocked : grammar.mocked = [])
include unmocked

theorem readsWithin_run
    (isPlain : token.isPlain = true)
    (notPlain : closing.isPlain = false)
    (notTrivia : closing.isTrivia = false) :
    grammar.ReadsWithin (levels + 1) (.rule .somethingWithoutParentheses) [token]
      (closing :: rest) :=
  readsWithin_rule unmocked ((reads_run isPlain notPlain notTrivia).within rfl)

/-- Nothing but an opening parenthesis or a plain token starts a piece of an argument. -/
theorem failsWithin_argumentPiece
    (notPlain : token.isPlain = false)
    (notLeft : token.isPunctuator .leftParen = false) :
    grammar.FailsWithin (levels + 2) .argumentPiece (token :: rest) := by
  have noRun {levels : Nat} : grammar.FailsWithin (levels + 1)
      (.rule .somethingWithoutParentheses) (token :: rest) :=
    failsWithin_first unmocked rfl notPlain
  have noGroup : grammar.FailsWithin (levels + 1) .parenthesizedArguments (token :: rest) :=
    failsWithin_of_firstTest? rfl notLeft
  have unnamed : grammar.ReadsWithin (levels + 1)
      (.optional (.rule .somethingWithoutParentheses ++ .trivia)) [] (token :: rest) :=
    noRun.append.optional
  exact (failsWithin_rule unmocked (unnamed.append_fails noGroup)).orElse noRun

/-- An argument of one piece makes a list. -/
theorem readsWithin_argumentList
    (closes : closing.isPunctuator .rightParen = true)
    (piece : grammar.ReadsWithin (levels + 2) .argumentPiece tokens (closing :: rest)) :
    grammar.ReadsWithin (levels + 4) (.rule .argumentList) tokens (closing :: rest) := by
  have notPlain := Token.isPlain_rightParen closes
  have significant := significant_cons (Token.isTrivia_of_isPunctuator closes) rest
  have skipped {levels : Nat} : grammar.ReadsWithin levels .trivia [] (closing :: rest) :=
    (reads_trivia_nil significant).within rfl
  have noPiece : grammar.FailsWithin (levels + 2) .argumentPiece (closing :: rest) :=
    failsWithin_argumentPiece unmocked notPlain
      (Token.isPunctuator_eq_false closes (by decide))
  have argument : grammar.ReadsWithin (levels + 3) (.rule .argument) tokens (closing :: rest) :=
    readsWithin_rule unmocked (piece.append_nil (skipped.append_fails noPiece).many)
  have noComma : grammar.FailsWithin (levels + 3) (.symbol .comma) (closing :: rest) :=
    failsWithin_of_firstTest? rfl (Token.isPunctuator_eq_false closes (by decide))
  have noFurther : grammar.FailsWithin (levels + 3) .furtherArgument (closing :: rest) :=
    (skipped.append_fails noComma).append.append
  exact readsWithin_rule unmocked (argument.orElse_left.append_nil noFurther.many)

omit unmocked in
/-- A list is read in parentheses. -/
theorem readsWithin_parenthesizedArguments
    (opens : opening.isPunctuator .leftParen = true)
    (closes : closing.isPunctuator .rightParen = true)
    (significant : Significant (tokens ++ closing :: rest))
    (list : grammar.ReadsWithin levels (.rule .argumentList) tokens (closing :: rest)) :
    grammar.ReadsWithin levels .parenthesizedArguments (opening :: (tokens ++ [closing])) rest := by
  have begun : grammar.ReadsWithin levels (.symbol .leftParen) [opening]
      (tokens ++ closing :: rest) :=
    (reads_symbol opens).within rfl
  have inside : grammar.ReadsWithin levels
      (.symbol .leftParen ++ .trivia ++ .optional (.rule .argumentList) ++ .trivia)
      ([opening] ++ tokens) ([closing] ++ rest) :=
    ((begun.skip significant).append list.optional).skip
      (significant_cons (Token.isTrivia_of_isPunctuator closes) rest)
  exact inside.append ((reads_symbol closes).within rfl)

theorem readsWithin_argumentList_plain
    (isPlain : token.isPlain = true)
    (closes : closing.isPunctuator .rightParen = true) :
    grammar.ReadsWithin 4 (.rule .argumentList) [token] (closing :: rest) := by
  have run {levels : Nat} : grammar.ReadsWithin (levels + 1)
      (.rule .somethingWithoutParentheses) [token] (closing :: rest) :=
    readsWithin_run unmocked isPlain (Token.isPlain_rightParen closes)
      (Token.isTrivia_of_isPunctuator closes)
  have named : grammar.ReadsWithin 1 (.optional (.rule .somethingWithoutParentheses ++ .trivia))
      [token] (closing :: rest) :=
    (run.skip (significant_cons (Token.isTrivia_of_isPunctuator closes) rest)).optional
  have noGroup : grammar.FailsWithin 1 .parenthesizedArguments (closing :: rest) :=
    failsWithin_of_firstTest? rfl (Token.isPunctuator_eq_false closes (by decide))
  have noCall : grammar.FailsWithin 2 (.rule .somethingContainingParentheses)
      (token :: closing :: rest) :=
    failsWithin_rule unmocked (named.append_fails noGroup)
  have piece : grammar.ReadsWithin 2 .argumentPiece [token] (closing :: rest) :=
    FailsWithin.orElse_right noCall run
  exact readsWithin_argumentList unmocked closes piece

/-- Each call among the arguments takes three levels, and the innermost argument four. -/
theorem readsWithin_of_inCalls
    (nest : InCalls depth tokens)
    (closes : closing.isPunctuator .rightParen = true) :
    grammar.ReadsWithin (4 + 3 * depth) (.rule .argumentList) tokens (closing :: rest) := by
  induction nest generalizing closing rest with
  | plain isPlain => exact readsWithin_argumentList_plain unmocked isPlain closes
  | @call depth name opening last inner isName _ opens ends nest inductionHypothesis =>
      have group : grammar.ReadsWithin (4 + 3 * depth) .parenthesizedArguments
          (opening :: (inner ++ [last])) (closing :: rest) :=
        readsWithin_parenthesizedArguments opens ends nest.significant (inductionHypothesis ends)
      have run : grammar.ReadsWithin (3 + 3 * depth + 1) (.rule .somethingWithoutParentheses)
          [name] (opening :: (inner ++ [last]) ++ closing :: rest) :=
        readsWithin_run unmocked (Token.isPlain_of_isIdentifier isName)
          (Token.isPlain_leftParen opens) (Token.isTrivia_of_isPunctuator opens)
      rw [Nat.add_right_comm] at run
      have named := (run.skip (significant_cons (Token.isTrivia_of_isPunctuator opens) _)).optional
      have call : grammar.ReadsWithin (4 + 3 * depth + 1) (.rule .somethingContainingParentheses)
          (name :: opening :: (inner ++ [last])) (closing :: rest) :=
        readsWithin_rule unmocked (named.append group)
      have levels : 4 + 3 * (depth + 1) = 3 + 3 * depth + 4 := by omega
      rw [levels]
      refine readsWithin_argumentList unmocked closes ?_
      have piece : 3 + 3 * depth + 2 = 4 + 3 * depth + 1 := by omega
      rw [piece]
      exact call.orElse_left

/-- A name that is no other word goes in front of parentheses. -/
theorem readsWithin_functionlikeMacro
    (isName : name.isIdentifier = true)
    (unreserved : name.text ∉ reservedWords)
    (opens : opening.isPunctuator .leftParen = true)
    (group : grammar.ReadsWithin (levels + 1) .parenthesizedArguments (opening :: tokens) rest) :
    grammar.ReadsWithin (levels + 3) (.rule .primaryExpression) (name :: opening :: tokens)
      rest := by
  have isKind := Token.kind_of_isIdentifier isName
  have accepted : (name.isIdentifier && name.text != "defined") = true := by
    simp_all [reservedWords]
  have named : grammar.ReadsWithin (levels + 1)
      (.token fun found => found.isIdentifier && found.text != "defined") [name]
      (opening :: tokens ++ rest) :=
    (reads_identifier accepted isName).within rfl
  have skipped := named.skip (significant_cons (Token.isTrivia_of_isPunctuator opens) _)
  have call : grammar.ReadsWithin (levels + 2) (.rule .functionlikeMacro)
      (name :: opening :: tokens) rest :=
    readsWithin_rule unmocked (skipped.append group)
  apply readsWithin_rule unmocked
  refine ReadsWithin.orElse_left (FailsWithin.orElse_right ?_ (FailsWithin.orElse_right ?_
    (FailsWithin.orElse_right ?_ call)))
  · exact failsWithin_first unmocked rfl (by simp_all [Token.isLiteral, reservedWords])
  · exact failsWithin_first unmocked rfl (by simp_all [reservedWords])
  · exact failsWithin_first unmocked rfl (by simp_all [reservedWords])

/-- A nest of calls takes two levels more than the parentheses of the outermost call. -/
theorem readsWithin_primary_of_inCalls (nest : InCalls (depth + 1) tokens) :
    grammar.ReadsWithin (6 + 3 * depth) (.rule .primaryExpression) tokens rest := by
  cases nest with
  | @call _ name opening closing inner isName unreserved opens closes nest =>
      have list : grammar.ReadsWithin (4 + 3 * depth) (.rule .argumentList) inner
          (closing :: rest) :=
        readsWithin_of_inCalls unmocked nest closes
      have group := readsWithin_parenthesizedArguments opens closes nest.significant list
      have levels : 6 + 3 * depth = 3 + 3 * depth + 3 := by omega
      rw [levels]
      refine readsWithin_functionlikeMacro unmocked isName unreserved opens ?_
      rwa [Nat.add_right_comm]

end Unmocked

/-- If the token at a place has been refused as a call, it has been refused as a run. -/
def RunRefused (place : Nat) (failures : Failures) : Prop :=
  failures.contains .somethingContainingParentheses place = true →
    failures.contains .somethingWithoutParentheses place = true

theorem RunRefused.insert
    {place : Nat}
    {failures : Failures}
    {noted : Rule}
    (refused : RunRefused place failures)
    (different : noted = .somethingContainingParentheses → position ≠ place) :
    RunRefused place (failures.insert noted position) := by
  intro remembered
  rw [Failures.contains_insert, Bool.or_eq_true, decide_eq_true_eq] at remembered ⊢
  rcases remembered with ⟨isCall, here⟩ | before
  · exact absurd here (different isCall)
  · exact .inr (refused before)

theorem staysKnown_runRefused (place : Nat) : StaysKnown (RunRefused place) :=
  fun _ notCall _ _ refused => refused.insert fun isCall => absurd isCall notCall

/-- Without a level left, a rule is refused. -/
theorem exists_readRule_zero
    (grammar : Grammar)
    (called : Rule)
    (cursor : Cursor)
    (failures : Failures) :
    ∃ later, grammar.readRule 0 called cursor failures = (none, later) ∧
      later.contains called cursor.position = true := by
  cases remembered : failures.contains called cursor.position with
  | true => exact ⟨failures, readRule_of_contains remembered, remembered⟩
  | false =>
      have refused : grammar.readRule 0 called cursor failures = _ := readRule_zero remembered
      exact ⟨_, refused, contains_of_readRule_eq_none refused⟩

section Unmocked

variable (unmocked : grammar.mocked = [])
include unmocked

/-- With a single level, a token is refused as a call because it is refused as a run. -/
theorem exists_readRule_call
    {failures : Failures}
    (isPlain : token.isPlain = true)
    (fewer : levels < 2)
    (refused : RunRefused position failures) :
    ∃ later, grammar.readRule levels .somethingContainingParentheses ⟨position, token :: rest⟩
        failures = (none, later) ∧
      (levels = 0 ∨ later.contains .somethingWithoutParentheses position = true) := by
  cases remembered : failures.contains .somethingContainingParentheses position with
  | true => exact ⟨failures, readRule_of_contains remembered, .inr (refused remembered)⟩
  | false =>
      cases levels with
      | zero => exact ⟨_, readRule_zero remembered, .inl rfl⟩
      | succ levels =>
          obtain rfl : levels = 0 := by omega
          obtain ⟨noted, readRun, contains⟩ := exists_readRule_zero grammar
            .somethingWithoutParentheses ⟨position, token :: rest⟩ failures
          have noRun : (Pattern.rule .somethingWithoutParentheses ++ .trivia).read
              (grammar.readRule 0) ⟨position, token :: rest⟩ failures = (none, noted) :=
            read_append_of_none (read_rule_of_none readRun)
          have noGroup : Pattern.parenthesizedArguments.read (grammar.readRule 0)
              ⟨position, token :: rest⟩ noted = (none, noted) :=
            read_of_firstTest? rfl (Token.isPunctuator_of_isPlain isPlain (by decide)) _ _ _
          have body : (grammar.pattern .somethingContainingParentheses).read (grammar.readRule 0)
              ⟨position, token :: rest⟩ failures = (none, noted) := by
            rw [pattern_eq unmocked, Rule.pattern, Pattern.somethingContainingParentheses,
              read_append_of_some (read_optional_of_none noRun), noGroup]
            rfl
          refine ⟨_, readRule_of_none remembered body, .inr ?_⟩
          rw [Failures.contains_insert, contains, Bool.or_true]

/-- The innermost argument takes more than one level. -/
theorem confines_argumentPiece_plain (isPlain : token.isPlain = true) :
    grammar.Confines (RunRefused position) 2 .argumentPiece ⟨position, token :: rest⟩ ends := by
  intro levels failures reading later fewer refused read
  obtain ⟨between, readCall, known⟩ := exists_readRule_call unmocked isPlain fewer refused
  have failed : ∃ last, grammar.readRule levels .somethingWithoutParentheses
      ⟨position, token :: rest⟩ between = (none, last) ∧
      last.contains .somethingWithoutParentheses position = true := by
    rcases known with rfl | remembered
    · exact exists_readRule_zero grammar _ _ between
    · exact ⟨between, readRule_of_contains remembered, remembered⟩
  obtain ⟨last, readRun, remembered⟩ := failed
  have whole : Pattern.argumentPiece.read (grammar.readRule levels) ⟨position, token :: rest⟩
      failures = (none, last) :=
    (read_orElse_of_none (read_rule_of_none readCall)).trans (read_rule_of_none readRun)
  rw [whole] at read
  cases read
  exact ⟨fun _ => remembered, by rintro _ ⟨⟩⟩

section Known

variable (stays : StaysKnown known)
include stays

theorem confines_run
    (isPlain : token.isPlain = true)
    (opens : opening.isPunctuator .leftParen = true) :
    grammar.Confines known bound (.rule .somethingWithoutParentheses)
      ⟨position, token :: opening :: rest⟩ (· = ⟨position + 1, opening :: rest⟩) := by
  have run : grammar.Reads Rule.somethingWithoutParentheses.pattern [token] [.leaf token]
      (opening :: rest) :=
    reads_run isPlain (Token.isPlain_leftParen opens) (Token.isTrivia_of_isPunctuator opens)
  have body : grammar.Confines known bound Rule.somethingWithoutParentheses.pattern
      ⟨position, token :: opening :: rest⟩ (· = ⟨position + 1, opening :: rest⟩) :=
    run.confines rfl rfl
  exact (confines_called unmocked stays (by decide) body).of_le (Nat.le_succ bound)

/-- A list of a single argument that ends in front of a parenthesis. -/
theorem confines_argumentList
    (isPlain : token.isPlain = true)
    (argument : grammar.Confines known bound (.rule .argument) ⟨position, token :: rest⟩
      Cursor.AtParenthesis) :
    grammar.Confines known (bound + 1) (.rule .argumentList) ⟨position, token :: rest⟩
      Cursor.AtParenthesis := by
  have significant : Significant (token :: rest) :=
    significant_cons (Token.isTrivia_of_isPlain isPlain) rest
  have separator (place : Cursor) (ready : Significant place.rest)
      (noComma : ∀ token ∈ place.rest.head?, token.isPunctuator .comma = false) :
      grammar.Confines known bound .furtherArgument place fun _ => False := by
    have skipped : grammar.Confines known bound .trivia place (· = place) :=
      confines_trivia ready rfl
    have failed : grammar.Confines known bound (.trivia ++ .symbol .comma) place fun _ => False :=
      skipped.append_at (confines_token noComma)
    exact failed.append_nowhere.append_nowhere
  apply confines_called unmocked stays (by decide)
  refine (argument.orElse ?_).append fun place here => Confines.many ?_ here
  · refine (separator _ significant ?_).mono fun _ => False.elim
    rintro _ ⟨⟩
    exact Token.isPunctuator_of_isPlain isPlain (by decide)
  · exact separator place here.significant
      (here.refuses fun token opens => Token.isPunctuator_eq_false opens (by decide))

end Known
end Unmocked

/-- A list that gets no further than to a parenthesis is not closed. -/
theorem confines_parenthesizedArguments
    (opens : opening.isPunctuator .leftParen = true)
    (significant : Significant tokens)
    (filled : ∀ token ∈ tokens.head?, token.isPunctuator .rightParen = false)
    (list : grammar.Confines known bound (.rule .argumentList) ⟨position + 1, tokens⟩
      Cursor.AtParenthesis) :
    grammar.Confines known bound .parenthesizedArguments ⟨position, opening :: tokens⟩ ends := by
  have begun : grammar.Confines known bound (.symbol .leftParen ++ .trivia)
      ⟨position, opening :: tokens⟩ (· = ⟨position + 1, tokens⟩) :=
    ((reads_symbol opens).skip significant).confines rfl rfl
  have listed : grammar.Confines known bound
      (.symbol .leftParen ++ .trivia ++ .optional (.rule .argumentList))
      ⟨position, opening :: tokens⟩ fun place =>
        Significant place.rest ∧
          ∀ token ∈ place.rest.head?, token.isPunctuator .rightParen = false := by
    refine begun.append_at (Confines.optional ?_ ⟨significant, filled⟩)
    refine list.mono fun place here => ⟨here.significant, ?_⟩
    exact here.refuses fun token opens => Token.isPunctuator_eq_false opens (by decide)
  have skipped := listed.append fun place here => confines_trivia here.1 here
  exact skipped.append fun place here => confines_token here.2

section Nests

variable {innermost : Nat} (unmocked : grammar.mocked = [])
include unmocked

/-- Neither in front of a name nor behind it is a call read whose parentheses are not closed. -/
theorem confines_call
    (before : position < innermost)
    (named : grammar.Confines (RunRefused innermost) (bound + 1)
      (.optional (.rule .somethingWithoutParentheses ++ .trivia)) ⟨position, tokens⟩ middles)
    (group : ∀ place, middles place →
      grammar.Confines (RunRefused innermost) (bound + 1) .parenthesizedArguments place
        fun _ => False) :
    grammar.Confines (RunRefused innermost) (bound + 2) (.rule .somethingContainingParentheses)
      ⟨position, tokens⟩ fun _ => False := by
  have noted (failures : Failures) (refused : RunRefused innermost failures) :
      RunRefused innermost (failures.insert .somethingContainingParentheses position) :=
    refused.insert fun _ => Nat.ne_of_lt before
  exact confines_rule unmocked noted (named.append group)

/-- An argument ends behind a name if no call is read there. -/
theorem confines_argument_of_call
    (isPlain : name.isPlain = true)
    (opens : opening.isPunctuator .leftParen = true)
    (before : position + 1 < innermost)
    (group : grammar.Confines (RunRefused innermost) (bound + 1) .parenthesizedArguments
      ⟨position + 1, opening :: tokens⟩ fun _ => False) :
    grammar.Confines (RunRefused innermost) (bound + 3) (.rule .argument)
      ⟨position, name :: opening :: tokens⟩ (· = ⟨position + 1, opening :: tokens⟩) := by
  have stays := staysKnown_runRefused innermost
  have significant : Significant (opening :: tokens) :=
    significant_cons (Token.isTrivia_of_isPunctuator opens) tokens
  have skipped {bound : Nat} : grammar.Confines (RunRefused innermost) bound .trivia
      ⟨position + 1, opening :: tokens⟩ (· = ⟨position + 1, opening :: tokens⟩) :=
    confines_trivia significant rfl
  have run {bound : Nat} : grammar.Confines (RunRefused innermost) bound
      (.rule .somethingWithoutParentheses) ⟨position, name :: opening :: tokens⟩
      (· = ⟨position + 1, opening :: tokens⟩) :=
    confines_run unmocked stays isPlain opens
  have noRun {bound : Nat} : grammar.Confines (RunRefused innermost) bound
      (.rule .somethingWithoutParentheses) ⟨position + 1, opening :: tokens⟩ fun _ => False :=
    confines_first unmocked stays (by decide) rfl (Token.isPlain_leftParen opens)
  -- The parentheses behind the name may be tried with it or without it.
  have call : grammar.Confines (RunRefused innermost) (bound + 2)
      (.rule .somethingContainingParentheses) ⟨position, name :: opening :: tokens⟩
      fun _ => False := by
    have named : grammar.Confines (RunRefused innermost) (bound + 1)
        (.rule .somethingWithoutParentheses ++ .trivia) ⟨position, name :: opening :: tokens⟩
        (· = ⟨position + 1, opening :: tokens⟩) :=
      run.append_at skipped
    refine confines_call unmocked (Nat.lt_of_succ_lt before)
      ((named.mono fun _ => Or.inr).optional (.inl rfl)) ?_
    rintro place (rfl | rfl)
    · exact confines_of_firstTest? rfl (Token.isPunctuator_of_isPlain isPlain (by decide))
    · exact group
  have noCall : grammar.Confines (RunRefused innermost) (bound + 2)
      (.rule .somethingContainingParentheses) ⟨position + 1, opening :: tokens⟩
      fun _ => False := by
    have unnamed : grammar.Confines (RunRefused innermost) (bound + 1)
        (.optional (.rule .somethingWithoutParentheses ++ .trivia))
        ⟨position + 1, opening :: tokens⟩ (· = ⟨position + 1, opening :: tokens⟩) :=
      noRun.append_nowhere.optional rfl
    exact confines_call unmocked before unnamed fun place here => by rwa [here]
  have piece : grammar.Confines (RunRefused innermost) (bound + 2) .argumentPiece
      ⟨position, name :: opening :: tokens⟩ (· = ⟨position + 1, opening :: tokens⟩) :=
    (call.mono fun _ => False.elim).orElse run
  have noPiece : grammar.Confines (RunRefused innermost) (bound + 2) .argumentPiece
      ⟨position + 1, opening :: tokens⟩ fun _ => False :=
    noCall.orElse noRun
  apply confines_called unmocked stays (by decide)
  exact piece.append_at ((skipped.append_at noPiece).many rfl)

omit unmocked in
/-- In the parentheses of a call, fewer levels are not enough for what stands there. -/
theorem confines_group_of_inCalls
    (opens : opening.isPunctuator .leftParen = true)
    (nest : InCalls depth tokens)
    (list : ∀ {position}, grammar.Confines (RunRefused (position + 2 * depth)) (4 + 3 * depth)
      (.rule .argumentList) ⟨position, tokens ++ rest⟩ Cursor.AtParenthesis) :
    grammar.Confines (RunRefused (position + 2 * (depth + 1))) (3 + 3 * depth + 1)
      .parenthesizedArguments ⟨position + 1, opening :: (tokens ++ rest)⟩ ends := by
  have place : position + 2 * (depth + 1) = position + 1 + 1 + 2 * depth := by omega
  have levels : 3 + 3 * depth + 1 = 4 + 3 * depth := by omega
  rw [place, levels]
  exact confines_parenthesizedArguments opens nest.significant nest.not_rightParen list

/-- With fewer levels the arguments are not read, and no part of them but a name. -/
theorem confines_of_inCalls (nest : InCalls depth tokens) :
    grammar.Confines (RunRefused (position + 2 * depth)) (4 + 3 * depth) (.rule .argumentList)
      ⟨position, tokens ++ rest⟩ Cursor.AtParenthesis := by
  induction nest generalizing position rest with
  | @plain token isPlain =>
      have stays := staysKnown_runRefused position
      have piece : grammar.Confines (RunRefused position) 2 .argumentPiece
          ⟨position, token :: rest⟩ fun _ => False :=
        confines_argumentPiece_plain unmocked isPlain
      have argument : grammar.Confines (RunRefused position) 3 (.rule .argument)
          ⟨position, token :: rest⟩ Cursor.AtParenthesis :=
        confines_called unmocked stays (by decide) piece.append_nowhere
      exact confines_argumentList unmocked stays isPlain argument
  | @call depth name opening closing inner isName _ opens closes nest inductionHypothesis =>
      have isPlain := Token.isPlain_of_isIdentifier isName
      have stays := staysKnown_runRefused (position + 2 * (depth + 1))
      have group : grammar.Confines (RunRefused (position + 2 * (depth + 1))) (3 + 3 * depth + 1)
          .parenthesizedArguments ⟨position + 1, opening :: (inner ++ closing :: rest)⟩
          fun _ => False :=
        confines_group_of_inCalls opens nest inductionHypothesis
      have behindName := confines_argument_of_call unmocked isPlain opens (by omega) group
      have argument : grammar.Confines _ _ (.rule .argument)
          ⟨position, name :: opening :: (inner ++ closing :: rest)⟩ Cursor.AtParenthesis :=
        behindName.mono fun _ => .of_eq opens
      have whole := confines_argumentList unmocked stays isPlain argument
      have levels : 4 + 3 * (depth + 1) = 3 + 3 * depth + 3 + 1 := by omega
      rw [levels, List.cons_append, List.cons_append, List.append_assoc]
      exact whole

/-- A name in front of parentheses that are not read is read as nothing but a name. -/
theorem confines_primaryExpression_of_group
    (stays : StaysKnown known)
    (isName : name.isIdentifier = true)
    (unreserved : name.text ∉ reservedWords)
    (opens : opening.isPunctuator .leftParen = true)
    (group : grammar.Confines known bound .parenthesizedArguments ⟨position + 1, opening :: tokens⟩
      fun _ => False) :
    grammar.Confines known (bound + 2) (.rule .primaryExpression)
      ⟨position, name :: opening :: tokens⟩ Cursor.AtParenthesis := by
  have isKind := Token.kind_of_isIdentifier isName
  have notLeft : name.isPunctuator .leftParen = false := by simp [Token.isPunctuator, isKind]
  have accepted : (name.isIdentifier && name.text != "defined") = true := by
    simp_all [reservedWords]
  have behindName {accepts : Token → Bool} {bound : Nat} (accepted : accepts name = true) :
      grammar.Confines known bound (.token accepts) ⟨position, name :: opening :: tokens⟩
        (· = ⟨position + 1, opening :: tokens⟩) :=
    (reads_identifier accepted isName).confines rfl rfl
  have skipped : grammar.Confines known bound .trivia ⟨position + 1, opening :: tokens⟩
      (· = ⟨position + 1, opening :: tokens⟩) :=
    confines_trivia (significant_cons (Token.isTrivia_of_isPunctuator opens) tokens) rfl
  have call : grammar.Confines known (bound + 1) (.rule .functionlikeMacro)
      ⟨position, name :: opening :: tokens⟩ Cursor.AtParenthesis :=
    confines_called unmocked stays (by decide)
      (((behindName accepted).append_at skipped).append_at (group.mono fun _ => False.elim))
  apply confines_called unmocked stays (by decide)
  refine Confines.orElse ?_ (Confines.orElse ?_ (Confines.orElse ?_ ?_))
  · refine Confines.orElse ?_ (Confines.orElse ?_ (Confines.orElse ?_ call))
    · exact confines_first unmocked stays (by decide) rfl
        (by simp_all [Token.isLiteral, reservedWords])
    · exact confines_first unmocked stays (by decide) rfl (by simp_all [reservedWords])
    · exact confines_first unmocked stays (by decide) rfl (by simp_all [reservedWords])
  · exact confines_of_firstTest? rfl notLeft
  · exact confines_of_firstTest? rfl notLeft
  · exact (behindName isName).mono fun _ => .of_eq opens

theorem confines_primary_of_inCalls (nest : InCalls (depth + 1) tokens) :
    grammar.Confines (RunRefused (position + 2 * (depth + 1))) (6 + 3 * depth)
      (.rule .primaryExpression) ⟨position, tokens ++ rest⟩ Cursor.AtParenthesis := by
  cases nest with
  | @call _ name opening closing inner isName unreserved opens closes nest =>
      have group : grammar.Confines (RunRefused (position + 2 * (depth + 1))) (3 + 3 * depth + 1)
          .parenthesizedArguments ⟨position + 1, opening :: (inner ++ closing :: rest)⟩
          fun _ => False :=
        confines_group_of_inCalls opens nest (confines_of_inCalls unmocked nest)
      have whole := confines_primaryExpression_of_group unmocked (staysKnown_runRefused _) isName
        unreserved opens group
      have levels : 6 + 3 * depth = 3 + 3 * depth + 1 + 2 := by omega
      rw [levels, List.cons_append, List.cons_append, List.append_assoc]
      exact whole

end Nests
end Grammar
end PreprocessorSyntax
