import PreprocessorSyntax.Proofs.Depth.Lockstep
import PreprocessorSyntax.Proofs.MacroCall.Nesting

/-!
# Arguments of macro calls

The pieces of an argument are the place where a limit on nesting could change the
shape of a tree: a name whose parentheses are too deep might be read alone, and
the parentheses after it as a piece of their own.  This never happens, because
those parentheses have been tried before with the same levels and the same
memory.  So a piece without parentheses is read only where none follow, and the
rules for arguments read alike with few levels and with many.
-/

namespace PreprocessorSyntax

/-- An argument of a macro call may end in front of such a token. -/
def Token.EndsArgument (token : Token) : Prop :=
  token.opensArgument = false

namespace Token

variable {token : Token}

theorem opensArgument_of_isPlain (plain : token.isPlain = true) : token.opensArgument = true := by
  simp_all [isPlain, opensArgument, isAnyPunctuator]

theorem isPlain_eq_false (refused : token.opensArgument = false) : token.isPlain = false := by
  rw [Bool.eq_false_iff]
  intro plain
  rw [opensArgument_of_isPlain plain] at refused
  cases refused

theorem opensArgument_leftParen (isOpening : token.isPunctuator .leftParen = true) :
    token.opensArgument = true := by
  simp [opensArgument, isContent_of_isPunctuator isOpening, isAnyPunctuator, isPunctuator,
    kind_of_isPunctuator isOpening]

theorem isLeftParen_eq_false (refused : token.opensArgument = false) :
    token.isPunctuator .leftParen = false := by
  rw [Bool.eq_false_iff]
  intro isOpening
  rw [opensArgument_leftParen isOpening] at refused
  cases refused

theorem opensArgument_comma (isComma : token.isPunctuator .comma = true) :
    token.opensArgument = false := by
  simp [opensArgument, isAnyPunctuator, isComma]

theorem opensArgument_rightParen (isClosing : token.isPunctuator .rightParen = true) :
    token.opensArgument = false := by
  simp [opensArgument, isAnyPunctuator, isClosing]

theorem opensArgument_of_isTrivia (trivial : token.isTrivia = true) :
    token.opensArgument = false := by
  simp [opensArgument, isContent, trivial]

end Token

/-- If what comes next cannot begin an argument, neither can the very next token. -/
theorem Cursor.Precedes.refused
    {cursor : Cursor}
    (precedes : cursor.Precedes Token.EndsArgument) :
    ∀ token ∈ cursor.rest.head?, token.opensArgument = false :=
  precedes.head fun _ => Token.opensArgument_of_isTrivia

namespace Grammar

variable {grammar : Grammar} {few : Nat} {cursor : Cursor}

section Barren

variable (unmocked : grammar.mocked = [])
include unmocked

theorem barren_somethingWithoutParentheses
    (refused : ∀ token ∈ cursor.rest.head?, token.isPlain = false)
    (levels : Nat) :
    grammar.Barren levels (.rule .somethingWithoutParentheses) cursor := by
  refine barren_rule (fun levels => ?_) (by simp) levels
  rw [pattern_eq unmocked]
  exact (barren_token refused).append

variable (refused : ∀ token ∈ cursor.rest.head?, token.opensArgument = false)
include refused

theorem barren_argumentPiece (levels : Nat) : grammar.Barren levels .argumentPiece cursor := by
  have plain := barren_somethingWithoutParentheses unmocked fun token first =>
    Token.isPlain_eq_false (refused token first)
  have closed : ∀ token ∈ cursor.rest.head?, token.isPunctuator .leftParen = false :=
    fun token first => Token.isLeftParen_eq_false (refused token first)
  refine Barren.orElse (barren_rule (fun levels => ?_) (fun _ => refused) levels) (plain levels)
  rw [pattern_eq unmocked]
  exact (plain levels).append.optional.append_barren
    (barren_token closed).append.append.append.append

theorem barren_argument (levels : Nat) : grammar.Barren levels (.rule .argument) cursor := by
  refine barren_rule (fun levels => ?_) (by simp) levels
  rw [pattern_eq unmocked]
  exact (barren_argumentPiece unmocked refused levels).append

/-- An argument list may also begin with a comma. -/
theorem barren_argumentList
    (noComma : ∀ token ∈ cursor.next?, token.isPunctuator .comma = false)
    (levels : Nat) :
    grammar.Barren levels (.rule .argumentList) cursor := by
  refine barren_rule (fun levels => ?_) (by simp) levels
  rw [pattern_eq unmocked]
  exact ((barren_argument unmocked refused levels).orElse
    (barren_trivia_token noComma).append.append).append

end Barren

section Parentheses

variable (unmocked : grammar.mocked = [])
include unmocked

/-- Parentheses that could not be read cannot be read later either. -/
theorem read_parenthesizedArguments_again
    {levels : Nat}
    {failures later : Failures}
    (failed : Pattern.parenthesizedArguments.read (grammar.readRule levels) cursor failures =
      (none, later)) :
    Pattern.parenthesizedArguments.read (grammar.readRule levels) cursor later = (none, later) := by
  refine read_again_of_none rfl rfl ?_ rfl failed
  intro called mentioned
  cases List.mem_singleton.1 mentioned
  exact replays_argument unmocked levels .argumentList (by decide)

omit unmocked in
/-- What is remembered about the place of an opening parenthesis does not matter. -/
theorem read_parenthesizedArguments_congr
    {levels : Nat}
    {failures others : Failures}
    (agree : AgreeFrom (cursor.position + 1) failures others) :
    (Pattern.parenthesizedArguments.read (grammar.readRule levels) cursor failures).1 =
      (Pattern.parenthesizedArguments.read (grammar.readRule levels) cursor others).1 := by
  have behind (pattern : Pattern) :
      Simulates (cursor.position + 1 ≤ ·.position) (cursor.position + 1 ≤ ·.position)
        (AgreeFrom (cursor.position + 1))
        (pattern.read (grammar.readRule levels)) (pattern.read (grammar.readRule levels)) := by
    refine simulates_read ?_ fun rule _ => agree_readRule _ levels rule
    intro place tokens after here advances
    exact Nat.le_trans here (advances.position ▸ Nat.le_add_right _ _)
  have opening :
      Simulates (· = cursor) (cursor.position + 1 ≤ ·.position) (AgreeFrom (cursor.position + 1))
        ((Pattern.symbol .leftParen).read (grammar.readRule levels))
        ((Pattern.symbol .leftParen).read (grammar.readRule levels)) :=
    simulates_of_calls_eq_nil rfl rfl cursor
  exact ((((opening.sequence (behind _)).sequence (behind _)).sequence (behind _)).sequence
    (behind _) cursor failures others rfl agree).1

/-- Parentheses are read alike if the argument lists inside are. -/
theorem carries_parenthesizedArguments
    {stop : Cursor → Failures → Prop}
    (carries : grammar.Carries few Alike
      (Before Token.EndsArgument)
      (.rule .argumentList)) :
    grammar.Carries few Alike stop .parenthesizedArguments := by
  have inside : grammar.Carries few Alike
      (Before fun token => token.isPunctuator .rightParen = true)
      (.optional (.rule .argumentList)) := by
    refine Carries.optional (carries.mono ?_) ?_
    · exact fun after _ precedes token next => Token.opensArgument_rightParen (precedes token next)
    · intro cursor failures later _ _ precedes many _
      refine barren_argumentList unmocked (Cursor.Precedes.refused ?_) ?_ many
      · exact fun token next => Token.opensArgument_rightParen (precedes token next)
      · intro token next
        have kind := Token.kind_of_isPunctuator (precedes token next)
        simp [Token.isPunctuator, kind]
  have opened : grammar.Carries few Alike
      (Before fun token => token.isPunctuator .rightParen = true)
      (.symbol .leftParen ++ .trivia ++ .optional (.rule .argumentList)) := inside.behind rfl
  exact opened.trivia.token (fun _ => Token.isTrivia_of_isPunctuator) fun _ closes => closes

/-- A call with tokens in front of its parentheses is read alike if the parentheses are. -/
theorem carries_somethingContainingParentheses
    {stop : Cursor → Failures → Prop}
    (carries : ∀ below, few = below + 1 → grammar.Carries below Alike
      (Before Token.EndsArgument)
      (.rule .argumentList)) :
    grammar.Carries few Alike stop (.rule .somethingContainingParentheses) := by
  refine carries_called unmocked fun below isBelow => ?_
  have leading : grammar.Carries below Alike
      (Before fun token => token.isPunctuator .leftParen = true)
      (.optional (.rule .somethingWithoutParentheses ++ .trivia)) := by
    refine Carries.optional (carries_of_calls_pattern_eq_nil unmocked rfl).trivia ?_
    intro cursor failures later _ _ precedes many _
    have refused : cursor.Precedes fun token => token.isPlain = false :=
      fun token next => Token.isPlain_leftParen (precedes token next)
    exact (barren_somethingWithoutParentheses unmocked
      (refused.head fun _ => Token.isPlain_of_isTrivia) many).append
  have opens : grammar.Begins (Token.isPunctuator .leftParen) .parenthesizedArguments :=
    (begins_token fun token isOpening =>
      ⟨isOpening, Token.isTrivia_of_isPunctuator isOpening⟩).append.append.append.append
  exact leading.before (carries_parenthesizedArguments unmocked (carries below isBelow)) opens
    fun _ isOpening => isOpening

end Parentheses

/-- Where an opening parenthesis follows a piece, a further piece is read. -/
def GoesOn (grammar : Grammar) (few : Nat) (after : Cursor) (later : Failures) : Prop :=
  ∀ token ∈ after.next?, token.isPunctuator .leftParen = true →
    ∃ found last, (Pattern.trivia ++ .argumentPiece).read (grammar.readRule few) after later =
      (some found, last)

/-- A run without parentheses begins with a token that can be part of it. -/
theorem exists_isPlain
    {after : Cursor}
    {trees : List Tree}
    (read : grammar.treesAt? .somethingWithoutParentheses cursor = some (trees, after)) :
    ∃ token behind, cursor.rest = token :: behind ∧ token.isPlain = true := by
  cases derives_of_treesAt? read with
  | sequence front _ =>
      cases front with
      | token found accepted => exact ⟨_, _, Cursor.rest_of_bump? found, accepted⟩

section Pieces

variable (unmocked : grammar.mocked = [])
include unmocked

theorem calls_somethingWithoutParentheses :
    (grammar.pattern .somethingWithoutParentheses).calls = [] := by
  rw [pattern_eq unmocked]
  rfl

theorem read_leading_of_run
    {levels : Nat}
    {failures : Failures}
    {trees : List Tree}
    {after : Cursor}
    (unknown : failures.contains .somethingWithoutParentheses cursor.position = false)
    (run : grammar.treesAt? .somethingWithoutParentheses cursor = some (trees, after)) :
    ∃ leading, (Pattern.optional (.rule .somethingWithoutParentheses ++ .trivia)).read
        (grammar.readRule (levels + 1)) cursor failures =
      (some (leading, after.trivia.2), failures) := by
  have run : grammar.treesAt? (grammar.pattern .somethingWithoutParentheses) cursor =
      some (trees, after) := by
    rwa [pattern_eq unmocked]
  have called : grammar.readRule (levels + 1) .somethingWithoutParentheses cursor failures = _ :=
    readRule_of_treesAt? (calls_somethingWithoutParentheses unmocked) unknown run
  have leading : (.rule .somethingWithoutParentheses ++ Pattern.trivia).read
      (grammar.readRule (levels + 1)) cursor failures =
        (some ([(Rule.somethingWithoutParentheses.build trees).toTree] ++
          after.trivia.1.map .leaf, after.trivia.2), failures) := by
    rw [read_append_of_some (read_rule_of_some called), read_trivia]
    rfl
  exact ⟨_, read_orElse_of_some leading⟩

theorem read_leading_of_no_run
    (refused : ∀ token ∈ cursor.rest.head?, token.isPlain = false)
    (levels : Nat)
    (failures : Failures) :
    ∃ later, (Pattern.optional (.rule .somethingWithoutParentheses ++ .trivia)).read
        (grammar.readRule levels) cursor failures = (some ([], cursor), later) ∧
      AgreeFrom (cursor.position + 1) later failures := by
  have declines : grammar.Declines levels (.rule .somethingWithoutParentheses) cursor := by
    refine declines_rule (fun levels => ?_) levels
    rw [pattern_eq unmocked]
    exact (declines_of_calls_eq_nil rfl (fails_token refused cursor.position)).append
  obtain ⟨later, failed, agree⟩ := declines.append failures
  exact ⟨later, read_orElse_of_none failed, agree⟩

omit unmocked in
theorem read_parenthesizedArguments_of_head
    (noCall : ∀ token ∈ cursor.rest.head?, token.isPunctuator .leftParen = false)
    (levels : Nat)
    (failures : Failures) :
    Pattern.parenthesizedArguments.read (grammar.readRule levels) cursor failures =
      (none, failures) := by
  have failed : (Pattern.symbol .leftParen).read (grammar.readRule levels) cursor failures =
      (none, failures) := by
    rw [read_of_calls_eq_nil grammar rfl]
    exact congrArg (·, failures) (fails_token noCall cursor.position)
  exact read_append_of_none (read_append_of_none (read_append_of_none (read_append_of_none failed)))

/-- Where no opening parenthesis follows a run, it is no call. -/
theorem readRule_call_of_run
    {levels : Nat}
    {failures : Failures}
    {trees : List Tree}
    {after : Cursor}
    (unknown : failures.contains .somethingContainingParentheses cursor.position = false)
    (unknownToo : failures.contains .somethingWithoutParentheses cursor.position = false)
    (run : grammar.treesAt? .somethingWithoutParentheses cursor = some (trees, after))
    (noCall : ∀ token ∈ after.next?, token.isPunctuator .leftParen = false) :
    grammar.readRule (levels + 2) .somethingContainingParentheses cursor failures =
      (none, failures.insert .somethingContainingParentheses cursor.position) := by
  obtain ⟨leading, readLeading⟩ := read_leading_of_run unmocked unknownToo run
  apply readRule_of_none unknown
  rw [pattern_eq unmocked]
  refine (read_append_of_some readLeading).trans ?_
  rw [read_parenthesizedArguments_of_head (by rwa [Cursor.head?_trivia])]
  rfl

/-- Where a call has been tried in vain, its parentheses are not read as a piece of their own. -/
theorem read_argumentPiece_ne_some
    {levels : Nat}
    {failures noted : Failures}
    {token : Token}
    (isNext : token ∈ cursor.rest.head?)
    (isOpening : token.isPunctuator .leftParen = true)
    (agree : AgreeFrom (cursor.position + 1) failures noted)
    (failed : Pattern.parenthesizedArguments.read (grammar.readRule levels) cursor noted =
      (none, noted)) :
    (Pattern.argumentPiece.read (grammar.readRule (levels + 1)) cursor failures).1 = none := by
  have refused : ∀ token ∈ cursor.rest.head?, token.isPlain = false := by
    intro other first
    rw [Option.mem_def.1 isNext] at first
    cases first
    exact Token.isPlain_leftParen isOpening
  rcases read : Pattern.argumentPiece.read (grammar.readRule (levels + 1)) cursor failures with
    ⟨_ | ⟨trees, after⟩, later⟩
  · rfl
  rcases call : (Pattern.rule .somethingContainingParentheses).read (grammar.readRule (levels + 1))
      cursor failures with ⟨_ | ⟨callTrees, callAfter⟩, between⟩
  · have run := (read_orElse_of_none call).symm.trans read
    obtain ⟨node, run, _⟩ := exists_of_read_rule run
    obtain ⟨_, _, _, _, run, _⟩ :=
      exists_of_readRule_of_calls_eq_nil (calls_somethingWithoutParentheses unmocked) run
    rw [pattern_eq unmocked] at run
    obtain ⟨first, behind, stands, plain⟩ := exists_isPlain run
    rw [refused first (by rw [stands]; rfl)] at plain
    cases plain
  · obtain ⟨node, call, _⟩ := exists_of_read_rule call
    obtain ⟨below, children, levelsEq, _, body, _⟩ := exists_of_readRule call
    cases levelsEq
    rw [pattern_eq unmocked] at body
    obtain ⟨_, _, _, back, front, parentheses, _⟩ := exists_of_read_append body
    obtain ⟨idle, readIdle, agreeIdle⟩ := read_leading_of_no_run unmocked refused levels failures
    rw [readIdle, Prod.mk.injEq, Option.some.injEq, Prod.mk.injEq] at front
    obtain ⟨⟨_, rfl⟩, rfl⟩ := front
    have same : (Pattern.parenthesizedArguments.read (grammar.readRule levels) cursor idle).1 =
        (Pattern.parenthesizedArguments.read (grammar.readRule levels) cursor noted).1 :=
      read_parenthesizedArguments_congr (agreeIdle.trans agree)
    rw [parentheses, failed] at same
    cases same

/--
A piece without parentheses is read only if two levels are left and, where a
further piece must follow, no parentheses do: they have been tried before.
-/
theorem exists_of_read_plain
    {after : Cursor}
    {failures between later : Failures}
    {node : Node}
    (unknown : failures.contains .somethingContainingParentheses cursor.position = false)
    (failed : grammar.readRule few .somethingContainingParentheses cursor failures =
      (none, between))
    (read : grammar.readRule few .somethingWithoutParentheses cursor between =
      (some (node, after), later))
    (goesOn : grammar.GoesOn few after later) :
    (∃ below, few = below + 2) ∧ ∀ token ∈ after.next?, token.isPunctuator .leftParen = false := by
  have callsNone := calls_somethingWithoutParentheses unmocked
  obtain ⟨levels, children, rfl, unknownRun, run, _, rfl⟩ :=
    exists_of_readRule_of_calls_eq_nil callsNone read
  obtain ⟨noted, body, rfl⟩ := exists_of_readRule_eq_none unknown failed
  rw [pattern_eq unmocked] at body run
  have unknownInside : failures.contains .somethingWithoutParentheses cursor.position = false := by
    rw [Bool.eq_false_iff]
    intro remembered
    rw [Failures.contains_insert, (extends_of_read body).keeps _ _ remembered] at unknownRun
    simp at unknownRun
  cases levels with
  | zero =>
      -- The run inside the call has been refused, and that is remembered.
      have refused : (Pattern.rule .somethingWithoutParentheses).read (grammar.readRule 0) cursor
          failures = (none, failures.insert .somethingWithoutParentheses cursor.position) :=
        read_rule_of_none (readRule_zero unknownInside)
      have idle : (Pattern.optional (.rule .somethingWithoutParentheses ++ .trivia)).read
          (grammar.readRule 0) cursor failures =
            (some ([], cursor), failures.insert .somethingWithoutParentheses cursor.position) :=
        read_orElse_of_none (read_append_of_none refused)
      have keeps := (extends_of_read (read_eq_none_of_append idle body)).keeps
        .somethingWithoutParentheses cursor.position (by simp [Failures.contains_insert])
      simp [Failures.contains_insert, keeps] at unknownRun
  | succ levels =>
      refine ⟨⟨levels, rfl⟩, fun token next => ?_⟩
      rw [Bool.eq_false_iff]
      intro isOpening
      obtain ⟨leading, readLeading⟩ := read_leading_of_run unmocked unknownInside run
      have parentheses := read_parenthesizedArguments_again unmocked
        (read_eq_none_of_append readLeading body)
      obtain ⟨found, last, further⟩ := goesOn token next isOpening
      obtain ⟨_, _, _, piece, skipped, further, _⟩ := exists_of_read_append further
      rw [read_trivia] at skipped
      cases skipped
      have isNext : token ∈ after.trivia.2.rest.head? := by
        rwa [Cursor.head?_trivia]
      have before : cursor.position < after.trivia.2.position + 1 := by
        have moved := (derives_of_treesAt? run).advances.position
        have skipped := after.advances_trivia.position
        omega
      have notRead := read_argumentPiece_ne_some unmocked isNext isOpening
        ((AgreeFrom.refl _ noted).insert_left before .somethingContainingParentheses) parentheses
      rw [further] at notRead
      cases notRead

/-- Pieces are read alike where no further parentheses follow, or where they are read as well. -/
theorem carries_argumentPiece
    (carries : grammar.Carries few Alike (grammar.GoesOn few)
      (.rule .somethingContainingParentheses)) :
    grammar.Carries few Alike (grammar.GoesOn few) .argumentPiece := by
  intro many cursor after failures others later trees le harmless harmlessToo read goesOn
  rcases call : (Pattern.rule .somethingContainingParentheses).read (grammar.readRule few) cursor
      failures with ⟨_ | found, between⟩
  · have readRun := (read_orElse_of_none call).symm.trans read
    obtain ⟨node, run, rfl⟩ := exists_of_read_rule readRun
    obtain ⟨_, children, _, _, treesAt, rfl, _⟩ :=
      exists_of_readRule_of_calls_eq_nil (calls_somethingWithoutParentheses unmocked) run
    have runAt : grammar.treesAt? .somethingWithoutParentheses cursor = some (children, after) := by
      rwa [pattern_eq unmocked] at treesAt
    obtain ⟨first, behind, stands, plain⟩ := exists_isPlain runAt
    -- Neither a call nor a run has been noted as a failure where a run begins.
    have unknown {noted : Failures} (harmless : grammar.Harmless cursor noted) :
        noted.contains .somethingContainingParentheses cursor.position = false := by
      refine harmless.contains_eq_false fun hopeless => ?_
      have refused := hopeless.2 rfl first (by rw [stands]; rfl)
      rw [Token.opensArgument_of_isPlain plain] at refused
      cases refused
    have unknownRun : others.contains .somethingWithoutParentheses cursor.position = false := by
      refine harmlessToo.contains_eq_false fun hopeless => ?_
      have failed := hopeless.1
      rw [nodeAt?_eq, treesAt] at failed
      cases failed
    obtain ⟨⟨_, rfl⟩, noCall⟩ := exists_of_read_plain unmocked (unknown harmless)
      (readRule_eq_none_of_read call) run goesOn
    obtain ⟨levels, rfl⟩ : ∃ levels, many = levels + 2 := ⟨many - 2, by omega⟩
    have callToo : grammar.readRule (levels + 2) .somethingContainingParentheses cursor others =
        (none, others.insert .somethingContainingParentheses cursor.position) :=
      readRule_call_of_run unmocked (unknown harmlessToo) unknownRun runAt noCall
    have runToo : grammar.readRule (levels + 2) .somethingWithoutParentheses cursor
        (others.insert .somethingContainingParentheses cursor.position) = _ :=
      readRule_of_treesAt? (calls_somethingWithoutParentheses unmocked)
        (by simp [Failures.contains_insert, unknownRun]) treesAt
    refine ⟨_, _, (read_orElse_of_none (read_rule_of_none callToo)).trans
      (read_rule_of_some runToo), .refl _, ?_⟩
    have derived := derives_of_treesAt? runAt
    have positive := List.length_pos_iff.2 (derived.tokensOf_ne_nil rfl)
    have moved := derived.advances.position
    have agree := (AgreeFrom.refl after.position others).insert_left
      (show cursor.position < after.position by omega) .somethingContainingParentheses
    exact (harmlessToo.advance derived.advances).of_agreeFrom agree (Nat.le_refl _)
  · have chosen := (read_orElse_of_some call).symm.trans read
    rw [chosen] at call
    obtain ⟨more, last, readMany, alike, harmlessLast⟩ :=
      carries le harmless harmlessToo call goesOn
    exact ⟨more, last, read_orElse_of_some readMany, alike, harmlessLast⟩

end Pieces

section Lists

variable (unmocked : grammar.mocked = [])
include unmocked

/-- Arguments are read alike if calls in them are. -/
theorem carries_argument
    (carries : ∀ below, few = below + 1 →
      grammar.Carries below Alike (grammar.GoesOn below) (.rule .somethingContainingParentheses)) :
    grammar.Carries few Alike (Before Token.EndsArgument) (.rule .argument) := by
  refine carries_called unmocked fun below isBelow => ?_
  have piece := carries_argumentPiece unmocked (carries below isBelow)
  have ends {cursor : Cursor} {later : Failures} (precedes : cursor.Precedes Token.EndsArgument) :
      grammar.GoesOn below cursor later := by
    intro token next isOpening
    have refused : token.opensArgument = false := precedes token next
    rw [Token.opensArgument_leftParen isOpening] at refused
    cases refused
  have further : grammar.Carries below Alike (Before Token.EndsArgument)
      (.many (.trivia ++ .argumentPiece)) := by
    refine Carries.many (piece.behind rfl) rfl ?_ (fun _ precedes => ends precedes) ?_
    · intro cursor after failures later trees read token next isOpening
      exact ⟨_, _, read⟩
    · intro cursor failures later _ _ precedes many _
      refine Barren.behind_trivia (barren_argumentPiece unmocked ?_ many)
      rw [Cursor.head?_trivia]
      exact precedes
  refine piece.append further ?_
  intro middle after between later trees read precedes
  rcases read_many_cases read with ⟨front, _, _, readFirst⟩ | ⟨rfl, _⟩
  · exact fun token next isOpening => ⟨_, _, readFirst⟩
  · exact ends precedes

/-- Argument lists are read alike if arguments are. -/
theorem carries_argumentList
    (carries : ∀ below, few = below + 1 →
      grammar.Carries below Alike (Before Token.EndsArgument) (.rule .argument)) :
    grammar.Carries few Alike (Before Token.EndsArgument) (.rule .argumentList) := by
  refine carries_called unmocked fun below isBelow => ?_
  have argument := carries below isBelow
  have furtherArgument : grammar.Carries below Alike (Before Token.EndsArgument)
      .furtherArgument := by
    refine (Carries.optional argument ?_).behind rfl
    intro cursor failures later _ _ precedes many _
    exact barren_argument unmocked (Cursor.Precedes.refused precedes) many
  have begins : grammar.Begins (Token.isPunctuator .comma) .furtherArgument :=
    (mayBegin_trivia.append_begins (begins_token fun token isComma =>
      ⟨isComma, Token.isTrivia_of_isPunctuator isComma⟩)).append.append
  have passes : grammar.Passes Token.EndsArgument .furtherArgument :=
    begins.passes fun token => Token.opensArgument_comma
  have several : grammar.Carries below Alike (Before Token.EndsArgument)
      (.many .furtherArgument) := by
    refine Carries.many furtherArgument rfl ?_ (fun _ precedes => precedes) ?_
    · intro cursor after failures later trees read
      exact begins.precedes (fun token => Token.opensArgument_comma)
        (derives_of_read (derives_of_readRule below) _ read)
    · intro cursor failures later _ failed _ many _
      have front : Pattern.separator.read (grammar.readRule below) cursor failures = _ :=
        read_of_calls_eq_nil grammar rfl _ cursor failures
      have total : (Pattern.optional (.rule .argument)).total = true := rfl
      cases separator : grammar.treesAt? .separator cursor with
      | none => exact (barren_of_calls_eq_nil rfl separator).append
      | some found =>
          rw [separator] at front
          exact absurd (read_eq_none_of_append front failed)
            (read_ne_none_of_total total _ _)
  refine Carries.past (Carries.orElse argument furtherArgument ?_) several passes.many
    fun _ _ precedes => precedes
  intro cursor after failures between later trees _ _ read _ many _
  have precedes : cursor.Precedes Token.EndsArgument :=
    begins.precedes (fun token => Token.opensArgument_comma)
      (derives_of_read (derives_of_readRule below) _ read)
  exact barren_argument unmocked precedes.refused many

/-- Argument lists, arguments and calls in them are read alike with few levels and with many. -/
theorem carries_arguments (few : Nat) :
    grammar.Carries few Alike (Before Token.EndsArgument) (.rule .argumentList) ∧
      grammar.Carries few Alike (Before Token.EndsArgument) (.rule .argument) ∧
      ∀ stop, grammar.Carries few Alike stop (.rule .somethingContainingParentheses) := by
  induction few with
  | zero =>
      refine ⟨carries_argumentList unmocked ?_, carries_argument unmocked ?_, fun stop =>
        carries_somethingContainingParentheses unmocked ?_⟩ <;>
      · intro below isBelow
        cases isBelow
  | succ few inductionHypothesis =>
      obtain ⟨argumentList, argument, call⟩ := inductionHypothesis
      refine ⟨carries_argumentList unmocked ?_, carries_argument unmocked ?_, fun stop =>
        carries_somethingContainingParentheses unmocked ?_⟩
      · rintro below ⟨⟩
        exact argument
      · rintro below ⟨⟩
        exact call _
      · rintro below ⟨⟩
        exact argumentList

/-- Macro calls are read alike, whatever follows them. -/
theorem carries_functionlikeMacro (stop : Cursor → Failures → Prop) :
    grammar.Carries few Alike stop (.rule .functionlikeMacro) :=
  carries_called unmocked fun below _ =>
    (carries_parenthesizedArguments unmocked (carries_arguments unmocked below).1).behind rfl

end Lists
end Grammar
end PreprocessorSyntax
