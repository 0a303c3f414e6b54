import PreprocessorSyntax.Proofs.Grammar.Nesting
import PreprocessorSyntax.Proofs.Line.Content

/-!
# Lines are read on their own

Every pattern of the grammar treats a line feed like the end of the input: no
token test accepts it, and no look-ahead tells the two apart.  So a rule reads
the same, and remembers the same failures, if its input is cut off where its
line ends.  A parse is then the parse of the first line alone, provided that
what stands behind this line may close an input; it is added to the root.
-/

namespace PreprocessorSyntax

/-- The tokens in front of the first line end. -/
def firstLine (tokens : List Token) : List Token :=
  tokens.takeWhile fun token => !token.isLineEnd

/-- The first line end and all that stands behind it. -/
def behindFirstLine (tokens : List Token) : List Token :=
  tokens.dropWhile fun token => !token.isLineEnd

/-- White space and comments end no line. -/
theorem isLineEnd_eq_false_of_isTrivia {token : Token} (trivial : token.isTrivia = true) :
    token.isLineEnd = false := by
  cases ends : token.isLineEnd with
  | false => rfl
  | true =>
      rw [isTrivia_eq_false_of_isLineEnd ends] at trivial
      cases trivial

section Lines

variable {line tokens : List Token}

theorem firstLine_append_behindFirstLine (tokens : List Token) :
    firstLine tokens ++ behindFirstLine tokens = tokens :=
  List.takeWhile_append_dropWhile

theorem inLine_firstLine (tokens : List Token) : InLine (firstLine tokens) := by
  intro token present
  simpa using List.all_eq_true.1 List.all_takeWhile token present

/-- What stands behind a line starts with a line end. -/
theorem isLineEnd_behindFirstLine (tokens : List Token) :
    ∀ token ∈ (behindFirstLine tokens).head?, token.isLineEnd = true := by
  intro token first
  have stopped := List.head?_dropWhile_not (fun token : Token => !token.isLineEnd) tokens
  rw [behindFirstLine, Option.mem_def] at first
  simpa [first] using stopped

/-- Without line feeds, it is the end of the input that ends a line. -/
theorem kind_behindFirstLine (noFeed : ∀ token ∈ tokens, token.kind ≠ .newline) :
    ∀ token ∈ (behindFirstLine tokens).head?, token.kind = .endOfInput := by
  intro token first
  have isEnd := isLineEnd_behindFirstLine tokens token first
  have present : token ∈ tokens := by
    rw [← firstLine_append_behindFirstLine tokens]
    exact List.mem_append_right _ (List.mem_of_mem_head? first)
  have noFeedHere := noFeed token present
  cases kind : token.kind <;> simp_all [Token.isLineEnd, TokenKind.isLineEnd]

theorem firstLine_append (inLine : InLine line) (tokens : List Token) :
    firstLine (line ++ tokens) = line ++ firstLine tokens :=
  List.takeWhile_append_of_pos (by simpa [InLine] using inLine)

theorem behindFirstLine_append (inLine : InLine line) (tokens : List Token) :
    behindFirstLine (line ++ tokens) = behindFirstLine tokens :=
  List.dropWhile_append_of_pos (by simpa [InLine] using inLine)

/-- At a line end, nothing is left of the line. -/
theorem firstLine_of_ends (ends : ∀ token ∈ tokens.head?, token.isLineEnd = true) :
    firstLine tokens = [] := by
  cases tokens with
  | nil => rfl
  | cons token tokens => simp [firstLine, ends token rfl]

theorem behindFirstLine_of_ends (ends : ∀ token ∈ tokens.head?, token.isLineEnd = true) :
    behindFirstLine tokens = tokens := by
  have whole := firstLine_append_behindFirstLine tokens
  rwa [firstLine_of_ends ends, List.nil_append] at whole

end Lines

namespace Cursor

/-- The same place, with the input cut off where the line ends. -/
def confined (cursor : Cursor) : Cursor :=
  { cursor with rest := firstLine cursor.rest }

variable {cursor after : Cursor} {token : Token}

@[simp] theorem position_confined (cursor : Cursor) :
    cursor.confined.position = cursor.position := rfl

@[simp] theorem rest_confined (cursor : Cursor) :
    cursor.confined.rest = firstLine cursor.rest := rfl

/-- Where the line ends, the cut input does. -/
theorem bump?_confined_of_atLineEnd (ends : cursor.atLineEnd = true) :
    cursor.confined.bump? = none := by
  rcases cursor with ⟨position, _ | ⟨token, rest⟩⟩
  · rfl
  · by_cases last : token.kind = .endOfInput
    · simp [confined, firstLine, bump?, Token.isLineEnd, last, TokenKind.isLineEnd]
    · have isEnd : token.isLineEnd = true := by
        simpa [atLineEnd, peekKind, peek?, last, Token.isLineEnd] using ends
      simp [confined, firstLine, bump?, isEnd]

/-- At the end of a line stands what ends it, or nothing. -/
theorem isLineEnd_of_atLineEnd (ends : cursor.atLineEnd = true) :
    ∀ token ∈ cursor.rest.head?, token.isLineEnd = true := by
  obtain ⟨position, rest⟩ := cursor
  intro token first
  obtain ⟨behind, rfl⟩ := List.head?_eq_some_iff.1 first
  by_cases last : token.kind = .endOfInput
  · rw [Token.isLineEnd, last]
    rfl
  · simpa [atLineEnd, peekKind, peek?, last, Token.isLineEnd] using ends

/-- In the line, the cut input has the same next token. -/
theorem bump?_confined_of_not_atLineEnd (further : cursor.atLineEnd = false) :
    cursor.confined.bump? = cursor.bump?.map fun found => (found.1, found.2.confined) := by
  rcases cursor with ⟨position, _ | ⟨token, rest⟩⟩
  · rfl
  · by_cases last : token.kind = .endOfInput
    · simp [atLineEnd, peekKind, peek?, last, TokenKind.isLineEnd] at further
    · have notEnd : token.isLineEnd = false := by
        simpa [atLineEnd, peekKind, peek?, last, Token.isLineEnd] using further
      simp [confined, firstLine, bump?, notEnd, last]

/-- A token that is read at the end of a line is a line feed. -/
theorem kind_eq_newline_of_bump?
    (ends : cursor.atLineEnd = true)
    (read : cursor.bump? = some (token, after)) :
    token.kind = .newline := by
  have readable := (advances_of_bump? read).readable token List.mem_cons_self
  rw [atLineEnd, peekKind, peek?_eq_map_bump?, read] at ends
  cases kind : token.kind <;> simp_all [TokenKind.isLineEnd]

/-- The cut input ends the line, too, and otherwise begins with the same kind of token. -/
theorem peekKind_confined (cursor : Cursor) :
    cursor.confined.peekKind =
      if cursor.atLineEnd then .endOfInput else cursor.peekKind := by
  cases ends : cursor.atLineEnd with
  | true =>
      rw [peekKind, peek?_eq_map_bump?, bump?_confined_of_atLineEnd ends]
      rfl
  | false =>
      rw [peekKind, peek?_eq_map_bump?, bump?_confined_of_not_atLineEnd ends, peekKind,
        peek?_eq_map_bump?]
      cases cursor.bump? <;> rfl

/-- No white space or comment ends a line. -/
theorem trivia_confined (cursor : Cursor) :
    cursor.confined.trivia = (cursor.trivia.1, cursor.trivia.2.confined) := by
  obtain ⟨position, rest⟩ := cursor
  have skipped : (firstLine rest).takeWhile Token.isTrivia = rest.takeWhile Token.isTrivia ∧
      (firstLine rest).dropWhile Token.isTrivia = firstLine (rest.dropWhile Token.isTrivia) := by
    induction rest with
    | nil => exact ⟨rfl, rfl⟩
    | cons token rest inductionHypothesis =>
        cases trivial : token.isTrivia with
        | true =>
            have notEnd := isLineEnd_eq_false_of_isTrivia trivial
            simpa [firstLine, notEnd, trivial] using inductionHypothesis
        | false =>
            cases ends : token.isLineEnd <;> simp [firstLine, ends, trivial]
  simp only [trivia, confined, skipped]

end Cursor

namespace Pattern

/-- A pattern that has no place for a line feed and cannot tell it from the end of the input. -/
inductive EndsWithLine : Pattern → Prop
  | token
      {accepts : Token → Bool}
      (refuses : ∀ feed : Token, feed.kind = .newline → accepts feed = false) :
      EndsWithLine (.token accepts)
  | rule (called : Rule) : EndsWithLine (.rule called)
  | ahead
      {accepts : TokenKind → Bool}
      (same : accepts .newline = accepts .endOfInput) :
      EndsWithLine (.ahead accepts)
  | absent (refused : Rule) : EndsWithLine (.absent refused)
  | empty : EndsWithLine .empty
  | sequence
      {first second : Pattern}
      (front : EndsWithLine first)
      (back : EndsWithLine second) :
      EndsWithLine (.sequence first second)
  | choice
      {preferred alternative : Pattern}
      (first : EndsWithLine preferred)
      (otherwise : EndsWithLine alternative) :
      EndsWithLine (.choice preferred alternative)
  | many
      {item : Pattern}
      (consumes : item.consumes = true)
      (each : EndsWithLine item) :
      EndsWithLine (.many item)

end Pattern

/-- The patterns of the grammar treat a line feed like the end of the input. -/
theorem Rule.endsWithLine_pattern (rule : Rule) : rule.pattern.EndsWithLine := by
  cases rule <;> (repeat' constructor) <;> (rintro ⟨_, text, location⟩ ⟨⟩; rfl)

/-- On its line alone, a reader reads the same and keeps the same in mind. -/
def ReadsWithinLine {State Result : Type} (reader : Pattern.Reader State Result) : Prop :=
  ∀ cursor state, reader cursor.confined state =
    ((reader cursor state).1.map fun found => (found.1, found.2.confined),
      (reader cursor state).2)

namespace ReadsWithinLine

variable {State : Type}

/-- Repetition keeps to its line, as many items as the bound allows. -/
theorem readMany
    {item : Pattern.Reader State (List Tree)}
    (each : ReadsWithinLine item)
    (shortens : ∀ {cursor state trees after later},
      item cursor state = (some (trees, after), later) → after.rest.length < cursor.rest.length)
    {bound otherBound : List Token}
    {cursor : Cursor}
    (enough : cursor.confined.rest.length ≤ bound.length)
    (enoughToo : cursor.confined.rest.length ≤ otherBound.length)
    (state : State) :
    Pattern.readMany item bound cursor.confined state =
      (((Pattern.readMany item otherBound cursor state).1.1,
          (Pattern.readMany item otherBound cursor state).1.2.confined),
        (Pattern.readMany item otherBound cursor state).2) := by
  induction bound generalizing otherBound cursor state with
  | nil =>
      have here := each cursor state
      unfold Pattern.readMany
      rcases read : item cursor state with ⟨_ | ⟨trees, after⟩, later⟩
      · rw [here, read]
        rfl
      · rw [read] at here
        have shorter := shortens here
        simp only [List.length_nil] at enough
        omega
  | cons token bound inductionHypothesis =>
      have here := each cursor state
      unfold Pattern.readMany
      rcases read : item cursor state with ⟨_ | ⟨trees, after⟩, later⟩
      · rw [here, read]
        rfl
      · rw [read] at here
        have shorter : after.confined.rest.length < cursor.confined.rest.length := shortens here
        cases otherBound with
        | nil =>
            simp only [List.length_nil] at enoughToo
            omega
        | cons other otherBound =>
            simp only [List.length_cons] at enough enoughToo
            have fits : after.confined.rest.length ≤ bound.length := by omega
            have fitsToo : after.confined.rest.length ≤ otherBound.length := by omega
            rw [here]
            simp only [Option.map_some]
            rw [inductionHypothesis fits fitsToo later]

end ReadsWithinLine

namespace Grammar

variable {grammar : Grammar} {levels : Nat}

/-- A pattern keeps to its line if the rules that it calls do. -/
theorem readsWithinLine_read
    (rules : ∀ rule, ReadsWithinLine (grammar.readRule levels rule))
    {pattern : Pattern}
    (ends : pattern.EndsWithLine) :
    ReadsWithinLine (pattern.read (grammar.readRule levels)) := by
  induction ends with
  | @token accepts refuses =>
      intro cursor state
      simp only [Pattern.read]
      cases atEnd : cursor.atLineEnd with
      | true =>
          rw [Cursor.bump?_confined_of_atLineEnd atEnd]
          rcases read : cursor.bump? with _ | ⟨found, after⟩
          · rfl
          · simp [refuses found (Cursor.kind_eq_newline_of_bump? atEnd read)]
      | false =>
          rw [Cursor.bump?_confined_of_not_atLineEnd atEnd]
          rcases cursor.bump? with _ | ⟨found, after⟩
          · rfl
          · simp only [Option.map_some]
            cases accepts found <;> rfl
  | rule called =>
      intro cursor state
      simp only [Pattern.read_rule, rules called cursor state, Option.map_map]
      rfl
  | @ahead accepts same =>
      intro cursor state
      have alike : accepts cursor.confined.peekKind = accepts cursor.peekKind := by
        rw [Cursor.peekKind_confined]
        cases atEnd : cursor.atLineEnd with
        | false => rfl
        | true =>
            rw [Cursor.atLineEnd] at atEnd
            cases kind : cursor.peekKind <;> simp_all [TokenKind.isLineEnd]
      simp only [Pattern.read, alike]
      split <;> rfl
  | absent refused =>
      intro cursor state
      simp only [Pattern.read_absent, rules refused cursor state, Option.isNone_map]
      split <;> rfl
  | empty => exact fun cursor state => rfl
  | @sequence first second front back frontHypothesis backHypothesis =>
      intro cursor state
      simp only [Pattern.read]
      rw [frontHypothesis cursor state]
      rcases first.read (grammar.readRule levels) cursor state with ⟨_ | ⟨trees, middle⟩, between⟩
      · rfl
      · simp only [Option.map_some]
        rw [backHypothesis middle between]
        rcases second.read (grammar.readRule levels) middle between with
          ⟨_ | ⟨more, after⟩, later⟩ <;> rfl
  | @choice preferred alternative first otherwise firstHypothesis otherwiseHypothesis =>
      intro cursor state
      simp only [Pattern.read]
      rw [firstHypothesis cursor state]
      rcases preferred.read (grammar.readRule levels) cursor state with
        ⟨_ | ⟨trees, after⟩, between⟩
      · exact otherwiseHypothesis cursor between
      · rfl
  | @many item consumes each eachHypothesis =>
      intro cursor state
      have shortens {cursor : Cursor} {state : Failures} {trees : List Tree} {after : Cursor}
          {later : Failures}
          (read : item.read (grammar.readRule levels) cursor state = (some (trees, after), later)) :
          after.rest.length < cursor.rest.length := by
        have derived := derives_of_read (derives_of_readRule levels) item read
        have positive := List.length_pos_iff.2 (derived.tokensOf_ne_nil consumes)
        rw [derived.advances.rest, List.length_append]
        omega
      have bounded : cursor.confined.rest.length ≤ cursor.rest.length :=
        (List.takeWhile_prefix _).length_le
      simp only [Pattern.read]
      rw [eachHypothesis.readMany shortens (Nat.le_refl _) bounded]
      rfl

/-- With any rules mocked, patterns treat a line feed like the end of the input. -/
theorem endsWithLine_pattern (grammar : Grammar) (rule : Rule) :
    (grammar.pattern rule).EndsWithLine := by
  unfold pattern
  split
  next =>
    refine .token fun feed isFeed => ?_
    rw [Token.isIdentifier, isFeed]
    rfl
  next => exact rule.endsWithLine_pattern

/-- Rules keep to their line, and failures are kept by position. -/
theorem readsWithinLine_readRule (grammar : Grammar) (levels : Nat) (rule : Rule) :
    ReadsWithinLine (grammar.readRule levels rule) := by
  induction levels generalizing rule with
  | zero =>
      intro cursor failures
      rw [readRule, readRule, Cursor.position_confined]
      cases failures.contains rule cursor.position <;> rfl
  | succ levels inductionHypothesis =>
      intro cursor failures
      have body := readsWithinLine_read inductionHypothesis (grammar.endsWithLine_pattern rule)
      rw [readRule, readRule, Cursor.position_confined, body cursor failures]
      cases failures.contains rule cursor.position with
      | true => rfl
      | false =>
        rcases (grammar.pattern rule).read (grammar.readRule levels) cursor failures with
          ⟨_ | ⟨children, after⟩, later⟩ <;> rfl

/-- The rest of a line is taken up to where the line ends. -/
theorem treesAt?_restOfLine (position : Nat) (rest : List Token) :
    grammar.treesAt? .restOfLine ⟨position, rest⟩ =
      some ((firstLine rest).map .leaf,
        ⟨position + (firstLine rest).length, behindFirstLine rest⟩) :=
  treesAt?_many_token (fun token ends => by rw [Token.isLineEnd, ends]; rfl) position rest

/-! ## Parses -/

/-- At the end of a line, what closes an input does not depend on the number of the place. -/
theorem closing?_ofTokens_of_ends
    {rest : List Token}
    (ends : ∀ token ∈ rest.head?, token.isLineEnd = true)
    (position : Nat) :
    closing? (Cursor.ofTokens rest) =
      match (Cursor.mk position rest).bump? with
      | none => some []
      | some (token, last) =>
        if token.kind = .newline then
          if last.trivia.2.atEnd then some (token :: last.trivia.1) else none
        else none := by
  cases rest with
  | nil => rfl
  | cons token rest =>
      have notTrivia := isTrivia_eq_false_of_isLineEnd (ends token rfl)
      by_cases last : token.kind = .endOfInput
      · simp [closing?, Cursor.trivia, Cursor.ofTokens, Cursor.bump?, notTrivia, last]
      · simp only [closing?, Cursor.trivia, Cursor.ofTokens, Cursor.bump?, List.takeWhile_cons,
          List.dropWhile_cons, notTrivia, last, if_false, Bool.false_eq_true, List.nil_append]
        rfl

/-- An input is closed by the rest of its line and by what stands behind this line. -/
theorem closing?_eq_bind (cursor : Cursor) :
    closing? cursor = (closing? cursor.confined).bind fun before =>
      (closing? (Cursor.ofTokens (behindFirstLine cursor.rest))).map (before ++ ·) := by
  have parts := cursor.trivia_append
  have inLine : InLine cursor.trivia.1 := fun token present =>
    isLineEnd_eq_false_of_isTrivia (Cursor.isTrivia_of_mem_trivia present)
  rw [closing?, closing?, cursor.trivia_confined]
  generalize cursor.trivia = split at parts inLine ⊢
  obtain ⟨blanks, position, rest⟩ := split
  simp only at parts inLine ⊢
  cases atEnd : Cursor.atLineEnd ⟨position, rest⟩ with
  | false =>
      rw [Cursor.bump?_confined_of_not_atLineEnd atEnd]
      rcases read : Cursor.bump? ⟨position, rest⟩ with _ | ⟨token, last⟩
      · simp [Cursor.atLineEnd, Cursor.peekKind, Cursor.peek?_eq_map_bump?, read,
          TokenKind.isLineEnd] at atEnd
      · have noFeed : token.kind ≠ .newline := by
          intro feed
          simp [Cursor.atLineEnd, Cursor.peekKind, Cursor.peek?_eq_map_bump?, read, feed,
            TokenKind.isLineEnd] at atEnd
        simp [noFeed]
  | true =>
      have ends : ∀ token ∈ rest.head?, token.isLineEnd = true :=
        Cursor.isLineEnd_of_atLineEnd atEnd
      rw [Cursor.bump?_confined_of_atLineEnd atEnd, ← parts, behindFirstLine_append inLine,
        behindFirstLine_of_ends ends, closing?_ofTokens_of_ends ends position]
      rcases Cursor.bump? ⟨position, rest⟩ with _ | ⟨token, last⟩
      · simp
      · simp only [Option.bind_some]
        split
        next => split <;> simp
        next => rfl

/-- What a rule reads is in one line. -/
theorem inLine_of_readRule
    {rule : Rule}
    {cursor after : Cursor}
    {failures : Failures}
    {node : Node}
    (read : (grammar.readRule levels rule cursor failures).1 = some (node, after)) :
    InLine node.tokens := by
  have alone := grammar.readsWithinLine_readRule levels rule cursor failures
  rw [read, Option.map_some] at alone
  have advances := (derives_of_readRule levels alone).advances
  have inLine := inLine_firstLine cursor.rest
  rw [← Cursor.rest_confined, advances.rest] at inLine
  simpa using (InLine.append_iff.1 inLine).1

/--
A parse is the parse of the first line alone, and the root takes what stands
behind this line if an input may be closed by it.
-/
theorem parseTokens_eq_bind (grammar : Grammar) (rule : Rule) (tokens : List Token) :
    grammar.parseTokens rule tokens =
      (grammar.parseTokens rule (firstLine tokens)).bind fun root =>
        (closing? (Cursor.ofTokens (behindFirstLine tokens))).map fun ending =>
          ⟨root.rule, root.children ++ ending.map .leaf⟩ := by
  have cut : Cursor.ofTokens (firstLine tokens) = (Cursor.ofTokens tokens).confined := rfl
  have parts := (Cursor.ofTokens tokens).trivia_append
  have inLineFront : InLine (Cursor.ofTokens tokens).trivia.1 := fun token present =>
    isLineEnd_eq_false_of_isTrivia (Cursor.isTrivia_of_mem_trivia present)
  unfold parseTokens rootOf?
  rw [cut, Cursor.trivia_confined]
  generalize (Cursor.ofTokens tokens).trivia = split at parts inLineFront ⊢
  obtain ⟨leading, start⟩ := split
  simp only [grammar.readsWithinLine_readRule grammar.maxDepth rule start .empty] at parts ⊢
  rcases read : (grammar.readRule grammar.maxDepth rule start .empty).1 with _ | ⟨node, after⟩
  · rfl
  · have advances := (derives_of_readRule _ (Prod.ext read rfl)).advances
    have behind : behindFirstLine after.rest = behindFirstLine tokens := by
      change leading ++ start.rest = tokens at parts
      rw [← parts, behindFirstLine_append inLineFront, advances.rest]
      exact (behindFirstLine_append (by simpa using inLine_of_readRule read) _).symm
    simp only [Option.map_some, closing?_eq_bind after, behind]
    cases closing? after.confined with
    | none => rfl
    | some trailing =>
        cases closing? (Cursor.ofTokens (behindFirstLine tokens)) with
        | none => rfl
        | some ending => simp

/-- Without line feeds, only the first line matters. -/
theorem parseTokens_firstLine
    (grammar : Grammar)
    (rule : Rule)
    {tokens : List Token}
    (noFeed : ∀ token ∈ tokens, token.kind ≠ .newline) :
    grammar.parseTokens rule (firstLine tokens) = grammar.parseTokens rule tokens := by
  have ends := isLineEnd_behindFirstLine tokens
  have closed : closing? (Cursor.ofTokens (behindFirstLine tokens)) = some [] := by
    rw [closing?_ofTokens_of_ends ends 0]
    cases behind : behindFirstLine tokens with
    | nil => rfl
    | cons token rest =>
        have last : token.kind = .endOfInput :=
          kind_behindFirstLine noFeed token (by rw [behind]; rfl)
        simp [Cursor.bump?, last]
  rw [parseTokens_eq_bind grammar rule tokens, closed]
  cases grammar.parseTokens rule (firstLine tokens) with
  | none => rfl
  | some root => simp

/-- The end of the input makes no difference behind a line. -/
theorem parseTokens_append_ending
    (grammar : Grammar)
    (rule : Rule)
    {line : List Token}
    {ending : Token}
    (inLine : InLine line)
    (ends : ending.kind = .endOfInput) :
    grammar.parseTokens rule (line ++ [ending]) = grammar.parseTokens rule line := by
  have noFeed : ∀ token ∈ line ++ [ending], token.kind ≠ .newline := by
    intro token present isFeed
    rcases List.mem_append.1 present with here | last
    · exact inLine.noFeed token here isFeed
    · rw [List.mem_singleton.1 last, ends] at isFeed
      cases isFeed
  have lastEnds : ∀ token ∈ [ending].head?, token.isLineEnd = true := by
    rintro token ⟨⟩
    rw [Token.isLineEnd, ends]
    rfl
  rw [← parseTokens_firstLine grammar rule noFeed, firstLine_append inLine,
    firstLine_of_ends lastEnds, List.append_nil]

/-- Behind a line feed, an input may end if only white space and comments are left. -/
theorem closing?_feed
    {feed ending : Token}
    {behind : List Token}
    (isFeed : feed.kind = .newline)
    (readable : ∀ token ∈ behind, token.kind ≠ .endOfInput)
    (ends : ending.kind = .endOfInput) :
    closing? (Cursor.ofTokens (feed :: (behind ++ [ending]))) =
      if behind.all Token.isTrivia then some (feed :: behind) else none := by
  have feedEnds : feed.isLineEnd = true := by
    rw [Token.isLineEnd, isFeed]
    rfl
  have feedReadable : feed.kind ≠ .endOfInput := by simp [isFeed]
  have upcoming : (Cursor.ofTokens (feed :: (behind ++ [ending]))).upcoming = feed :: behind := by
    rw [upcoming_cons feedReadable, Cursor.upcoming_ofTokens readable ends]
  have oneLine : isOneLine (feed :: (behind ++ [ending])) = behind.all Token.isTrivia := by
    rw [isOneLine, upcoming, List.dropWhile_cons_of_neg (by simp [isFeed]), List.tail_cons]
  cases trivial : behind.all Token.isTrivia with
  | true =>
      have atEnd : (Cursor.ofTokens (feed :: (behind ++ [ending]))).atLineEnd = true :=
        isLineEnd_peekKind fun token first => by
          cases first
          exact feedEnds
      obtain ⟨trailing, closed⟩ :=
        Option.isSome_iff_exists.1 (isSome_closing? atEnd (oneLine.trans trivial))
      rw [closed, ← upcoming_of_closing? closed, upcoming]
      rfl
  | false =>
      cases closed : closing? (Cursor.ofTokens (feed :: (behind ++ [ending]))) with
      | none => rfl
      | some trailing =>
          have single := oneLine.symm.trans (isOneLine_of_closing? closed)
          rw [trivial] at single
          cases single

/-- Behind a line and a line feed, further tokens are added to the root. -/
theorem parseTokens_append_feed
    (grammar : Grammar)
    (rule : Rule)
    {line behind : List Token}
    {feed ending : Token}
    (inLine : InLine line)
    (isFeed : feed.kind = .newline)
    (readable : ∀ token ∈ behind, token.kind ≠ .endOfInput)
    (ends : ending.kind = .endOfInput) :
    grammar.parseTokens rule (line ++ feed :: (behind ++ [ending])) =
      if behind.all Token.isTrivia then
        (grammar.parseTokens rule line).map fun alone =>
          { alone with children := alone.children ++ (feed :: behind).map .leaf }
      else none := by
  have feedEnds : ∀ token ∈ (feed :: (behind ++ [ending])).head?, token.isLineEnd = true := by
    rintro token ⟨⟩
    rw [Token.isLineEnd, isFeed]
    rfl
  rw [parseTokens_eq_bind, firstLine_append inLine, firstLine_of_ends feedEnds, List.append_nil,
    behindFirstLine_append inLine, behindFirstLine_of_ends feedEnds,
    closing?_feed isFeed readable ends]
  cases grammar.parseTokens rule line with
  | none => simp
  | some alone => split <;> rfl

/-- What stands anywhere below a root is part of what was read in one line. -/
theorem inLine_of_mem_nodesOf
    {rule : Rule}
    {tokens : List Token}
    {root node : Node}
    (parsed : grammar.parseTokens rule tokens = some root)
    (present : node ∈ Tree.nodesOf root.children) :
    InLine node.tokens := by
  obtain ⟨inner, after, trailing, reading, _, rfl, _⟩ := exists_of_rootOf? parsed
  have below : node ∈ inner.toTree.nodes := mem_of_mem_root present
  intro token here
  exact inLine_of_readRule reading token ((Tree.tokens_infix_of_mem_nodes below).subset here)

/--
Lines are isolated.  With a line feed and further tokens behind a line, a rule
matches exactly if it matches the line alone and the further tokens are white
space and comments; these and the line feed are then added to the children of
the root.  No node below a root holds a line feed.
-/
theorem parseTokens_feed
    (grammar : Grammar)
    (rule : Rule)
    {line behind : List Token}
    {feed ending lineEnding : Token}
    (inLine : InLine line)
    (isFeed : feed.kind = .newline)
    (readable : ∀ token ∈ behind, token.kind ≠ .endOfInput)
    (ends : ending.kind = .endOfInput)
    (lineEnds : lineEnding.kind = .endOfInput) :
    (∀ root, grammar.parseTokens rule (line ++ feed :: (behind ++ [ending])) = some root ↔
      (∀ token ∈ behind, token.isTrivia = true) ∧
        ∃ alone, grammar.parseTokens rule (line ++ [lineEnding]) = some alone ∧
          root = { alone with children := alone.children ++ (feed :: behind).map .leaf }) ∧
    ∀ tokens root, grammar.parseTokens rule tokens = some root →
      ∀ node ∈ Tree.nodesOf root.children, ∀ token ∈ node.tokens, token.kind ≠ .newline := by
  constructor
  · intro root
    rw [parseTokens_append_feed grammar rule inLine isFeed readable ends,
      parseTokens_append_ending grammar rule inLine lineEnds, Option.ite_none_right_eq_some,
      List.all_eq_true, Option.map_eq_some_iff]
    simp only [eq_comm]
  · intro tokens root parsed node present token below isFeed
    have notEnd := inLine_of_mem_nodesOf parsed present token below
    simp [Token.isLineEnd, isFeed, TokenKind.isLineEnd] at notEnd

/-- A comment may stand behind the line feed of an argument, but no second line feed. -/
theorem parseTokens_feed_argument :
    let grammar : Grammar := { maxDepth := 3, mocked := [.literal] }
    let name : Token := ⟨.identifier, "a", .unknown⟩
    let feed : Token := ⟨.newline, "\n", .unknown⟩
    let comment : Token := ⟨.comment .line, "//", .unknown⟩
    let ending : Token := ⟨.endOfInput, "", .unknown⟩
    let root : Node :=
      ⟨.argument, [.node .somethingWithoutParentheses [.leaf name], .leaf feed, .leaf comment]⟩
    grammar.parseTokens .argument [name, feed, comment, ending] = some root ∧
      grammar.parseTokens .argument [name, feed, feed, ending] = none ∧
      ∀ node ∈ Tree.nodesOf root.children, ∀ token ∈ node.tokens, token.kind ≠ .newline := by
  intro grammar name feed comment ending root
  have inLine : InLine [name] := show ∀ token ∈ [name], token.isLineEnd = false by decide
  have isolated (behind : List Token) (readable : ∀ token ∈ behind, token.kind ≠ .endOfInput) :=
    parseTokens_feed grammar .argument inLine (show feed.kind = .newline from rfl) readable
      (show ending.kind = .endOfInput from rfl) (show ending.kind = .endOfInput from rfl)
  have alone : grammar.parseTokens .argument [name, ending] =
      some ⟨.argument, [.node .somethingWithoutParentheses [.leaf name]]⟩ := by decide +kernel
  obtain ⟨commented, below⟩ := isolated [comment] (by decide)
  have parsed : grammar.parseTokens .argument [name, feed, comment, ending] = some root :=
    (commented root).2 ⟨by decide, _, alone, rfl⟩
  refine ⟨parsed, ?_, below _ root parsed⟩
  refine Option.eq_none_iff_forall_ne_some.2 fun twoLines found => ?_
  have trivial := ((isolated [feed] (by decide)).1 twoLines).1 found |>.1
  exact absurd (trivial feed List.mem_cons_self) (by decide)

end Grammar
end PreprocessorSyntax
