import PreprocessorSyntax.Proofs.Grammar.Leaves
import PreprocessorSyntax.Proofs.MacroCall.Nesting

/-!
# How arguments are read

In front of a closing parenthesis, balanced tokens are read as an argument list.
The reading goes from left to right: a run without parentheses, a group in
parentheses with the run in front of it, the pieces of an argument up to the
comma or the parenthesis that ends it, and then the further arguments.  Only for
groups does it come back to lists, and what stands in a group is shorter.
-/

namespace PreprocessorSyntax

variable {token : Token} {tokens front behind rest : List Token}

theorem refused_or_exists_cons (accepts : Token → Bool) (tokens : List Token) :
    (∀ token ∈ tokens.head?, accepts token = false) ∨
      ∃ token behind, tokens = token :: behind ∧ accepts token = true := by
  cases tokens with
  | nil => exact .inl (by simp)
  | cons token behind =>
      cases accepted : accepts token with
      | true => exact .inr ⟨token, behind, rfl, accepted⟩
      | false =>
          refine .inl ?_
          rintro _ ⟨⟩
          exact accepted

theorem refused_append_cons
    {accepts : Token → Bool}
    (refused : ∀ token ∈ tokens.head?, accepts token = false)
    (refusedToo : accepts token = false)
    (more : List Token) :
    ∀ next ∈ (tokens ++ token :: more).head?, accepts next = false := by
  cases tokens with
  | nil =>
      rintro _ ⟨⟩
      exact refusedToo
  | cons first others => exact refused

theorem Significant.append
    (significant : Significant front)
    (nonempty : front ≠ [])
    (behind : List Token) :
    Significant (front ++ behind) := by
  cases front with
  | nil => exact absurd rfl nonempty
  | cons token front => exact significant

/-- How some tokens end is up to the last of them. -/
theorem Significant.reverse_append_of_ne_nil
    (significant : Significant behind.reverse)
    (nonempty : behind ≠ [])
    (front : List Token) :
    Significant (front ++ behind).reverse := by
  rw [List.reverse_append]
  exact significant.append (by simpa using nonempty) front.reverse

theorem Significant.reverse_append
    (first : Significant front.reverse)
    (second : Significant behind.reverse) :
    Significant (front ++ behind).reverse := by
  cases behind with
  | nil => simpa using first
  | cons token behind => exact second.reverse_append_of_ne_nil (by simp) front

theorem significant_reverse_concat
    (notTrivia : token.isTrivia = false)
    (front : List Token) :
    Significant (front ++ [token]).reverse := by
  have last : Significant [token].reverse := significant_cons notTrivia []
  exact last.reverse_append_of_ne_nil (by simp) front

/-- In a line, balanced content that opens nothing and separates nothing is plain. -/
theorem isPlain_or_of_balanced
    (isContent : token.isContent = true)
    (balanced : balancedFrom 0 (token :: tokens) = true) :
    token.isPlain = true ∨ token.isPunctuator .comma = true ∨
      token.isPunctuator .leftParen = true := by
  cases isPlain : token.isPlain with
  | true => exact .inl rfl
  | false =>
      rcases Token.isSymbol_of_isPlain_eq_false isContent isPlain with isComma | isLeft | isRight
      · exact .inr (.inl isComma)
      · exact .inr (.inr isLeft)
      · rw [balancedFrom, isRight] at balanced
        cases balanced

namespace Grammar

variable {grammar : Grammar} {close left : Token} {more : List Token} {trees : List Tree}

/-- Balanced tokens of a line can be read in parentheses if there are fewer of them. -/
def ReadsGroups (grammar : Grammar) (size : Nat) : Prop :=
  ∀ inner, inner.length < size → balancedFrom 0 inner = true → InLine inner →
    ∀ left right rest, left.isPunctuator .leftParen = true →
      right.isPunctuator .rightParen = true →
      ∃ trees, grammar.Reads .parenthesizedArguments (left :: (inner ++ [right])) trees rest

theorem ReadsGroups.mono
    {size less : Nat}
    (groups : grammar.ReadsGroups size)
    (fewer : less ≤ size) :
    grammar.ReadsGroups less :=
  fun inner shorter => groups inner (Nat.lt_of_lt_of_le shorter fewer)

/-- Balanced tokens of a line in which groups can be read. -/
structure Listable (grammar : Grammar) (tokens : List Token) : Prop where
  inLine : InLine tokens
  balanced : balancedFrom 0 tokens = true
  groups : grammar.ReadsGroups tokens.length

namespace Listable

/-- What stands behind a balanced run has all that the whole has. -/
theorem dropRun
    (listable : grammar.Listable (front ++ behind))
    (balanced : balancedFrom 0 front = true) :
    grammar.Listable behind where
  inLine := (InLine.append_iff.1 listable.inLine).2
  balanced := (balancedFrom_append balanced 0 behind).symm.trans listable.balanced
  groups := listable.groups.mono (by simp)

theorem dropTrivia
    (listable : grammar.Listable (front ++ behind))
    (trivial : ∀ token ∈ front, token.isTrivia = true) :
    grammar.Listable behind :=
  listable.dropRun (IsRun.of_isTrivia trivial).balanced

theorem dropComma
    (listable : grammar.Listable (token :: tokens))
    (isComma : token.isPunctuator .comma = true) :
    grammar.Listable tokens := by
  have whole : grammar.Listable ([token] ++ tokens) := listable
  exact whole.dropRun (balancedFrom_comma isComma)

end Listable

theorem significant_closing
    (isClose : close.isPunctuator .rightParen = true)
    (significant : Significant tokens) :
    Significant (tokens ++ close :: more) :=
  refused_append_cons significant (Token.isTrivia_of_isPunctuator isClose) more

/-- A run at the front of some tokens, and the white space and comments behind it. -/
structure RunAt (tokens run gap behind : List Token) : Prop where
  parts : tokens = run ++ (gap ++ behind)
  isRun : IsRun run
  ends : Significant run.reverse
  trivial : ∀ token ∈ gap, token.isTrivia = true

theorem RunAt.listable
    {run gap : List Token}
    (here : RunAt tokens run gap behind)
    (listable : grammar.Listable tokens) :
    grammar.Listable behind := by
  rw [here.parts] at listable
  exact (listable.dropRun here.isRun.balanced).dropTrivia here.trivial

theorem reads_plain (isPlain : token.isPlain = true) :
    grammar.Reads .plain [token] [.leaf token] rest :=
  reads_token isPlain (readable_of_isContent (Token.isContent_of_isPlain isPlain))

/-- Further plain tokens are read as far as they go. -/
theorem exists_reads_furtherPlain
    (grammar : Grammar)
    (tokens : List Token)
    (isClose : close.isPunctuator .rightParen = true)
    (more : List Token) :
    ∃ run gap behind trees, RunAt tokens run gap behind ∧ Significant behind ∧
      grammar.Reads (.many (.trivia ++ .plain)) run trees
        (gap ++ (behind ++ close :: more)) := by
  induction size : tokens.length using Nat.strongRecOn generalizing tokens with
  | ind length inductionHypothesis =>
      obtain ⟨gap, tokens, rfl, trivial, significant⟩ := exists_significant tokens
      have skipped : grammar.Reads .trivia gap (gap.map .leaf) (tokens ++ close :: more) :=
        reads_trivia trivial (significant_closing isClose significant)
      rcases refused_or_exists_cons Token.isPlain tokens with
        refused | ⟨token, others, rfl, isPlain⟩
      · have failed : grammar.Fails .plain (tokens ++ close :: more) :=
          fails_token (refused_append_cons refused (Token.isPlain_rightParen isClose) more)
        exact ⟨[], gap, tokens, [], ⟨rfl, .nil, significant_nil, trivial⟩, significant,
          (skipped.append_fails failed).many⟩
      · have shorter : others.length < length := by
          simp only [List.length_append, List.length_cons] at size
          omega
        obtain ⟨run, blanks, behind, trees, ⟨rfl, isRun, ends, trivialBlanks⟩, significantBehind,
          reads⟩ := inductionHypothesis others.length shorter others rfl
        have here : grammar.Reads .trivia gap (gap.map .leaf)
            ([token] ++ (run ++ (blanks ++ (behind ++ close :: more)))) := by
          simpa using skipped
        have item := here.append (reads_plain isPlain)
        refine ⟨gap ++ [token] ++ run, blanks, behind, _, ⟨by simp, ?_, ?_, trivialBlanks⟩,
          significantBehind, Reads.many rfl item reads⟩
        · exact ((IsRun.of_isTrivia trivial).append (IsRun.of_isPlain isPlain)).append isRun
        · exact (significant_reverse_concat (Token.isTrivia_of_isPlain isPlain) gap).reverse_append
            ends

/-- A run starts at a plain token and reaches up to the last one in front of something else. -/
theorem exists_reads_somethingWithoutParentheses
    (unmocked : grammar.mocked = [])
    (isPlain : token.isPlain = true)
    (tokens : List Token)
    (isClose : close.isPunctuator .rightParen = true)
    (more : List Token) :
    ∃ run gap behind trees, RunAt (token :: tokens) run gap behind ∧ Significant behind ∧
      Significant run ∧ run ≠ [] ∧
      grammar.Reads (.rule .somethingWithoutParentheses) run
        [.node .somethingWithoutParentheses trees] (gap ++ (behind ++ close :: more)) := by
  obtain ⟨run, gap, behind, trees, ⟨rfl, isRun, ends, trivial⟩, significant, reads⟩ :=
    exists_reads_furtherPlain grammar tokens isClose more
  have notTrivia := Token.isTrivia_of_isPlain isPlain
  have first : grammar.Reads .plain [token] [.leaf token]
      (run ++ (gap ++ (behind ++ close :: more))) :=
    reads_plain isPlain
  refine ⟨[token] ++ run, gap, behind, _,
    ⟨by simp, (IsRun.of_isPlain isPlain).append isRun, ?_, trivial⟩, significant,
    significant_cons notTrivia _, by simp, Reads.node unmocked rfl (first.append reads)⟩
  exact (significant_reverse_concat notTrivia []).reverse_append ends

/-- A piece of an argument at the front of some tokens. -/
structure PieceAt (tokens piece behind : List Token) : Prop where
  parts : tokens = piece ++ behind
  isRun : IsRun piece
  starts : Significant piece
  ends : Significant piece.reverse
  nonempty : piece ≠ []

theorem PieceAt.listable
    {piece : List Token}
    (here : PieceAt tokens piece behind)
    (listable : grammar.Listable tokens) :
    grammar.Listable behind := by
  rw [here.parts] at listable
  exact listable.dropRun here.isRun.balanced

/-- An opening parenthesis starts a group, which is read with its closing one. -/
theorem exists_reads_group
    (isLeft : left.isPunctuator .leftParen = true)
    (listable : grammar.Listable (left :: tokens))
    (rest : List Token) :
    ∃ group behind trees, PieceAt (left :: tokens) group behind ∧
      grammar.Reads .parenthesizedArguments group trees (behind ++ rest) := by
  have opened := (Bool.and_eq_true_iff.1 listable.balanced).2
  rw [depthBehind_leftParen isLeft] at opened
  obtain ⟨inner, right, behind, rfl, balancedInner, isRight, _⟩ := exists_closing opened
  have inLineInner := (InLine.append_iff.1 (InLine.cons_iff.1 listable.inLine).2).1
  have shorter : inner.length < (left :: (inner ++ right :: behind)).length := by
    simp only [List.length_cons, List.length_append]
    omega
  obtain ⟨trees, reads⟩ := listable.groups inner shorter balancedInner inLineInner left right
    (behind ++ rest) isLeft isRight
  refine ⟨left :: (inner ++ [right]), behind, trees, ⟨by simp, .group isLeft balancedInner isRight,
    significant_cons (Token.isTrivia_of_isPunctuator isLeft) _, ?_, by simp⟩, reads⟩
  exact significant_reverse_concat (Token.isTrivia_of_isPunctuator isRight) (left :: inner)

/-- No piece starts at a token that is neither plain nor an opening parenthesis. -/
theorem fails_argumentPiece
    (unmocked : grammar.mocked = [])
    (notPlain : ∀ token ∈ rest.head?, token.isPlain = false)
    (notLeft : ∀ token ∈ rest.head?, token.isPunctuator .leftParen = false) :
    grammar.Fails .argumentPiece rest := by
  have noPlain : grammar.Fails .plain rest := fails_token notPlain
  have noRun : grammar.Fails (.rule .somethingWithoutParentheses) rest :=
    fails_node unmocked noPlain.append
  have unnamed : grammar.Reads (.optional (.rule .somethingWithoutParentheses ++ .trivia)) [] []
      rest :=
    noRun.append.optional
  have noLeft : grammar.Fails (.symbol .leftParen) rest := fails_token notLeft
  have noGroup : grammar.Fails .somethingContainingParentheses rest :=
    unnamed.append_fails noLeft.append.append.append.append
  exact Fails.orElse (fails_node unmocked noGroup) noRun

theorem reads_containing
    (unmocked : grammar.mocked = [])
    (reads : grammar.Reads .somethingContainingParentheses tokens trees rest) :
    grammar.Reads .argumentPiece tokens [.node .somethingContainingParentheses trees] rest := by
  have group : grammar.Reads (.rule .somethingContainingParentheses) tokens
      [.node .somethingContainingParentheses trees] rest :=
    Reads.node unmocked rfl reads
  exact group.orElse_left

/-- A run at the front of some tokens that ends where they do or at a comma. -/
structure RunUpToComma (tokens run gap behind : List Token) : Prop
    extends RunAt tokens run gap behind where
  stops : EndsRun behind

/-- The tokens up to a comma or to the end, and what is blank around them. -/
structure FrontAt (tokens before front blanks behind : List Token) : Prop where
  whole : tokens = before ++ (front ++ (blanks ++ behind))
  blank : ∀ token ∈ before, token.isTrivia = true
  starts : Significant front
  balanced : balancedFrom 0 front = true
  trivial : ∀ token ∈ blanks, token.isTrivia = true
  stops : EndsRun behind

theorem FrontAt.listable
    {before front blanks : List Token}
    (here : FrontAt tokens before front blanks behind)
    (listable : grammar.Listable tokens) :
    grammar.Listable behind := by
  rw [here.whole] at listable
  exact ((listable.dropTrivia here.blank).dropRun here.balanced).dropTrivia here.trivial

/-- An argument at the front of some tokens, which may be empty. -/
structure ArgumentAt (tokens before argument blanks behind : List Token) : Prop
    extends FrontAt tokens before argument blanks behind where
  isRun : IsRun argument
  ends : Significant argument.reverse

section Pieces

variable (unmocked : grammar.mocked = [])
variable (isClose : close.isPunctuator .rightParen = true)
include unmocked isClose

/-- A group makes one piece with the run in front of it. -/
theorem exists_reads_plainPiece
    (listable : grammar.Listable (token :: tokens))
    (isPlain : token.isPlain = true)
    (more : List Token) :
    ∃ piece behind trees, PieceAt (token :: tokens) piece behind ∧
      grammar.Reads .argumentPiece piece trees (behind ++ close :: more) := by
  obtain ⟨run, gap, further, trees, here, significant, starts, nonempty, reads⟩ :=
    exists_reads_somethingWithoutParentheses unmocked isPlain tokens isClose more
  have skipped : grammar.Reads .trivia gap (gap.map .leaf) (further ++ close :: more) :=
    reads_trivia here.trivial (significant_closing isClose significant)
  have named := (reads.append skipped).optional
  rcases refused_or_exists_cons (Token.isPunctuator .leftParen) further with
    refused | ⟨left, others, rfl, isLeft⟩
  · have noLeft : grammar.Fails (.symbol .leftParen) (further ++ close :: more) :=
      fails_token (refused_append_cons refused (Token.isPunctuator_eq_false isClose (by decide)) _)
    have noArguments : grammar.Fails .parenthesizedArguments (further ++ close :: more) :=
      noLeft.append.append.append.append
    have noGroup : grammar.Fails (.rule .somethingContainingParentheses)
        (run ++ gap ++ (further ++ close :: more)) :=
      fails_node unmocked (named.append_fails noArguments)
    refine ⟨run, gap ++ further, [.node .somethingWithoutParentheses trees],
      ⟨here.parts, here.isRun, starts, here.ends, nonempty⟩, ?_⟩
    rw [List.append_assoc] at noGroup ⊢
    exact noGroup.orElse_right reads
  · obtain ⟨group, behind, inner, piece, readsGroup⟩ :=
      exists_reads_group isLeft (here.listable listable) (close :: more)
    rw [piece.parts, List.append_assoc] at named
    refine ⟨run ++ gap ++ group, behind, _, ⟨?_, ?_, ?_, ?_, ?_⟩,
      reads_containing unmocked (named.append readsGroup)⟩
    · rw [here.parts, piece.parts]
      simp
    · exact (here.isRun.append (.of_isTrivia here.trivial)).append piece.isRun
    · exact (starts.append nonempty gap).append (by simp [nonempty]) group
    · rw [List.append_assoc]
      exact here.ends.reverse_append (piece.ends.reverse_append_of_ne_nil piece.nonempty gap)
    · simp [nonempty]

/-- A piece of an argument starts wherever the argument does not end. -/
theorem exists_reads_argumentPiece
    (listable : grammar.Listable tokens)
    (significant : Significant tokens)
    (continues : ¬EndsRun tokens)
    (more : List Token) :
    ∃ piece behind trees, PieceAt tokens piece behind ∧
      grammar.Reads .argumentPiece piece trees (behind ++ close :: more) := by
  obtain ⟨token, tokens, rfl, noComma⟩ := exists_cons_of_not_endsRun continues
  rcases isPlain_or_of_balanced (listable.inLine.isContent significant) listable.balanced with
    isPlain | isComma | isLeft
  · exact exists_reads_plainPiece unmocked isClose listable isPlain more
  · rw [isComma] at noComma
    cases noComma
  · have noPlain : grammar.Fails .plain (token :: tokens ++ close :: more) :=
      fails_token_cons (Token.isPlain_leftParen isLeft)
    have noRun : grammar.Fails (.rule .somethingWithoutParentheses)
        (token :: tokens ++ close :: more) :=
      fails_node unmocked noPlain.append
    obtain ⟨group, behind, trees, piece, reads⟩ :=
      exists_reads_group isLeft listable (close :: more)
    rw [piece.parts, List.append_assoc] at noRun
    have unnamed : grammar.Reads (.optional (.rule .somethingWithoutParentheses ++ .trivia)) [] []
        (group ++ (behind ++ close :: more)) :=
      noRun.append.optional
    exact ⟨group, behind, _, piece, reads_containing unmocked (unnamed.append reads)⟩

/-- Where an argument ends, there is no further piece. -/
theorem fails_argumentPiece_of_endsRun (ends : EndsRun behind) :
    grammar.Fails .argumentPiece (behind ++ close :: more) := by
  refine fails_argumentPiece unmocked (refused_append_cons ?_ (Token.isPlain_rightParen isClose) _)
    (refused_append_cons ?_ (Token.isPunctuator_eq_false isClose (by decide)) _)
  · exact fun token first => Token.isPlain_comma (ends token first)
  · exact fun token first => Token.isPunctuator_eq_false (ends token first) (by decide)

/-- Further pieces are read up to the next comma outside of them. -/
theorem exists_reads_furtherPieces (listable : grammar.Listable tokens) (more : List Token) :
    ∃ core blanks behind trees, RunUpToComma tokens core blanks behind ∧
      grammar.Reads (.many (.trivia ++ .argumentPiece)) core trees
        (blanks ++ (behind ++ close :: more)) := by
  induction size : tokens.length using Nat.strongRecOn generalizing tokens with
  | ind length inductionHypothesis =>
      obtain ⟨gap, rest, rfl, trivial, significant⟩ := exists_significant tokens
      have listableRest := listable.dropTrivia trivial
      have skipped : grammar.Reads .trivia gap (gap.map .leaf) (rest ++ close :: more) :=
        reads_trivia trivial (significant_closing isClose significant)
      by_cases ends : EndsRun rest
      · have failed := skipped.append_fails (fails_argumentPiece_of_endsRun unmocked isClose ends)
        exact ⟨[], gap, rest, [], ⟨⟨rfl, .nil, significant_nil, trivial⟩, ends⟩, failed.many⟩
      · obtain ⟨piece, others, trees, here, reads⟩ :=
          exists_reads_argumentPiece unmocked isClose listableRest significant ends more
        have shorter : others.length < length := by
          have := List.length_pos_iff.2 here.nonempty
          simp only [here.parts, List.length_append] at size
          omega
        obtain ⟨core, blanks, behind, further, ⟨⟨rfl, isRun, coreEnds, trivialBlanks⟩, stops⟩,
          readsFurther⟩ := inductionHypothesis others.length shorter
            (here.listable listableRest) rfl
        rw [here.parts, List.append_assoc] at skipped
        rw [List.append_assoc, List.append_assoc] at skipped reads
        refine ⟨gap ++ piece ++ core, blanks, behind, _, ⟨⟨by simp [here.parts], ?_, ?_,
          trivialBlanks⟩, stops⟩, Reads.many rfl (skipped.append reads) readsFurther⟩
        · exact ((IsRun.of_isTrivia trivial).append here.isRun).append isRun
        · exact (here.ends.reverse_append_of_ne_nil here.nonempty gap).reverse_append coreEnds

/-- Where an argument may start: there is one, or nothing but its end. -/
theorem exists_reads_argument (listable : grammar.Listable tokens) (more : List Token) :
    ∃ gap core blanks behind, ArgumentAt tokens gap core blanks behind ∧
      ((core = [] ∧ blanks = [] ∧ grammar.Fails (.rule .argument) (behind ++ close :: more)) ∨
        core ≠ [] ∧ ∃ trees, grammar.Reads (.rule .argument) core [.node .argument trees]
          (blanks ++ (behind ++ close :: more))) := by
  obtain ⟨gap, rest, rfl, trivial, significant⟩ := exists_significant tokens
  have listableRest := listable.dropTrivia trivial
  by_cases ends : EndsRun rest
  · have noPiece : grammar.Fails .argumentPiece (rest ++ close :: more) :=
      fails_argumentPiece_of_endsRun unmocked isClose ends
    have noArgument : grammar.Fails (.rule .argument) (rest ++ close :: more) :=
      fails_node unmocked noPiece.append
    exact ⟨gap, [], [], rest, ⟨⟨rfl, trivial, significant_nil, rfl, List.forall_mem_nil _, ends⟩,
      .nil, significant_nil⟩, .inl ⟨rfl, rfl, noArgument⟩⟩
  · obtain ⟨piece, others, trees, here, reads⟩ :=
      exists_reads_argumentPiece unmocked isClose listableRest significant ends more
    obtain ⟨core, blanks, behind, further, ⟨⟨rfl, isRun, coreEnds, trivialBlanks⟩, stops⟩,
      readsFurther⟩ :=
        exists_reads_furtherPieces unmocked isClose (here.listable listableRest) more
    rw [List.append_assoc, List.append_assoc] at reads
    have whole := here.isRun.append isRun
    exact ⟨gap, piece ++ core, blanks, behind, ⟨⟨by simp [here.parts], trivial,
      here.starts.append here.nonempty core, whole.balanced, trivialBlanks, stops⟩, whole,
      here.ends.reverse_append coreEnds⟩, .inr ⟨by simp [here.nonempty], _,
        Reads.node unmocked rfl (reads.append readsFurther)⟩⟩

end Pieces

namespace ArgumentAt

variable {gap argument blanks : List Token}
variable (here : ArgumentAt tokens gap argument blanks behind)
include here

theorem topLevelCommas_eq : topLevelCommas tokens = topLevelCommas behind := by
  rw [here.whole, topLevelCommas_run here.blank here.isRun here.trivial]

theorem argumentTexts_eq :
    argumentTexts tokens = [argument].filter (!·.isEmpty) ++ argumentTexts behind := by
  rw [here.whole, argumentTexts_run here.blank here.isRun here.trivial here.starts here.ends
    here.stops]

end ArgumentAt

/-! ## What an argument list holds -/

/-- Trees with the commas and arguments from the start of some tokens up to others behind. -/
structure Lists (trees : List Tree) (tokens behind : List Token) : Prop where
  commas : (Node.mk .argumentList trees).childTokens ++ topLevelCommas behind =
    topLevelCommas tokens
  arguments : (Node.mk .argumentList trees).childNodes.map (fun node => (node.rule, node.tokens)) ++
      (argumentTexts behind).map (Prod.mk .argument) =
    (argumentTexts tokens).map (Prod.mk .argument)

namespace Lists

variable {comma : Token} {gap core blanks : List Token} {inner further : List Tree}

theorem trans (first : Lists trees tokens behind) (second : Lists further behind rest) :
    Lists (trees ++ further) tokens rest where
  commas := by
    rw [← first.commas, ← second.commas]
    simp [Node.childTokens]
  arguments := by
    rw [← first.arguments, ← second.arguments]
    simp [Node.childNodes]

/-- White space and comments are leaves of a list, but no parts of it. -/
theorem skip
    (trivial : ∀ token ∈ gap, token.isTrivia = true)
    (lists : Lists trees tokens behind) :
    Lists (gap.map .leaf ++ trees) tokens behind where
  commas := by
    rw [← lists.commas, childTokens_eq, childTokens_eq, significantTrees_append,
      significantTrees_of_isTrivia trivial, List.nil_append]
  arguments := by
    rw [← lists.arguments, Node.childNodes, Node.childNodes, List.filterMap_append,
      filterMap_node?_map_leaf, List.nil_append]

theorem ofComma
    (isComma : comma.isPunctuator .comma = true)
    (rest : List Token) :
    Lists [.leaf comma] (comma :: rest) rest where
  commas := by
    have significant : significantTrees [.leaf comma] = [.leaf comma] :=
      significantTrees_leaf (Token.isTrivia_of_isPunctuator isComma)
    rw [topLevelCommas_comma isComma, childTokens_eq, significant]
    rfl
  arguments := by
    rw [argumentTexts_comma isComma]
    rfl

theorem ofNothing (here : ArgumentAt tokens gap [] blanks behind) : Lists [] tokens behind where
  commas := here.topLevelCommas_eq.symm
  arguments := by
    rw [here.argumentTexts_eq]
    rfl

theorem ofArgument
    (here : ArgumentAt tokens gap core blanks behind)
    (nonempty : core ≠ [])
    (leaves : Tree.tokensOf inner = core) :
    Lists [.node .argument inner] tokens behind where
  commas := here.topLevelCommas_eq.symm
  arguments := by
    have kept : [core].filter (!·.isEmpty) = [core] := by simp [nonempty]
    rw [here.argumentTexts_eq, kept, ← leaves]
    rfl

end Lists

/-- What is read in parentheses: an argument list, if there is anything to list. -/
def HoldsArguments (trees : List Tree) (region : List Token) : Prop :=
  (trees.filterMap Tree.node? = [] ∧ ∀ token ∈ region, token.isTrivia = true) ∨
    ∃ list, trees.filterMap Tree.node? = [⟨.argumentList, list⟩] ∧
      (∃ token ∈ region, token.isTrivia = false) ∧ Lists list region []

namespace HoldsArguments

variable {region : List Token} {node list : Node}

/-- Tokens around an argument list make no difference to what is listed. -/
theorem between (holds : HoldsArguments trees region) (before after : List Token) :
    HoldsArguments (before.map .leaf ++ trees ++ after.map .leaf) region := by
  rwa [HoldsArguments, filterMap_node?_between]

theorem isSome_child? (holds : HoldsArguments node.children region) :
    (node.child? .argumentList).isSome = true ↔ ∃ token ∈ region, token.isTrivia = false := by
  rcases holds with ⟨alone, trivial⟩ | ⟨list, single, present, _⟩
  · have absent : node.child? .argumentList = none := by
      rw [Node.child?, Node.childNodes, alone]
      rfl
    rw [absent]
    refine iff_of_false (by simp) ?_
    rintro ⟨token, present, notTrivia⟩
    rw [trivial token present] at notTrivia
    cases notTrivia
  · rw [Node.child?, Node.childNodes, single]
    exact iff_of_true rfl present

theorem of_child?
    (holds : HoldsArguments node.children region)
    (found : node.child? .argumentList = some list) :
    list.childTokens = topLevelCommas region ∧
      list.childNodes.map (fun argument => (argument.rule, argument.tokens)) =
        (argumentTexts region).map (Prod.mk .argument) := by
  rw [Node.child?, Node.childNodes] at found
  rcases holds with ⟨alone, _⟩ | ⟨_, single, _, lists⟩
  · rw [alone] at found
    cases found
  · rw [single] at found
    cases found
    exact ⟨(List.append_nil _).symm.trans lists.commas, (List.append_nil _).symm.trans lists.arguments⟩

end HoldsArguments

section Parentheses

variable {gap region : List Token} {right comma : Token}

/-- Parentheses are read around what stands in them without the blanks. -/
theorem reads_parentheses
    {before core after : List Token}
    (isLeft : left.isPunctuator .leftParen = true)
    (isRight : right.isPunctuator .rightParen = true)
    (trivial : ∀ token ∈ before, token.isTrivia = true)
    (trivialToo : ∀ token ∈ after, token.isTrivia = true)
    (significant : Significant (core ++ (after ++ right :: more)))
    (reads : grammar.Reads (.optional (.rule .argumentList)) core trees (after ++ right :: more)) :
    grammar.Reads .parenthesizedArguments (left :: (before ++ core ++ after ++ [right]))
      ((left :: before).map .leaf ++ trees ++ (after ++ [right]).map .leaf) more := by
  have opened : grammar.Reads (.symbol .leftParen) [left] [.leaf left]
      (before ++ (core ++ (after ++ right :: more))) :=
    reads_symbol isLeft
  have blank : grammar.Reads .trivia after (after.map .leaf) ([right] ++ more) :=
    reads_trivia trivialToo (significant_cons (Token.isTrivia_of_isPunctuator isRight) more)
  have whole : grammar.Reads .parenthesizedArguments _ _ more :=
    (((opened.append (reads_trivia trivial significant)).append reads).append blank).append
      (reads_symbol isRight)
  simpa using whole

variable (unmocked : grammar.mocked = [])
include unmocked

section Inside

variable (isClose : close.isPunctuator .rightParen = true)
include isClose

/-- A comma is read with the argument behind it, if there is one. -/
theorem exists_reads_furtherArgument
    (trivial : ∀ token ∈ gap, token.isTrivia = true)
    (isComma : comma.isPunctuator .comma = true)
    (listable : grammar.Listable tokens)
    (more : List Token) :
    ∃ before core blanks behind trees, ArgumentAt tokens before core blanks behind ∧
      grammar.Reads .furtherArgument (gap ++ comma :: before ++ core) trees
        (blanks ++ (behind ++ close :: more)) ∧
      Lists trees (comma :: tokens) behind := by
  obtain ⟨before, core, blanks, behind, here, found⟩ :=
    exists_reads_argument unmocked isClose listable more
  have separator (significant : Significant (core ++ (blanks ++ (behind ++ close :: more)))) :
      grammar.Reads .separator (gap ++ comma :: before) ((gap ++ comma :: before).map .leaf)
        (core ++ (blanks ++ (behind ++ close :: more))) :=
    reads_separator trivial isComma here.blank significant
  have lists {trees : List Tree} (lists : Lists trees tokens behind) :
      Lists ((gap ++ comma :: before).map .leaf ++ trees) (comma :: tokens) behind := by
    have behindComma := (Lists.ofComma isComma tokens).trans (lists.skip here.blank)
    simpa using behindComma.skip trivial
  rcases found with ⟨rfl, rfl, failed⟩ | ⟨nonempty, inner, reads⟩
  · have significant : Significant (behind ++ close :: more) :=
      significant_closing isClose (significant_of_endsRun here.stops)
    exact ⟨before, [], [], behind, _, here, (separator significant).append failed.optional,
      lists (.ofNothing here)⟩
  · have leaves : Tree.tokensOf inner = core := by simpa using reads.tokensOf
    exact ⟨before, core, blanks, behind, _, here,
      (separator (here.starts.append nonempty _)).append reads.optional,
      lists (.ofArgument here nonempty leaves)⟩

/-- All further arguments are read up to the closing parenthesis. -/
theorem exists_reads_furtherArguments
    (trivial : ∀ token ∈ gap, token.isTrivia = true)
    (stops : EndsRun tokens)
    (listable : grammar.Listable tokens)
    (more : List Token) :
    ∃ core blanks trees, gap ++ tokens = core ++ blanks ∧
      (∀ token ∈ blanks, token.isTrivia = true) ∧
      grammar.Reads (.many .furtherArgument) core trees (blanks ++ close :: more) ∧
      Lists trees tokens [] := by
  induction size : tokens.length using Nat.strongRecOn generalizing gap tokens with
  | ind length inductionHypothesis =>
      cases tokens with
      | nil =>
          have failed : grammar.Fails .separator (gap ++ close :: more) :=
            fails_separator trivial (Token.isTrivia_of_isPunctuator isClose)
              (Token.isPunctuator_eq_false isClose (by decide))
          exact ⟨[], gap, [], by simp, trivial, failed.append.many, rfl, rfl⟩
      | cons comma tokens =>
          have isComma := stops comma rfl
          have listableTokens := listable.dropComma isComma
          obtain ⟨before, core, blanks, behind, trees, here, reads, lists⟩ :=
            exists_reads_furtherArgument unmocked isClose trivial isComma listableTokens more
          have shorter : behind.length < length := by
            simp only [here.whole, List.length_cons, List.length_append] at size
            omega
          obtain ⟨others, after, further, parts, trivialAfter, readsFurther, listsFurther⟩ :=
            inductionHypothesis behind.length shorter here.trivial here.stops
              (here.listable listableTokens) rfl
          have whole : gap ++ comma :: tokens =
              gap ++ comma :: before ++ core ++ others ++ after := by
            rw [here.whole, List.append_assoc _ others, ← parts]
            simp
          rw [← List.append_assoc blanks, parts, List.append_assoc others] at reads
          exact ⟨_, after, _, whole, trivialAfter, Reads.many rfl reads readsFurther,
            lists.trans listsFurther⟩

/-- What an argument list starts with: an argument, or a comma. -/
theorem exists_reads_firstArgument (listable : grammar.Listable region) (more : List Token) :
    ((∀ token ∈ region, token.isTrivia = true) ∧
        grammar.Fails (.rule .argumentList) (close :: more)) ∨
      ∃ before front blanks behind trees, FrontAt region before front blanks behind ∧ front ≠ [] ∧
        grammar.Reads (.rule .argument <|> .furtherArgument) front trees
          (blanks ++ (behind ++ close :: more)) ∧
        Lists trees region behind := by
  obtain ⟨before, argument, blanks, behind, here, found⟩ :=
    exists_reads_argument unmocked isClose listable more
  have nothing := List.forall_mem_nil fun token : Token => token.isTrivia = true
  rcases found with ⟨rfl, rfl, failed⟩ | ⟨nonempty, inner, reads⟩
  · cases behind with
    | nil =>
        have noComma : grammar.Fails .separator ([] ++ close :: more) :=
          fails_separator nothing (Token.isTrivia_of_isPunctuator isClose)
            (Token.isPunctuator_eq_false isClose (by decide))
        refine .inl ⟨?_, fails_node unmocked (failed.orElse noComma.append).append⟩
        have whole : region = before := by simpa using here.whole
        exact whole ▸ here.blank
    | cons comma tokens =>
        have isComma := here.stops comma rfl
        obtain ⟨gap, core, blanks, behind, trees, further, reads, lists⟩ :=
          exists_reads_furtherArgument unmocked isClose nothing isComma
            ((here.listable listable).dropComma isComma) more
        have balanced : balancedFrom 0 (comma :: (gap ++ core)) = true := by
          rw [balancedFrom_comma isComma]
          exact ((IsRun.of_isTrivia further.blank).append further.isRun).balanced
        refine .inr ⟨before, comma :: (gap ++ core), blanks, behind, trees, ⟨?_, here.blank,
          significant_cons (Token.isTrivia_of_isPunctuator isComma) _, balanced, further.trivial,
          further.stops⟩, by simp, Fails.orElse_right ?_ reads, (Lists.ofNothing here).trans lists⟩
        · rw [here.whole, further.whole]
          simp
        · rw [further.whole] at failed
          simpa using failed
  · have leaves : Tree.tokensOf inner = argument := by simpa using reads.tokensOf
    exact .inr ⟨before, argument, blanks, behind, _, here.toFrontAt, nonempty, reads.orElse_left,
      .ofArgument here nonempty leaves⟩

/-- Unless there is nothing to list, an argument list goes from the first part to the last. -/
theorem exists_reads_argumentList (listable : grammar.Listable region) (more : List Token) :
    ((∀ token ∈ region, token.isTrivia = true) ∧
        grammar.Fails (.rule .argumentList) (close :: more)) ∨
      ∃ before core after list, region = before ++ (core ++ after) ∧
        (∀ token ∈ before, token.isTrivia = true) ∧ (∀ token ∈ after, token.isTrivia = true) ∧
        Significant core ∧ core ≠ [] ∧
        grammar.Reads (.rule .argumentList) core [.node .argumentList list]
          (after ++ close :: more) ∧
        Lists list region [] := by
  rcases exists_reads_firstArgument unmocked isClose listable more with
    nothing | ⟨before, front, blanks, behind, trees, here, nonempty, reads, lists⟩
  · exact .inl nothing
  · obtain ⟨others, after, further, parts, trivialAfter, readsFurther, listsFurther⟩ :=
      exists_reads_furtherArguments unmocked isClose here.trivial here.stops
        (here.listable listable) more
    rw [← List.append_assoc blanks, parts, List.append_assoc others] at reads
    refine .inr ⟨before, front ++ others, after, _, ?_, here.blank, trivialAfter,
      here.starts.append nonempty others, by simp [nonempty],
      Reads.node unmocked rfl (reads.append readsFurther), lists.trans listsFurther⟩
    rw [here.whole, parts, List.append_assoc front]

end Inside

theorem exists_reads_parentheses
    (isLeft : left.isPunctuator .leftParen = true)
    (isRight : right.isPunctuator .rightParen = true)
    (listable : grammar.Listable region)
    (more : List Token) :
    ∃ trees, grammar.Reads .parenthesizedArguments (left :: (region ++ [right])) trees more ∧
      HoldsArguments trees region := by
  have closing := significant_cons (Token.isTrivia_of_isPunctuator isRight) more
  rcases exists_reads_argumentList unmocked isRight listable more with
    ⟨trivial, failed⟩ | ⟨before, core, after, list, rfl, trivial, trivialToo, starts, nonempty,
      reads, lists⟩
  · have nothing := List.forall_mem_nil fun token : Token => token.isTrivia = true
    have whole := reads_parentheses isLeft isRight trivial nothing closing failed.optional
    rw [List.append_nil, List.append_nil] at whole
    have holds : HoldsArguments [] region := .inl ⟨rfl, trivial⟩
    exact ⟨_, whole, holds.between (left :: region) [right]⟩
  · have whole := reads_parentheses isLeft isRight trivial trivialToo (starts.append nonempty _)
      reads.optional
    rw [List.append_assoc before] at whole
    obtain ⟨first, others, rfl⟩ := List.exists_cons_of_ne_nil nonempty
    have holds : HoldsArguments [.node .argumentList list] (before ++ (first :: others ++ after)) :=
      .inr ⟨list, rfl, ⟨first, by simp, starts first rfl⟩, lists⟩
    exact ⟨_, whole, holds.between (left :: before) (after ++ [right])⟩

/-- Balanced tokens can be read in parentheses, however many there are. -/
theorem readsGroups (size : Nat) : grammar.ReadsGroups size := by
  induction size with
  | zero => exact fun _ belowZero => absurd belowZero (Nat.not_lt_zero _)
  | succ size inductionHypothesis =>
      intro inner shorter balanced inLine left right rest isLeft isRight
      have groups := inductionHypothesis.mono (Nat.lt_succ_iff.1 shorter)
      obtain ⟨trees, reads, _⟩ :=
        exists_reads_parentheses unmocked isLeft isRight ⟨inLine, balanced, groups⟩ rest
      exact ⟨trees, reads⟩

end Parentheses

end Grammar
end PreprocessorSyntax
