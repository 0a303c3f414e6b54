import PreprocessorSyntax.Proofs.Line.Isolation
import PreprocessorSyntax.Proofs.MacroCall.Arguments

/-!
# Which lines call macros

A line is matched as a macro call exactly if it is a name and a balanced run in
parentheses.  That nothing unbalanced is taken is shown for runs of any bounded
length: what stands in a group is shorter than the group, so the rules that call
each other can be followed downwards.  The argument list below the root holds
the commas outside of inner parentheses and what stands between them.
-/

namespace PreprocessorSyntax

/-- A line that calls a macro, and the tokens between the parentheses of the call. -/
inductive WritesCall : List Token → List Token → Prop
  | intro
      {leading gap region trailing : List Token} {name left right : Token}
      (trivial : ∀ token ∈ leading, token.isTrivia = true)
      (isName : name.isIdentifier = true)
      (notDefined : name.text ≠ "defined")
      (blank : ∀ token ∈ gap, token.isTrivia = true)
      (isLeft : left.isPunctuator .leftParen = true)
      (balanced : balancedFrom 0 region = true)
      (isRight : right.isPunctuator .rightParen = true)
      (trivialToo : ∀ token ∈ trailing, token.isTrivia = true) :
      WritesCall (leading ++ name :: (gap ++ left :: (region ++ right :: trailing))) region

namespace Grammar

variable {grammar : Grammar} {first second item : Pattern} {size : Nat}

/-- The token runs of less than a certain length that a pattern takes are balanced. -/
def TakesBalanced (grammar : Grammar) (size : Nat) (pattern : Pattern) : Prop :=
  grammar.Takes pattern fun tokens => tokens.length < size → balancedFrom 0 tokens = true

/-- Runs that are balanced if they are short make such a run together. -/
theorem balanced_append
    {front behind : List Token}
    (balanced : front.length < size → balancedFrom 0 front = true)
    (balancedToo : behind.length < size → balancedFrom 0 behind = true)
    (shorter : (front ++ behind).length < size) :
    balancedFrom 0 (front ++ behind) = true := by
  rw [List.length_append] at shorter
  have skipped := balancedFrom_append (balanced (by omega)) 0 behind
  exact skipped.trans (balancedToo (by omega))

namespace TakesBalanced

theorem trivia : grammar.TakesBalanced size .trivia :=
  takes_trivia.mono fun _ trivial _ => (IsRun.of_isTrivia trivial).balanced

theorem plain : grammar.TakesBalanced size .plain := by
  refine (takes_token _).mono ?_
  rintro _ ⟨token, rfl, isPlain⟩ _
  exact (IsRun.of_isPlain isPlain).balanced

theorem comma : grammar.TakesBalanced size (.symbol .comma) := by
  refine (takes_token _).mono ?_
  rintro _ ⟨token, rfl, isComma⟩ _
  exact balancedFrom_comma isComma

theorem append
    (front : grammar.TakesBalanced size first)
    (back : grammar.TakesBalanced size second) :
    grammar.TakesBalanced size (first ++ second) := by
  refine (Takes.append front back).mono ?_
  rintro _ ⟨before, behind, rfl, balanced, balancedToo⟩
  exact balanced_append balanced balancedToo

theorem orElse
    (left : grammar.TakesBalanced size first)
    (right : grammar.TakesBalanced size second) :
    grammar.TakesBalanced size (first <|> second) :=
  (Takes.orElse left right).mono fun _ either => either.elim id id

theorem optional (takes : grammar.TakesBalanced size item) :
    grammar.TakesBalanced size (.optional item) := by
  refine (Takes.optional takes).mono ?_
  rintro tokens (balanced | rfl) shorter
  · exact balanced shorter
  · rfl

theorem many (takes : grammar.TakesBalanced size item) :
    grammar.TakesBalanced size (.many item) :=
  Takes.many takes (fun _ => rfl) fun _ _ => balanced_append

end TakesBalanced

/-- Parentheses are taken with what stands between them, and that is shorter. -/
theorem takes_parenthesizedArguments
    (takes : grammar.TakesBalanced size (.rule .argumentList)) :
    grammar.Takes .parenthesizedArguments fun tokens =>
      ∃ left region right, tokens = left :: (region ++ [right]) ∧
        left.isPunctuator .leftParen = true ∧ right.isPunctuator .rightParen = true ∧
        (region.length < size → balancedFrom 0 region = true) := by
  have blank : grammar.TakesBalanced size .trivia := .trivia
  refine (Takes.append (Takes.append (Takes.append (Takes.append (takes_token _) blank)
    takes.optional) blank) (takes_token _)).mono ?_
  rintro _ ⟨_, _, rfl, ⟨_, after, rfl, ⟨_, core, rfl, ⟨_, before, rfl, ⟨left, rfl, isLeft⟩,
    balancedBefore⟩, balancedCore⟩, balancedAfter⟩, ⟨right, rfl, isRight⟩⟩
  exact ⟨left, before ++ (core ++ after), right, by simp, isLeft, isRight,
    balanced_append balancedBefore (balanced_append balancedCore balancedAfter)⟩

section Unmocked

variable (unmocked : grammar.mocked = [])
include unmocked

/-- An argument list has as many closing parentheses as opening ones, in order. -/
theorem takesBalanced_argumentList (size : Nat) :
    grammar.TakesBalanced size (.rule .argumentList) := by
  induction size with
  | zero => exact fun _ _ _ _ shorter => absurd shorter (Nat.not_lt_zero _)
  | succ size inductionHypothesis =>
      have group : grammar.TakesBalanced (size + 1) .parenthesizedArguments := by
        refine (takes_parenthesizedArguments inductionHypothesis).mono ?_
        rintro _ ⟨left, region, right, rfl, isLeft, isRight, balanced⟩ shorter
        simp only [List.length_cons, List.length_append, List.length_nil] at shorter
        exact (IsRun.group isLeft (balanced (by omega)) isRight).balanced
      have run : grammar.TakesBalanced (size + 1) (.rule .somethingWithoutParentheses) :=
        takes_node unmocked (TakesBalanced.plain.append (TakesBalanced.trivia.append .plain).many)
      have piece : grammar.TakesBalanced (size + 1) .argumentPiece :=
        TakesBalanced.orElse
          (takes_node unmocked ((run.append .trivia).optional.append group)) run
      have argument : grammar.TakesBalanced (size + 1) (.rule .argument) :=
        takes_node unmocked (piece.append (TakesBalanced.trivia.append piece).many)
      have further : grammar.TakesBalanced (size + 1) .furtherArgument :=
        ((TakesBalanced.trivia.append .comma).append .trivia).append argument.optional
      exact takes_node unmocked ((argument.orElse further).append further.many)

/-- A macro call is taken as a name and a balanced run in parentheses. -/
theorem takes_functionlikeMacro :
    grammar.Takes .functionlikeMacro fun tokens =>
      ∃ name gap left region right, tokens = name :: (gap ++ left :: (region ++ [right])) ∧
        name.isIdentifier = true ∧ name.text ≠ "defined" ∧
        (∀ token ∈ gap, token.isTrivia = true) ∧ left.isPunctuator .leftParen = true ∧
        balancedFrom 0 region = true ∧ right.isPunctuator .rightParen = true := by
  intro cursor trees after derived
  have takes := Takes.append (Takes.append
    (takes_token fun found => found.isIdentifier && found.text != "defined") takes_trivia)
    (takes_parenthesizedArguments
      (takesBalanced_argumentList unmocked (Tree.tokensOf trees).length))
  obtain ⟨_, _, whole, ⟨_, gap, rfl, ⟨name, rfl, isName⟩, trivial⟩, left, region, right, rfl,
    isLeft, isRight, balanced⟩ := takes cursor trees after derived
  rw [Bool.and_eq_true_iff, bne_iff_ne] at isName
  refine ⟨name, gap, left, region, right, by simp [whole], isName.1, isName.2, trivial, isLeft,
    balanced ?_, isRight⟩
  rw [whole]
  simp only [List.length_cons, List.length_append]
  omega

section Line

variable {line region : List Token} {root : Node}
variable (inLine : InLine line)
include inLine

/-- What is matched as a macro call is written as one. -/
theorem exists_writesCall_of_parseTokens
    (parsed : grammar.parseTokens .functionlikeMacro line = some root) :
    ∃ region, WritesCall line region := by
  obtain ⟨node, after, trailing, reading, closed, _, leaves⟩ := exists_of_rootOf? parsed
  have derived := derives_of_readRule grammar.maxDepth (Prod.ext reading rfl)
  have takesCall : grammar.Takes (.rule .functionlikeMacro) _ :=
    takes_node unmocked (takes_functionlikeMacro unmocked)
  obtain ⟨name, gap, left, region, right, tokens, isName, notDefined, blank, isLeft, balanced,
    isRight⟩ := takesCall _ _ _ derived
  have whole : root.tokens = line := (tokens_of_parseTokens parsed).2.trans inLine.upcoming_eq
  rw [leaves] at whole
  have inLineTrailing : InLine trailing := by
    rw [← whole] at inLine
    exact (InLine.append_iff.1 inLine).2
  have trivialToo : ∀ token ∈ trailing, token.isTrivia = true := fun token present =>
    (isTrivia_or_newline_of_closing? closed token present).resolve_right
      (inLineTrailing.noFeed token present)
  have parts : line = (Cursor.ofTokens line).trivia.1 ++
      name :: (gap ++ left :: (region ++ right :: trailing)) := by
    rw [Tree.tokensOf_cons, Tree.tokensOf_nil, List.append_nil] at tokens
    have nodeTokens : node.tokens = name :: (gap ++ left :: (region ++ [right])) := tokens
    rw [nodeTokens] at whole
    simpa using whole.symm
  rw [parts]
  exact ⟨region, .intro (fun _ => Cursor.isTrivia_of_mem_trivia) isName notDefined blank isLeft
    balanced isRight trivialToo⟩

/-- What is written as a macro call is matched, with an argument list if there are arguments. -/
theorem exists_parseTokens_of_writesCall
    (enough : 54 * (line.length + 1) ≤ grammar.maxDepth)
    (writes : WritesCall line region) :
    ∃ root, grammar.parseTokens .functionlikeMacro line = some root ∧
      HoldsArguments root.children region := by
  rw [← inLine.upcoming_eq] at enough
  cases writes with
  | @intro leading gap _ trailing name left right trivial isName notDefined blank isLeft balanced
      isRight trivialToo =>
      have inLineRegion : InLine region := by
        simp only [InLine.append_iff, InLine.cons_iff] at inLine
        exact inLine.2.2.2.2.1
      obtain ⟨trees, reads, holds⟩ := exists_reads_parentheses unmocked isLeft isRight
        ⟨inLineRegion, balanced, readsGroups unmocked region.length⟩ (trailing ++ [])
      have called : grammar.Reads
          (.token fun found => found.isIdentifier && found.text != "defined") [name] [.leaf name]
          (gap ++ (left :: (region ++ [right]) ++ (trailing ++ []))) :=
        reads_identifier (by simp [isName, notDefined]) isName
      have skipped : grammar.Reads .trivia gap (gap.map .leaf)
          (left :: (region ++ [right]) ++ (trailing ++ [])) :=
        reads_trivia blank (significant_cons (Token.isTrivia_of_isPunctuator isLeft) _)
      have body : grammar.Reads Rule.functionlikeMacro.pattern
          ([name] ++ gap ++ left :: (region ++ [right])) ([.leaf name] ++ gap.map .leaf ++ trees)
          (trailing ++ []) :=
        (called.append skipped).append reads
      have endless : ∀ token ∈ ([] : List Token).head?, token.kind = .endOfInput := by simp
      have root := rootOf?_of_reads unmocked rfl trivial trivialToo
        (significant_cons (Token.isTrivia_of_isIdentifier isName) _) endless body
      have whole : leading ++ name :: (gap ++ left :: (region ++ right :: trailing)) =
          leading ++ ([name] ++ gap ++ left :: (region ++ [right]) ++ (trailing ++ [])) := by simp
      have listed := holds.between (leading ++ name :: gap) trailing
      refine ⟨_, (parseTokens_eq_rootOf? enough).trans (by rw [whole]; exact root), ?_⟩
      simpa using listed

end Line
end Unmocked

/--
Exactly the lines that are written as macro calls are matched.  Below the root
there is an argument list exactly if anything but white space and comments
stands between the parentheses.  The list holds the commas outside of inner
parentheses, and for everything between them an argument without the white space
and comments around it, unless there is nothing else.
-/
theorem parseTokens_functionlikeMacro
    {tokens : List Token}
    (unmocked : grammar.mocked = [])
    (noFeed : ∀ token ∈ tokens, token.kind ≠ .newline)
    (enough : 54 * ((firstLine tokens).length + 1) ≤ grammar.maxDepth) :
    ((grammar.parseTokens .functionlikeMacro tokens).isSome = true ↔
      ∃ region, WritesCall (firstLine tokens) region) ∧
    ∀ region, WritesCall (firstLine tokens) region →
      ∃ root, grammar.parseTokens .functionlikeMacro tokens = some root ∧
        ((root.child? .argumentList).isSome = true ↔ ∃ token ∈ region, token.isTrivia = false) ∧
        ∀ list, root.child? .argumentList = some list →
          list.childTokens = topLevelCommas region ∧
          list.childNodes.map (fun argument => (argument.rule, argument.tokens)) =
            (argumentTexts region).map (Prod.mk .argument) := by
  have inLine := inLine_firstLine tokens
  rw [← parseTokens_firstLine grammar .functionlikeMacro noFeed]
  generalize firstLine tokens = line at inLine enough
  refine ⟨⟨fun matched => ?_, ?_⟩, fun region writes => ?_⟩
  · obtain ⟨root, parsed⟩ := Option.isSome_iff_exists.1 matched
    exact exists_writesCall_of_parseTokens unmocked inLine parsed
  · rintro ⟨region, writes⟩
    obtain ⟨root, parsed, _⟩ := exists_parseTokens_of_writesCall unmocked inLine enough writes
    rw [parsed]
    rfl
  · obtain ⟨root, parsed, holds⟩ := exists_parseTokens_of_writesCall unmocked inLine enough writes
    exact ⟨root, parsed, holds.isSome_child?, fun list found => holds.of_child? found⟩

/-- The two arguments of `f(a (b, c), /**/, d)` are `a (b, c)` and `d`. -/
theorem parseTokens_functionlikeMacro_nested :
    let word (text : String) : Token := ⟨.identifier, text, .unknown⟩
    let blank : Token := ⟨.whitespace, " ", .unknown⟩
    let comment : Token := ⟨.comment .block, "/**/", .unknown⟩
    let comma : Token := ⟨.punctuator .comma, ",", .unknown⟩
    let left : Token := ⟨.punctuator .leftParen, "(", .unknown⟩
    let right : Token := ⟨.punctuator .rightParen, ")", .unknown⟩
    let nested : List Token := [word "a", blank, left, word "b", comma, blank, word "c", right]
    let region : List Token := nested ++ [comma, blank, comment, comma, blank, word "d"]
    let tokens : List Token :=
      word "f" :: left :: (region ++ [right, ⟨.endOfInput, "", .unknown⟩])
    ∃ root list, standard.parseTokens .functionlikeMacro tokens = some root ∧
      root.child? .argumentList = some list ∧ list.childTokens = [comma, comma] ∧
      list.childNodes.map (fun argument => (argument.rule, argument.tokens)) =
        [(.argument, nested), (.argument, [word "d"])] := by
  intro word blank comment comma left right nested region tokens
  have nothing := List.forall_mem_nil fun token : Token => token.isTrivia = true
  have line : firstLine tokens = [] ++ word "f" :: ([] ++ left :: (region ++ right :: [])) := rfl
  have writes : WritesCall (firstLine tokens) region := by
    rw [line]
    exact .intro nothing rfl (by decide) nothing rfl rfl rfl nothing
  obtain ⟨root, parsed, listed, holds⟩ :=
    (parseTokens_functionlikeMacro (show standard.mocked = [] from rfl)
      (show ∀ token ∈ tokens, token.kind ≠ .newline by decide) (by decide)).2 region writes
  obtain ⟨list, found⟩ := Option.isSome_iff_exists.1 (listed.2 ⟨word "d", by simp [region], rfl⟩)
  obtain ⟨commas, arguments⟩ := holds list found
  have counted : topLevelCommas region = [comma, comma] := by decide +kernel
  have texts : argumentTexts region = [nested, [word "d"]] := by decide +kernel
  rw [texts] at arguments
  exact ⟨root, list, parsed, found, commas.trans counted, arguments⟩

end Grammar
end PreprocessorSyntax
