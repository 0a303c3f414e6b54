import PreprocessorSyntax.MacroDefinition
import PreprocessorSyntax.Proofs.Grammar.Leaves
import PreprocessorSyntax.Proofs.Line.Content

/-!
# Parameter lists

A parameter list is a list of names with commas between them, the last of which
may be an ellipsis or have one behind it.  `WritesParameters` says so of the
content tokens of the list.  What the grammar takes for a parameter list is one
in this sense, and every list in this sense is read, with white space and
comments wherever they may stand, and gives the parameters that it writes.
-/

namespace PreprocessorSyntax

/-- The content of a variadic parameter. -/
inductive WritesVariadic : List Token → VariadicParameter → Prop
  | anonymous
      {ellipsis : Token}
      (isEllipsis : ellipsis.isPunctuator .ellipsis = true) :
      WritesVariadic [ellipsis] .anonymous
  | named
      {name ellipsis : Token}
      (isName : name.isIdentifier = true)
      (isEllipsis : ellipsis.isPunctuator .ellipsis = true) :
      WritesVariadic [name, ellipsis] (.named name.text)

/-- The content of a list with at least one parameter, the names in it and how it ends. -/
inductive WritesParameters : List Token → List String → Option VariadicParameter → Prop
  | variadic
      {tokens : List Token} {form : VariadicParameter}
      (writes : WritesVariadic tokens form) :
      WritesParameters tokens [] (some form)
  | last
      {name : Token}
      (isName : name.isIdentifier = true) :
      WritesParameters [name] [name.text] none
  | further
      {name comma : Token} {tokens : List Token} {names : List String}
      {variadic : Option VariadicParameter}
      (isName : name.isIdentifier = true)
      (isComma : comma.isPunctuator .comma = true)
      (rest : WritesParameters tokens names variadic) :
      WritesParameters (name :: comma :: tokens) (name.text :: names) variadic

namespace Grammar

variable {grammar : Grammar}

theorem takes_variadicParameter :
    grammar.Takes .variadicParameter fun tokens =>
      ∃ form, WritesVariadic (tokens.filter Token.isContent) form := by
  have name : grammar.Takes .identifier _ := takes_token Token.isIdentifier
  have ellipsis : grammar.Takes (.symbol .ellipsis) _ := takes_token (Token.isPunctuator .ellipsis)
  refine ((name.append takes_trivia).optional.append ellipsis).mono ?_
  rintro _ ⟨_, _, rfl, ⟨_, blanks, rfl, ⟨name, rfl, isName⟩, trivial⟩ | rfl, ellipsis, rfl,
    isEllipsis⟩
  · refine ⟨.named name.text, ?_⟩
    simpa [filter_isContent_eq_nil trivial, Token.isContent_of_isIdentifier isName,
      Token.isContent_of_isPunctuator isEllipsis] using WritesVariadic.named isName isEllipsis
  · refine ⟨.anonymous, ?_⟩
    simpa [Token.isContent_of_isPunctuator isEllipsis] using WritesVariadic.anonymous isEllipsis

theorem takes_separator :
    grammar.Takes .separator fun tokens =>
      ∃ comma, tokens.filter Token.isContent = [comma] ∧ comma.isPunctuator .comma = true := by
  have comma : grammar.Takes (.symbol .comma) _ := takes_token (Token.isPunctuator .comma)
  refine ((takes_trivia.append comma).append takes_trivia).mono ?_
  rintro _ ⟨_, after, rfl, ⟨before, _, rfl, trivial, comma, rfl, isComma⟩, trivialToo⟩
  refine ⟨comma, ?_, isComma⟩
  simp [filter_isContent_eq_nil trivial, filter_isContent_eq_nil trivialToo,
    Token.isContent_of_isPunctuator isComma]

theorem takes_parameterList (unmocked : grammar.mocked = []) :
    grammar.Takes .parameterList fun tokens =>
      ∃ names variadic, WritesParameters (tokens.filter Token.isContent) names variadic := by
  have variadic : grammar.Takes (.rule .variadicParameter) fun tokens =>
      ∃ form, WritesVariadic (tokens.filter Token.isContent) form :=
    takes_node unmocked takes_variadicParameter
  have name : grammar.Takes .identifier _ := takes_token Token.isIdentifier
  have last := (takes_separator.append variadic).optional
  have item := (takes_separator.append (takes_absent .variadicParameter)).append name
  -- Behind a name, the items go on with whatever may follow the last name of them.
  have items : grammar.Takes
      (.many (.separator ++ .absent .variadicParameter ++ .identifier)) fun tokens =>
        ∀ name behind, name.isIdentifier = true →
          (∀ name, name.isIdentifier = true →
            ∃ names variadic, WritesParameters (name :: behind) names variadic) →
          ∃ names variadic,
            WritesParameters (name :: (tokens.filter Token.isContent ++ behind)) names variadic := by
    refine item.many (fun name behind isName ends => ends name isName) ?_
    rintro _ more ⟨_, _, rfl, ⟨separator, _, rfl, ⟨comma, content, isComma⟩, rfl⟩, next, rfl,
      isNext⟩ goesOn name behind isName ends
    obtain ⟨names, variadic, writes⟩ := goesOn next behind isNext ends
    refine ⟨name.text :: names, variadic, ?_⟩
    simpa [content, Token.isContent_of_isIdentifier isNext] using
      WritesParameters.further isName isComma writes
  refine (variadic.orElse ((name.append items).append last)).mono ?_
  rintro _ (⟨form, writes⟩ | ⟨_, behind, rfl, ⟨_, tokens, rfl, ⟨name, rfl, isName⟩, goesOn⟩, ends⟩)
  · exact ⟨[], some form, .variadic writes⟩
  · have whole : ([name] ++ tokens ++ behind).filter Token.isContent =
        name :: (tokens.filter Token.isContent ++ behind.filter Token.isContent) := by
      simp [Token.isContent_of_isIdentifier isName]
    rw [whole]
    refine goesOn name _ isName fun name isName => ?_
    rcases ends with ⟨separator, last, rfl, ⟨comma, content, isComma⟩, form, writes⟩ | rfl
    · refine ⟨[name.text], some form, ?_⟩
      simpa [content] using WritesParameters.further isName isComma (.variadic writes)
    · exact ⟨[name.text], none, .last isName⟩

section Reading

variable {gap region content rest : List Token} {ellipsis token name : Token}

theorem reads_variadicParameter_anonymous (isEllipsis : ellipsis.isPunctuator .ellipsis = true) :
    grammar.Reads .variadicParameter [ellipsis] [.leaf ellipsis] rest := by
  have unnamed : grammar.Reads (.optional (.identifier ++ .trivia)) [] [] ([ellipsis] ++ rest) := by
    apply Fails.optional
    apply Fails.append
    exact fails_token_cons (Token.isIdentifier_of_isPunctuator isEllipsis)
  exact unnamed.append (reads_symbol isEllipsis)

variable (trivial : ∀ token ∈ gap, token.isTrivia = true)
variable (notTrivia : token.isTrivia = false)
include trivial notTrivia

omit notTrivia in
theorem reads_variadicParameter_named
    (isName : name.isIdentifier = true)
    (isEllipsis : ellipsis.isPunctuator .ellipsis = true) :
    grammar.Reads .variadicParameter (name :: (gap ++ [ellipsis]))
      ((name :: (gap ++ [ellipsis])).map .leaf) rest := by
  have significant : Significant ([ellipsis] ++ rest) :=
    significant_cons (Token.isTrivia_of_isPunctuator isEllipsis) rest
  have named : grammar.Reads (.optional (.identifier ++ .trivia)) ([name] ++ gap)
      ([.leaf name] ++ gap.map .leaf) ([ellipsis] ++ rest) :=
    ((reads_identifier isName isName).append (reads_trivia trivial significant)).optional
  simpa [Pattern.variadicParameter] using named.append (reads_symbol isEllipsis)

/-- A name is no variadic parameter unless an ellipsis is the next thing behind it. -/
theorem fails_variadicParameter
    (isName : name.isIdentifier = true)
    (noEllipsis : token.isPunctuator .ellipsis = false) :
    grammar.Fails .variadicParameter (name :: (gap ++ token :: rest)) := by
  have front : grammar.Reads (.optional (.identifier ++ .trivia)) ([name] ++ gap)
      ([.leaf name] ++ gap.map .leaf) (token :: rest) := by
    apply Reads.optional
    exact (reads_identifier isName isName).append
      (reads_trivia trivial (significant_cons notTrivia rest))
  have failed : grammar.Fails .variadicParameter ([name] ++ gap ++ token :: rest) :=
    front.append_fails (fails_token_cons noEllipsis)
  simpa using failed

end Reading

variable {content region : List Token} {names : List String}

section Trees

variable {trees : List Tree} {tokens : List Token}

/-- The identifiers among leaves in front of other trees. -/
theorem identifiers_leaves (rule : Rule) (tokens : List Token) (trees : List Tree) :
    (Node.mk rule (tokens.map .leaf ++ trees)).identifiers =
      tokens.filter Token.isIdentifier ++ (Node.mk rule trees).identifiers := by
  have leaves : (tokens.map Tree.leaf).filterMap Tree.token? = tokens := by
    rw [List.filterMap_map]
    exact List.filterMap_some
  simp only [Node.identifiers, Node.childTokens, List.filterMap_append, leaves,
    List.filter_append, List.filter_filter]
  congr 1
  apply List.filter_congr
  intro token _
  cases isName : token.isIdentifier with
  | false => rfl
  | true => rw [Token.isTrivia_of_isIdentifier isName]; rfl

/-- No node is among leaves. -/
theorem child?_leaves (rule child : Rule) (tokens : List Token) (trees : List Tree) :
    (Node.mk rule (tokens.map .leaf ++ trees)).child? child =
      (Node.mk rule trees).child? child := by
  simp only [Node.child?, Node.childNodes, List.filterMap_append, filterMap_node?_map_leaf,
    List.nil_append]

/-- Leaves in front of a parameter list add the names among them. -/
theorem shapeOfParameters_leaves
    {variadic : Option VariadicParameter}
    (tokens : List Token)
    (shape : MacroDefinition.shapeOfParameters ⟨.parameterList, trees⟩ =
      .function names variadic) :
    MacroDefinition.shapeOfParameters ⟨.parameterList, tokens.map .leaf ++ trees⟩ =
      .function ((tokens.filter Token.isIdentifier).map Token.text ++ names) variadic := by
  obtain ⟨listed, ends⟩ := MacroShape.function.inj shape
  rw [MacroDefinition.shapeOfParameters, identifiers_leaves, child?_leaves, List.map_append,
    listed, ends]

end Trees

theorem shapeOfParameters_nil :
    MacroDefinition.shapeOfParameters ⟨.parameterList, []⟩ = .function [] none := rfl

/-- A variadic parameter has at most one name. -/
theorem shapeOfParameters_variadic
    {trees : List Tree}
    {names : List Token}
    (listed : (Node.mk .variadicParameter trees).identifiers = names) :
    MacroDefinition.shapeOfParameters ⟨.parameterList, [.node .variadicParameter trees]⟩ =
      .function [] (some
        (names.head?.elim .anonymous fun name => .named name.text)) := by
  have child : (Node.mk .parameterList [.node .variadicParameter trees]).child?
      .variadicParameter = some ⟨.variadicParameter, trees⟩ := rfl
  rw [MacroDefinition.shapeOfParameters, child, Option.map_some]
  subst listed
  cases (Node.mk .variadicParameter trees).identifiers <;> rfl

/-- White space and comments are no names. -/
theorem filter_isIdentifier_eq_nil
    {blanks : List Token}
    (trivial : ∀ token ∈ blanks, token.isTrivia = true) :
    blanks.filter Token.isIdentifier = [] := by
  rw [List.filter_eq_nil_iff]
  intro token present isName
  have notTrivia := Token.isTrivia_of_isIdentifier isName
  rw [trivial token present] at notTrivia
  cases notTrivia

variable (grammar) in
/-- A variadic parameter is read with white space and comments around it. -/
theorem exists_reads_variadicParameter
    {form : VariadicParameter}
    (writes : WritesVariadic content form)
    (inLine : InLine region)
    (contents : region.filter Token.isContent = content) :
    ∃ before core after, region = before ++ core ++ after ∧
      (∀ token ∈ before, token.isTrivia = true) ∧ (∀ token ∈ after, token.isTrivia = true) ∧
      (∀ rest, Significant (core ++ rest)) ∧
      (∀ rest, grammar.Reads .variadicParameter core (core.map .leaf) rest) ∧
      MacroDefinition.shapeOfParameters
        ⟨.parameterList, [.node .variadicParameter (core.map .leaf)]⟩ = .function [] (some form) := by
  cases writes with
  | @anonymous ellipsis isEllipsis =>
      obtain ⟨before, after, rfl, trivial, inLineAfter, nothing⟩ :=
        inLine.exists_of_filter_eq_cons contents
      refine ⟨before, [ellipsis], after, by simp, trivial,
        inLineAfter.isTrivia_of_filter_eq_nil nothing, ?_, ?_, ?_⟩
      · exact significant_cons (Token.isTrivia_of_isPunctuator isEllipsis)
      · exact fun rest => reads_variadicParameter_anonymous isEllipsis
      · have names := identifiers_leaves .variadicParameter [ellipsis] []
        have noName := Token.isIdentifier_of_isPunctuator isEllipsis
        rw [List.append_nil, List.filter_cons_of_neg (by simp [noName])] at names
        exact shapeOfParameters_variadic names
  | @named name ellipsis isName isEllipsis =>
      obtain ⟨before, behind, rfl, trivial, inLineBehind, contentsBehind⟩ :=
        inLine.exists_of_filter_eq_cons contents
      obtain ⟨gap, after, rfl, trivialGap, inLineAfter, nothing⟩ :=
        inLineBehind.exists_of_filter_eq_cons contentsBehind
      refine ⟨before, name :: (gap ++ [ellipsis]), after, by simp, trivial,
        inLineAfter.isTrivia_of_filter_eq_nil nothing, ?_, ?_, ?_⟩
      · exact fun rest => significant_cons (Token.isTrivia_of_isIdentifier isName) _
      · exact fun rest => reads_variadicParameter_named trivialGap isName isEllipsis
      · have names := identifiers_leaves .variadicParameter (name :: (gap ++ [ellipsis])) []
        have noName := Token.isIdentifier_of_isPunctuator isEllipsis
        have single : (name :: (gap ++ [ellipsis])).filter Token.isIdentifier = [name] := by
          simp [isName, noName, filter_isIdentifier_eq_nil trivialGap]
        rw [List.append_nil, single] at names
        exact shapeOfParameters_variadic names

/-- Behind a name, further names are read and then perhaps a variadic parameter. -/
def ReadsFurther
    (grammar : Grammar)
    (tokens rest : List Token)
    (names : List String)
    (variadic : Option VariadicParameter) : Prop :=
  ∃ items last trees, tokens = items ++ last ∧
    grammar.Reads (.many (.separator ++ .absent .variadicParameter ++ .identifier))
      items (items.map .leaf) (last ++ rest) ∧
    grammar.Reads (.optional (.separator ++ .rule .variadicParameter)) last trees rest ∧
    MacroDefinition.shapeOfParameters ⟨.parameterList, items.map .leaf ++ trees⟩ =
      .function names variadic

/--
Parameters are read as a list of their own, and behind a name and a comma as what
is further in its list.
-/
structure ReadsParameters
    (grammar : Grammar)
    (before core rest : List Token)
    (names : List String)
    (variadic : Option VariadicParameter) : Prop where
  alone : ∃ trees, grammar.Reads .parameterList core trees rest ∧
    MacroDefinition.shapeOfParameters ⟨.parameterList, trees⟩ = .function names variadic
  further : ∀ gap comma, (∀ token ∈ gap, token.isTrivia = true) →
    comma.isPunctuator .comma = true →
    grammar.ReadsFurther (gap ++ comma :: (before ++ core)) rest names variadic

section List

variable {close name : Token} {before core tokens rest : List Token}
variable {variadic : Option VariadicParameter}

/-- Without a comma, there are no further parameters. -/
theorem readsFurther_nil (stops : grammar.Fails .separator rest) :
    grammar.ReadsFurther [] rest [] none :=
  ⟨[], [], [], rfl, Fails.many stops.append.append, stops.append.optional,
    shapeOfParameters_nil⟩

/-- A variadic parameter is the only one of a list or the last one. -/
theorem readsParameters_variadic
    {form : VariadicParameter}
    (trivial : ∀ token ∈ before, token.isTrivia = true)
    (significant : Significant (core ++ rest))
    (node : grammar.Reads (.rule .variadicParameter) core
      [.node .variadicParameter (core.map .leaf)] rest)
    (shape : MacroDefinition.shapeOfParameters
      ⟨.parameterList, [.node .variadicParameter (core.map .leaf)]⟩ = .function [] (some form)) :
    grammar.ReadsParameters before core rest [] (some form) where
  alone := ⟨_, node.orElse_left, shape⟩
  further gap comma trivialGap isComma := by
    have separator : grammar.Reads .separator (gap ++ comma :: before)
        ((gap ++ comma :: before).map .leaf) (core ++ rest) :=
      reads_separator trivialGap isComma trivial significant
    have refused : grammar.Fails (.separator ++ .absent .variadicParameter)
        (gap ++ comma :: before ++ (core ++ rest)) :=
      separator.append_fails (fails_absent node)
    have noItem : grammar.Fails (.separator ++ .absent .variadicParameter ++ .identifier)
        (gap ++ comma :: (before ++ core) ++ rest) := by
      simpa using refused.append
    have last : grammar.Reads (.separator ++ .rule .variadicParameter)
        (gap ++ comma :: (before ++ core))
        ((gap ++ comma :: before).map .leaf ++ [.node .variadicParameter (core.map .leaf)])
        rest := by
      simpa using separator.append node
    refine ⟨[], _, _, rfl, Fails.many noItem, last.optional, ?_⟩
    have single := shapeOfParameters_leaves (gap ++ comma :: before) shape
    simpa [filter_isIdentifier_eq_nil trivialGap, filter_isIdentifier_eq_nil trivial,
      Token.isIdentifier_of_isPunctuator isComma] using single

/-- A name that is not variadic stands in front of what is further in the list. -/
theorem readsParameters_name
    (unmocked : grammar.mocked = [])
    (trivial : ∀ token ∈ before, token.isTrivia = true)
    (isName : name.isIdentifier = true)
    (plain : grammar.Fails .variadicParameter (name :: (tokens ++ rest)))
    (behind : grammar.ReadsFurther tokens rest names variadic) :
    grammar.ReadsParameters before (name :: tokens) rest (name.text :: names) variadic := by
  obtain ⟨items, last, trees, rfl, readsItems, readsLast, shape⟩ := behind
  rw [List.append_assoc] at plain
  have noVariadic : grammar.Fails (.rule .variadicParameter) (name :: (items ++ (last ++ rest))) :=
    fails_node unmocked plain
  have named : grammar.Reads .identifier [name] [.leaf name] (items ++ (last ++ rest)) :=
    reads_identifier isName isName
  constructor
  · refine ⟨(name :: items).map .leaf ++ trees, Fails.orElse_right ?_ ?_, ?_⟩
    · simpa using noVariadic
    · simpa using (named.append readsItems).append readsLast
    · simpa [isName] using shapeOfParameters_leaves [name] shape
  · intro gap comma trivialGap isComma
    have separator : grammar.Reads .separator (gap ++ comma :: before)
        ((gap ++ comma :: before).map .leaf) ([] ++ ([name] ++ (items ++ (last ++ rest)))) :=
      reads_separator trivialGap isComma trivial
        (significant_cons (Token.isTrivia_of_isIdentifier isName) _)
    have absent : grammar.Reads (.absent .variadicParameter) [] []
        ([name] ++ (items ++ (last ++ rest))) :=
      reads_absent noVariadic
    have item : grammar.Reads (.separator ++ .absent .variadicParameter ++ .identifier)
        (gap ++ comma :: (before ++ [name])) ((gap ++ comma :: (before ++ [name])).map .leaf)
        (items ++ (last ++ rest)) := by
      simpa using (separator.append absent).append named
    refine ⟨gap ++ comma :: (before ++ [name]) ++ items, last, trees, by simp, ?_, readsLast, ?_⟩
    · rw [List.map_append]
      exact Reads.many rfl item readsItems
    · have more := shapeOfParameters_leaves (gap ++ comma :: (before ++ [name])) shape
      simpa [filter_isIdentifier_eq_nil trivialGap, filter_isIdentifier_eq_nil trivial,
        Token.isIdentifier_of_isPunctuator isComma, isName] using more

variable (rest : List Token)
variable (unmocked : grammar.mocked = []) (isClose : close.isPunctuator .rightParen = true)
include unmocked isClose

/-- There are no parameters between parentheses side by side. -/
theorem fails_parameterList : grammar.Fails .parameterList (close :: rest) := by
  have noName := Token.isIdentifier_of_isPunctuator isClose
  have noEllipsis : close.isPunctuator .ellipsis = false :=
    Token.isPunctuator_eq_false isClose (by decide)
  have unnamed : grammar.Fails .identifier (close :: rest) := fails_token_cons noName
  have variadic : grammar.Fails .variadicParameter ([] ++ close :: rest) :=
    (Fails.optional unnamed.append).append_fails (fails_token_cons noEllipsis)
  have noVariadic : grammar.Fails (.rule .variadicParameter) (close :: rest) :=
    fails_node unmocked variadic
  exact noVariadic.orElse unnamed.append.append

/-- Every parameter list is read, and gives the parameters that it writes. -/
theorem exists_reads_parameterList
    (writes : WritesParameters content names variadic)
    (inLine : InLine region)
    (contents : region.filter Token.isContent = content) :
    ∃ before core after, region = before ++ core ++ after ∧
      (∀ token ∈ before, token.isTrivia = true) ∧ (∀ token ∈ after, token.isTrivia = true) ∧
      (∀ rest, Significant (core ++ rest)) ∧
      grammar.ReadsParameters before core (after ++ close :: rest) names variadic := by
  have closeTrivia := Token.isTrivia_of_isPunctuator isClose
  induction writes generalizing region with
  | variadic writes =>
      obtain ⟨before, core, after, rfl, trivialBefore, trivialAfter, significant, reads, shape⟩ :=
        exists_reads_variadicParameter grammar writes inLine contents
      have node : grammar.Reads (.rule .variadicParameter) core
          [.node .variadicParameter (core.map .leaf)] (after ++ close :: rest) :=
        Reads.node unmocked rfl (reads _)
      exact ⟨before, core, after, rfl, trivialBefore, trivialAfter, significant,
        readsParameters_variadic trivialBefore (significant _) node shape⟩
  | @last name isName =>
      obtain ⟨before, after, rfl, trivialBefore, inLineAfter, nothing⟩ :=
        inLine.exists_of_filter_eq_cons contents
      have trivialAfter := inLineAfter.isTrivia_of_filter_eq_nil nothing
      have stops : grammar.Fails .separator (after ++ close :: rest) :=
        fails_separator trivialAfter closeTrivia (Token.isPunctuator_eq_false isClose (by decide))
      have plain : grammar.Fails .variadicParameter (name :: ([] ++ (after ++ close :: rest))) :=
        fails_variadicParameter trivialAfter closeTrivia isName
          (Token.isPunctuator_eq_false isClose (by decide))
      exact ⟨before, [name], after, by simp, trivialBefore, trivialAfter,
        significant_cons (Token.isTrivia_of_isIdentifier isName),
        readsParameters_name unmocked trivialBefore isName plain (readsFurther_nil stops)⟩
  | @further name comma tokens names variadic isName isComma writes inductionHypothesis =>
      obtain ⟨before, behind, rfl, trivialBefore, inLineBehind, contentsBehind⟩ :=
        inLine.exists_of_filter_eq_cons contents
      obtain ⟨gap, region, rfl, trivialGap, inLineRegion, contentsRegion⟩ :=
        inLineBehind.exists_of_filter_eq_cons contentsBehind
      obtain ⟨blanks, core, after, rfl, _, trivialAfter, _, reads⟩ :=
        inductionHypothesis inLineRegion contentsRegion
      have plain : grammar.Fails .variadicParameter
          (name :: (gap ++ comma :: (blanks ++ core) ++ (after ++ close :: rest))) := by
        rw [List.append_assoc, List.cons_append]
        exact fails_variadicParameter trivialGap (Token.isTrivia_of_isPunctuator isComma) isName
          (Token.isPunctuator_eq_false isComma (by decide))
      refine ⟨before, name :: (gap ++ comma :: (blanks ++ core)), after, by simp, trivialBefore,
        trivialAfter, fun rest => significant_cons (Token.isTrivia_of_isIdentifier isName) _, ?_⟩
      exact readsParameters_name unmocked trivialBefore isName plain
        (reads.further gap comma trivialGap isComma)

end List

end Grammar
end PreprocessorSyntax
