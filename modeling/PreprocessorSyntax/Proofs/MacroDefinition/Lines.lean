import PreprocessorSyntax.Proofs.Grammar.Levels
import PreprocessorSyntax.Proofs.Line.Head
import PreprocessorSyntax.Proofs.MacroDefinition.Replacement

/-!
# Definition lines

`WritesDefinition` says by which tokens a line defines a macro: a head with the
name, perhaps parameters in parentheses directly behind it, and the tokens that
replace the macro.  The grammar takes such lines and no others for definitions,
and the macro that it reads off a line is the one that the line writes.
-/

namespace PreprocessorSyntax

/-- The tokens of a definition up to the name of the macro. -/
inductive WritesHead : List Token → Token → Prop
  | intro
      {hash define name : Token} {blanks more : List Token}
      (isHash : hash.isPunctuator .hash = true)
      (trivial : ∀ token ∈ blanks, token.isTrivia = true)
      (isDefine : define.isWord "define" = true)
      (trivialToo : ∀ token ∈ more, token.isTrivia = true)
      (isName : name.isIdentifier = true) :
      WritesHead (hash :: (blanks ++ define :: (more ++ [name]))) name

/-- The tokens behind the name of a macro, how it is used, and those that replace it. -/
inductive WritesTail : List Token → MacroShape → List Token → Prop
  | object
      {tokens : List Token}
      (apart : ∀ token ∈ tokens.head?, token.isPunctuator .leftParen = false) :
      WritesTail tokens .object tokens
  | nullary
      {left right : Token} {region tokens : List Token}
      (isLeft : left.isPunctuator .leftParen = true)
      (trivial : ∀ token ∈ region, token.isTrivia = true)
      (isRight : right.isPunctuator .rightParen = true) :
      WritesTail (left :: (region ++ right :: tokens)) (.function [] none) tokens
  | function
      {left right : Token} {region tokens : List Token} {names : List String}
      {variadic : Option VariadicParameter}
      (isLeft : left.isPunctuator .leftParen = true)
      (writes : WritesParameters (region.filter Token.isContent) names variadic)
      (isRight : right.isPunctuator .rightParen = true) :
      WritesTail (left :: (region ++ right :: tokens)) (.function names variadic) tokens

/-- The macro with a given name, shape and content of its replacement list. -/
def MacroDefinition.ofContent (name : Token) (shape : MacroShape) (content : List Token) :
    MacroDefinition where
  name := name.text
  shape := shape
  replacement := content
  hasStringizing := stringizes content
  hasTokenPasting := content.any (Token.isPunctuator .hashHash)

/-- The tokens of a line from its number sign on, and the macro that they define. -/
inductive WritesDefinition : List Token → MacroDefinition → Prop
  | intro
      {front behind tokens : List Token} {name : Token} {shape : MacroShape}
      (head : WritesHead front name)
      (tail : WritesTail behind shape tokens) :
      WritesDefinition (front ++ behind)
        (MacroDefinition.ofContent name shape (tokens.filter Token.isContent))

/-- The macro that is read off a node with a name and a replacement list. -/
theorem MacroDefinition.ofDefinition_eq
    {node list : Node}
    {name : Token}
    {shape : MacroShape}
    {content : List Token}
    (named : node.identifiers[1]? = some name)
    (shaped : shapeOf node = shape)
    (held : node.child? .replacementList = some list)
    (replaces : Replaces list content) :
    ofDefinition node = .ok (ofContent name shape content) := by
  simp only [ofDefinition, named, held, shaped, replaces.significantTokens, replaces.stringizing,
    replaces.tokenPasting, ofContent]

namespace Grammar

variable {grammar : Grammar} {name : Token} {front behind tokens rest : List Token}
variable {shape : MacroShape}

theorem takes_definitionHead :
    grammar.Takes .definitionHead fun tokens =>
      ∃ blanks front name, tokens = blanks ++ front ∧ (∀ token ∈ blanks, token.isTrivia = true) ∧
        WritesHead front name := by
  have hash : grammar.Takes (.symbol .hash) _ := takes_token (Token.isPunctuator .hash)
  have word : grammar.Takes (.word ["define"]) _ := takes_token _
  have name : grammar.Takes .identifier _ := takes_token Token.isIdentifier
  refine ((((takes_trivia.append hash).append takes_trivia).append word).append
    takes_trivia |>.append name).mono ?_
  rintro _ ⟨_, _, rfl, ⟨_, more, rfl, ⟨_, _, rfl, ⟨_, blanks, rfl, ⟨leading, _, rfl, trivialLeading,
    hash, rfl, isHash⟩, trivial⟩, define, rfl, isDefine⟩, trivialToo⟩, name, rfl, isName⟩
  have isWord : define.isWord "define" = true := by
    simpa [Token.isWord] using isDefine
  exact ⟨leading, _, name, by simp, trivialLeading,
    .intro isHash trivial isWord trivialToo isName⟩

theorem takes_functionlikeMacroDefinition (unmocked : grammar.mocked = []) :
    grammar.Takes .functionlikeMacroDefinition fun tokens =>
      ∃ blanks written definition, tokens = blanks ++ written ∧
        (∀ token ∈ blanks, token.isTrivia = true) ∧ WritesDefinition written definition := by
  have left : grammar.Takes (.symbol .leftParen) _ := takes_token (Token.isPunctuator .leftParen)
  have right : grammar.Takes (.symbol .rightParen) _ :=
    takes_token (Token.isPunctuator .rightParen)
  have parameters : grammar.Takes (.rule .parameterList) fun tokens =>
      ∃ names variadic, WritesParameters (tokens.filter Token.isContent) names variadic :=
    takes_node unmocked (takes_parameterList unmocked)
  have rest : grammar.Takes (.rule .replacementList) fun _ => True := fun _ _ _ _ => trivial
  have ending : grammar.Takes .endOfLine fun _ => True := fun _ _ _ _ => trivial
  have head : grammar.Takes .definitionHead _ := takes_definitionHead
  have front := ((((head.append left).append takes_trivia).append parameters.optional).append
    takes_trivia).append right
  refine (((front.append takes_trivia).append rest).append ending).mono ?_
  rintro _ ⟨_, final, rfl, ⟨_, list, rfl, ⟨_, gap, rfl, ⟨_, _, rfl, ⟨_, after, rfl, ⟨_, inner, rfl,
    ⟨_, before, rfl, ⟨_, _, rfl, ⟨blanks, front, name, rfl, trivialBlanks, head⟩, left, rfl,
    isLeft⟩, trivialBefore⟩, inside⟩, trivialAfter⟩, right, rfl, isRight⟩, _⟩, _⟩, _⟩
  rcases inside with ⟨names, variadic, writes⟩ | rfl
  · have content : (before ++ inner ++ after).filter Token.isContent =
        inner.filter Token.isContent := by
      simp [filter_isContent_eq_nil trivialBefore, filter_isContent_eq_nil trivialAfter]
    rw [← content] at writes
    have tail : WritesTail (left :: (before ++ inner ++ after ++ right :: (gap ++ list ++ final)))
        (.function names variadic) (gap ++ list ++ final) :=
      .function isLeft writes isRight
    exact ⟨blanks, _, _, by simp, trivialBlanks, .intro head tail⟩
  · have trivial : ∀ token ∈ before ++ after, token.isTrivia = true :=
      List.forall_mem_append.2 ⟨trivialBefore, trivialAfter⟩
    have tail : WritesTail (left :: (before ++ after ++ right :: (gap ++ list ++ final)))
        (.function [] none) (gap ++ list ++ final) :=
      .nullary isLeft trivial isRight
    exact ⟨blanks, _, _, by simp, trivialBlanks, .intro head tail⟩

theorem takes_objectlikeMacroDefinition :
    grammar.Takes .objectlikeMacroDefinition fun tokens =>
      ∃ blanks written definition, tokens = blanks ++ written ∧
        (∀ token ∈ blanks, token.isTrivia = true) ∧ WritesDefinition written definition := by
  intro cursor trees after derived
  cases derived with
  | @sequence _ _ _ _ _ _ final derived derivedFinal =>
  cases derived with
  | @sequence _ _ _ _ _ _ list derived derivedList =>
  cases derived with
  | @sequence _ _ _ _ _ _ gap derived derivedGap =>
  cases derived with
  | sequence derivedHead derivedAhead =>
      cases derivedAhead with
      | ahead apart =>
          obtain ⟨blanks, front, name, equal, trivial, head⟩ :=
            takes_definitionHead _ _ _ derivedHead
          have advances := (derivedGap.advances.append derivedList.advances).append
            derivedFinal.advances
          have tail : WritesTail (Tree.tokensOf gap ++ Tree.tokensOf list ++ Tree.tokensOf final)
              .object (Tree.tokensOf gap ++ Tree.tokensOf list ++ Tree.tokensOf final) := by
            apply WritesTail.object
            intro token first
            obtain ⟨more, here⟩ := List.head?_eq_some_iff.1 first
            rw [here] at advances
            have readable := advances.readable token List.mem_cons_self
            have stands := advances.rest
            rw [List.cons_append] at stands
            simpa [Cursor.peekKind, Cursor.peek?, stands, readable, Token.isPunctuator] using apart
          exact ⟨blanks, _, _, by simp [equal], trivial, .intro head tail⟩

/-- Whatever is read as a definition line writes a definition. -/
theorem takes_defineLine (unmocked : grammar.mocked = []) :
    grammar.Takes .defineLine fun tokens =>
      ∃ blanks written definition, tokens = blanks ++ written ∧
        (∀ token ∈ blanks, token.isTrivia = true) ∧ WritesDefinition written definition := by
  have function : grammar.Takes (.rule .functionlikeMacroDefinition) _ :=
    takes_node unmocked (takes_functionlikeMacroDefinition unmocked)
  have object : grammar.Takes (.rule .objectlikeMacroDefinition) _ :=
    takes_node unmocked takes_objectlikeMacroDefinition
  exact (function.orElse object).mono fun tokens either => either.elim id id

theorem reads_definitionHead (head : WritesHead front name) :
    grammar.Reads .definitionHead front (front.map .leaf) rest := by
  cases head with
  | @intro hash define name blanks more isHash trivial isDefine trivialToo isName =>
      obtain ⟨isWord, spelled⟩ : define.isIdentifier = true ∧ define.text = "define" := by
        simpa [Token.isWord] using isDefine
      have directive : grammar.Reads (.directiveHead ["define"]) (hash :: (blanks ++ [define]))
          (.leaf hash :: (blanks.map .leaf ++ [.leaf define])) (more ++ ([name] ++ rest)) :=
        reads_directiveHead isHash trivial isWord (by simp [spelled])
      have gap : grammar.Reads .trivia more (more.map .leaf) ([name] ++ rest) :=
        reads_trivia trivialToo (significant_cons (Token.isTrivia_of_isIdentifier isName) rest)
      have named : grammar.Reads .identifier [name] [.leaf name] rest :=
        reads_identifier isName isName
      have whole := (directive.append gap).append named
      simpa [Pattern.definitionHead] using whole

/-- The identifiers of a head are the name of the directive and the name of the macro. -/
theorem exists_filter_isIdentifier_of_head (head : WritesHead front name) :
    ∃ define, front.filter Token.isIdentifier = [define, name] := by
  cases head with
  | @intro hash define name blanks more isHash trivial isDefine trivialToo isName =>
      have noName := Token.isIdentifier_of_isPunctuator isHash
      have isWord : define.isIdentifier = true := (Bool.and_eq_true_iff.1 isDefine).1
      refine ⟨define, ?_⟩
      simp [noName, isWord, isName, filter_isIdentifier_eq_nil trivial,
        filter_isIdentifier_eq_nil trivialToo]

/-- A line ends where all its content has been read. -/
theorem reads_endOfLine
    (trivial : ∀ token ∈ tokens, token.isTrivia = true)
    (ends : ∀ token ∈ rest.head?, token.isLineEnd = true) :
    grammar.Reads .endOfLine tokens (tokens.map .leaf) rest := by
  have skipped : grammar.Reads .trivia tokens (tokens.map .leaf) ([] ++ rest) :=
    reads_trivia trivial fun token first => isTrivia_eq_false_of_isLineEnd (ends token first)
  have ahead : grammar.Reads (.ahead TokenKind.isLineEnd) [] [] rest :=
    reads_ahead (isLineEnd_peekKind ends)
  simpa [Pattern.endOfLine] using skipped.append ahead

/-- There are no nodes among leaves. -/
theorem child?_map_leaf (rule child : Rule) (tokens : List Token) :
    (Node.mk rule (tokens.map .leaf)).child? child = none := by
  rw [← List.append_nil (tokens.map Tree.leaf), child?_leaves]
  rfl

section Forward

variable (unmocked : grammar.mocked = [])
variable (ends : ∀ token ∈ rest.head?, token.isLineEnd = true)
include unmocked ends

/-- The rest of a definition is its replacement list with white space around it. -/
theorem exists_reads_replacement (inLine : InLine tokens) :
    ∃ (gap blanks : List Token) (trees : List Tree),
      grammar.Reads (.trivia ++ (.rule .replacementList ++ .endOfLine)) tokens
        (gap.map .leaf ++ .node .replacementList trees :: blanks.map .leaf) rest ∧
      (∀ token ∈ gap, token.isTrivia = true) ∧
      Replaces ⟨.replacementList, trees⟩ (tokens.filter Token.isContent) := by
  obtain ⟨gap, behind, rfl, trivial, significant⟩ := exists_significant tokens
  obtain ⟨core, blanks, trees, rfl, trivialBlanks, reads, replaces⟩ :=
    exists_reads_replacementList ends unmocked (InLine.append_iff.1 inLine).2 significant
  have skipped : grammar.Reads .trivia gap (gap.map .leaf) (core ++ blanks ++ rest) :=
    reads_trivia trivial (significant.append_ends ends)
  have list : grammar.Reads (.rule .replacementList) core [.node .replacementList trees]
      (blanks ++ rest) :=
    Reads.node unmocked rfl reads
  refine ⟨gap, blanks, trees, ?_, trivial, ?_⟩
  · simpa using skipped.append (list.append (reads_endOfLine trivialBlanks ends))
  · rwa [List.filter_append, filter_isContent_eq_nil trivial, List.nil_append]

omit unmocked ends in
/-- The macro that is read off a head, further leaves and nodes, and a replacement list. -/
theorem ofDefinition_of_head
    {rule : Rule}
    {children trees : List Tree}
    {content : List Token}
    (head : WritesHead front name)
    (shaped : MacroDefinition.shapeOf ⟨rule, front.map .leaf ++ children⟩ = shape)
    (held : (Node.mk rule children).child? .replacementList = some ⟨.replacementList, trees⟩)
    (replaces : Replaces ⟨.replacementList, trees⟩ content) :
    MacroDefinition.ofDefinition ⟨rule, front.map .leaf ++ children⟩ =
      .ok (.ofContent name shape content) := by
  obtain ⟨define, identifiers⟩ := exists_filter_isIdentifier_of_head head
  refine MacroDefinition.ofDefinition_eq ?_ shaped ?_ replaces
  · rw [identifiers_leaves, identifiers]
    rfl
  · rw [child?_leaves, held]

/-- A definition without parameters. -/
theorem exists_reads_objectlikeMacroDefinition
    (head : WritesHead front name)
    (apart : ∀ token ∈ tokens.head?, token.isPunctuator .leftParen = false)
    (inLine : InLine tokens) :
    ∃ trees, grammar.Reads .objectlikeMacroDefinition (front ++ tokens) trees rest ∧
      MacroDefinition.ofDefinition ⟨.objectlikeMacroDefinition, trees⟩ =
        .ok (.ofContent name .object (tokens.filter Token.isContent)) := by
  obtain ⟨gap, blanks, trees, reads, trivial, replaces⟩ :=
    exists_reads_replacement unmocked ends inLine
  have ahead : grammar.Reads (.ahead fun kind => kind != .punctuator .leftParen) [] []
      (tokens ++ rest) := by
    apply reads_ahead
    cases tokens with
    | nil =>
        have ended := isLineEnd_peekKind ends
        cases kind : (Cursor.ofTokens rest).peekKind <;>
          simp_all [TokenKind.isLineEnd]
    | cons token tokens =>
        rw [List.cons_append, peekKind_cons (inLine.readable token List.mem_cons_self)]
        simpa [Token.isPunctuator] using apart token rfl
  have whole : grammar.Reads .objectlikeMacroDefinition (front ++ tokens)
      (front.map .leaf ++ (gap.map .leaf ++ .node .replacementList trees :: blanks.map .leaf))
      rest := by
    have grouped := (((reads_definitionHead head).append ahead).append reads).regroup.regroup
    simpa [Pattern.objectlikeMacroDefinition] using grouped
  refine ⟨_, whole, ofDefinition_of_head head rfl ?_ replaces⟩
  rw [child?_leaves, child?_cons]
  rfl

/-- A definition with parentheses behind the name, given how what is in them is read. -/
theorem exists_reads_functionlikeMacroDefinition
    {left right : Token}
    {before core after : List Token}
    {parameters : Option (List Tree)}
    (head : WritesHead front name)
    (isLeft : left.isPunctuator .leftParen = true)
    (trivialBefore : ∀ token ∈ before, token.isTrivia = true)
    (significant : Significant (core ++ (after ++ right :: (tokens ++ rest))))
    (list : grammar.Reads (.optional (.rule .parameterList)) core
      (parameters.map (Tree.node .parameterList)).toList (after ++ right :: (tokens ++ rest)))
    (trivialAfter : ∀ token ∈ after, token.isTrivia = true)
    (isRight : right.isPunctuator .rightParen = true)
    (inLine : InLine tokens) :
    ∃ trees, grammar.Reads .functionlikeMacroDefinition
        (front ++ left :: (before ++ core ++ after ++ right :: tokens)) trees rest ∧
      MacroDefinition.ofDefinition ⟨.functionlikeMacroDefinition, trees⟩ =
        .ok (.ofContent name
          (parameters.elim (.function [] none) fun trees =>
            MacroDefinition.shapeOfParameters ⟨.parameterList, trees⟩)
          (tokens.filter Token.isContent)) := by
  obtain ⟨gap, blanks, trees, reads, trivial, replaces⟩ :=
    exists_reads_replacement unmocked ends inLine
  have opened : grammar.Reads .trivia before (before.map .leaf)
      (core ++ (after ++ ([right] ++ (tokens ++ rest)))) :=
    reads_trivia trivialBefore significant
  have closed : grammar.Reads .trivia after (after.map .leaf) ([right] ++ (tokens ++ rest)) :=
    reads_trivia trivialAfter (significant_cons (Token.isTrivia_of_isPunctuator isRight) _)
  have leftRead : grammar.Reads (.symbol .leftParen) [left] [.leaf left]
      (before ++ (core ++ (after ++ ([right] ++ (tokens ++ rest))))) :=
    reads_symbol isLeft
  have rightRead : grammar.Reads (.symbol .rightParen) [right] [.leaf right] (tokens ++ rest) :=
    reads_symbol isRight
  have whole : grammar.Reads .functionlikeMacroDefinition
      (front ++ left :: (before ++ core ++ after ++ right :: tokens))
      (front.map .leaf ++ ((left :: before).map .leaf ++
        ((parameters.map (Tree.node .parameterList)).toList ++
          ((after ++ right :: gap).map .leaf ++
            .node .replacementList trees :: blanks.map .leaf)))) rest := by
    have grouped := ((((((reads_definitionHead head).append leftRead).append opened).append
      list).append closed).append rightRead).append reads |>.regroup.regroup
    simpa [Pattern.functionlikeMacroDefinition] using grouped
  refine ⟨_, whole, ofDefinition_of_head head ?_ ?_ replaces⟩
  · rw [MacroDefinition.shapeOf, if_pos rfl, child?_leaves, child?_leaves]
    cases parameters with
    | none =>
        rw [Option.map_none, Option.toList_none, List.nil_append, child?_leaves, child?_cons,
          if_neg (by decide), child?_map_leaf]
        rfl
    | some list =>
        rw [Option.map_some, Option.toList_some, List.singleton_append, child?_cons]
        rfl
  · rw [child?_leaves]
    cases parameters with
    | none =>
        rw [Option.map_none, Option.toList_none, List.nil_append, child?_leaves, child?_cons]
        rfl
    | some list =>
        rw [Option.map_some, Option.toList_some, List.singleton_append, child?_cons,
          if_neg (by decide), child?_leaves, child?_cons]
        rfl

omit ends in
theorem reads_defineLine_function
    {trees : List Tree}
    (reads : grammar.Reads .functionlikeMacroDefinition tokens trees rest) :
    grammar.Reads .defineLine tokens [.node .functionlikeMacroDefinition trees] rest := by
  have node : grammar.Reads (.rule .functionlikeMacroDefinition) tokens
      [.node .functionlikeMacroDefinition trees] rest :=
    Reads.node unmocked rfl reads
  exact node.orElse_left

/-- The other kind of definition comes first, and fails for want of a parenthesis. -/
theorem reads_defineLine_object
    {trees : List Tree}
    (head : WritesHead front name)
    (apart : ∀ token ∈ tokens.head?, token.isPunctuator .leftParen = false)
    (reads : grammar.Reads .objectlikeMacroDefinition (front ++ tokens) trees rest) :
    grammar.Reads .defineLine (front ++ tokens) [.node .objectlikeMacroDefinition trees] rest := by
  have noLeft : grammar.Fails (.symbol .leftParen) (tokens ++ rest) := by
    cases tokens with
    | nil => exact fails_token_of_ends ends fun _ => Token.isContent_of_isPunctuator
    | cons token tokens => exact fails_token_cons (apart token rfl)
  have failed : grammar.Fails .functionlikeMacroDefinition (front ++ (tokens ++ rest)) :=
    ((reads_definitionHead head).append_fails
      noLeft).append.append.append.append.append.append.append
  have noFunction : grammar.Fails (.rule .functionlikeMacroDefinition)
      (front ++ tokens ++ rest) := by
    rw [List.append_assoc]
    exact fails_node unmocked failed
  have node : grammar.Reads (.rule .objectlikeMacroDefinition) (front ++ tokens)
      [.node .objectlikeMacroDefinition trees] rest :=
    Reads.node unmocked rfl reads
  exact noFunction.orElse_right node

/-- Every definition is read, as a node that the macro is read off. -/
theorem exists_reads_defineLine
    {definition : MacroDefinition}
    (writes : WritesDefinition tokens definition)
    (inLine : InLine tokens) :
    ∃ rule trees, rule ∈ [Rule.functionlikeMacroDefinition, .objectlikeMacroDefinition] ∧
      grammar.Reads .defineLine tokens [.node rule trees] rest ∧
      MacroDefinition.ofDefinition ⟨rule, trees⟩ = .ok definition := by
  cases writes with
  | @intro front behind tokens name shape head tail =>
  obtain ⟨_, inLineBehind⟩ := InLine.append_iff.1 inLine
  cases tail with
  | object apart =>
      obtain ⟨trees, reads, read⟩ :=
        exists_reads_objectlikeMacroDefinition unmocked ends head apart inLineBehind
      exact ⟨_, trees, by simp, reads_defineLine_object unmocked ends head apart reads, read⟩
  | @nullary left right region tokens isLeft trivial isRight =>
      have inLineTokens := (InLine.cons_iff.1
        (InLine.append_iff.1 (InLine.cons_iff.1 inLineBehind).2).2).2
      have rightTrivia := Token.isTrivia_of_isPunctuator isRight
      have noParameters : grammar.Fails (.rule .parameterList) (right :: (tokens ++ rest)) :=
        fails_node unmocked (fails_parameterList _ unmocked isRight)
      have list : grammar.Reads (.optional (.rule .parameterList)) []
          ((none : Option (List Tree)).map (Tree.node .parameterList)).toList
          ([] ++ right :: (tokens ++ rest)) :=
        noParameters.optional
      obtain ⟨trees, reads, read⟩ := exists_reads_functionlikeMacroDefinition unmocked ends head
        isLeft trivial (significant_cons rightTrivia _) list (by simp) isRight inLineTokens
      rw [List.append_nil, List.append_nil] at reads
      exact ⟨_, trees, by simp, reads_defineLine_function unmocked reads, read⟩
  | @function left right region tokens names variadic isLeft writes isRight =>
      obtain ⟨inLineRegion, inLineTokens⟩ :=
        InLine.append_iff.1 (InLine.cons_iff.1 inLineBehind).2
      obtain ⟨before, core, after, rfl, trivialBefore, trivialAfter, significant, readsList⟩ :=
        exists_reads_parameterList (tokens ++ rest) unmocked isRight writes inLineRegion rfl
      obtain ⟨parameters, readsList, shape⟩ := readsList.alone
      have list : grammar.Reads (.optional (.rule .parameterList)) core
          ((some parameters).map (Tree.node .parameterList)).toList
          (after ++ right :: (tokens ++ rest)) :=
        Reads.optional (Reads.node unmocked rfl readsList)
      obtain ⟨trees, reads, read⟩ := exists_reads_functionlikeMacroDefinition unmocked ends head
        isLeft trivialBefore (significant _) list trivialAfter isRight
        (InLine.cons_iff.1 inLineTokens).2
      refine ⟨_, trees, by simp, reads_defineLine_function unmocked reads, ?_⟩
      rw [read, Option.elim_some, shape]

end Forward

/-- A definition starts with its number sign. -/
theorem significant_of_writesDefinition
    {definition : MacroDefinition}
    (writes : WritesDefinition tokens definition)
    (rest : List Token) :
    Significant (tokens ++ rest) := by
  cases writes with
  | intro head tail =>
      cases head with
      | intro isHash => exact significant_cons (Token.isTrivia_of_isPunctuator isHash) _

/-- Where a line ends in which no line ends, nothing is left. -/
theorem upcoming_eq_nil_of_atLineEnd
    {cursor : Cursor}
    (ends : cursor.atLineEnd = true)
    (inLine : InLine cursor.upcoming) :
    cursor.upcoming = [] := by
  obtain ⟨position, rest⟩ := cursor
  cases rest with
  | nil => rfl
  | cons token rest =>
      by_cases last : token.kind = .endOfInput
      · simp [Cursor.upcoming, last]
      · have isEnd : token.isLineEnd = true := by
          simpa [Cursor.atLineEnd, Cursor.peekKind, Cursor.peek?, last, Token.isLineEnd] using ends
        have present : token ∈ Cursor.upcoming ⟨position, token :: rest⟩ := by
          simp [Cursor.upcoming, last]
        rw [inLine token present] at isEnd
        cases isEnd

section Lines

variable {blanks written line : List Token} {ending : Token} {definition : MacroDefinition}
variable {root : Node}
variable (unmocked : grammar.mocked = [])
variable (enough : 4 ≤ grammar.maxDepth)
variable (ends : ending.kind = .endOfInput)
include unmocked enough ends

/-- A line that writes a definition is parsed, and the macro can be read off the node in it. -/
theorem exists_parseTokens_definition
    (trivial : ∀ token ∈ blanks, token.isTrivia = true)
    (writes : WritesDefinition written definition)
    (inLine : InLine written) :
    ∃ (rule : Rule) (trees : List Tree) (trailing : List Token),
      rule ∈ [Rule.functionlikeMacroDefinition, .objectlikeMacroDefinition] ∧
      grammar.parseTokens .defineLine (blanks ++ (written ++ [ending])) =
        some ⟨.defineLine, blanks.map .leaf ++ .node rule trees :: trailing.map .leaf⟩ ∧
      MacroDefinition.ofDefinition ⟨rule, trees⟩ = .ok definition := by
  have endsLine : ∀ token ∈ [ending].head?, token.isLineEnd = true := by
    rintro _ ⟨⟩
    rw [Token.isLineEnd, ends]
    rfl
  obtain ⟨rule, trees, listed, reads, read⟩ :=
    exists_reads_defineLine unmocked endsLine writes inLine
  have endsInput : ∀ token ∈ [ending].head?, token.kind = .endOfInput := by
    rintro _ ⟨⟩
    exact ends
  have nothing : ∀ token ∈ ([] : List Token), token.isTrivia = true := by simp
  have body : grammar.Reads Rule.defineLine.pattern written [.node rule trees] ([] ++ [ending]) :=
    reads
  have root := rootOf?_of_reads unmocked rfl trivial nothing
    (significant_of_writesDefinition writes ([] ++ [ending])) endsInput body
  refine ⟨rule, trees, [], listed, ?_, read⟩
  rw [List.nil_append] at root
  rw [parseTokens_of_nestsWithin unmocked (by decide : Rule.defineLine.nestsWithin 4 = true)
    enough, root]
  simp

omit unmocked enough ends in
/-- The macro that is read off a definition line is the one of the definition in it. -/
theorem ofNode_defineLine
    {rule : Rule}
    {trees : List Tree}
    (listed : rule ∈ [Rule.functionlikeMacroDefinition, .objectlikeMacroDefinition])
    (leading trailing : List Token) :
    MacroDefinition.ofNode
        ⟨.defineLine, leading.map .leaf ++ .node rule trees :: trailing.map .leaf⟩ =
      MacroDefinition.ofDefinition ⟨rule, trees⟩ := by
  have function := child?_cons .defineLine rule .functionlikeMacroDefinition trees
    (trailing.map .leaf)
  have object := child?_cons .defineLine rule .objectlikeMacroDefinition trees
    (trailing.map .leaf)
  rw [child?_map_leaf] at function object
  simp only [List.mem_cons, List.not_mem_nil, or_false] at listed
  simp only [MacroDefinition.ofNode, child?_leaves, function, object]
  rcases listed with rfl | rfl <;> rfl

/-- A line that writes a definition is parsed, and the macro is the one that it writes. -/
theorem exists_parseTokens_defineLine
    (trivial : ∀ token ∈ blanks, token.isTrivia = true)
    (writes : WritesDefinition written definition)
    (inLine : InLine written) :
    ∃ root, grammar.parseTokens .defineLine (blanks ++ (written ++ [ending])) = some root ∧
      MacroDefinition.ofNode root = .ok definition := by
  obtain ⟨rule, trees, trailing, listed, parsed, read⟩ :=
    exists_parseTokens_definition unmocked enough ends trivial writes inLine
  exact ⟨_, parsed, (ofNode_defineLine listed blanks trailing).trans read⟩

/-- What is parsed as a definition line writes a definition, which is the macro. -/
theorem exists_of_parseTokens_defineLine
    (inLine : InLine line)
    (parsed : grammar.parseTokens .defineLine (line ++ [ending]) = some root) :
    ∃ blanks written definition, line = blanks ++ written ∧
      (∀ token ∈ blanks, token.isTrivia = true) ∧ WritesDefinition written definition ∧
      MacroDefinition.ofNode root = .ok definition := by
  have readable := inLine.readable
  obtain ⟨node, after, trailing, reading, closed, _, _⟩ := exists_of_rootOf? parsed
  have derived := derives_of_readRule grammar.maxDepth (Prod.ext reading rfl)
  have advances := (Cursor.ofTokens (line ++ [ending])).advances_trivia.append derived.advances
  have atEnd : after.atLineEnd = true := by
    have listed : Rule.defineLine ∈ lineRules := by decide
    apply endsLine_line unmocked listed grammar.maxDepth
      (Cursor.ofTokens (line ++ [ending])).trivia.2 .empty
    rw [Pattern.read_rule, reading]
    rfl
  have whole := advances.upcoming_eq
  rw [Cursor.upcoming_ofTokens readable ends] at whole
  have nothingLeft : after.upcoming = [] :=
    upcoming_eq_nil_of_atLineEnd atEnd fun token present =>
      inLine token (whole ▸ List.mem_append_right _ present)
  have takesLine : grammar.Takes (.rule .defineLine) _ :=
    takes_node unmocked (takes_defineLine unmocked)
  obtain ⟨blanks, written, definition, equal, trivial, writes⟩ := takesLine _ _ _ derived
  have parts : line =
      ((Cursor.ofTokens (line ++ [ending])).trivia.1 ++ blanks) ++ written := by
    rw [nothingLeft, List.append_nil, equal, ← List.append_assoc] at whole
    exact whole
  have trivialParts :
      ∀ token ∈ (Cursor.ofTokens (line ++ [ending])).trivia.1 ++ blanks,
        token.isTrivia = true :=
    List.forall_mem_append.2 ⟨fun _ => Cursor.isTrivia_of_mem_trivia, trivial⟩
  have inLineWritten : InLine written := by
    rw [parts] at inLine
    exact (InLine.append_iff.1 inLine).2
  obtain ⟨again, parsedAgain, read⟩ :=
    exists_parseTokens_defineLine unmocked enough ends trivialParts writes inLineWritten
  rw [← List.append_assoc, ← parts, parsed] at parsedAgain
  cases parsedAgain
  exact ⟨_, written, definition, parts, trivialParts, writes, read⟩

end Lines

end Grammar
end PreprocessorSyntax
