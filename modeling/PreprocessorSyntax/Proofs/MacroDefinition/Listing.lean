import PreprocessorSyntax.Proofs.Depth.Acceptance
import PreprocessorSyntax.Proofs.Lexer.Lines
import PreprocessorSyntax.Proofs.MacroDefinition.Lines

/-!
# Listings of macros

A macro is listed on one line: its name, its parameters and its replacement,
with single spaces in place of white space and comments.  Behind `#define`, the
listing defines the macro again.  That needs both directions of the lexer and of
the grammar: what a line is that was read, and that a line like it is read.
-/

namespace PreprocessorSyntax

/-- Two definitions say the same of a macro, wherever their tokens stand. -/
structure MacroDefinition.Agrees (first second : MacroDefinition) : Prop where
  name : first.name = second.name
  shape : first.shape = second.shape
  replacement :
    first.replacement.map Token.kindAndText = second.replacement.map Token.kindAndText
  hasStringizing : first.hasStringizing = second.hasStringizing
  hasTokenPasting : first.hasTokenPasting = second.hasTokenPasting

section Places

variable {first second : List Token}

theorem any_isPunctuator_congr
    (same : first.map Token.kindAndText = second.map Token.kindAndText)
    (symbol : Punctuator) :
    first.any (Token.isPunctuator symbol) = second.any (Token.isPunctuator symbol) := by
  induction first generalizing second with
  | nil => rw [List.map_eq_nil_iff.1 same.symm]
  | cons token first inductionHypothesis =>
      obtain ⟨other, others, rfl, here, rest⟩ := List.map_eq_cons_iff.1 same.symm
      rw [List.any_cons, List.any_cons, Token.isPunctuator_congr here.symm,
        inductionHypothesis rest.symm]

/-- What stands in front of a name does not say where it stands. -/
theorem stringizes_congr (same : first.map Token.kindAndText = second.map Token.kindAndText) :
    stringizes first = stringizes second := by
  induction first generalizing second with
  | nil => rw [List.map_eq_nil_iff.1 same.symm]
  | cons token first inductionHypothesis =>
      obtain ⟨other, others, rfl, here, rest⟩ := List.map_eq_cons_iff.1 same.symm
      have next : first.head?.any Token.isIdentifier = others.head?.any Token.isIdentifier := by
        cases first with
        | nil => rw [List.map_eq_nil_iff.1 rest]
        | cons token first =>
            obtain ⟨other, others, rfl, here, _⟩ := List.map_eq_cons_iff.1 rest
            exact Token.isIdentifier_congr here.symm
      rw [stringizes, stringizes, Token.isPunctuator_congr here.symm, next,
        inductionHypothesis rest.symm]

/-- The name, the shape and the content of a definition tell what it says. -/
theorem MacroDefinition.agrees_ofContent
    {name other : Token}
    {shape : MacroShape}
    (named : name.text = other.text)
    (same : first.map Token.kindAndText = second.map Token.kindAndText) :
    (ofContent name shape first).Agrees (ofContent other shape second) where
  name := named
  shape := rfl
  replacement := same
  hasStringizing := stringizes_congr same
  hasTokenPasting := any_isPunctuator_congr same _

end Places

variable {back : List Char} {holds : List Token → Prop} {shape : MacroShape}
variable {front behind content tokens : List Token} {names : List String}
variable {variadic : Option VariadicParameter} {name : Token} {definition : MacroDefinition}

theorem lexes_variadicParameter
    {form : VariadicParameter}
    (writes : WritesVariadic content form)
    (named : ∀ token ∈ content, token.isIdentifier = true → isName token.text.toList = true)
    (lexes : Lexes back holds) :
    Lexes ((", ".intercalate (MacroDefinition.parameterNames [] (some form))).toList ++ back)
      fun tokens => ∃ region behind, tokens = region ++ behind ∧ Significant tokens ∧
        WritesVariadic (region.filter Token.isContent) form ∧ holds behind := by
  have dots := lexes.symbol (by decide : .ellipsis ∈ _)
  cases writes with
  | anonymous =>
      refine dots.mono ?_
      rintro _ ⟨ellipsis, behind, rfl, isEllipsis, holds⟩
      refine ⟨[ellipsis], behind, rfl,
        significant_cons (Token.isTrivia_of_isPunctuator isEllipsis) _, ?_, holds⟩
      rw [List.filter_cons_of_pos (Token.isContent_of_isPunctuator isEllipsis)]
      exact .anonymous isEllipsis
  | @named name _ isName =>
      have text : (", ".intercalate
          (MacroDefinition.parameterNames [] (some (.named name.text)))).toList ++ back =
          name.text.toList ++ (Punctuator.ellipsis.spelling.toList ++ back) := by
        rw [← List.append_assoc, ← String.toList_append]
        rfl
      rw [text]
      have spelled := dots.identifier (named name List.mem_cons_self isName)
        (endsName_cons (by decide : _ = false) _)
      refine spelled.mono ?_
      rintro _ ⟨again, _, rfl, isName, text, ellipsis, behind, rfl, isEllipsis, holds⟩
      rw [String.ofList_toList] at text
      refine ⟨[again, ellipsis], behind, rfl,
        significant_cons (Token.isTrivia_of_isIdentifier isName) _, ?_, holds⟩
      rw [List.filter_cons_of_pos (Token.isContent_of_isIdentifier isName),
        List.filter_cons_of_pos (Token.isContent_of_isPunctuator isEllipsis), ← text]
      exact .named isName isEllipsis

/-- Behind a first name come a comma, a space and the other parameters. -/
theorem parameterNames_text
    (writes : WritesParameters content names variadic)
    (name : String) :
    (", ".intercalate (MacroDefinition.parameterNames (name :: names) variadic)).toList =
      name.toList ++ (Punctuator.comma.spelling.toList ++
        ' ' :: (", ".intercalate (MacroDefinition.parameterNames names variadic)).toList) := by
  have more : MacroDefinition.parameterNames names variadic ≠ [] := by
    cases writes with
    | variadic writes => cases writes <;> simp [MacroDefinition.parameterNames]
    | _ => simp [MacroDefinition.parameterNames]
  have here : MacroDefinition.parameterNames (name :: names) variadic =
      name :: MacroDefinition.parameterNames names variadic := rfl
  rw [here, String.intercalate_cons_of_ne_nil more, String.toList_append, String.toList_append,
    List.append_assoc]
  rfl

/-- Parameters are found again with a comma and a space between them. -/
theorem lexes_parameters
    (writes : WritesParameters content names variadic)
    (named : ∀ token ∈ content, token.isIdentifier = true → isName token.text.toList = true)
    (ends : EndsName back)
    (lexes : Lexes back holds) :
    Lexes ((", ".intercalate (MacroDefinition.parameterNames names variadic)).toList ++ back)
      fun tokens => ∃ region behind, tokens = region ++ behind ∧ Significant tokens ∧
        WritesParameters (region.filter Token.isContent) names variadic ∧ holds behind := by
  induction writes with
  | variadic writes =>
      refine (lexes_variadicParameter writes named lexes).mono ?_
      rintro tokens ⟨region, behind, parts, significant, writes, holds⟩
      exact ⟨region, behind, parts, significant, .variadic writes, holds⟩
  | @last name isName =>
      have spelled := lexes.identifier (named name List.mem_cons_self isName) ends
      refine spelled.mono ?_
      rintro _ ⟨again, behind, rfl, isName, text, holds⟩
      rw [String.ofList_toList] at text
      refine ⟨[again], behind, rfl,
        significant_cons (Token.isTrivia_of_isIdentifier isName) _, ?_, holds⟩
      rw [List.filter_cons_of_pos (Token.isContent_of_isIdentifier isName), ← text]
      exact .last isName
  | @further name comma tokens names variadic isName isComma writes inductionHypothesis =>
      have later := inductionHypothesis fun token present =>
        named token (List.mem_cons_of_mem _ (List.mem_cons_of_mem _ present))
      have spaced := later.space fun tokens ⟨_, _, _, significant, _⟩ => significant
      have separated := spaced.symbol (by decide : .comma ∈ _)
      have spelled := separated.identifier (named name List.mem_cons_self isName)
        (endsName_cons (by decide : _ = false) _)
      rw [parameterNames_text writes, List.append_assoc, List.append_assoc, List.cons_append]
      refine spelled.mono ?_
      rintro _ ⟨again, _, rfl, isName, text, comma, _, rfl, isComma, blank, _, rfl, trivial,
        region, behind, rfl, _, writes, holds⟩
      rw [String.ofList_toList] at text
      refine ⟨again :: comma :: blank :: region, behind, rfl,
        significant_cons (Token.isTrivia_of_isIdentifier isName) _, ?_, holds⟩
      rw [List.filter_cons_of_pos (Token.isContent_of_isIdentifier isName),
        List.filter_cons_of_pos (Token.isContent_of_isPunctuator isComma),
        List.filter_cons_of_neg (by simp [isContent_eq_false_of_isTrivia trivial]), ← text]
      exact .further isName isComma writes

theorem parameterText_function (shaped : definition.shape = .function names variadic) :
    definition.parameterText.toList ++ ' ' :: back =
      Punctuator.leftParen.spelling.toList ++
        ((", ".intercalate (MacroDefinition.parameterNames names variadic)).toList ++
          (Punctuator.rightParen.spelling.toList ++ ' ' :: back)) := by
  rw [MacroDefinition.parameterText, shaped, ← List.append_assoc, ← List.append_assoc,
    ← String.toList_append, ← String.toList_append]
  rfl

/-- How a macro is used and what replaces it are found again behind its name. -/
theorem lexes_tail
    (tail : WritesTail behind shape tokens)
    (shaped : definition.shape = shape)
    (named : ∀ token ∈ behind, token.isIdentifier = true → isName token.text.toList = true)
    (lexes : Lexes (' ' :: back) fun again =>
      (∀ token ∈ again.head?, token.isTrivia = true) ∧ holds again) :
    Lexes (definition.parameterText.toList ++ ' ' :: back)
      fun again => ∃ tokens, WritesTail again shape tokens ∧ holds tokens := by
  cases tail with
  | object =>
      have noParameters : definition.parameterText = "" := by
        rw [MacroDefinition.parameterText, shaped]
      rw [noParameters]
      refine lexes.mono fun again ⟨apart, holds⟩ => ⟨again, .object ?_, holds⟩
      intro token first
      cases isLeft : token.isPunctuator .leftParen with
      | false => rfl
      | true =>
          have notTrivia := Token.isTrivia_of_isPunctuator isLeft
          rw [apart token first] at notTrivia
          cases notTrivia
  | nullary =>
      have closed := lexes.symbol (by decide : .rightParen ∈ _)
      have opened := closed.symbol (by decide : .leftParen ∈ _)
      rw [parameterText_function shaped]
      refine opened.mono ?_
      rintro _ ⟨left, _, rfl, isLeft, right, tokens, rfl, isRight, _, holds⟩
      have noTrivia : ∀ token ∈ ([] : List Token), token.isTrivia = true := by simp
      exact ⟨tokens, .nullary isLeft noTrivia isRight, holds⟩
  | @function left right region _ names variadic _ writes =>
      have present {token : Token} (inside : token ∈ region.filter Token.isContent) :
          token ∈ left :: (region ++ right :: tokens) :=
        List.mem_cons_of_mem _ (List.mem_append_left _ (List.mem_of_mem_filter inside))
      have closed := lexes.symbol (by decide : .rightParen ∈ _)
      have filled := lexes_parameters writes (fun token inside => named token (present inside))
        (endsName_cons (by decide : _ = false) _) closed
      have opened := filled.symbol (by decide : .leftParen ∈ _)
      rw [parameterText_function shaped]
      refine opened.mono ?_
      rintro _ ⟨left, _, rfl, isLeft, region, _, rfl, _, writes, right, tokens, rfl, isRight, _,
        holds⟩
      exact ⟨tokens, .function isLeft writes isRight, holds⟩

/-- The name of a macro is found again behind the name of the directive. -/
theorem lexes_head
    {name : List Char}
    (named : isName name = true)
    (ends : EndsName back)
    (lexes : Lexes back holds) :
    Lexes ("#define ".toList ++ (name ++ back)) fun again =>
      ∃ front behind token, again = front ++ behind ∧ WritesHead front token ∧
        token.text = String.ofList name ∧ holds behind := by
  have spelled := lexes.identifier named ends
  have spaced := spelled.space fun tokens ⟨token, behind, equal, isName, _⟩ => by
    rw [equal]
    exact significant_cons (Token.isTrivia_of_isIdentifier isName) behind
  have directive := spaced.identifier (by decide : isName "define".toList = true)
    (endsName_cons (by decide : _ = false) _)
  have munched : munch (['#'] ++ ("define".toList ++ ' ' :: (name ++ back))) =
      some (.punctuator .hash, 1) := rfl
  have text : "#define ".toList ++ (name ++ back) =
      ['#'] ++ ("define".toList ++ ' ' :: (name ++ back)) := rfl
  rw [text]
  refine directive.cons munched rfl ?_
  rintro hash _ kind - ⟨define, _, rfl, isWord, word, blank, _, rfl, trivial, token, behind, rfl,
    isName, text, holds⟩
  have isDefine : define.isWord "define" = true := by
    rw [Token.isWord, isWord, word]
    rfl
  have noTrivia : ∀ token ∈ ([] : List Token), token.isTrivia = true := by simp
  have head : WritesHead (hash :: ([] ++ define :: ([blank] ++ [token]))) token :=
    .intro (beq_iff_eq.2 kind) noTrivia isDefine (by simpa using trivial) isName
  exact ⟨_, behind, token, rfl, head, text, holds⟩

theorem WritesTail.exists_append (tail : WritesTail behind shape tokens) :
    ∃ before, behind = before ++ tokens := by
  cases tail with
  | object => exact ⟨[], rfl⟩
  | @nullary left right region => exact ⟨left :: (region ++ [right]), by simp⟩
  | @function left right region => exact ⟨left :: (region ++ [right]), by simp⟩

theorem WritesHead.isIdentifier (head : WritesHead front name) :
    name ∈ front ∧ name.isIdentifier = true := by
  cases head with
  | intro _ _ _ _ isName => exact ⟨by simp, isName⟩

/-- Behind the name of a macro comes a parenthesis or a space. -/
theorem endsName_parameterText (definition : MacroDefinition) (back : List Char) :
    EndsName (definition.parameterText.toList ++ ' ' :: back) := by
  cases shaped : definition.shape with
  | object =>
      rw [MacroDefinition.parameterText, shaped]
      exact endsName_cons (by decide) _
  | function names variadic =>
      rw [parameterText_function shaped]
      exact endsName_cons (by decide : _ = false) _

theorem listing_text (definition : MacroDefinition) :
    ("#define " ++ definition.listing).toList =
      "#define ".toList ++ (definition.name.toList ++
        (definition.parameterText.toList ++ ' ' :: definition.replacementText.toList)) := by
  simp [MacroDefinition.listing]

/-- Behind `#define`, the listing of a macro that a line defines is such a line again. -/
theorem lexes_listing
    {lexer : Lexer}
    {blanks written : List Token}
    {ending : Token}
    (writes : WritesDefinition written definition)
    (yields : lexer.Yields (blanks ++ written ++ [ending]))
    (ends : ending.kind = .endOfInput)
    (noFeed : '\n' ∉ lexer.rest) :
    Lexes ("#define " ++ definition.listing).toList fun tokens =>
      ∃ again, WritesDefinition tokens again ∧ again.Agrees definition := by
  cases writes with
  | @intro front behind tokens name shape head tail =>
  obtain ⟨before, rfl⟩ := tail.exists_append
  obtain ⟨inHead, isWord⟩ := head.isIdentifier
  have named {token : Token} (present : token ∈ front ++ (before ++ tokens))
      (isWord : token.isIdentifier = true) : isName token.text.toList = true :=
    yields.isName_of_mem (List.mem_append_left _ (List.mem_append_right _ present)) isWord
  have replacement : Lexes (significantText (tokens.filter Token.isContent)).toList
      fun again => Significant again ∧ (again.filter Token.isContent).map Token.kindAndText =
        (tokens.filter Token.isContent).map Token.kindAndText := by
    have split : blanks ++ (front ++ (before ++ tokens)) ++ [ending] =
        (blanks ++ front ++ before) ++ (tokens ++ [ending]) := by simp
    rw [split] at yields
    exact yields.lexes_significantText noFeed ends
  have spaced : Lexes (' ' :: (significantText (tokens.filter Token.isContent)).toList)
      fun again => (∀ token ∈ again.head?, token.isTrivia = true) ∧
        (again.filter Token.isContent).map Token.kindAndText =
          (tokens.filter Token.isContent).map Token.kindAndText := by
    refine (replacement.space fun again holds => holds.1).mono ?_
    rintro _ ⟨blank, again, rfl, trivial, _, same⟩
    refine ⟨by rintro _ ⟨⟩; exact trivial, ?_⟩
    rwa [List.filter_cons_of_neg (by simp [isContent_eq_false_of_isTrivia trivial])]
  have shaped : (MacroDefinition.ofContent name shape (tokens.filter Token.isContent)).shape =
      shape := rfl
  have tailAgain := lexes_tail tail shaped
    (fun token present => named (List.mem_append_right _ present)) spaced
  have whole := lexes_head (named (List.mem_append_left _ inHead) isWord)
    (endsName_parameterText _ _) tailAgain
  rw [listing_text]
  refine whole.mono ?_
  rintro _ ⟨frontAgain, behindAgain, nameAgain, rfl, headAgain, spelled, again, tailAgain, same⟩
  rw [String.ofList_toList] at spelled
  exact ⟨_, .intro headAgain tailAgain, MacroDefinition.agrees_ofContent spelled same⟩

namespace Grammar

/--
The listing of a macro can be read back: a line that is matched as a definition
defines a macro, and its listing behind `#define` is matched as a definition and
defines a macro with the same name, the same parameters, the same kinds and
spellings of replacement tokens and the same operators.
-/
theorem exists_parse_listing
    {source : String}
    {file : FileId}
    {line : UInt32}
    {node : Node}
    (noFeed : '\n' ∉ source.toList)
    (parsed : standard.parse .defineLine source file line = .ok node) :
    ∃ definition, MacroDefinition.ofNode node = .ok definition ∧
      ∀ file line, ∃ nodeAgain again,
        standard.parse .defineLine ("#define " ++ definition.listing) file line =
            .ok nodeAgain ∧
          MacroDefinition.ofNode nodeAgain = .ok again ∧ again.Agrees definition := by
  have unmocked : standard.mocked = [] := rfl
  have enough : 4 ≤ standard.maxDepth := by decide
  obtain ⟨tokens, lexed, found⟩ := parseTokens_of_parse parsed
  have yields := Lexer.yields_of_tokens _ lexed
  obtain ⟨content, ending, rfl, ends, inLine⟩ := yields.exists_inLine noFeed
  obtain ⟨blanks, written, definition, rfl, _, writes, read⟩ :=
    exists_of_parseTokens_defineLine unmocked enough ends inLine found
  refine ⟨definition, read, fun file line => ?_⟩
  have listed := lexes_listing writes yields ends noFeed
  obtain ⟨tokens, last, lexedAgain, endsAgain, inLineAgain, again, writesAgain, agrees⟩ :=
    listed.tokenize file line
  have noTrivia : ∀ token ∈ ([] : List Token), token.isTrivia = true := by simp
  obtain ⟨root, foundAgain, readAgain⟩ :=
    exists_parseTokens_defineLine unmocked enough endsAgain noTrivia writesAgain inLineAgain
  exact ⟨root, again, parse_eq_ok lexedAgain foundAgain, readAgain, agrees⟩

/--
So it is with a comment that is all that keeps two signs apart, and with a quote
that stays open.
-/
theorem exists_parse_listing_of_comment :
    ∃ node,
      standard.parse .defineLine "# define F( a ,/**/b... )L#a/**/## +/**/+\"b 'c " 3 7 =
          .ok node ∧
        ∃ definition, MacroDefinition.ofNode node = .ok definition ∧
          definition.listing = "F(a, b...) L#a ## + +\"b 'c" ∧
          ∀ file line, ∃ nodeAgain again,
            standard.parse .defineLine ("#define " ++ definition.listing) file line =
                .ok nodeAgain ∧
              MacroDefinition.ofNode nodeAgain = .ok again ∧ again.Agrees definition := by
  have spelled :
      (standard.parse .defineLine
          "# define F( a ,/**/b... )L#a/**/## +/**/+\"b 'c " 3 7).toOption.bind
        (fun node => (MacroDefinition.ofNode node).toOption.map MacroDefinition.listing) =
          some "F(a, b...) L#a ## + +\"b 'c" := by
    decide +kernel
  cases parsed : standard.parse .defineLine
      "# define F( a ,/**/b... )L#a/**/## +/**/+\"b 'c " 3 7 with
  | error fault =>
      rw [parsed] at spelled
      cases spelled
  | ok node =>
      obtain ⟨definition, read, again⟩ := exists_parse_listing (by decide) parsed
      have listed : (MacroDefinition.ofNode node).toOption.map MacroDefinition.listing =
          some "F(a, b...) L#a ## + +\"b 'c" := by
        rw [parsed] at spelled
        exact spelled
      rw [read] at listed
      exact ⟨node, rfl, definition, read, Option.some.inj listed, again⟩

end Grammar
end PreprocessorSyntax
