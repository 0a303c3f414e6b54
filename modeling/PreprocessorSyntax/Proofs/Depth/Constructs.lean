import PreprocessorSyntax.Proofs.Depth.Expressions
import PreprocessorSyntax.Proofs.Line.Content

/-!
# Constructs up to the end of a line

Everything but a line of unknown kind is read alike with few levels and with many
if the line ends behind it.  In most constructs the tokens alone decide between
alternatives.  Where a rule decides, as for parameters and replacement lists, it
calls no rules itself, so only a reading without any level left can differ, and
the tokens that follow show that it has not missed anything.
-/

namespace PreprocessorSyntax
namespace Token

variable {token : Token}

theorem isPunctuator_of_isLineEnd (ends : token.isLineEnd = true) (symbol : Punctuator) :
    token.isPunctuator symbol = false := by
  cases kind : token.kind <;> simp_all [isLineEnd, TokenKind.isLineEnd, isPunctuator]

theorem opensArgument_of_isLineEnd (ends : token.isLineEnd = true) :
    token.opensArgument = false := by
  simp [opensArgument, isContent, ends]

/-- No expression goes on behind the end of a line. -/
theorem settles_of_isLineEnd (ends : token.isLineEnd = true) (rule : Rule) :
    token.Settles rule := by
  constructor
  · cases kind : token.kind <;> simp_all [isLineEnd, TokenKind.isLineEnd, isIdentifier]
  · intro found here continued continues
    cases here
    cases kind : token.kind <;>
      simp_all [isLineEnd, TokenKind.isLineEnd, TokenKind.continued?]

/-- Neither a comma nor an ellipsis, with which parameters would go on. -/
def EndsParameters (token : Token) : Prop :=
  token.isPunctuator .comma = false ∧ token.isPunctuator .ellipsis = false

end Token

/-- White space and comments apart, the line ends here. -/
abbrev BeforeLineEnd : Cursor → Failures → Prop :=
  Before fun token => token.isLineEnd = true

namespace Grammar

variable {grammar : Grammar} {few levels : Nat} {cursor : Cursor} {first : Pattern}
variable {stop : Cursor → Failures → Prop}

theorem precedes_of_atLineEnd (ends : cursor.atLineEnd = true) :
    cursor.Precedes fun token => token.isLineEnd = true := by
  intro token next
  obtain ⟨position, rest⟩ := cursor
  cases rest with
  | nil => cases next
  | cons found rest =>
      have foundEnds : found.isLineEnd = true := by
        cases kind : found.kind <;>
          simp_all [Cursor.atLineEnd, Cursor.peekKind, Cursor.peek?, Token.isLineEnd,
            TokenKind.isLineEnd]
      have significant : found.isTrivia = false := by
        cases kind : found.kind <;>
          simp_all [Token.isLineEnd, TokenKind.isLineEnd, Token.isTrivia, TokenKind.isTrivia]
      rw [Cursor.next?, firstSignificant?_cons, significant] at next
      cases next
      exact foundEnds

/-- What may stop in front of the end of a line is followed by it. -/
theorem Carries.endOfLine (front : grammar.Carries few Alike BeforeLineEnd first) :
    grammar.Carries few Alike stop (first ++ .endOfLine) := by
  refine front.append (carries_of_calls_eq_nil rfl) fun read _ => ?_
  cases derives_of_read (derives_of_readRule few) _ read with
  | sequence blanks ends =>
      cases ends with
      | ahead atLineEnd => exact passes_trivia _ _ _ blanks (precedes_of_atLineEnd atLineEnd)

section Unmocked

variable (unmocked : grammar.mocked = [])
include unmocked

/-- Lines with a condition are read alike, whatever follows them. -/
theorem carries_conditionLine (name : String) :
    grammar.Carries few Alike stop (.conditionLine name) :=
  (((carries_constantExpression unmocked few).mono fun _ _ ends token next =>
    Token.settles_of_isLineEnd (ends token next) _).behind rfl).endOfLine

theorem begins_includeBodyFreeform :
    grammar.Begins Token.isIdentifier (.rule .includeBodyFreeform) := by
  refine begins_rule unmocked (Begins.orElse ?_ (begins_token fun _ isName => ?_))
  · exact (begins_functionlikeMacro unmocked).mono fun _ isName =>
      (Bool.and_eq_true_iff.1 isName).1
  · exact ⟨isName, Token.isTrivia_of_isIdentifier isName⟩

/-- A single name is the body of an inclusion if it calls no macro. -/
theorem carries_includeBodyFreeform :
    grammar.Carries few Alike BeforeLineEnd (.rule .includeBodyFreeform) := by
  refine carries_called unmocked fun below _ =>
    (carries_functionlikeMacro unmocked _).orElse (carries_of_calls_eq_nil rfl) ?_
  intro cursor after failures between later trees _ _ read ends many _
  rw [read_of_calls_eq_nil grammar rfl, Prod.mk.injEq] at read
  obtain ⟨_, found, _⟩ := exists_of_treesAt?_token read.1
  refine barren_functionlikeMacro unmocked (fun token behind other next follows => ?_) many
  rw [found] at other
  cases other
  exact Token.isPunctuator_of_isLineEnd (ends next follows) .leftParen

/-- Bodies of inclusions differ in their first tokens. -/
theorem carries_includeBody : grammar.Carries few Alike BeforeLineEnd (.rule .includeBody) := by
  have blank (token : Token) (trivial : token.isTrivia = true) : token.opensHeader = false :=
    Token.opensHeader_of_isTrivia trivial
  have header (token : Token) (closed : token.opensHeader = false) := Bool.or_eq_false_iff.1 closed
  refine carries_called unmocked fun below _ =>
    Carries.orElse (carries_of_calls_pattern_eq_nil unmocked rfl)
      (Carries.orElse (carries_of_calls_pattern_eq_nil unmocked rfl)
        (carries_includeBodyFreeform unmocked) ?_) ?_
  · intro cursor after failures between later trees _ _ read _ many _
    have closed : cursor.Precedes fun token => token.opensHeader = false :=
      (begins_includeBodyFreeform unmocked).precedes
        (fun _ => Token.opensHeader_of_isIdentifier)
        (derives_of_read (derives_of_readRule below) _ read)
    exact barren_includeBodyQuoted unmocked
      (fun token first => (header token (closed.head blank token first)).2) many
  · intro cursor after failures between later trees _ _ read _ many _
    have begins : grammar.Begins (fun token => !token.isPunctuator .less)
        (.firstOf .includeBodyQuoted [.includeBodyFreeform]) := by
      refine ((begins_includeBodyQuoted unmocked).mono fun token isString => ?_).orElse
        ((begins_includeBodyFreeform unmocked).mono fun token isName => ?_)
      · simp [Token.isPunctuator, beq_iff_eq.1 isString]
      · simp [Token.isPunctuator, Token.kind_of_isIdentifier isName]
    have closed : cursor.Precedes fun token => token.isPunctuator .less = false :=
      begins.precedes (fun _ other => by simpa using other)
        (derives_of_read (derives_of_readRule below) _ read)
    exact barren_includeBodyBracketed unmocked
      (closed.head fun _ trivial => (header _ (blank _ trivial)).1) many

theorem carries_includeLine : grammar.Carries few Alike stop (.rule .includeLine) :=
  carries_called unmocked fun _ _ => ((carries_includeBody unmocked).behind rfl).endOfLine

/-- The name of an imported module is not the name of a header. -/
theorem carries_ppImport : grammar.Carries few Alike stop (.rule .ppImport) := by
  have colon : grammar.Begins (fun token => !token.opensHeader) (.symbol .colon) :=
    begins_token fun _ isColon =>
      ⟨by simp [Token.opensHeader_of_isPunctuator isColon rfl],
        Token.isTrivia_of_isPunctuator isColon⟩
  have name : grammar.Begins (fun token => !token.opensHeader) (.rule .moduleName) :=
    begins_rule unmocked (begins_token fun _ isName =>
      ⟨by simp [Token.opensHeader_of_isIdentifier isName],
        Token.isTrivia_of_isIdentifier isName⟩).append
  refine carries_called unmocked fun below _ =>
    ((Carries.orElse ?_ ?_ ?_).behind rfl).endOfLine
  · exact (carries_headerName unmocked _).andThen (carries_of_calls_eq_nil rfl)
  · exact ((Carries.behind rfl (carries_of_calls_pattern_eq_nil unmocked rfl)).andThen
      (carries_of_calls_eq_nil rfl)).andThen (carries_of_calls_eq_nil rfl)
  · intro cursor after failures between later trees _ _ read _ many _
    have closed : cursor.Precedes fun token => token.opensHeader = false :=
      (colon.append.optional.append_begins name).append.append.precedes
        (fun _ other => by simpa using other)
        (derives_of_read (derives_of_readRule below) _ read)
    exact (barren_headerName unmocked
      (closed.head fun _ => Token.opensHeader_of_isTrivia) many).append

/-- The name of a partition is left out only where a semicolon follows. -/
theorem carries_namedModule : grammar.Carries few Alike stop .namedModule := by
  have name {stop : Cursor → Failures → Prop} :
      grammar.Carries few Alike stop (.rule .moduleName) :=
    carries_of_calls_pattern_eq_nil unmocked rfl
  have partition : grammar.Carries few Alike (Before fun token => token.isPunctuator .colon = false)
      (.optional (.trivia ++ .symbol .colon ++ .trivia ++ .rule .moduleName)) := by
    refine Carries.optional (name.behind rfl) ?_
    intro cursor failures later _ _ refused many _
    exact (barren_trivia_token refused).append.append
  refine ((name.behind rfl).andThen partition).trivia.token
    (fun _ => Token.isTrivia_of_isPunctuator) fun token isSemicolon => ?_
  simp [Token.isPunctuator, Token.kind_of_isPunctuator isSemicolon]

/-- The tokens decide which kind of module a line declares. -/
theorem carries_ppModule : grammar.Carries few Alike stop (.rule .ppModule) :=
  carries_called unmocked fun _ _ =>
    (Carries.behind rfl (.orElse_of_calls_eq_nil rfl
      (.orElse_of_calls_eq_nil rfl (carries_namedModule unmocked)))).endOfLine

/-- No parameter begins where an ellipsis follows neither at once nor behind a name. -/
theorem barren_variadicParameter
    (noEllipsis : ∀ token ∈ cursor.rest.head?, token.isPunctuator .ellipsis = false)
    (behindName : ∀ token after, cursor.bump? = some (token, after) → token.isIdentifier = true →
      after.Precedes fun next => next.isPunctuator .ellipsis = false)
    (levels : Nat) :
    grammar.Barren levels (.rule .variadicParameter) cursor := by
  refine barren_called unmocked (by simp) (fun levels => Barren.behind rfl ?_) levels
  intro trees middle read
  refine barren_token ?_
  rw [Pattern.optional, ← Pattern.orElse_eq, treesAt?_orElse, Option.or_eq_some_iff] at read
  rcases read with name | ⟨_, nothing⟩
  · obtain ⟨_, after, _, found, skipped, _⟩ := exists_of_treesAt?_append name
    obtain ⟨token, bumped, isName, _⟩ := exists_of_treesAt?_token found
    rw [treesAt?_trivia_eq] at skipped
    cases skipped
    rw [Cursor.head?_trivia]
    exact behindName token after bumped isName
  · cases nothing
    exact noEllipsis

theorem barren_parameterList
    (closed : ∀ token ∈ cursor.rest.head?,
      token.isPunctuator .ellipsis = false ∧ token.isIdentifier = false)
    (levels : Nat) :
    grammar.Barren levels (.rule .parameterList) cursor := by
  refine barren_called unmocked (by simp) (fun levels => ?_) levels
  refine (barren_variadicParameter unmocked (fun token first => (closed token first).1) ?_
    levels).orElse (barren_token fun token first => (closed token first).2).append.append
  intro token after found isName
  have refused := (closed token (by rw [(Cursor.advances_of_bump? found).rest]; rfl)).2
  rw [isName] at refused
  cases refused

/-- A name behind which no ellipsis follows is no variadic parameter. -/
theorem barren_variadicParameter_of_name
    {after : Cursor}
    {trees : List Tree}
    (name : grammar.treesAt? .identifier cursor = some (trees, after))
    (noEllipsis : after.Precedes fun next => next.isPunctuator .ellipsis = false)
    (levels : Nat) :
    grammar.Barren levels (.rule .variadicParameter) cursor := by
  obtain ⟨token, found, isName, _⟩ := exists_of_treesAt?_token name
  refine barren_variadicParameter unmocked (fun other first => ?_) (fun other behind bumped _ => ?_)
    levels
  · rw [(Cursor.advances_of_bump? found).rest] at first
    cases first
    simp [Token.isPunctuator, Token.kind_of_isIdentifier isName]
  · rw [found] at bumped
    cases bumped
    exact noEllipsis

/-- A comma and a further parameter that is not variadic. -/
theorem carries_furtherParameter :
    grammar.Carries few Alike (Before fun token => token.isPunctuator .ellipsis = false)
      (.separator ++ .absent .variadicParameter ++ .identifier) := by
  refine (Carries.behind rfl (Carries.absent (carries_of_calls_eq_nil rfl) ?_)).assoc
  intro cursor after between later trees read noEllipsis many _
  rw [read_of_calls_eq_nil grammar rfl, Prod.mk.injEq] at read
  exact barren_variadicParameter_of_name unmocked read.1 noEllipsis many

omit unmocked in
theorem begins_separator : grammar.Begins (Token.isPunctuator .comma) .separator :=
  (mayBegin_trivia.append_begins (begins_token fun _ isComma =>
    ⟨isComma, Token.isTrivia_of_isPunctuator isComma⟩)).append

omit unmocked in
theorem barren_separator
    (ends : cursor.Precedes Token.EndsParameters)
    (levels : Nat) :
    grammar.Barren levels .separator cursor :=
  (barren_trivia_token fun token next => (ends token next).1).append

/-- Without a level left for variadic parameters, the other ones are read alike. -/
theorem carries_parameterList_zero :
    grammar.Carries 0 Alike (Before Token.EndsParameters) .parameterList := by
  have commaOnly (token : Token) (isComma : token.isPunctuator .comma = true) :
      token.isPunctuator .ellipsis = false := by
    simp [Token.isPunctuator, Token.kind_of_isPunctuator isComma]
  have begins : grammar.Begins (Token.isPunctuator .comma)
      (.separator ++ .absent .variadicParameter ++ .identifier) := begins_separator.append.append
  have several : grammar.Carries 0 Alike (Before Token.EndsParameters)
      (.many (.separator ++ .absent .variadicParameter ++ .identifier)) := by
    refine (carries_furtherParameter unmocked).many rfl ?_ ?_ ?_
    · intro cursor after failures later trees read
      exact begins.precedes commaOnly (derives_of_read (derives_of_readRule 0) _ read)
    · exact fun _ ends token next => (ends token next).2
    · exact fun _ _ ends many _ => (barren_separator ends many).append.append
  have variadic : grammar.Carries 0 Alike (Before Token.EndsParameters)
      (.optional (.separator ++ .rule .variadicParameter)) :=
    Carries.optional (Carries.behind rfl (carries_of_calls_pattern_eq_nil unmocked rfl))
      fun _ _ ends many _ => (barren_separator ends many).append
  have nothing {cursor after : Cursor} {failures later : Failures} {trees : List Tree}
      (read : (Pattern.optional (.separator ++ .rule .variadicParameter)).read (grammar.readRule 0)
        cursor failures = (some (trees, after), later)) : after = cursor := by
    rcases further : (Pattern.separator ++ .rule .variadicParameter).read (grammar.readRule 0)
        cursor failures with ⟨_ | ⟨_, _⟩, _⟩
    · rw [read_optional_of_none further] at read
      cases read
      rfl
    · obtain ⟨_, _, _, _, _, refused, _⟩ := exists_of_read_append further
      obtain ⟨_, refused, _⟩ := exists_of_read_rule refused
      obtain ⟨_, _, isBelow, _⟩ := exists_of_readRule refused
      cases isBelow
  refine Carries.orElse (carries_of_calls_pattern_eq_nil unmocked rfl)
    ((several.behind rfl).append variadic fun read ends => ?_) ?_
  · rwa [nothing read] at ends
  · intro cursor after failures between later trees _ _ read ends many _
    obtain ⟨_, middle, _, _, names, last, _⟩ := exists_of_read_append read
    rw [nothing last] at ends
    obtain ⟨_, _, _, _, name, others, _⟩ := exists_of_read_append names
    rw [read_of_calls_eq_nil grammar rfl, Prod.mk.injEq] at name
    have passes := (begins.passes commaOnly).many
    exact barren_variadicParameter_of_name unmocked name.1
      (passes _ _ _ (derives_of_read (derives_of_readRule 0) _ others)
        fun token next => (ends token next).2) many

/-- Parameters are read alike where neither a comma nor an ellipsis follows. -/
theorem carries_parameterList :
    grammar.Carries few Alike (Before Token.EndsParameters) (.rule .parameterList) := by
  refine carries_called unmocked fun below _ => ?_
  cases below with
  | zero => exact carries_parameterList_zero unmocked
  | succ below =>
      have quiet : ∀ called ∈ Rule.parameterList.pattern.calls,
          called.pattern.calls = [] ∧ called ≠ .somethingContainingParentheses := by decide
      exact carries_of_quiet unmocked quiet

/-- No element of a replacement list begins at the end of a line. -/
theorem barren_replacementElement
    (ends : cursor.Precedes fun token => token.isLineEnd = true)
    (levels : Nat) :
    grammar.Barren levels .replacementElement cursor := by
  have noContent : ∀ token ∈ cursor.rest.head?, token.isContent = false := by
    refine Cursor.Precedes.head (fun token next => ?_) fun token => isContent_eq_false_of_isTrivia
    simp [Token.isContent, ends token next]
  have noSymbol (symbol : Punctuator) :
      ∀ token ∈ cursor.rest.head?, token.isPunctuator symbol = false := by
    intro token first
    rw [Bool.eq_false_iff]
    intro isSymbol
    have refused := noContent token first
    rw [Token.isContent_of_isPunctuator isSymbol] at refused
    cases refused
  refine Barren.behind rfl fun trees middle read => ?_
  rw [treesAt?_ahead, Option.ite_none_right_eq_some, Option.some.injEq, Prod.mk.injEq] at read
  obtain ⟨_, _, rfl⟩ := read
  refine Barren.orElse ?_ (Barren.orElse ?_ ?_)
  · refine barren_called unmocked (by simp) (fun levels => ?_) levels
    refine (Barren.behind rfl fun trees middle read => ?_).append.append
    rw [Pattern.optional, ← Pattern.orElse_eq, treesAt?_orElse, Option.or_eq_some_iff] at read
    rcases read with encoding | ⟨_, nothing⟩
    · obtain ⟨_, after, _, found, _⟩ := exists_of_treesAt?_append encoding
      obtain ⟨token, bumped, isName, _⟩ := exists_of_treesAt?_token found
      have refused := noContent token (by rw [(Cursor.advances_of_bump? bumped).rest]; rfl)
      rw [Token.isContent_of_isIdentifier (Bool.and_eq_true_iff.1 isName).1] at refused
      cases refused
    · cases nothing
      exact barren_token (noSymbol .hash)
  · exact barren_called unmocked (by simp) (fun _ => barren_token (noSymbol .hashHash)) levels
  · exact barren_called unmocked (by simp) (fun _ => barren_token noContent) levels

/-- A replacement list is empty only where the line ends, so it is read alike there. -/
theorem carries_replacementList :
    grammar.Carries few Alike BeforeLineEnd (.rule .replacementList) := by
  refine carries_called unmocked fun below _ => ?_
  cases below with
  | zero =>
      -- No element can be read without a level.
      have element {cursor after : Cursor} {failures later : Failures} {trees : List Tree}
          (read : Pattern.replacementElement.read (grammar.readRule 0) cursor failures =
            (some (trees, after), later)) : False := by
        obtain ⟨_, _, _, _, _, refused, _⟩ := exists_of_read_append read
        obtain ⟨_, isBelow⟩ := exists_of_read_firstOf refused
        cases isBelow
      refine Carries.optional ?_ fun _ _ ends many _ =>
        (barren_replacementElement unmocked ends many).append
      intro many cursor after failures others later trees _ _ _ read _
      obtain ⟨_, _, _, _, first, _⟩ := exists_of_read_append read
      exact (element first).elim
  | succ below =>
      have quiet : ∀ called ∈ Rule.replacementList.pattern.calls,
          called.pattern.calls = [] ∧ called ≠ .somethingContainingParentheses := by decide
      exact carries_of_quiet unmocked quiet

/-- Where a definition has no parameters, a closing parenthesis follows at once. -/
theorem carries_functionlikeMacroDefinition :
    grammar.Carries few Alike stop (.rule .functionlikeMacroDefinition) := by
  refine carries_called unmocked fun below _ => ?_
  have parameters : grammar.Carries below Alike
      (Before fun token => token.isPunctuator .rightParen = true)
      (.optional (.rule .parameterList)) := by
    refine Carries.optional ((carries_parameterList unmocked).mono ?_) ?_
    · intro after _ closes token next
      have kind := Token.kind_of_isPunctuator (closes token next)
      exact ⟨by simp [Token.isPunctuator, kind], by simp [Token.isPunctuator, kind]⟩
    · intro cursor failures later _ _ closes many _
      have closed : cursor.Precedes fun token =>
          token.isPunctuator .ellipsis = false ∧ token.isIdentifier = false := by
        intro token next
        have kind := Token.kind_of_isPunctuator (closes token next)
        exact ⟨by simp [Token.isPunctuator, kind], by simp [Token.isIdentifier, kind]⟩
      refine barren_parameterList unmocked (closed.head fun token trivial => ?_) many
      cases kind : token.kind <;>
        simp_all [Token.isTrivia, TokenKind.isTrivia, Token.isPunctuator, Token.isIdentifier]
  exact ((((parameters.behind rfl).trivia.token (fun _ => Token.isTrivia_of_isPunctuator)
    fun _ isClosing => isClosing).andThen (carries_of_calls_eq_nil rfl)).andThen
      (carries_replacementList unmocked)).endOfLine

theorem carries_objectlikeMacroDefinition :
    grammar.Carries few Alike stop (.rule .objectlikeMacroDefinition) :=
  carries_called unmocked fun _ _ => ((carries_replacementList unmocked).behind rfl).endOfLine

omit unmocked in
theorem isPunctuator_of_peekKind
    {symbol : Punctuator}
    (other : (cursor.peekKind != .punctuator symbol) = true) :
    ∀ token ∈ cursor.rest.head?, token.isPunctuator symbol = false := by
  intro token first
  rw [Bool.eq_false_iff]
  intro isSymbol
  have kind : cursor.peekKind = .punctuator symbol := by
    obtain ⟨position, rest⟩ := cursor
    cases rest with
    | nil => cases first
    | cons found rest =>
        cases first
        simp [Cursor.peekKind, Cursor.peek?, Token.kind_of_isPunctuator isSymbol]
  simp [kind] at other

/-- A parenthesis directly behind its name decides whether a macro has parameters. -/
theorem carries_defineLine : grammar.Carries few Alike stop (.rule .defineLine) := by
  refine carries_called unmocked fun below _ =>
    (carries_functionlikeMacroDefinition unmocked).orElse
      (carries_objectlikeMacroDefinition unmocked) ?_
  intro cursor after failures between later trees _ _ read _ many _
  obtain ⟨_, read, _⟩ := exists_of_read_rule read
  obtain ⟨_, _, _, _, body, _⟩ := exists_of_readRule read
  rw [pattern_eq unmocked] at body
  obtain ⟨_, _, _, _, body, _, _⟩ := exists_of_read_append body
  obtain ⟨_, _, _, _, body, _, _⟩ := exists_of_read_append body
  obtain ⟨_, _, _, _, front, _, _⟩ := exists_of_read_append body
  rw [read_of_calls_eq_nil grammar rfl, Prod.mk.injEq] at front
  obtain ⟨_, behindName, _, head, ahead, _⟩ := exists_of_treesAt?_append front.1
  rw [treesAt?_ahead, Option.ite_none_right_eq_some] at ahead
  refine barren_called unmocked (by simp) (fun levels => ?_) many
  have parenthesis : grammar.Barren levels (.definitionHead ++ .symbol .leftParen) cursor := by
    refine Barren.behind rfl fun trees middle read => ?_
    rw [head] at read
    cases read
    exact barren_token (isPunctuator_of_peekKind ahead.1)
  exact parenthesis.append.append.append.append.append.append.append

/-- In front of the end of a line every construct is read alike with few levels and with many. -/
theorem carries_construct (rule : Rule) (notLine : rule ≠ .preprocessorLine) :
    grammar.Carries few Alike BeforeLineEnd (.rule rule) := by
  by_cases callsNone : rule.pattern.calls = []
  · exact carries_of_calls_pattern_eq_nil unmocked callsNone
  by_cases expression : rule ∈ Rule.expressions
  · exact (carries_expressions unmocked few rule expression).mono fun _ _ ends token next =>
      Token.settles_of_isLineEnd (ends token next) rule
  have endsArgument : ∀ after later, BeforeLineEnd after later →
      Before Token.EndsArgument after later := fun _ _ ends token next =>
    Token.opensArgument_of_isLineEnd (ends token next)
  have endsParameters : ∀ after later, BeforeLineEnd after later →
      Before Token.EndsParameters after later := fun _ _ ends token next =>
    ⟨Token.isPunctuator_of_isLineEnd (ends token next) _,
      Token.isPunctuator_of_isLineEnd (ends token next) _⟩
  have condition : ∀ after later, BeforeLineEnd after later →
      Before (Token.Settles .conditionalExpression) after later := fun _ _ ends token next =>
    Token.settles_of_isLineEnd (ends token next) _
  obtain ⟨argumentList, argument, call⟩ := carries_arguments unmocked few
  cases rule
  case preprocessorLine => contradiction
  case defineLine => exact carries_defineLine unmocked
  case includeLine => exact carries_includeLine unmocked
  case ppImport => exact carries_ppImport unmocked
  case ppModule => exact carries_ppModule unmocked
  case ifLine => exact carries_called unmocked fun _ _ => carries_conditionLine unmocked "if"
  case elifLine => exact carries_called unmocked fun _ _ => carries_conditionLine unmocked "elif"
  case functionlikeMacroDefinition => exact carries_functionlikeMacroDefinition unmocked
  case objectlikeMacroDefinition => exact carries_objectlikeMacroDefinition unmocked
  case parameterList => exact (carries_parameterList unmocked).mono endsParameters
  case replacementList => exact carries_replacementList unmocked
  case argumentList => exact argumentList.mono endsArgument
  case argument => exact argument.mono endsArgument
  case somethingContainingParentheses => exact call _
  case includeBody => exact carries_includeBody unmocked
  case expandedIncludeBody => exact carries_called unmocked fun _ _ => carries_headerName unmocked _
  case includeBodyFreeform => exact carries_includeBodyFreeform unmocked
  case constantExpression => exact (carries_constantExpression unmocked few).mono condition
  case hasIncludeExpression => exact carries_hasIncludeExpression unmocked _
  case functionlikeMacro => exact carries_functionlikeMacro unmocked _
  all_goals first | exact absurd rfl callsNone | exact absurd (by decide) expression

end Unmocked
end Grammar
end PreprocessorSyntax
