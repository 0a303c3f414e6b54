import PreprocessorSyntax.Proofs.Lexer.Delimiting
import PreprocessorSyntax.Proofs.Lexer.Locations

/-!
# Dotted names and the white space around them

A declaration is made of phrases: names joined by dots, colons and semicolons.
Blanks and closed block comments may be added between two phrases, but not
within one.  However they are set apart, the lexer finds the tokens of the
phrases with nothing but trivia between them.
-/

namespace PreprocessorSyntax

/-- White space on a line and block comments that are closed. -/
inductive IsGap : List Char → Prop
  | nil : IsGap []
  | blank
      {c : Char} {gap : List Char}
      (isBlank : isBlank c = true)
      (isGap : IsGap gap) :
      IsGap (c :: gap)
  /-- A backslash and the line end that it hides. -/
  | splice
      {gap : List Char}
      (carriage : Bool)
      (isGap : IsGap gap) :
      IsGap ('\\' :: ((if carriage then ['\r', '\n'] else ['\n']) ++ gap))
  | comment
      {body gap : List Char}
      (unclosed : ¬ ['*', '/'] <:+: body)
      (isGap : IsGap gap) :
      IsGap ('/' :: '*' :: (body ++ '*' :: '/' :: gap))

/-- What stands in a declaration without anything added inside. -/
inductive Phrase where
  /-- Names joined by dots. -/
  | name (parts : List String)
  | symbol (mark : Punctuator)
  deriving DecidableEq, Repr

namespace Phrase

/-- The characters of a phrase. -/
def text : Phrase → String
  | .name parts => ".".intercalate parts
  | .symbol mark => mark.spelling

/-- Whether a phrase is made of names. -/
def isName : Phrase → Bool
  | .name _ => true
  | .symbol _ => false

/-- The parts of a name are single identifiers, and only two symbols are in use. -/
def IsPlain : Phrase → Prop
  | .name parts =>
    parts ≠ [] ∧ ∀ part ∈ parts, munch part.toList = some (.identifier, part.length)
  | .symbol mark => mark = .colon ∨ mark = .semicolon

end Phrase

/-- Phrases with gaps between them; without a gap, a name and a symbol have to alternate. -/
inductive Spaced : List Phrase → List Char → Prop
  | last (phrase : Phrase) : Spaced [phrase] phrase.text.toList
  | further
      {phrase next : Phrase} {phrases : List Phrase} {gap text : List Char}
      (isGap : IsGap gap)
      (apart : gap = [] → phrase.isName ≠ next.isName)
      (spaced : Spaced (next :: phrases) text) :
      Spaced (phrase :: next :: phrases) (phrase.text.toList ++ (gap ++ text))

/-- Identifiers with dots between them. -/
inductive WritesName : List String → List Token → Prop
  | single
      {token : Token}
      (isIdentifier : token.isIdentifier = true) :
      WritesName [token.text] [token]
  | dotted
      {token dot : Token} {parts : List String} {tokens : List Token}
      (isIdentifier : token.isIdentifier = true)
      (isDot : dot.isPunctuator .dot = true)
      (spelled : dot.text = ".")
      (writes : WritesName parts tokens) :
      WritesName (token.text :: parts) (token :: dot :: tokens)

/-- The tokens of a phrase. -/
inductive Phrase.Writes : Phrase → List Token → Prop
  | name
      {parts : List String} {tokens : List Token}
      (writes : WritesName parts tokens) :
      Writes (.name parts) tokens
  | symbol
      {mark : Punctuator} {token : Token}
      (isSymbol : token.isPunctuator mark = true) :
      Writes (.symbol mark) [token]

/-- The tokens of phrases with white space and comments between them. -/
inductive WritesPhrases : List Phrase → List Token → Prop
  | last
      {phrase : Phrase} {tokens : List Token}
      (writes : phrase.Writes tokens) :
      WritesPhrases [phrase] tokens
  | further
      {phrase next : Phrase} {phrases : List Phrase} {tokens blanks behind : List Token}
      (writes : phrase.Writes tokens)
      (trivial : ∀ token ∈ blanks, token.isTrivia = true)
      (writesBehind : WritesPhrases (next :: phrases) behind) :
      WritesPhrases (phrase :: next :: phrases) (tokens ++ (blanks ++ behind))

variable {front back gap name text : List Char} {holds : List Token → Prop}
variable {parts : List String} {tokens behind : List Token} {phrase next : Phrase}
variable {phrases : List Phrase}

theorem WritesName.significant (writes : WritesName parts tokens) (rest : List Token) :
    Significant (tokens ++ rest) := by
  cases writes with
  | single isIdentifier | dotted isIdentifier =>
      exact significant_cons (Token.isTrivia_of_isIdentifier isIdentifier) _

theorem WritesPhrases.significant (writes : WritesPhrases phrases tokens) : Significant tokens := by
  have starts {phrase : Phrase} {tokens : List Token} (writes : phrase.Writes tokens)
      (rest : List Token) : Significant (tokens ++ rest) := by
    cases writes with
    | name writes => exact writes.significant rest
    | symbol isSymbol => exact significant_cons (Token.isTrivia_of_isPunctuator isSymbol) _
  cases writes with
  | last writes => simpa using starts writes []
  | further writes => exact starts writes _

/-- Some trivia in front of tokens of which something is known. -/
def Gapped (holds : List Token → Prop) (tokens : List Token) : Prop :=
  ∃ blanks behind, tokens = blanks ++ behind ∧ (∀ token ∈ blanks, token.isTrivia = true) ∧
    Significant behind ∧ holds behind

/-- A comment ends where it is closed for the first time. -/
theorem blockCommentTail?_append
    {body : List Char}
    (unclosed : ¬ ['*', '/'] <:+: body)
    (rest : List Char) :
    blockCommentTail? (body ++ '*' :: '/' :: rest) = some (body.length + 2) := by
  induction body with
  | nil => rfl
  | cons c body inductionHypothesis =>
      have later := inductionHypothesis fun inside => unclosed (List.infix_cons inside)
      rw [List.cons_append, blockCommentTail?, later]
      · rfl
      · rintro tail rfl behind
        cases body with
        | nil => simp at behind
        | cons d body =>
            obtain ⟨rfl, -⟩ := List.cons.inj behind
            exact unclosed ⟨[], body, rfl⟩

/-- White space is read as far as it goes. -/
theorem Lexer.Yields.exists_of_blank
    {location : Location}
    (yields : Yields ⟨text, location⟩ tokens)
    (blank : 0 < blankLength text) :
    ∃ token behind, tokens = token :: behind ∧ token.isTrivia = true ∧
      Yields ⟨text.drop (blankLength text), location.advance (text.take (blankLength text))⟩
        behind := by
  have munched := munch_of_blank blank
  cases yields with
  | last read ends =>
      obtain ⟨_, found, _⟩ := next_eq_ok read
      rw [munched, ends] at found
      cases found
  | step read _ yieldsBehind =>
      obtain ⟨_, found, _, _, rfl⟩ := next_eq_ok read
      obtain ⟨kind, rfl⟩ := Prod.mk.inj (Option.some.inj (munched.symm.trans found))
      refine ⟨_, _, rfl, ?_, yieldsBehind⟩
      rw [Token.isTrivia, ← kind]
      rfl

/-- Blanks in front of a text join the white space that it starts with. -/
theorem Lexes.blanks
    (run : blankLength (front ++ back) = blankLength back + front.length)
    (something : front ≠ [])
    (lexes : Lexes back (Gapped holds)) :
    Lexes (front ++ back) (Gapped holds) := by
  intro location
  obtain ⟨_, ending, yields, ends, inLine, blanks, behind, rfl, trivial, significant, holds⟩ :=
    lexes (location.advance front)
  have positive := List.length_pos_iff.2 something
  have munched : munch (front ++ back) =
      some (.whitespace, front.length + blankLength back) := by
    rw [Nat.add_comm, ← run]
    exact munch_of_blank (by rw [run]; omega)
  have read : Lexer.next ⟨front ++ back, location⟩ =
      (.ok ⟨.whitespace, String.ofList (front ++ back.take (blankLength back)), location⟩,
        ⟨back.drop (blankLength back),
          (location.advance front).advance (back.take (blankLength back))⟩) := by
    simp [Lexer.next, Lexer.skip, munched, List.take_length_add_append,
      List.drop_length_add_append, Location.advance_append]
  have continues : TokenKind.whitespace ≠ .endOfInput := by simp
  rcases Nat.eq_zero_or_pos (blankLength back) with noBlank | blank
  · rw [noBlank, List.take_zero, List.drop_zero, List.append_nil] at read
    exact ⟨_ :: (blanks ++ behind), ending, .step read continues yields, ends,
      List.forall_mem_cons.2 ⟨rfl, inLine⟩, _ :: blanks, behind, rfl,
      List.forall_mem_cons.2 ⟨rfl, trivial⟩, significant, holds⟩
  · obtain ⟨token, rest, equal, isTrivia, yieldsRest⟩ := yields.exists_of_blank blank
    cases blanks with
    | nil =>
        -- White space would come first, but something significant does.
        have first : Significant (behind ++ [ending]) := by
          refine significant.append_ends ?_
          rintro _ ⟨⟩
          rw [Token.isLineEnd, ends]
          rfl
        rw [List.nil_append] at equal
        rw [equal] at first
        rw [first token rfl] at isTrivia
        cases isTrivia
    | cons blank blanks =>
        obtain ⟨-, rfl⟩ := List.cons.inj equal
        exact ⟨_ :: (blanks ++ behind), ending, .step read continues yieldsRest, ends,
          List.forall_mem_cons.2 ⟨rfl, (List.forall_mem_cons.1 inLine).2⟩, _ :: blanks, behind,
          rfl, List.forall_mem_cons.2 ⟨rfl, (List.forall_mem_cons.1 trivial).2⟩, significant,
          holds⟩

/-- A gap is read as white space and comments, whatever significant comes behind it. -/
theorem lexes_gap
    (isGap : IsGap gap)
    (significant : ∀ tokens, holds tokens → Significant tokens)
    (lexes : Lexes text holds) :
    Lexes (gap ++ text) (Gapped holds) := by
  induction isGap with
  | nil =>
      exact lexes.mono fun tokens here => ⟨[], tokens, rfl, by simp, significant tokens here, here⟩
  | @blank c gap isBlank _ inductionHypothesis =>
      have run : blankLength ([c] ++ (gap ++ text)) = blankLength (gap ++ text) + [c].length :=
        blankLength_blank isBlank _
      have joined : Lexes ([c] ++ (gap ++ text)) (Gapped holds) :=
        inductionHypothesis.blanks run (by simp)
      exact joined
  | @splice gap carriage _ inductionHypothesis =>
      let feed : List Char := if carriage then ['\r', '\n'] else ['\n']
      have run : blankLength ('\\' :: feed ++ (gap ++ text)) =
          blankLength (gap ++ text) + ('\\' :: feed).length := by
        cases carriage <;> rfl
      have joined := inductionHypothesis.blanks run (by simp)
      rwa [List.cons_append, ← List.append_assoc, ← List.cons_append] at joined
  | @comment body gap unclosed _ inductionHypothesis =>
      have munched : munch ('/' :: '*' :: (body ++ ['*', '/']) ++ (gap ++ text)) =
          some (.comment .block, ('/' :: '*' :: (body ++ ['*', '/'])).length) := by
        rw [List.cons_append, List.cons_append, munch_slash_star, List.append_assoc,
          List.cons_append, List.cons_append, List.nil_append, blockCommentTail?_append unclosed]
        simp
      have comment : Lexes ('/' :: '*' :: (body ++ ['*', '/']) ++ (gap ++ text)) (Gapped holds) := by
        refine inductionHypothesis.cons munched rfl ?_
        rintro token _ kind _ ⟨blanks, behind, rfl, trivial, significant, holds⟩
        have isTrivia : token.isTrivia = true := by
          rw [Token.isTrivia, kind]
          rfl
        exact ⟨token :: blanks, behind, rfl, List.forall_mem_cons.2 ⟨isTrivia, trivial⟩,
          significant, holds⟩
      simpa using comment

/-- A letter is no digit. -/
theorem isDigit_of_isIdentifierStart (start : isIdentifierStart c = true) : c.isDigit = false := by
  rw [Bool.eq_false_iff]
  intro digit
  have upper : c.isUpper = decide (65 ≤ c.toNat ∧ c.toNat ≤ 90) := rfl
  have lower : c.isLower = (decide (97 ≤ c.toNat) && decide (c.toNat ≤ 122)) := rfl
  have letter : c.isAlpha = (c.isUpper || c.isLower) := rfl
  have digits : c.isDigit = (decide (48 ≤ c.toNat) && decide (c.toNat ≤ 57)) := rfl
  rw [digits, Bool.and_eq_true, decide_eq_true_eq, decide_eq_true_eq] at digit
  rw [isIdentifierStart, letter, upper, lower] at start
  simp only [Bool.or_eq_true, Bool.and_eq_true, decide_eq_true_eq, beq_iff_eq] at start
  rcases start with ((upper | lower) | rfl) | wide
  · omega
  · omega
  · revert digit
    decide
  · omega

/-- A dot in front of a letter starts neither an ellipsis nor a number. -/
theorem munch_dot (starts : ∀ c ∈ back.head?, isIdentifierStart c = true) :
    munch ('.' :: back) = some (.punctuator .dot, 1) := by
  cases back with
  | nil => rfl
  | cons c back =>
      have start := starts c rfl
      have noDigit := isDigit_of_isIdentifierStart start
      have noDot : ('.' == c) = false := by
        rw [beq_eq_false_iff_ne]
        rintro rfl
        cases start
      simp [munch, blankLength, isBlank, literalOpening?, isQuote, isIdentifierStart,
        punctuatorToken, punctuatorTable, Punctuator.all, Punctuator.spelling, List.isPrefixOf,
        noDigit, noDot]

/-- Of the symbols of a declaration only two colons could run together. -/
theorem munch_mark
    {mark : Punctuator}
    (listed : mark = .colon ∨ mark = .semicolon)
    (noColon : ∀ c ∈ back.head?, c ≠ ':') :
    munch (mark.spelling.toList ++ back) = some (.punctuator mark, mark.spelling.toList.length) := by
  rcases listed with rfl | rfl
  · cases back with
    | nil => rfl
    | cons c back =>
        have other : (':' == c) = false := beq_eq_false_iff_ne.2 (Ne.symm (noColon c rfl))
        simp [munch, blankLength, isBlank, literalOpening?, isQuote, isIdentifierStart,
          punctuatorToken, punctuatorTable, Punctuator.all, Punctuator.spelling, List.isPrefixOf,
          other]
  · rfl

/-- A text that is lexed as one identifier is a name. -/
theorem isName_of_munch_self
    {part : String}
    (single : munch part.toList = some (.identifier, part.length)) :
    isName part.toList = true := by
  have named := isName_of_munch single
  rwa [← String.length_toList, List.take_length] at named

/-- Names begin with a letter. -/
theorem isIdentifierStart_head
    (something : parts ≠ [])
    (named : ∀ part ∈ parts, isName part.toList = true)
    (back : List Char) :
    ∀ c ∈ ((".".intercalate parts).toList ++ back).head?, isIdentifierStart c = true := by
  obtain ⟨part, others, rfl⟩ := List.exists_cons_of_ne_nil something
  have front : ∃ rest, (".".intercalate (part :: others)).toList = part.toList ++ rest := by
    rcases eq_or_ne others [] with rfl | further
    · exact ⟨[], by simp⟩
    · rw [String.intercalate_cons_of_ne_nil further, String.toList_append, String.toList_append,
        List.append_assoc]
      exact ⟨_, rfl⟩
  obtain ⟨rest, front⟩ := front
  have isName := named part List.mem_cons_self
  rw [front]
  cases spelled : part.toList with
  | nil =>
      rw [spelled] at isName
      cases isName
  | cons c tail =>
      rw [spelled] at isName
      rintro _ ⟨⟩
      exact (Bool.and_eq_true_iff.1 isName).1

/-- Names joined by dots are read as identifiers and dots. -/
theorem lexes_name
    (something : parts ≠ [])
    (named : ∀ part ∈ parts, isName part.toList = true)
    (ends : EndsName back)
    (lexes : Lexes back holds) :
    Lexes ((".".intercalate parts).toList ++ back) fun tokens =>
      ∃ region behind, tokens = region ++ behind ∧ WritesName parts region ∧ holds behind := by
  induction parts with
  | nil => exact absurd rfl something
  | cons part parts inductionHypothesis =>
      obtain ⟨isName, namedBehind⟩ := List.forall_mem_cons.1 named
      rcases eq_or_ne parts [] with rfl | further
      · have read := lexes.identifier isName ends
        rw [String.intercalate_singleton]
        refine read.mono ?_
        rintro _ ⟨token, behind, rfl, isIdentifier, text, holds⟩
        rw [String.ofList_toList] at text
        exact ⟨[token], behind, rfl, text ▸ .single isIdentifier, holds⟩
      · have later := inductionHypothesis further namedBehind
        have starts : ∀ c ∈ ((".".intercalate parts).toList ++ back).head?,
            isIdentifierStart c = true := by
          exact isIdentifierStart_head further namedBehind back
        have dotted : Lexes (['.'] ++ ((".".intercalate parts).toList ++ back)) fun tokens =>
            ∃ dot region behind, tokens = dot :: (region ++ behind) ∧
              dot.isPunctuator .dot = true ∧ dot.text = "." ∧ WritesName parts region ∧
              holds behind := by
          refine later.cons (munch_dot starts) rfl ?_
          rintro dot _ kind text ⟨region, behind, rfl, writes, holds⟩
          exact ⟨dot, region, behind, rfl, beq_iff_eq.2 kind, text, writes, holds⟩
        have read := dotted.identifier isName (endsName_cons (by decide) _)
        rw [String.intercalate_cons_of_ne_nil further, String.toList_append, String.toList_append,
          List.append_assoc, List.append_assoc]
        refine read.mono ?_
        rintro _ ⟨token, _, rfl, isIdentifier, text, dot, region, behind, rfl, isDot, spelled,
          writes, holds⟩
        rw [String.ofList_toList] at text
        exact ⟨token :: dot :: region, behind, rfl,
          text ▸ .dotted isIdentifier isDot spelled writes, holds⟩

/-- What ends a phrase: no name goes on behind another one, and no symbol behind a symbol. -/
def EndsPhrase (phrase : Phrase) (back : List Char) : Prop :=
  if phrase.isName then EndsName back else ∀ c ∈ back.head?, c ≠ ':'

theorem lexes_phrase
    (plain : phrase.IsPlain)
    (ends : EndsPhrase phrase back)
    (lexes : Lexes back holds) :
    Lexes (phrase.text.toList ++ back) fun tokens =>
      ∃ region behind, tokens = region ++ behind ∧ phrase.Writes region ∧ holds behind := by
  cases phrase with
  | name parts =>
      have named (part : String) (present : part ∈ parts) : isName part.toList = true :=
        isName_of_munch_self (plain.2 part present)
      refine (lexes_name plain.1 named ends lexes).mono ?_
      rintro _ ⟨region, behind, rfl, writes, holds⟩
      exact ⟨region, behind, rfl, .name writes, holds⟩
  | symbol mark =>
      refine lexes.cons (munch_mark plain ends) rfl fun token tokens kind _ holds => ?_
      exact ⟨[token], tokens, rfl, .symbol (beq_iff_eq.2 kind), holds⟩

/-- White space, a splice or a comment ends every phrase. -/
theorem IsGap.endsPhrase
    (isGap : IsGap gap)
    (something : gap ≠ [])
    (phrase : Phrase)
    (text : List Char) :
    EndsPhrase phrase (gap ++ text) := by
  have first : ∀ c ∈ (gap ++ text).head?, (isIdentifierPart c || isQuote c) = false ∧ c ≠ ':' := by
    cases isGap with
    | nil => exact absurd rfl something
    | blank isBlank _ =>
        rintro _ ⟨⟩
        simp only [PreprocessorSyntax.isBlank, Bool.or_eq_true, beq_iff_eq] at isBlank
        rcases isBlank with (((rfl | rfl) | rfl) | rfl) | rfl <;> decide
    | splice =>
        rintro _ ⟨⟩
        decide
    | comment =>
        rintro _ ⟨⟩
        decide
  unfold EndsPhrase
  split
  · exact fun c here => Bool.or_eq_false_iff.1 (first c here).1
  · exact fun c here => (first c here).2

/-- Without a gap, a name ends at a symbol, and a symbol at a name. -/
theorem Spaced.endsPhrase
    (spaced : Spaced phrases text)
    (plain : ∀ phrase ∈ phrases, phrase.IsPlain)
    (alternate : ∀ next ∈ phrases.head?, phrase.isName ≠ next.isName) :
    EndsPhrase phrase text := by
  have front : ∃ next rest, next ∈ phrases.head? ∧ text = next.text.toList ++ rest := by
    cases spaced with
    | last next => exact ⟨next, [], rfl, by simp⟩
    | further => exact ⟨_, _, rfl, rfl⟩
  obtain ⟨next, rest, first, rfl⟩ := front
  have plainNext := plain next (List.mem_of_head? first)
  have different := alternate next first
  unfold EndsPhrase
  cases next with
  | name parts =>
      have named (part : String) (present : part ∈ parts) : isName part.toList = true :=
        isName_of_munch_self (plainNext.2 part present)
      have starts := isIdentifierStart_head plainNext.1 named rest
      have isSymbol : phrase.isName = false := by simpa [Phrase.isName] using different
      rw [if_neg (by simp [isSymbol])]
      rintro c here rfl
      cases starts _ here
  | symbol mark =>
      have isName : phrase.isName = true := by simpa [Phrase.isName] using different
      rw [if_pos isName]
      rcases plainNext with rfl | rfl
      · exact endsName_cons (by decide) _
      · exact endsName_cons (by decide) _

/-- Phrases that are spaced out are read as written, with trivia between them. -/
theorem lexes_phrases
    (spaced : Spaced phrases text)
    (plain : ∀ phrase ∈ phrases, phrase.IsPlain) :
    Lexes text (WritesPhrases phrases) := by
  induction spaced with
  | last phrase =>
      have nothing : EndsPhrase phrase [] := by
        unfold EndsPhrase
        split <;> simp [EndsName]
      have finished : Lexes [] (· = []) := lexes_nil rfl
      have read := lexes_phrase (plain phrase List.mem_cons_self) nothing finished
      rw [List.append_nil] at read
      refine read.mono ?_
      rintro _ ⟨region, _, rfl, writes, rfl⟩
      rw [List.append_nil]
      exact .last writes
  | @further phrase next phrases gap text isGap apart spaced inductionHypothesis =>
      obtain ⟨plainHere, plainBehind⟩ := List.forall_mem_cons.1 plain
      have behind := lexes_gap isGap (fun _ => WritesPhrases.significant)
        (inductionHypothesis plainBehind)
      have ends : EndsPhrase phrase (gap ++ text) := by
        rcases eq_or_ne gap [] with rfl | something
        · refine spaced.endsPhrase plainBehind ?_
          rintro _ ⟨⟩
          exact apart rfl
        · exact isGap.endsPhrase something phrase text
      refine (lexes_phrase plainHere ends behind).mono ?_
      rintro _ ⟨region, _, rfl, writes, blanks, later, rfl, trivial, _, writesBehind⟩
      exact .further writes trivial writesBehind

/-- Tokens that stand side by side have nothing between them. -/
theorem Lexer.Yields.join_significantPieces_run
    {lexer : Lexer}
    {run after : List Token}
    {started : Bool}
    {lastEnd : Option Nat}
    (yields : lexer.Yields (run ++ after))
    (contents : ∀ token ∈ run, token.isContent = true)
    (beside : ∀ last ∈ lastEnd, last = lexer.location.offset) :
    significantPieces started false lastEnd run = run.map Token.text := by
  induction run generalizing lexer started lastEnd with
  | nil => rfl
  | cons token run inductionHypothesis =>
      obtain ⟨content, contentsBehind⟩ := List.forall_mem_cons.1 contents
      have noSkip : (token.isTrivia || token.isLineEnd) = false := by
        simpa [Token.isContent] using content
      generalize whole : token :: run ++ after = tokens at yields
      cases yields with
      | last read ends =>
          obtain ⟨rfl, -⟩ := List.cons.inj whole
          exact absurd ends (readable_of_isContent content)
      | step read _ rest =>
          obtain ⟨rfl, rfl⟩ := List.cons.inj whole
          obtain ⟨length, _, text, location, rfl⟩ := next_eq_ok read
          have ending : token.endOffset = (lexer.skip length).location.offset := by
            rw [Token.endOffset, location, text, skip, Location.offset_advance]
          have noGap : lastEnd.any (· < token.location.offset) = false := by
            cases lastEnd with
            | none => rfl
            | some last => simp [location, beside last rfl]
          have behind : ∀ last ∈ some token.endOffset,
              last = (lexer.skip length).location.offset := by simp [ending]
          simp only [significantPieces, noSkip, noGap, Bool.or_self, Bool.false_eq_true, if_false,
            inductionHypothesis rest contentsBehind behind, List.map_cons, List.singleton_append]

/-- The significant text of neighbouring tokens is the text between the first and the last. -/
theorem Lexer.Yields.significantText_run
    {lexer : Lexer}
    {before run after : List Token}
    (yields : lexer.Yields (before ++ (run ++ after)))
    (something : run ++ after ≠ [])
    (contents : ∀ token ∈ run, token.isContent = true) :
    significantText run = String.join (run.map Token.text) := by
  obtain ⟨behind, yieldsRun, -⟩ := yields.exists_suffix something
  rw [significantText, yieldsRun.join_significantPieces_run contents (by simp)]

theorem WritesName.isContent (writes : WritesName parts tokens) :
    ∀ token ∈ tokens, token.isContent = true := by
  induction writes with
  | single isIdentifier => simp [Token.isContent_of_isIdentifier isIdentifier]
  | dotted isIdentifier isDot _ _ inductionHypothesis =>
      exact List.forall_mem_cons.2 ⟨Token.isContent_of_isIdentifier isIdentifier,
        List.forall_mem_cons.2 ⟨Token.isContent_of_isPunctuator isDot, inductionHypothesis⟩⟩

/-- The tokens of a name spell it. -/
theorem WritesName.join_text (writes : WritesName parts tokens) :
    String.join (tokens.map Token.text) = ".".intercalate parts := by
  induction writes with
  | single => simp [String.join]
  | @dotted token dot parts tokens _ _ spelled writes inductionHypothesis =>
      have further : parts ≠ [] := by cases writes <;> simp
      rw [String.intercalate_cons_of_ne_nil further, List.map_cons, List.map_cons,
        String.join_cons, String.join_cons, inductionHypothesis, spelled, String.append_assoc]

end PreprocessorSyntax
