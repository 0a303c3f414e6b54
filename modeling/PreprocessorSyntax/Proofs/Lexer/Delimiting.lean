import PreprocessorSyntax.Proofs.Lexer.Lines

/-!
# Where tokens end

To find the end of a token the lexer looks beyond it: for further signs of a
number, for the closing quote of a literal, for a longer punctuator.  But what
it finds there only tells where the token ends.  The text of a token on its own
is that token again, and punctuators are as long as they can be.

Quotes that are not closed are the tokens that look furthest.  They are told
from all other tokens by the rest of their line, and they take an encoding
prefix that stands in front of them with them.
-/

namespace PreprocessorSyntax

variable {text : List Char} {c quote : Char} {kind : TokenKind} {length : Nat}

theorem blankLength_blank (blank : isBlank c = true) (rest : List Char) :
    blankLength (c :: rest) = blankLength rest + 1 := by
  simp only [isBlank, Bool.or_eq_true, beq_iff_eq] at blank
  rcases blank with (((rfl | rfl) | rfl) | rfl) | rfl <;> rfl

/-- White space has no character that needs what is behind it. -/
theorem blankLength_take (text : List Char) :
    blankLength (text.take (blankLength text)) = blankLength text := by
  fun_induction blankLength text with
  | case1 rest inductionHypothesis =>
      rw [List.take_succ_cons, List.take_succ_cons, blankLength, inductionHypothesis]
  | case2 rest inductionHypothesis =>
      rw [List.take_succ_cons, List.take_succ_cons, List.take_succ_cons, blankLength,
        inductionHypothesis]
  | case3 c rest _ _ blank inductionHypothesis =>
      rw [List.take_succ_cons, blankLength_blank blank, inductionHypothesis]
  | case4 => rfl
  | case5 => rfl

theorem munch_of_blank (blank : 0 < blankLength text) :
    munch text = some (.whitespace, blankLength text) := by
  cases text with
  | nil => exact absurd blank (Nat.lt_irrefl 0)
  | cons c rest => simp [munch, blank]

/-- The end of a block comment has two characters. -/
theorem pos_of_blockCommentTail?
    {tail : Nat}
    (closed : blockCommentTail? text = some tail) :
    0 < tail := by
  fun_induction blockCommentTail? text with
  | case1 =>
      cases closed
      exact Nat.two_pos
  | case2 =>
      obtain ⟨shorter, _, rfl⟩ := Option.map_eq_some_iff.1 closed
      exact Nat.succ_pos shorter
  | case3 => cases closed

/-- A block comment ends with the first `*/` whatever stands behind it. -/
theorem blockCommentTail?_take_append
    {tail : Nat}
    (closed : blockCommentTail? text = some tail)
    (later : List Char) :
    blockCommentTail? (text.take tail ++ later) = some tail := by
  fun_induction blockCommentTail? text generalizing tail with
  | case1 =>
      cases closed
      rfl
  | case2 c rest notEnd inductionHypothesis =>
      obtain ⟨shorter, found, rfl⟩ := Option.map_eq_some_iff.1 closed
      rw [List.take_succ_cons, List.cons_append, blockCommentTail?, inductionHypothesis found]
      · rfl
      · rintro tail rfl slash
        cases rest with
        | nil => cases found
        | cons d rest =>
            cases shorter with
            | zero => exact absurd (pos_of_blockCommentTail? found) (Nat.lt_irrefl 0)
            | succ shorter =>
                obtain ⟨rfl, -⟩ := List.cons.inj slash
                exact notEnd rest rfl rfl
  | case3 => cases closed

/-- A text behind which nothing stands goes on like any other one that is cut off. -/
theorem resumes_nil (back : List Char) : Resumes back [] where
  shared := ⟨[], back, [], rfl, rfl, by simp⟩
  unclosed _ _ _ := rfl

/-- The characters of a token are that token again when nothing stands behind them. -/
theorem munch_take
    (munched : munch text = some (kind, length))
    (notEnd : kind ≠ .endOfInput) :
    munch (text.take length) = some (kind, length) := by
  have taken : (text.take length).length = length :=
    List.length_take_of_le (length_le_of_munch munched)
  have ofContent (notTrivia : kind.isTrivia = false) (inLine : kind.isLineEnd = false) :
      munch (text.take length) = some (kind, length) := by
    have front : munch (text.take length ++ text.drop length) =
        some (kind, (text.take length).length) := by
      rw [List.take_append_drop, taken, munched]
    simpa [taken] using munch_of_resumes front notTrivia inLine (resumes_nil _)
  cases munches_of_munch munched with
  | endOfInput => exact absurd rfl notEnd
  | whitespace blank =>
      have same := blankLength_take text
      rw [munch_of_blank (by rwa [same]), same]
  | newline rest => exact munch_newline []
  | lineComment rest =>
      have line : ('/' :: '/' :: rest).takeWhile (· != '\n') =
          '/' :: '/' :: rest.takeWhile (· != '\n') := by
        simp
      rw [← List.prefix_iff_eq_take.1 (List.takeWhile_prefix _), line, munch_slash_slash,
        List.takeWhile_idem]
      rfl
  | @blockComment rest tail closed =>
      rw [List.take_succ_cons, List.take_succ_cons, munch_slash_star,
        ← List.append_nil (rest.take tail), blockCommentTail?_take_append closed]
      rfl
  | literal =>
      obtain ⟨notTrivia, inLine⟩ := isContent_literalToken _ _ _
      exact ofContent notTrivia inLine
  | identifier => exact ofContent rfl rfl
  | number => exact ofContent rfl rfl
  | punctuator =>
      obtain ⟨notTrivia, inLine⟩ := isContent_punctuatorToken _
      exact ofContent notTrivia inLine

/-- A text that is a single token is read as this token and the end of the input. -/
theorem tokenize_of_munch
    {source : String}
    (munched : munch source.toList = some (kind, source.length))
    (notEnd : kind ≠ .endOfInput)
    (file : FileId)
    (line : UInt32) :
    ∃ token ending, tokenize source file line = .ok [token, ending] ∧
      token.kind = kind ∧ token.text = source ∧ ending.kind = .endOfInput := by
  let start := Lexer.ofString source file line
  have length : start.rest.length = source.length := String.length_toList
  have read : start.next =
      (.ok ⟨kind, source, start.location⟩, start.skip source.length) := by
    rw [Lexer.next, show munch start.rest = _ from munched]
    simp only [← length, List.take_length]
    rw [show start.rest = source.toList from rfl, String.ofList_toList]
  have nothing : (start.skip source.length).rest = [] := by
    rw [Lexer.skip, ← length, List.drop_length]
  have last : (start.skip source.length).next =
      (.ok ⟨.endOfInput, "", (start.skip source.length).location⟩,
        (start.skip source.length).skip 0) := by
    rw [Lexer.next, nothing]
    rfl
  exact ⟨_, _, Lexer.tokens_of_yields (.step read notEnd (.last last rfl)), rfl, rfl, rfl⟩

/-- A token stands at the front of the text that it and the tokens behind it spell. -/
theorem Lexer.Yields.munch_join
    {lexer : Lexer}
    {before after : List Token}
    {token : Token}
    (yields : lexer.Yields (before ++ token :: after)) :
    munch (String.join ((token :: after).map Token.text)).toList =
      some (token.kind, token.text.length) := by
  obtain ⟨behind, yieldsToken, -⟩ := yields.exists_suffix (by simp)
  rw [yieldsToken.join_text, String.toList_ofList]
  cases yieldsToken with
  | last read | step read =>
      obtain ⟨length, munched, text, -, -⟩ := next_eq_ok read
      rw [munched, text, String.length_ofList,
        List.length_take_of_le (length_le_of_munch munched)]

/-- Longer spellings come first, so the first one that is found is the longest. -/
theorem length_le_of_punctuatorToken
    {symbol : Punctuator}
    {entry : List Char × Punctuator}
    (found : punctuatorToken text = (.punctuator symbol, length))
    (listed : entry ∈ punctuatorTable)
    (here : entry.1 <+: text) :
    entry.1.length ≤ length := by
  have sorted : punctuatorTable.Pairwise fun first second => second.1.length ≤ first.1.length := by
    decide
  unfold punctuatorToken at found
  split at found
  next spelling _ search =>
    cases found
    obtain ⟨_, before, behind, table, refused⟩ := List.find?_eq_some_iff_append.1 search
    rw [table, List.mem_append, List.mem_cons] at listed
    rw [table, List.pairwise_append, List.pairwise_cons] at sorted
    rcases listed with earlier | rfl | further
    · have absent := refused entry earlier
      rw [List.isPrefixOf_iff_prefix.2 here] at absent
      cases absent
    · exact Nat.le_refl _
    · exact sorted.2.1.1 entry further
  next => cases found

theorem punctuatorToken_of_munch
    {symbol : Punctuator}
    (munched : munch text = some (.punctuator symbol, length)) :
    punctuatorToken text = (.punctuator symbol, length) := by
  have munches := munches_of_munch munched
  generalize same : TokenKind.punctuator symbol = kind at munches
  cases munches with
  | @literal _ rest encoding quote _ =>
      rcases literalToken_kind encoding quote rest with other | other | other <;>
        rw [other] at same <;>
        cases same
  | punctuator => rfl
  | _ => cases same

/--
Tokens are self-delimiting.  The text of a token on its own is that token and
nothing else, wherever it stands.  Where a punctuator stands in the source, no
longer spelling of a punctuator does.
-/
theorem tokenize_text_of_mem
    {source : String}
    {file : FileId}
    {line : UInt32}
    {tokens : List Token}
    {token : Token}
    (lexed : tokenize source file line = .ok tokens)
    (present : token ∈ tokens)
    (notEnd : token.kind ≠ .endOfInput) :
    (∀ file line, ∃ single ending, tokenize token.text file line = .ok [single, ending] ∧
      single.kind = token.kind ∧ single.text = token.text ∧ ending.kind = .endOfInput) ∧
    ∃ front back : String, source = front ++ back ∧ front.utf8ByteSize = token.location.offset ∧
      ∀ symbol, token.kind = .punctuator symbol →
        ∀ entry ∈ punctuatorTable, entry.1 <+: back.toList →
          entry.1.length ≤ token.text.length := by
  obtain ⟨before, after, rfl⟩ := List.append_of_mem present
  have yields := Lexer.yields_of_tokens _ lexed
  have munched := yields.munch_join
  refine ⟨tokenize_of_munch ?_ notEnd, String.join (before.map Token.text),
    String.join ((token :: after).map Token.text), ?_, ?_, ?_⟩
  · have front : token.text.toList =
        (String.join ((token :: after).map Token.text)).toList.take token.text.length := by
      rw [List.map_cons, String.join_cons, String.toList_append, ← String.length_toList,
        List.take_left]
    rw [front]
    exact munch_take munched notEnd
  · have spelled := yields.join_text
    rw [List.map_append, String.join_append] at spelled
    simpa [Lexer.ofString] using spelled.symm
  · rw [yields.location_eq, Location.offset_advance, String.ofList_toList]
    simp [Lexer.ofString, Location.start]
  · intro symbol isPunctuator entry listed here
    rw [isPunctuator] at munched
    exact length_le_of_punctuatorToken (punctuatorToken_of_munch munched) listed here

/-- Behind a number that looked for a sign, the longest of three punctuators. -/
theorem tokenize_text_of_mem_shift :
    let token : Token := ⟨.punctuator .lessLessEqual, "<<=", ⟨0, 1, 3, 2⟩⟩
    ∃ tokens, tokenize "1e<<=-2" 0 1 = .ok tokens ∧ token ∈ tokens ∧
      (∀ file line, ∃ single ending, tokenize "<<=" file line = .ok [single, ending] ∧
        single.kind = .punctuator .lessLessEqual ∧ single.text = "<<=" ∧
        ending.kind = .endOfInput) ∧
      ∃ front back : String, "1e<<=-2" = front ++ back ∧ front.utf8ByteSize = 2 ∧
        ∀ entry ∈ punctuatorTable, entry.1 <+: back.toList →
          entry.1.length ≤ token.text.length := by
  intro token
  let tokens : List Token :=
    [⟨.number, "1e", ⟨0, 1, 1, 0⟩⟩, token, ⟨.punctuator .minus, "-", ⟨0, 1, 6, 5⟩⟩,
     ⟨.number, "2", ⟨0, 1, 7, 6⟩⟩, ⟨.endOfInput, "", ⟨0, 1, 8, 7⟩⟩]
  have lexed : tokenize "1e<<=-2" 0 1 = .ok tokens := by decide +kernel
  have present : token ∈ tokens := by decide
  obtain ⟨alone, front, back, equal, size, longest⟩ :=
    tokenize_text_of_mem lexed present (by decide)
  exact ⟨tokens, lexed, present, alone, front, back, equal, size, longest _ rfl⟩

/-- An encoding prefix and a quote that no other quote closes on its line. -/
inductive OpensQuote (encoding : EncodingPrefix) (quote : Char) : List Char → Prop
  | intro
      {rest : List Char}
      (isOne : isQuote quote = true)
      (unclosed : closes quote false (rest.takeWhile (· != '\n')) = false) :
      OpensQuote encoding quote (encoding.spelling.toList ++ quote :: rest)

/-- A quote with its encoding prefix is read as a literal, closed or not. -/
theorem munch_opening
    (isOne : isQuote quote = true)
    (encoding : EncodingPrefix)
    (rest : List Char) :
    munch (encoding.spelling.toList ++ quote :: rest) =
      some (literalToken encoding quote rest) := by
  rcases isQuote_iff.1 isOne with rfl | rfl <;> cases encoding <;> rfl

theorem OpensQuote.munch_eq
    {encoding : EncodingPrefix}
    (opens : OpensQuote encoding quote text) :
    munch text = some (.other, encoding.spelling.length + 1) := by
  obtain ⟨isOne, unclosed⟩ := opens
  rw [← isSome_literalTail? isOne, Option.isSome_eq_false_iff,
    Option.isNone_iff_eq_none] at unclosed
  rw [munch_opening isOne, literalToken, unclosed]

/-- A token of the kind `other` is a single character unless a prefix stands in front of its quote. -/
theorem opensQuote_of_munch
    (munched : munch text = some (.other, length)) :
    length = 1 ∨ ∃ encoding quote, encoding ≠ .none ∧ OpensQuote encoding quote text := by
  have munches := munches_of_munch munched
  generalize same : TokenKind.other = kind at munches
  cases munches with
  | @literal _ rest encoding quote opening =>
      obtain ⟨rfl, quotes⟩ := eq_of_literalOpening? opening
      have isOne : isQuote quote = true := isQuote_iff.2 quotes
      unfold literalToken at same ⊢
      split at same
      next unclosed =>
        by_cases bare : encoding = .none
        · exact .inl (by rw [bare]; rfl)
        · refine .inr ⟨encoding, quote, bare, .intro isOne ?_⟩
          rw [← isSome_literalTail? isOne, unclosed]
          rfl
      next => split at same <;> cases same
  | punctuator c rest =>
      unfold punctuatorToken at same ⊢
      split at same
      next => cases same
      next => exact .inl rfl
  | _ => cases same

/-- A name that is no encoding prefix is read in front of a quote, too. -/
theorem munch_name_quote
    {name : List Char}
    (named : isName name = true)
    (isOne : isQuote quote = true)
    (noPrefix : ∀ encoding : EncodingPrefix, encoding.spelling.toList ≠ name)
    (rest : List Char) :
    munch (name ++ quote :: rest) = some (.identifier, name.length) :=
  munch_of_isName named (isIdentifierPart_of_isQuote isOne rest) fun _ _ _ => noPrefix

/--
A token of the kind `other` is a single character exactly if it is no encoding
prefix with an open quote behind it.  Such a prefix and its quote are always one
token, and any other name in front of a quote is an identifier.
-/
theorem text_of_other
    {source : String}
    {file : FileId}
    {line : UInt32}
    {before after : List Token}
    {token : Token}
    (lexed : tokenize source file line = .ok (before ++ token :: after)) :
    let text := (String.join ((token :: after).map Token.text)).toList
    (token.kind = .other →
      (token.text.length = 1 ↔
        ¬ ∃ encoding quote, encoding ≠ .none ∧ OpensQuote encoding quote text)) ∧
    (∀ encoding quote, OpensQuote encoding quote text →
      token.kind = .other ∧ token.text.toList = encoding.spelling.toList ++ [quote]) ∧
    ∀ name quote rest, isName name = true → isQuote quote = true → text = name ++ quote :: rest →
      (∀ encoding : EncodingPrefix, encoding.spelling.toList ≠ name) →
        token.kind = .identifier ∧ token.text.toList = name := by
  intro text
  have munched : munch text = some (token.kind, token.text.length) :=
    (Lexer.yields_of_tokens _ lexed).munch_join
  have front : token.text.toList = text.take token.text.length := by
    rw [← String.length_toList]
    simp [text]
  refine ⟨fun isOther => ⟨?_, fun single => ?_⟩, fun encoding quote opens => ?_, ?_⟩
  · rintro single ⟨encoding, quote, isPrefix, opens⟩
    have length := congrArg Prod.snd (Option.some.inj (munched.symm.trans opens.munch_eq))
    rw [single] at length
    cases encoding with
    | none => exact isPrefix rfl
    | _ => cases length
  · rw [isOther] at munched
    exact (opensQuote_of_munch munched).resolve_right single
  · obtain ⟨kind, length⟩ := Prod.mk.inj (Option.some.inj (munched.symm.trans opens.munch_eq))
    refine ⟨kind, ?_⟩
    rw [front, length]
    generalize text = whole at opens
    obtain ⟨isOne, unclosed⟩ := opens
    rw [← String.length_toList, List.take_length_add_append]
    rfl
  · intro name quote rest named isOne equal noPrefix
    have found := munch_name_quote named isOne noPrefix rest
    rw [← equal, munched] at found
    obtain ⟨kind, length⟩ := Prod.mk.inj (Option.some.inj found)
    exact ⟨kind, by rw [front, length, equal, List.take_left]⟩

/-- The apostrophe of a word is closed on the next line only. -/
theorem text_of_other_apostrophe :
    let name : Token := ⟨.identifier, "don", ⟨0, 1, 1, 0⟩⟩
    let apostrophe : Token := ⟨.other, "'", ⟨0, 1, 4, 3⟩⟩
    let rest : List Token :=
      [⟨.identifier, "t", ⟨0, 1, 5, 4⟩⟩, ⟨.newline, "\n", ⟨0, 1, 6, 5⟩⟩,
       ⟨.other, "'", ⟨0, 2, 1, 6⟩⟩, ⟨.endOfInput, "", ⟨0, 2, 2, 7⟩⟩]
    tokenize "don't\n'" 0 1 = .ok (name :: apostrophe :: rest) ∧
      apostrophe.text.length = 1 ∧
      (¬ ∃ encoding quote, encoding ≠ .none ∧ OpensQuote encoding quote "'t\n'".toList) ∧
      isName "don".toList = true ∧ (∀ encoding : EncodingPrefix, encoding.spelling ≠ "don") ∧
      name.kind = .identifier ∧ name.text.toList = "don".toList := by
  intro name apostrophe rest
  have lexed : tokenize "don't\n'" 0 1 = .ok (name :: apostrophe :: rest) := by decide +kernel
  have noPrefix : ∀ encoding : EncodingPrefix, encoding.spelling ≠ "don" := by
    intro encoding
    cases encoding <;> decide
  have isName : isName "don".toList = true := by decide
  have first : tokenize "don't\n'" 0 1 = .ok ([] ++ name :: apostrophe :: rest) := lexed
  have second : tokenize "don't\n'" 0 1 = .ok ([name] ++ apostrophe :: rest) := lexed
  obtain ⟨_, _, named⟩ := text_of_other first
  obtain ⟨single, _, _⟩ := text_of_other second
  have spelled : (String.join ((name :: apostrophe :: rest).map Token.text)).toList =
      "don".toList ++ '\'' :: "t\n'".toList := by decide
  have joined : (String.join ((apostrophe :: rest).map Token.text)).toList = "'t\n'".toList := by
    decide
  rw [joined] at single
  have one : apostrophe.text.length = 1 := by decide
  exact ⟨lexed, one, (single rfl).1 one, isName, noPrefix,
    named _ _ _ isName rfl spelled fun encoding same =>
      noPrefix encoding (String.toList_injective same)⟩

/-- A name that is an encoding prefix is no identifier in front of a quote that is not closed. -/
theorem exists_other_of_open_quote :
    ∃ tokens, tokenize "L\"a" 0 1 = .ok tokens ∧
      (∃ token ∈ tokens, token.kind = .other ∧ token.text = "L\"" ∧ token.text.length = 2) ∧
      ∀ token ∈ tokens, token.isIdentifier = true → token.text ≠ "L" := by
  have lexed : tokenize "L\"a" 0 1 =
      .ok [⟨.other, "L\"", ⟨0, 1, 1, 0⟩⟩, ⟨.identifier, "a", ⟨0, 1, 3, 2⟩⟩,
        ⟨.endOfInput, "", ⟨0, 1, 4, 3⟩⟩] := by
    decide +kernel
  exact ⟨_, lexed, by decide, by decide⟩

end PreprocessorSyntax
