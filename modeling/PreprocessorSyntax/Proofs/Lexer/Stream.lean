import PreprocessorSyntax.Lexer

/-!
# The token stream of a text

`Munches` lists the tokens that can stand at the front of a text, one
constructor for each way a token starts.  `Lexer.Yields` relates a lexer to the
tokens it still has to give.  Together they show that lexing loses nothing: the
spellings of all tokens, put one after the other, are the text, and the end of
the input is the last token and no other.
-/

namespace PreprocessorSyntax

/-- The kind and the length of the token at the front of a text. -/
inductive Munches : List Char → TokenKind → Nat → Prop
  | endOfInput : Munches [] .endOfInput 0
  | whitespace
      {text : List Char}
      (blank : 0 < blankLength text) :
      Munches text .whitespace (blankLength text)
  | newline (rest : List Char) : Munches ('\n' :: rest) .newline 1
  | lineComment (rest : List Char) :
      Munches ('/' :: '/' :: rest) (.comment .line)
        (('/' :: '/' :: rest).takeWhile (· != '\n')).length
  | blockComment
      {rest : List Char} {tail : Nat}
      (closed : blockCommentTail? rest = some tail) :
      Munches ('/' :: '*' :: rest) (.comment .block) (tail + 2)
  | literal
      {text rest : List Char} {encoding : EncodingPrefix} {quote : Char}
      (opening : literalOpening? text = some (encoding, quote, rest)) :
      Munches text (literalToken encoding quote rest).1 (literalToken encoding quote rest).2
  | identifier
      {c : Char} {rest : List Char}
      (start : isIdentifierStart c = true) :
      Munches (c :: rest) .identifier ((c :: rest).takeWhile isIdentifierPart).length
  | number (c : Char) (rest : List Char) :
      Munches (c :: rest) .number (numberTail rest + 1)
  | punctuator (c : Char) (rest : List Char) :
      Munches (c :: rest) (punctuatorToken (c :: rest)).1 (punctuatorToken (c :: rest)).2

private theorem eq_cons_cons_of_isPrefixOf
    {first second : Char}
    {text : List Char}
    (start : [first, second].isPrefixOf text = true) :
    ∃ rest, text = first :: second :: rest := by
  obtain ⟨rest, equal⟩ := List.isPrefixOf_iff_prefix.1 start
  exact ⟨rest, by simpa using equal.symm⟩

/-- What the lexer finds at the front of a text is one of the tokens listed. -/
theorem munches_of_munch
    {text : List Char}
    {kind : TokenKind}
    {length : Nat}
    (munched : munch text = some (kind, length)) :
    Munches text kind length := by
  unfold munch at munched
  split at munched
  next =>
    cases munched
    exact .endOfInput
  next c rest =>
    split at munched
    next blank =>
      cases munched
      exact .whitespace blank
    next =>
    split at munched
    next feed =>
      subst feed
      cases munched
      exact .newline rest
    next =>
    split at munched
    next slashes =>
      obtain ⟨tail, equal⟩ := eq_cons_cons_of_isPrefixOf slashes
      rw [equal] at munched ⊢
      cases munched
      exact .lineComment tail
    next =>
    split at munched
    next opening =>
      obtain ⟨tail, equal⟩ := eq_cons_cons_of_isPrefixOf opening
      rw [equal] at munched ⊢
      obtain ⟨length, closed, found⟩ := Option.map_eq_some_iff.1 munched
      cases found
      exact .blockComment closed
    next =>
    split at munched
    next opening =>
      obtain ⟨rfl, rfl⟩ := Prod.ext_iff.1 (Option.some.inj munched)
      exact .literal opening
    next =>
    split at munched
    next start =>
      cases munched
      exact .identifier start
    next =>
    split at munched
    next =>
      cases munched
      exact .number c rest
    next =>
      obtain ⟨rfl, rfl⟩ := Prod.ext_iff.1 (Option.some.inj munched)
      exact .punctuator c rest

/-- A punctuator is only found where its spelling stands. -/
theorem isPrefix_of_punctuatorToken
    {text : List Char}
    {symbol : Punctuator}
    {length : Nat}
    (found : punctuatorToken text = (.punctuator symbol, length)) :
    symbol.spelling.toList <+: text := by
  unfold punctuatorToken at found
  split at found
  next spelling listed search =>
    cases found
    have present := List.mem_of_find?_eq_some search
    obtain ⟨entry, _, equal⟩ := List.mem_map.1 present
    cases equal
    have front := List.find?_some search
    exact List.isPrefixOf_iff_prefix.1 front
  next => cases found

/-- A literal is a literal, or a single quote with its prefix. -/
theorem literalToken_kind (encoding : EncodingPrefix) (quote : Char) (rest : List Char) :
    (literalToken encoding quote rest).1 = .other ∨
      (literalToken encoding quote rest).1 = .string encoding ∨
      (literalToken encoding quote rest).1 = .character encoding := by
  unfold literalToken
  split
  next => exact .inl rfl
  next => split <;> simp

/-- A punctuator or a character on its own. -/
theorem punctuatorToken_kind (text : List Char) :
    (punctuatorToken text).1 = .other ∨
      ∃ symbol, (punctuatorToken text).1 = .punctuator symbol := by
  unfold punctuatorToken
  split
  next symbol _ => exact .inr ⟨symbol, rfl⟩
  next => exact .inl rfl

/-- What a text begins with, as far as the kind of its first token tells. -/
def Fronts (text : List Char) (length : Nat) : TokenKind → Prop
  | .whitespace => length = blankLength text
  | .comment _ => ∃ rest, text = '/' :: rest
  | .identifier => length = (text.takeWhile isIdentifierPart).length
  | .punctuator symbol => symbol.spelling.toList <+: text
  | .endOfInput => text = []
  | _ => True

theorem Munches.fronts
    {text : List Char}
    {kind : TokenKind}
    {length : Nat}
    (munches : Munches text kind length) :
    Fronts text length kind := by
  cases munches with
  | lineComment rest => exact ⟨_, rfl⟩
  | blockComment => exact ⟨_, rfl⟩
  | @literal _ rest encoding quote opening =>
      rcases literalToken_kind encoding quote rest with kind | kind | kind <;>
        rw [kind] <;>
        trivial
  | punctuator c rest =>
      rcases punctuatorToken_kind (c :: rest) with kind | ⟨symbol, kind⟩
      · rw [kind]
        trivial
      · rw [kind]
        exact isPrefix_of_punctuatorToken (Prod.ext kind rfl)
  | _ => first | rfl | trivial

/-- White space without splices consists of blanks. -/
theorem isBlank_of_mem_take_blankLength
    {text : List Char}
    (noBackslash : '\\' ∉ text) :
    ∀ c ∈ text.take (blankLength text), isBlank c = true := by
  fun_induction blankLength text with
  | case1 => simp at noBackslash
  | case2 => simp at noBackslash
  | case3 c rest _ _ blank inductionHypothesis =>
      have later := inductionHypothesis fun present =>
        noBackslash (List.mem_cons_of_mem c present)
      rw [List.take_succ_cons, List.forall_mem_cons]
      exact ⟨blank, later⟩
  | case4 => simp
  | case5 => simp

namespace Lexer

/-- The tokens that a lexer gives, up to and with the end of the input. -/
inductive Yields : Lexer → List Token → Prop
  | last
      {lexer after : Lexer} {token : Token}
      (read : lexer.next = (.ok token, after))
      (ends : token.kind = .endOfInput) :
      Yields lexer [token]
  | step
      {lexer after : Lexer} {token : Token} {tokens : List Token}
      (read : lexer.next = (.ok token, after))
      (continues : token.kind ≠ .endOfInput)
      (rest : Yields after tokens) :
      Yields lexer (token :: tokens)

/-- Reading all tokens gives the stream. -/
theorem yields_of_tokens
    (lexer : Lexer)
    {tokens : List Token}
    (read : lexer.tokens = .ok tokens) :
    lexer.Yields tokens := by
  fun_induction Lexer.tokens lexer generalizing tokens with
  | case1 => cases read
  | case2 lexer token after next ends =>
      cases read
      exact .last next ends
  | case3 lexer token after next continues inductionHypothesis =>
      cases later : after.tokens with
      | error fault => simp [later, Except.map] at read
      | ok rest =>
          rw [later] at read
          cases read
          exact .step next continues (inductionHypothesis later)

/-- The stream is all that reading all tokens gives. -/
theorem tokens_of_yields
    {lexer : Lexer}
    {tokens : List Token}
    (yields : lexer.Yields tokens) :
    lexer.tokens = .ok tokens := by
  induction yields with
  | last read ends =>
      rw [Lexer.tokens]
      split
      next failed => cases read.symm.trans failed
      next same =>
        cases read.symm.trans same
        rw [dif_pos ends]
  | step read continues _ inductionHypothesis =>
      rw [Lexer.tokens]
      split
      next failed => cases read.symm.trans failed
      next same =>
        cases read.symm.trans same
        rw [dif_neg continues, inductionHypothesis]
        rfl

/-- A token has the kind and the length found at the front of the text. -/
theorem next_eq_ok
    {lexer after : Lexer}
    {token : Token}
    (read : lexer.next = (.ok token, after)) :
    ∃ length, munch lexer.rest = some (token.kind, length) ∧
      token.text = String.ofList (lexer.rest.take length) ∧
      token.location = lexer.location ∧ after = lexer.skip length := by
  unfold next at read
  split at read
  next => cases read
  next kind length munched =>
    cases read
    exact ⟨length, munched, rfl, rfl, rfl⟩

/-- At the end of the input the text is used up. -/
theorem rest_eq_nil_of_endOfInput
    {lexer after : Lexer}
    {token : Token}
    (read : lexer.next = (.ok token, after))
    (ends : token.kind = .endOfInput) :
    lexer.rest = [] ∧ token.text = "" := by
  obtain ⟨length, munched, text, _, _⟩ := next_eq_ok read
  rw [ends] at munched
  have empty : lexer.rest = [] := (munches_of_munch munched).fronts
  exact ⟨empty, by rw [text, empty]; simp⟩

namespace Yields

variable {lexer : Lexer} {tokens : List Token}

/-- Each token of a stream is the answer of a lexer. -/
theorem exists_next_of_mem
    {token : Token}
    (yields : lexer.Yields tokens)
    (present : token ∈ tokens) :
    ∃ before after : Lexer, before.next = (.ok token, after) := by
  induction yields with
  | last read _ =>
      rw [List.mem_singleton.1 present]
      exact ⟨_, _, read⟩
  | step read _ _ inductionHypothesis =>
      rcases List.mem_cons.1 present with rfl | later
      · exact ⟨_, _, read⟩
      · exact inductionHypothesis later

/-- The spellings of the tokens make up the text. -/
theorem join_text (yields : lexer.Yields tokens) :
    String.join (tokens.map Token.text) = String.ofList lexer.rest := by
  induction yields with
  | last read ends =>
      obtain ⟨empty, text⟩ := rest_eq_nil_of_endOfInput read ends
      simp [empty, text, String.join]
  | step read _ _ inductionHypothesis =>
      obtain ⟨length, _, text, _, rfl⟩ := next_eq_ok read
      rw [List.map_cons, String.join_cons, inductionHypothesis, text, skip]
      rw [← String.ofList_append, List.take_append_drop]

/-- The end of the input is the last token and no other. -/
theorem eq_append_endOfInput (yields : lexer.Yields tokens) :
    ∃ content ending, tokens = content ++ [ending] ∧ ending.kind = .endOfInput ∧
      ending.text = "" ∧ ∀ token ∈ content, token.kind ≠ .endOfInput := by
  induction yields with
  | last read ends =>
      have text := (rest_eq_nil_of_endOfInput read ends).2
      exact ⟨[], _, rfl, ends, text, by simp⟩
  | step _ continues _ inductionHypothesis =>
      obtain ⟨content, ending, equal, ends, text, before⟩ := inductionHypothesis
      refine ⟨_ :: content, ending, by rw [equal, List.cons_append], ends, text, ?_⟩
      intro token present
      rcases List.mem_cons.1 present with rfl | present
      · exact continues
      · exact before token present

end Yields
end Lexer

/-- Lexing loses nothing: the tokens in front of the end of the input spell the text. -/
theorem tokenize_eq_ok
    {source : String}
    {file : FileId}
    {line : UInt32}
    {tokens : List Token}
    (read : tokenize source file line = .ok tokens) :
    ∃ content ending, tokens = content ++ [ending] ∧ ending.kind = .endOfInput ∧
      (∀ token ∈ content, token.kind ≠ .endOfInput) ∧
      String.join (content.map Token.text) = source := by
  have yields := Lexer.yields_of_tokens _ read
  obtain ⟨content, ending, equal, ends, text, before⟩ := yields.eq_append_endOfInput
  refine ⟨content, ending, equal, ends, before, ?_⟩
  have spelled := yields.join_text
  simpa [equal, text, Lexer.ofString] using spelled

end PreprocessorSyntax
