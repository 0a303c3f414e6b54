import PreprocessorSyntax.Proofs.Lexer.Delimiting

/-!
# Runs of tokens cut out of a line

Some tokens that stand side by side in a line are cut out of it and written down
on their own.  A text without line feeds has the same tokens when it is cut off
behind one of them: no punctuator or number gets longer, and no quote is closed
that was open.  So the lexer finds the run again, and with it the white space and
the comments inside.
-/

namespace PreprocessorSyntax

variable {text front back later : List Char} {kind : TokenKind} {length : Nat}

/-- A text that is cut off goes on like the whole one until it ends. -/
theorem resumes_of_isPrefix
    (noFeed : '\n' ∉ back)
    (cut : later <+: back) :
    Resumes back later where
  shared := by
    obtain ⟨rest, rfl⟩ := cut
    exact ⟨later, rest, [], rfl, (List.append_nil later).symm, by simp⟩
  unclosed quote isOne unclosed := by
    have noFeedToo : '\n' ∉ later := fun feed => noFeed (cut.mem feed)
    rw [← Option.isNone_iff_eq_none, ← Option.not_isSome, Bool.not_eq_true',
      isSome_literalTail? isOne] at unclosed ⊢
    rw [takeWhile_of_noFeed noFeed] at unclosed
    rw [takeWhile_of_noFeed noFeedToo]
    obtain ⟨rest, rfl⟩ := cut
    rw [closes_append, Bool.or_eq_false_iff] at unclosed
    exact unclosed.1

/-- On one line, white space is a run of blanks. -/
theorem blankLength_of_noFeed (noFeed : '\n' ∉ text) :
    blankLength text = (text.takeWhile isBlank).length := by
  fun_induction blankLength text with
  | case1 => simp at noFeed
  | case2 => simp at noFeed
  | case3 c rest _ _ blank inductionHypothesis =>
      rw [List.takeWhile_cons_of_pos blank, List.length_cons,
        inductionHypothesis fun feed => noFeed (List.mem_cons_of_mem c feed)]
  | case4 c rest _ _ other => rw [List.takeWhile_cons_of_neg other, List.length_nil]
  | case5 => rfl

/-- White space that ends in front of a text also ends where this text is cut off. -/
theorem blankLength_of_isPrefix
    (noFeed : '\n' ∉ front ++ back)
    (run : blankLength (front ++ back) = front.length)
    (cut : later <+: back) :
    blankLength (front ++ later) = front.length := by
  have before := (List.prefix_append_right_inj front).2 cut
  have starts : ∀ c ∈ later.head?, c ∈ back.head? := by
    obtain ⟨rest, rfl⟩ := cut
    intro c first
    rw [List.head?_append, Option.mem_def.1 first]
    rfl
  rw [blankLength_of_noFeed noFeed] at run
  rw [blankLength_of_noFeed fun feed => noFeed (before.mem feed)]
  exact length_takeWhile_append run fun c first _ => starts c first

/-- On one line, a token is found again where the text behind it is cut off. -/
theorem munch_of_isPrefix
    (noFeed : '\n' ∉ front ++ back)
    (munched : munch (front ++ back) = some (kind, front.length))
    (continues : kind ≠ .endOfInput)
    (cut : later <+: back) :
    munch (front ++ later) = some (kind, front.length) := by
  have noFeedBehind : '\n' ∉ back := fun feed => noFeed (List.mem_append_right front feed)
  have ofContent (notTrivia : kind.isTrivia = false) (inLine : kind.isLineEnd = false) :
      munch (front ++ later) = some (kind, front.length) :=
    munch_of_resumes munched notTrivia inLine (resumes_of_isPrefix noFeedBehind cut)
  have munches := munches_of_munch munched
  generalize whole : front ++ back = text at munches noFeed
  obtain ⟨length, size⟩ : ∃ length, front.length = length := ⟨_, rfl⟩
  rw [size] at munches
  cases munches with
  | endOfInput => exact absurd rfl continues
  | whitespace blank =>
      rw [← whole] at noFeed size
      have again := blankLength_of_isPrefix noFeed size.symm cut
      rw [munch_of_blank (by rwa [again, size, whole]), again]
  | newline rest => simp at noFeed
  | lineComment rest =>
      -- On one line nothing stands behind a line comment, so nothing is cut off.
      rw [takeWhile_of_noFeed noFeed, ← whole, List.length_append] at size
      have nothing : back = [] := List.eq_nil_of_length_eq_zero (by omega)
      rw [nothing, List.prefix_nil] at cut
      rw [cut, ← nothing]
      exact munched
  | @blockComment rest tail closed =>
      have isFront : front = '/' :: '*' :: rest.take tail := by
        have taken := congrArg (List.take front.length) whole
        rwa [List.take_left, size, List.take_succ_cons, List.take_succ_cons] at taken
      rw [size, isFront, List.cons_append, List.cons_append, munch_slash_star,
        blockCommentTail?_take_append closed]
      rfl
  | literal =>
      obtain ⟨notTrivia, inLine⟩ := isContent_literalToken _ _ _
      exact ofContent notTrivia inLine
  | identifier => exact ofContent rfl rfl
  | number => exact ofContent rfl rfl
  | punctuator =>
      obtain ⟨notTrivia, inLine⟩ := isContent_punctuatorToken _
      exact ofContent notTrivia inLine

variable {lexer : Lexer} {before run after tokens : List Token}

/-- The first tokens of a line are found again where the text ends behind them. -/
theorem Lexer.Yields.lexes_front
    (yields : lexer.Yields (run ++ after))
    (noFeed : '\n' ∉ lexer.rest)
    (inLine : InLine run) :
    Lexes (String.join (run.map Token.text)).toList fun again =>
      again.map Token.kindAndText = run.map Token.kindAndText := by
  induction run generalizing lexer with
  | nil => exact lexes_nil rfl
  | cons token run inductionHypothesis =>
      have continues : token.kind ≠ .endOfInput := inLine.readable token List.mem_cons_self
      obtain ⟨notEnd, inLineBehind⟩ := InLine.cons_iff.1 inLine
      generalize whole : token :: run ++ after = tokens at yields
      cases yields with
      | last _ ends =>
          obtain ⟨rfl, -⟩ := List.cons.inj whole
          exact absurd ends continues
      | step read _ rest =>
          rw [List.cons_append, List.cons.injEq] at whole
          obtain ⟨rfl, rfl⟩ := whole
          obtain ⟨length, munched, text, -, rfl⟩ := next_eq_ok read
          have behind := inductionHypothesis rest
            (fun feed => noFeed (List.mem_of_mem_drop feed)) inLineBehind
          have split : token.text.toList ++ (lexer.skip length).rest = lexer.rest := by
            rw [text, String.toList_ofList]
            exact List.take_append_drop length lexer.rest
          have munchedFront : munch (token.text.toList ++ (lexer.skip length).rest) =
              some (token.kind, token.text.toList.length) := by
            rw [split, munched, text, String.toList_ofList,
              List.length_take_of_le (length_le_of_munch munched)]
          have cut : (String.join (run.map Token.text)).toList <+: (lexer.skip length).rest := by
            have spelled := congrArg String.toList rest.join_text
            rw [List.map_append, String.join_append, String.toList_append,
              String.toList_ofList] at spelled
            exact ⟨_, spelled⟩
          rw [List.map_cons, String.join_cons, String.toList_append]
          refine behind.cons (munch_of_isPrefix (split ▸ noFeed) munchedFront continues cut)
            notEnd ?_
          intro found again kind spelling same
          rw [List.map_cons, List.map_cons, same, Token.kindAndText, Token.kindAndText, kind,
            spelling, String.ofList_toList]

/-- So are some tokens that stand side by side anywhere in a line. -/
theorem Lexer.Yields.lexes_run
    (yields : lexer.Yields (before ++ (run ++ after)))
    (something : after ≠ [])
    (noFeed : '\n' ∉ lexer.rest)
    (inLine : InLine run) :
    Lexes (String.join (run.map Token.text)).toList fun again =>
      again.map Token.kindAndText = run.map Token.kindAndText := by
  obtain ⟨behind, yieldsRun, suffix⟩ := yields.exists_suffix (by simp [something])
  exact yieldsRun.lexes_front (fun feed => noFeed (suffix.mem feed)) inLine

/-- A punctuator has the characters of its spelling. -/
theorem take_of_munch_punctuator
    {symbol : Punctuator}
    (munched : munch text = some (.punctuator symbol, length)) :
    text.take length = symbol.spelling.toList := by
  have found := punctuatorToken_of_munch munched
  have here := isPrefix_of_punctuatorToken found
  have size : length = symbol.spelling.toList.length := by
    unfold punctuatorToken at found
    split at found
    next search =>
      obtain ⟨_, _, equal⟩ := List.mem_map.1 (List.mem_of_find?_eq_some search)
      cases equal
      cases found
      rfl
    next => cases found
  rw [size, ← List.prefix_iff_eq_take.1 here]

theorem Lexer.Yields.text_of_isPunctuator
    {token : Token}
    {symbol : Punctuator}
    (yields : lexer.Yields tokens)
    (present : token ∈ tokens)
    (isSymbol : token.isPunctuator symbol = true) :
    token.text = symbol.spelling := by
  obtain ⟨before, after, read⟩ := yields.exists_next_of_mem present
  obtain ⟨length, munched, text, -, -⟩ := next_eq_ok read
  rw [Token.kind_of_isPunctuator isSymbol] at munched
  rw [text, take_of_munch_punctuator munched, String.ofList_toList]

end PreprocessorSyntax
