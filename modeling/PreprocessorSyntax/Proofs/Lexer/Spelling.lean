import PreprocessorSyntax.Proofs.Lexer.Stream

/-!
# How tokens are spelled

`Spells` tells the tokens of a text apart by the three characters that matter to
someone who only looks for line ends, string literals and comments: the line
feed, the quotation mark and the slash.  It speaks of texts without backslashes
and carriage returns, in which nothing is spliced or escaped.
-/

namespace PreprocessorSyntax

/-- Nothing is spliced or escaped in a text. -/
structure Verbatim (text : List Char) : Prop where
  /-- There is no backslash. -/
  noBackslash : '\\' ∉ text
  /-- There is no carriage return. -/
  noReturn : '\r' ∉ text

namespace Verbatim

variable {front back : List Char} {c : Char}

theorem right (verbatim : Verbatim (front ++ back)) : Verbatim back :=
  ⟨fun present => verbatim.noBackslash (List.mem_append_right _ present),
    fun present => verbatim.noReturn (List.mem_append_right _ present)⟩

theorem drop (verbatim : Verbatim front) (length : Nat) : Verbatim (front.drop length) :=
  ⟨fun present => verbatim.noBackslash (List.mem_of_mem_drop present),
    fun present => verbatim.noReturn (List.mem_of_mem_drop present)⟩

theorem tail (verbatim : Verbatim (c :: back)) : Verbatim back :=
  verbatim.drop 1

theorem ne_of_mem (verbatim : Verbatim front) (present : c ∈ front) : c ≠ '\\' ∧ c ≠ '\r' := by
  refine ⟨?_, ?_⟩
  · rintro rfl
    exact verbatim.noBackslash present
  · rintro rfl
    exact verbatim.noReturn present

end Verbatim

/-- There is no line feed, no quotation mark and no slash in a text. -/
def Ordinary (text : List Char) : Prop :=
  ∀ c ∈ text, c ≠ '\n' ∧ c ≠ '"' ∧ c ≠ '/'

instance (text : List Char) : Decidable (Ordinary text) :=
  decidable_of_iff (text.all fun c => c != '\n' && c != '"' && c != '/')
    (by simp [Ordinary, and_assoc])

theorem Ordinary.feed_not_mem {text : List Char} (plain : Ordinary text) : '\n' ∉ text :=
  fun feed => (plain _ feed).1 rfl

/--
The kind of a token, its characters, and those behind it.  The characters in
front of the quote of a literal are its encoding prefix.
-/
inductive Spells : TokenKind → List Char → List Char → Prop
  | endOfInput : Spells .endOfInput [] []
  | newline (back : List Char) : Spells .newline ['\n'] back
  | ordinary
      {kind : TokenKind} {front : List Char}
      (inLine : kind.isLineEnd = false)
      (noComment : ∀ style, kind ≠ .comment style)
      (plain : Ordinary front)
      (back : List Char) :
      Spells kind front back
  | slash
      (symbol : Punctuator) {tail back : List Char}
      (plain : Ordinary tail)
      (noComment : ∀ c ∈ (tail ++ back).head?, c ≠ '/' ∧ c ≠ '*') :
      Spells (.punctuator symbol) ('/' :: tail) back
  | lineComment
      {body back : List Char}
      (oneLine : '\n' ∉ body)
      (whole : ∀ c ∈ back.head?, c = '\n') :
      Spells (.comment .line) ('/' :: '/' :: body) back
  | blockComment
      {rest : List Char} {tail : Nat}
      (closed : blockCommentTail? rest = some tail) :
      Spells (.comment .block) ('/' :: '*' :: rest.take tail) (rest.drop tail)
  | string
      (encoding : EncodingPrefix) {letters body : List Char}
      (plain : Ordinary letters)
      (oneLine : '\n' ∉ body)
      (unquoted : '"' ∉ body)
      (back : List Char) :
      Spells (.string encoding) (letters ++ '"' :: (body ++ ['"'])) back
  | character
      (encoding : EncodingPrefix) {body : List Char}
      (oneLine : '\n' ∉ body)
      (back : List Char) :
      Spells (.character encoding) (body ++ ['\'']) back
  | openQuotation
      {letters back : List Char}
      (plain : Ordinary letters)
      (unclosed : '"' ∉ back.takeWhile (· != '\n')) :
      Spells .other (letters ++ ['"']) back

theorem Spells.eq_newline {front back : List Char} (spells : Spells .newline front back) :
    front = ['\n'] := by
  cases spells with
  | newline => rfl
  | ordinary inLine => cases inLine

/-- Apart from the line feed itself, only block comments have line feeds. -/
theorem Spells.kind_of_feed
    {kind : TokenKind}
    {front back : List Char}
    (spells : Spells kind front back)
    (feed : '\n' ∈ front) :
    kind = .newline ∨ kind = .comment .block := by
  cases spells with
  | endOfInput => cases feed
  | newline => exact .inl rfl
  | ordinary _ _ plain => exact absurd feed plain.feed_not_mem
  | slash _ plain => simp [plain.feed_not_mem] at feed
  | lineComment oneLine => simp [oneLine] at feed
  | blockComment => exact .inr rfl
  | string _ plain oneLine => simp [oneLine, plain.feed_not_mem] at feed
  | character _ oneLine => simp [oneLine] at feed
  | openQuotation plain => simp [plain.feed_not_mem] at feed

theorem ordinary_of_isIdentifierPart
    {text : List Char}
    (parts : ∀ c ∈ text, isIdentifierPart c = true) :
    Ordinary text := by
  intro c present
  have part := parts c present
  refine ⟨?_, ?_, ?_⟩ <;> rintro rfl <;> contradiction

theorem ordinary_take_blankLength
    {text : List Char}
    (noBackslash : '\\' ∉ text) :
    Ordinary (text.take (blankLength text)) := by
  intro c present
  have blank := isBlank_of_mem_take_blankLength noBackslash c present
  refine ⟨?_, ?_, ?_⟩ <;> rintro rfl <;> contradiction

theorem ordinary_take_numberTail (text : List Char) : Ordinary (text.take (numberTail text)) := by
  have part (c : Char) (accepted : (isIdentifierPart c || c == '.') = true) :
      c ≠ '\n' ∧ c ≠ '"' ∧ c ≠ '/' := by
    refine ⟨?_, ?_, ?_⟩ <;> rintro rfl <;> contradiction
  fun_induction numberTail text with
  | case1 => simp [Ordinary]
  | case2 c accepted =>
      intro d present
      rw [List.take_succ_cons, List.take_nil, List.mem_singleton] at present
      rw [present]
      exact part c accepted
  | case3 => simp [Ordinary]
  | case4 c d rest pair inductionHypothesis =>
      have both : (c ≠ '\n' ∧ c ≠ '"' ∧ c ≠ '/') ∧ d ≠ '\n' ∧ d ≠ '"' ∧ d ≠ '/' := by
        refine ⟨⟨?_, ?_, ?_⟩, ?_, ?_, ?_⟩ <;> rintro rfl <;> simp [isExponentLetter] at pair
      intro e present
      rw [List.take_succ_cons, List.take_succ_cons, List.mem_cons, List.mem_cons] at present
      rcases present with rfl | rfl | present
      · exact both.1
      · exact both.2
      · exact inductionHypothesis e present
  | case5 c d rest _ accepted inductionHypothesis =>
      intro e present
      rw [List.take_succ_cons, List.mem_cons] at present
      rcases present with rfl | present
      · exact part e accepted
      · exact inductionHypothesis e present
  | case6 => simp [Ordinary]

/-- Only two punctuators have a slash, and both start with it. -/
theorem ordinary_spelling (symbol : Punctuator) :
    Ordinary symbol.spelling.toList ∨
      ∃ tail, symbol.spelling.toList = '/' :: tail ∧ Ordinary tail := by
  have checked : Ordinary symbol.spelling.toList ∨
      symbol.spelling.toList.head? = some '/' ∧ Ordinary symbol.spelling.toList.tail := by
    cases symbol <;> decide
  rcases checked with plain | ⟨slash, plain⟩
  · exact .inl plain
  · obtain ⟨tail, equal⟩ := List.head?_eq_some_iff.1 slash
    rw [equal] at plain
    exact .inr ⟨tail, equal, plain⟩

theorem isQuote_iff {c : Char} : isQuote c = true ↔ c = '"' ∨ c = '\'' := by
  simp [isQuote]

/-- A literal opens with its encoding prefix and a quote. -/
theorem eq_of_literalOpening?
    {text rest : List Char}
    {encoding : EncodingPrefix}
    {quote : Char}
    (opening : literalOpening? text = some (encoding, quote, rest)) :
    text = encoding.spelling.toList ++ quote :: rest ∧ (quote = '"' ∨ quote = '\'') := by
  unfold literalOpening? at opening
  split at opening
  all_goals
    first
    | cases opening
    | (split at opening
       next isOne =>
         cases opening
         exact ⟨rfl, isQuote_iff.1 isOne⟩
       next => cases opening)

/-- Without backslashes, the first quote on the line closes a literal. -/
theorem exists_of_literalTail?_eq_some
    {quote : Char}
    {text : List Char}
    {tail : Nat}
    (noBackslash : '\\' ∉ text)
    (closed : literalTail? quote text = some tail) :
    ∃ body rest, text = body ++ quote :: rest ∧ tail = body.length + 1 ∧
      '\n' ∉ body ∧ quote ∉ body := by
  fun_induction literalTail? quote text generalizing tail with
  | case1 => cases closed
  | case2 =>
      cases closed
      exact ⟨[], [], rfl, rfl, by simp, by simp⟩
  | case3 => cases closed
  | case4 d rest =>
      cases closed
      exact ⟨[], d :: rest, rfl, rfl, by simp, by simp⟩
  | case5 => cases closed
  | case6 c d rest _ _ escape =>
      have backslash : c = '\\' := of_decide_eq_true (Bool.and_eq_true_iff.1 escape).1
      simp [backslash] at noBackslash
  | case7 c d rest notQuote notFeed _ inductionHypothesis =>
      obtain ⟨later, found, rfl⟩ := Option.map_eq_some_iff.1 closed
      have behind : '\\' ∉ d :: rest := fun present =>
        noBackslash (List.mem_cons_of_mem c present)
      obtain ⟨body, rest, equal, rfl, oneLine, unquoted⟩ := inductionHypothesis behind found
      refine ⟨c :: body, rest, by rw [equal, List.cons_append], rfl, ?_, ?_⟩
      · simp [Ne.symm notFeed, oneLine]
      · simp [Ne.symm notQuote, unquoted]

/-- Without backslashes, a literal is open only if there is no further quote on its line. -/
theorem not_mem_of_literalTail?_eq_none
    {quote : Char}
    {text : List Char}
    (noBackslash : '\\' ∉ text)
    (unclosed : literalTail? quote text = none) :
    quote ∉ text.takeWhile (· != '\n') := by
  fun_induction literalTail? quote text with
  | case1 => simp
  | case2 => cases unclosed
  | case3 c notQuote =>
      intro present
      have single := (List.takeWhile_sublist _).mem present
      exact notQuote (List.mem_singleton.1 single).symm
  | case4 => cases unclosed
  | case5 => simp
  | case6 c d rest _ _ escape =>
      have backslash : c = '\\' := of_decide_eq_true (Bool.and_eq_true_iff.1 escape).1
      simp [backslash] at noBackslash
  | case7 c d rest notQuote notFeed _ inductionHypothesis =>
      have behind : '\\' ∉ d :: rest := fun present =>
        noBackslash (List.mem_cons_of_mem c present)
      have later := inductionHypothesis behind (Option.map_eq_none_iff.1 unclosed)
      rw [List.takeWhile_cons_of_pos (by simpa using notFeed), List.mem_cons, not_or]
      exact ⟨Ne.symm notQuote, later⟩

/-- A literal ends with the quote that opened it. -/
theorem getLast?_of_literalTail?_eq_some
    {quote : Char}
    {text : List Char}
    {tail : Nat}
    (closed : literalTail? quote text = some tail) :
    (text.take tail).getLast? = some quote := by
  -- What is read first makes no difference if something is read behind it.
  have behind (front : List Char) {back : List Char} {length : Nat}
      (last : (back.take length).getLast? = some quote) :
      ((front ++ back).take (length + front.length)).getLast? = some quote := by
    rw [Nat.add_comm, List.take_length_add_append, List.getLast?_append, last]
    rfl
  fun_induction literalTail? quote text generalizing tail with
  | case1 => cases closed
  | case2 =>
      cases closed
      rfl
  | case3 => cases closed
  | case4 d rest =>
      cases closed
      rfl
  | case5 => cases closed
  | case6 c d rest _ _ _ inductionHypothesis =>
      obtain ⟨later, found, rfl⟩ := Option.map_eq_some_iff.1 closed
      exact behind [c, d] (inductionHypothesis found)
  | case7 c d rest _ _ _ inductionHypothesis =>
      obtain ⟨later, found, rfl⟩ := Option.map_eq_some_iff.1 closed
      exact behind [c] (inductionHypothesis found)

/-- A string literal without prefix stands between two quotation marks. -/
theorem exists_of_munch_string
    {text : List Char}
    {length : Nat}
    (munched : munch text = some (.string .none, length)) :
    ∃ body, text.take length = '"' :: (body ++ ['"']) := by
  have munches := munches_of_munch munched
  generalize same : TokenKind.string .none = kind at munches
  cases munches with
  | @literal _ rest encoding quote opening =>
      obtain ⟨rfl, _⟩ := eq_of_literalOpening? opening
      unfold literalToken at same ⊢
      split at same
      next => cases same
      next tail closed =>
        split at same
        next isQuotation =>
          cases same
          subst isQuotation
          obtain ⟨body, equal⟩ :=
            List.getLast?_eq_some_iff.1 (getLast?_of_literalTail?_eq_some closed)
          refine ⟨body, ?_⟩
          simp [EncodingPrefix.spelling, ← equal, Nat.add_comm]
        next => cases same
  | punctuator c rest =>
      rcases punctuatorToken_kind (c :: rest) with other | ⟨symbol, other⟩ <;>
        rw [other] at same <;>
        cases same
  | _ => cases same

theorem munch_newline (rest : List Char) : munch ('\n' :: rest) = some (.newline, 1) := by
  simp [munch, blankLength, isBlank]

theorem munch_quotation (rest : List Char) :
    munch ('"' :: rest) = some (literalToken .none '"' rest) := by
  simp [munch, blankLength, isBlank, List.isPrefixOf, literalOpening?, isQuote]

theorem munch_slash_slash (rest : List Char) :
    munch ('/' :: '/' :: rest) =
      some (.comment .line, (rest.takeWhile (· != '\n')).length + 2) := by
  simp [munch, blankLength, isBlank, List.isPrefixOf]

theorem munch_slash_star (rest : List Char) :
    munch ('/' :: '*' :: rest) =
      (blockCommentTail? rest).map fun tail => (.comment .block, tail + 2) := by
  simp [munch, blankLength, isBlank, List.isPrefixOf]

/-- A block comment ends with a slash. -/
theorem exists_of_blockCommentTail?
    {text : List Char}
    {tail : Nat}
    (closed : blockCommentTail? text = some tail) :
    ∃ body, text.take tail = body ++ ['/'] := by
  fun_induction blockCommentTail? text generalizing tail with
  | case1 =>
      cases closed
      exact ⟨['*'], rfl⟩
  | case2 c rest _ inductionHypothesis =>
      obtain ⟨shorter, found, rfl⟩ := Option.map_eq_some_iff.1 closed
      obtain ⟨body, equal⟩ := inductionHypothesis found
      exact ⟨c :: body, by rw [List.take_succ_cons, equal, List.cons_append]⟩
  | case3 => cases closed

/-- Numbers start with a digit or a dot. -/
theorem front_of_munch_number
    {c : Char}
    {rest : List Char}
    {length : Nat}
    (munched : munch (c :: rest) = some (.number, length)) :
    c.isDigit = true ∨ c = '.' := by
  unfold munch at munched
  simp only at munched
  split at munched
  next => cases munched
  split at munched
  next => cases munched
  split at munched
  next => cases munched
  split at munched
  next =>
    obtain ⟨tail, _, equal⟩ := Option.map_eq_some_iff.1 munched
    cases equal
  split at munched
  next encoding quote tail _ =>
    have kind := congrArg Prod.fst (Option.some.inj munched)
    rcases literalToken_kind encoding quote tail with other | other | other <;>
      rw [other] at kind <;>
      cases kind
  split at munched
  next => cases munched
  split at munched
  next start =>
    simp only [Bool.or_eq_true, Bool.and_eq_true, beq_iff_eq] at start
    exact start.imp_right And.left
  next =>
    have kind := congrArg Prod.fst (Option.some.inj munched)
    rcases punctuatorToken_kind (c :: rest) with other | ⟨symbol, other⟩ <;>
      rw [other] at kind <;>
      cases kind

/-- A line comment is the rest of its line. -/
theorem spells_lineComment (rest : List Char) :
    Spells (.comment .line) ('/' :: '/' :: rest.takeWhile (· != '\n'))
      (rest.dropWhile (· != '\n')) := by
  apply Spells.lineComment
  · intro feed
    have passed := List.all_eq_true.1 List.all_takeWhile _ feed
    simp at passed
  · intro c first
    have stopped := List.head?_dropWhile_not (· != '\n') rest
    rw [Option.mem_def.1 first] at stopped
    simpa using stopped

section Verbatim

variable {text : List Char} (verbatim : Verbatim text)
include verbatim

/-- A literal that was opened is closed, or its quote stands alone. -/
theorem spells_literalToken
    {rest : List Char}
    {encoding : EncodingPrefix}
    {quote : Char}
    (opening : literalOpening? text = some (encoding, quote, rest)) :
    Spells (literalToken encoding quote rest).1
      (text.take (literalToken encoding quote rest).2)
      (text.drop (literalToken encoding quote rest).2) := by
  obtain ⟨rfl, quotes⟩ := eq_of_literalOpening? opening
  have letters : Ordinary encoding.spelling.toList := by
    cases encoding <;> decide
  have noBackslash : '\\' ∉ rest := verbatim.right.tail.noBackslash
  unfold literalToken
  cases closed : literalTail? quote rest with
  | none =>
      have alone : encoding.spelling.toList ++ quote :: rest =
          (encoding.spelling.toList ++ [quote]) ++ rest := by simp
      have length :
          (encoding.spelling.toList ++ [quote]).length = encoding.spelling.length + 1 := by
        rw [List.length_append, String.length_toList, List.length_singleton]
      rw [alone, ← length, List.take_left, List.drop_left]
      rcases quotes with rfl | rfl
      · exact .openQuotation letters (not_mem_of_literalTail?_eq_none noBackslash closed)
      · refine .ordinary rfl (by simp) ?_ rest
        intro c present
        rcases List.mem_append.1 present with letter | single
        · exact letters c letter
        · cases List.mem_singleton.1 single
          decide
  | some tail =>
      obtain ⟨body, back, rfl, rfl, oneLine, unquoted⟩ :=
        exists_of_literalTail?_eq_some noBackslash closed
      have whole : encoding.spelling.toList ++ quote :: (body ++ quote :: back) =
          (encoding.spelling.toList ++ quote :: (body ++ [quote])) ++ back := by simp
      have length : (encoding.spelling.toList ++ quote :: (body ++ [quote])).length =
          encoding.spelling.length + 1 + (body.length + 1) := by
        simp only [List.length_append, String.length_toList, List.length_cons, List.length_nil]
        omega
      rw [whole]
      simp only [← length, List.take_left, List.drop_left]
      rcases quotes with rfl | rfl
      · exact .string encoding letters oneLine unquoted back
      · have regrouped : encoding.spelling.toList ++ '\'' :: (body ++ ['\'']) =
            (encoding.spelling.toList ++ '\'' :: body) ++ ['\''] := by simp
        rw [regrouped]
        refine .character encoding ?_ back
        simp [letters.feed_not_mem, oneLine]

end Verbatim

/-- A punctuator, or a character that starts no other token. -/
theorem spells_punctuatorToken
    {c : Char}
    {rest : List Char}
    (plain : c ≠ '\n' ∧ c ≠ '"')
    (noComment : ∀ tail, c :: rest = '/' :: tail → ∀ d ∈ tail.head?, d ≠ '/' ∧ d ≠ '*') :
    Spells (punctuatorToken (c :: rest)).1
      ((c :: rest).take (punctuatorToken (c :: rest)).2)
      ((c :: rest).drop (punctuatorToken (c :: rest)).2) := by
  unfold punctuatorToken
  split
  next spelling symbol search =>
    obtain ⟨_, _, equal⟩ := List.mem_map.1 (List.mem_of_find?_eq_some search)
    cases equal
    have here := List.find?_some search
    obtain ⟨back, text⟩ := List.isPrefixOf_iff_prefix.1 here
    rw [← text]
    simp only [List.take_left, List.drop_left]
    rcases ordinary_spelling symbol with ordinary | ⟨tail, equal, ordinary⟩
    · exact .ordinary rfl (by simp) ordinary back
    · simp only [equal] at text ⊢
      exact .slash symbol ordinary (noComment _ text.symm)
  next search =>
    have notSlash : c ≠ '/' := by
      rintro rfl
      have listed : (['/'], Punctuator.slash) ∈ punctuatorTable := by decide
      have refused := List.find?_eq_none.1 search _ listed
      simp [List.isPrefixOf] at refused
    refine .ordinary rfl (by simp) ?_ rest
    intro d single
    cases List.mem_singleton.1 single
    exact ⟨plain.1, plain.2, notSlash⟩

/-- The spelling of the token at the front of a text. -/
theorem spells_of_munch
    {text : List Char}
    (verbatim : Verbatim text)
    {kind : TokenKind}
    {length : Nat}
    (munched : munch text = some (kind, length)) :
    Spells kind (text.take length) (text.drop length) := by
  -- The line feed, the quotation mark and the slash are told apart first.
  by_cases feed : ∃ rest, text = '\n' :: rest
  · obtain ⟨rest, rfl⟩ := feed
    rw [munch_newline] at munched
    cases munched
    exact .newline rest
  by_cases quotation : ∃ rest, text = '"' :: rest
  · obtain ⟨rest, rfl⟩ := quotation
    rw [munch_quotation] at munched
    obtain ⟨rfl, rfl⟩ := Prod.ext_iff.1 (Option.some.inj munched)
    exact spells_literalToken verbatim rfl
  by_cases slashes : ∃ rest, text = '/' :: '/' :: rest
  · obtain ⟨rest, rfl⟩ := slashes
    rw [munch_slash_slash] at munched
    cases munched
    have line := spells_lineComment rest
    have whole := List.takeWhile_append_dropWhile (p := (· != '\n')) (l := rest)
    generalize rest.takeWhile (· != '\n') = body at line whole ⊢
    generalize rest.dropWhile (· != '\n') = back at line whole
    subst whole
    simpa using line
  by_cases opening : ∃ rest, text = '/' :: '*' :: rest
  · obtain ⟨rest, rfl⟩ := opening
    rw [munch_slash_star] at munched
    obtain ⟨tail, closed, equal⟩ := Option.map_eq_some_iff.1 munched
    cases equal
    exact .blockComment closed
  have noComment : ∀ tail, text = '/' :: tail → ∀ d ∈ tail.head?, d ≠ '/' ∧ d ≠ '*' := by
    rintro tail rfl d first
    obtain ⟨rest, rfl⟩ := List.head?_eq_some_iff.1 first
    refine ⟨?_, ?_⟩
    · rintro rfl
      exact slashes ⟨rest, rfl⟩
    · rintro rfl
      exact opening ⟨rest, rfl⟩
  cases munches_of_munch munched with
  | endOfInput => exact .endOfInput
  | whitespace blank =>
      exact .ordinary rfl (by simp) (ordinary_take_blankLength verbatim.noBackslash) _
  | newline rest => exact absurd ⟨rest, rfl⟩ feed
  | lineComment rest => exact absurd ⟨rest, rfl⟩ slashes
  | blockComment closed => exact absurd ⟨_, rfl⟩ opening
  | literal opened => exact spells_literalToken verbatim opened
  | @identifier c rest start =>
      refine .ordinary rfl (by simp) ?_ _
      rw [← List.prefix_iff_eq_take.1 (List.takeWhile_prefix _)]
      apply ordinary_of_isIdentifierPart
      exact List.all_eq_true.1 List.all_takeWhile
  | number c rest =>
      refine .ordinary rfl (by simp) ?_ _
      rw [List.take_succ_cons]
      intro d present
      rcases List.mem_cons.1 present with rfl | present
      · have starts := front_of_munch_number munched
        refine ⟨?_, ?_, ?_⟩ <;> rintro rfl <;> simp at starts
      · exact ordinary_take_numberTail rest d present
  | punctuator c rest =>
      refine spells_punctuatorToken ⟨?_, ?_⟩ noComment
      · rintro rfl
        exact feed ⟨rest, rfl⟩
      · rintro rfl
        exact quotation ⟨rest, rfl⟩

/-- So do all string literals without prefix that a lexer reads. -/
theorem Lexer.Yields.exists_of_string
    {lexer : Lexer}
    {tokens : List Token}
    (yields : lexer.Yields tokens)
    {token : Token}
    (present : token ∈ tokens)
    (isString : token.kind = .string .none) :
    ∃ body, token.text.toList = '"' :: (body ++ ['"']) := by
  obtain ⟨before, after, read⟩ := yields.exists_next_of_mem present
  obtain ⟨length, munched, text, _, _⟩ := next_eq_ok read
  rw [isString] at munched
  obtain ⟨body, equal⟩ := exists_of_munch_string munched
  exact ⟨body, by rw [text, String.toList_ofList, equal]⟩

end PreprocessorSyntax
