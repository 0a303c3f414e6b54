import PreprocessorSyntax.Proofs.MacroDefinition.Lines
import PreprocessorSyntax.Proofs.Module.Declarations

/-!
# How declarations are read

The alternatives for a module and for an import overlap, and none of their words
is reserved.  But behind the word `module` or `import` the next phrase decides:
a semicolon, a colon or a name.  So exactly one alternative reads what was
written, and what it leaves in the tree is what was declared.
-/

namespace PreprocessorSyntax

variable {word : String} {mark : Punctuator} {parts : List String} {next : Phrase}
variable {phrases : List Phrase} {tokens : List Token}

theorem Phrase.Writes.exists_word (writes : (Phrase.name [word]).Writes tokens) :
    ∃ token, tokens = [token] ∧ token.isWord word = true := by
  cases writes with
  | name writes =>
      cases writes with
      | single isIdentifier => exact ⟨_, rfl, by simp [Token.isWord, isIdentifier]⟩
      | dotted _ _ _ writes => cases writes

theorem Phrase.Writes.exists_mark (writes : (Phrase.symbol mark).Writes tokens) :
    ∃ token, tokens = [token] ∧ token.isPunctuator mark = true := by
  cases writes with
  | symbol isSymbol => exact ⟨_, rfl, isSymbol⟩

theorem WritesName.exists_identifier (writes : WritesName parts tokens) :
    ∃ token behind, tokens = token :: behind ∧ token.isIdentifier = true := by
  cases writes with
  | single isIdentifier => exact ⟨_, [], rfl, isIdentifier⟩
  | dotted isIdentifier => exact ⟨_, _, rfl, isIdentifier⟩

theorem WritesPhrases.exists_first (writes : WritesPhrases (.name parts :: phrases) tokens) :
    ∃ region behind, tokens = region ++ behind ∧ (Phrase.name parts).Writes region := by
  cases writes with
  | last here => exact ⟨tokens, [], (List.append_nil tokens).symm, here⟩
  | further here _ _ => exact ⟨_, _, rfl, here⟩

theorem WritesPhrases.exists_word (writes : WritesPhrases (.name [word] :: next :: phrases) tokens) :
    ∃ token blanks behind, tokens = token :: (blanks ++ behind) ∧ token.isWord word = true ∧
      (∀ token ∈ blanks, token.isTrivia = true) ∧ WritesPhrases (next :: phrases) behind := by
  cases writes with
  | @further _ _ _ _ blanks behind here trivial writes =>
      obtain ⟨token, rfl, isWord⟩ := here.exists_word
      exact ⟨token, blanks, behind, rfl, isWord, trivial, writes⟩

theorem WritesPhrases.exists_mark (writes : WritesPhrases (.symbol mark :: next :: phrases) tokens) :
    ∃ token blanks behind, tokens = token :: (blanks ++ behind) ∧
      token.isPunctuator mark = true ∧ (∀ token ∈ blanks, token.isTrivia = true) ∧
      WritesPhrases (next :: phrases) behind := by
  cases writes with
  | @further _ _ _ _ blanks behind here trivial writes =>
      obtain ⟨token, rfl, isSymbol⟩ := here.exists_mark
      exact ⟨token, blanks, behind, rfl, isSymbol, trivial, writes⟩

theorem WritesPhrases.exists_name (writes : WritesPhrases (.name parts :: next :: phrases) tokens) :
    ∃ region blanks behind, tokens = region ++ (blanks ++ behind) ∧ WritesName parts region ∧
      (∀ token ∈ blanks, token.isTrivia = true) ∧ WritesPhrases (next :: phrases) behind := by
  cases writes with
  | further here trivial behind =>
      cases here with
      | name writes => exact ⟨_, _, _, rfl, writes, trivial, behind⟩

theorem WritesPhrases.exists_last (writes : WritesPhrases [.symbol mark] tokens) :
    ∃ token, tokens = [token] ∧ token.isPunctuator mark = true := by
  cases writes with
  | last here => exact here.exists_mark

namespace Grammar

variable {grammar : Grammar} {rest : List Token}

theorem significant_mark
    {token : Token}
    (isSymbol : token.isPunctuator mark = true)
    (rest : List Token) :
    Significant ([token] ++ rest) :=
  significant_cons (Token.isTrivia_of_isPunctuator isSymbol) rest

theorem significant_word
    {token : Token}
    (isWord : token.isWord word = true)
    (rest : List Token) :
    Significant ([token] ++ rest) :=
  significant_cons (Token.isTrivia_of_isIdentifier (Bool.and_eq_true_iff.1 isWord).1) rest

theorem reads_word
    {token : Token}
    (isWord : token.isWord word = true) :
    grammar.Reads (.word [word]) [token] [.leaf token] rest := by
  obtain ⟨isIdentifier, text⟩ := Bool.and_eq_true_iff.1 isWord
  refine reads_identifier ?_ isIdentifier
  simp [isIdentifier, beq_iff_eq.1 text]

/-- A word is not read in front of phrases that start with another one. -/
theorem fails_word_of_writes
    {other : String}
    (writes : WritesPhrases (.name [word] :: phrases) tokens)
    (different : word ≠ other) :
    grammar.Fails (.word [other]) (tokens ++ rest) := by
  obtain ⟨_, behind, rfl, here⟩ := writes.exists_first
  obtain ⟨token, rfl, isWord⟩ := here.exists_word
  have noWord : token.isWord other = false := by
    rw [Token.isWord_eq isWord, beq_eq_false_iff_ne]
    exact different
  apply fails_token_cons
  simpa [Token.isWord] using noWord

/-- A pattern that reads nothing may stand behind any other one. -/
theorem Reads.append_nothing
    {first second : Pattern}
    {trees : List Tree}
    (front : grammar.Reads first tokens trees rest)
    (nothing : grammar.Reads second [] [] rest) :
    grammar.Reads (first ++ second) tokens trees rest := by
  have behind : grammar.Reads first tokens trees ([] ++ rest) := front
  simpa using behind.append nothing

/-- A symbol is read behind white space and comments. -/
theorem Reads.append_mark
    {pattern : Pattern}
    {trees : List Tree}
    {blanks : List Token}
    {token : Token}
    (reads : grammar.Reads pattern tokens trees (blanks ++ ([token] ++ rest)))
    (trivial : ∀ token ∈ blanks, token.isTrivia = true)
    (isSymbol : token.isPunctuator mark = true) :
    grammar.Reads (pattern ++ .trivia ++ .symbol mark) (tokens ++ blanks ++ [token])
      (trees ++ blanks.map .leaf ++ [.leaf token]) rest :=
  (reads.append (reads_trivia trivial (significant_mark isSymbol rest))).append
    (reads_symbol isSymbol)

/-- A dot with the identifier behind it. -/
theorem reads_further
    {dot token : Token}
    (isDot : dot.isPunctuator .dot = true)
    (isIdentifier : token.isIdentifier = true) :
    grammar.Reads (.symbol .dot ++ .identifier) [dot, token] [.leaf dot, .leaf token] rest :=
  (reads_symbol isDot).append (reads_identifier isIdentifier isIdentifier)

section Names

variable (ends : ∀ token ∈ rest.head?, token.isPunctuator .dot = false)
include ends

theorem fails_further : grammar.Fails (.symbol .dot ++ .identifier) rest :=
  (fails_token ends).append

/-- Behind a dot, the rest of a name is read. -/
theorem reads_behind_dot
    {dot : Token}
    (isDot : dot.isPunctuator .dot = true)
    (writes : WritesName parts tokens) :
    grammar.Reads (.many (.symbol .dot ++ .identifier)) (dot :: tokens)
      ((dot :: tokens).map .leaf) rest := by
  induction writes generalizing dot with
  | single isIdentifier =>
      exact (reads_further isDot isIdentifier).many rfl (fails_further ends).many
  | dotted isIdentifier isDotBehind _ _ inductionHypothesis =>
      exact (reads_further isDot isIdentifier).many rfl (inductionHypothesis isDotBehind)

/-- A dotted name is read up to the first token that is no dot. -/
theorem reads_dotted (writes : WritesName parts tokens) :
    grammar.Reads .moduleName tokens (tokens.map .leaf) rest := by
  cases writes with
  | single isIdentifier =>
      exact (reads_identifier isIdentifier isIdentifier).append (fails_further ends).many
  | dotted isIdentifier isDot _ writes =>
      exact (reads_identifier isIdentifier isIdentifier).append (reads_behind_dot ends isDot writes)

end Names

/-- The global module fragment is read from two phrases. -/
theorem reads_globalFragment
    (writes : WritesPhrases Declaration.globalFragment.phrases tokens) :
    grammar.Reads .globalFragment tokens (tokens.map .leaf) rest := by
  obtain ⟨token, blanks, behind, rfl, isWord, trivial, writes⟩ := writes.exists_word
  obtain ⟨semicolon, rfl, isSemicolon⟩ := writes.exists_last
  have front : grammar.Reads (.word ["module"]) [token] _ (blanks ++ ([semicolon] ++ rest)) :=
    reads_word isWord
  simpa [Pattern.globalFragment] using front.append_mark trivial isSemicolon

/-- The private one is read from four. -/
theorem reads_privateFragment
    (writes : WritesPhrases Declaration.privateFragment.phrases tokens) :
    grammar.Reads .privateFragment tokens (tokens.map .leaf) rest := by
  obtain ⟨token, blanks, _, rfl, isWord, trivial, writes⟩ := writes.exists_word
  obtain ⟨colon, further, _, rfl, isColon, trivialFurther, writes⟩ := writes.exists_mark
  obtain ⟨privateWord, others, _, rfl, isPrivate, trivialOthers, writes⟩ := writes.exists_word
  obtain ⟨semicolon, rfl, isSemicolon⟩ := writes.exists_last
  have front (rest : List Token) :
      grammar.Reads (.word ["module"] ++ .trivia ++ .symbol .colon ++ .trivia) _ _
        ([privateWord] ++ rest) :=
    ((reads_word isWord).append_mark trivial isColon).append
      (reads_trivia trivialFurther (significant_word isPrivate _))
  have words : grammar.Reads (.word ["module"] ++ .trivia ++ .symbol .colon ++ .trivia ++
      .word ["private"]) _ _ (others ++ ([semicolon] ++ rest)) :=
    (front _).append (reads_word isPrivate)
  simpa [Pattern.privateFragment] using words.append_mark trivialOthers isSemicolon

theorem reads_nameNode
    {blanks : List Token}
    {token : Token}
    (unmocked : grammar.mocked = [])
    (writes : WritesName parts tokens)
    (trivial : ∀ token ∈ blanks, token.isTrivia = true)
    (isSymbol : token.isPunctuator mark = true)
    (different : mark ≠ .dot) :
    grammar.Reads (.rule .moduleName) tokens [.node .moduleName (tokens.map .leaf)]
      (blanks ++ ([token] ++ rest)) := by
  refine Reads.node unmocked rfl (reads_dotted ?_ writes)
  cases blanks with
  | nil =>
      rintro _ ⟨⟩
      exact Token.isPunctuator_eq_false isSymbol different
  | cons blank blanks =>
      rintro _ ⟨⟩
      exact Token.isPunctuator_of_isTrivia (trivial blank List.mem_cons_self) _

/-! ## What is read and declared -/

/-- A pattern reads some tokens of a line, and what it leaves is what they declare. -/
def ReadsDeclaring
    (grammar : Grammar)
    (whole : List Token)
    (pattern : Pattern)
    (tokens rest : List Token)
    (exported colon : Bool)
    (names : List (List String)) : Prop :=
  ∃ trees, grammar.Reads pattern tokens trees rest ∧ Declares whole exported colon names trees

section ReadsDeclaring

variable {whole others blanks : List Token} {token : Token} {first second : Pattern}
variable {exported exportedToo colon colonToo : Bool} {names more : List (List String)}

theorem ReadsDeclaring.append
    (front : grammar.ReadsDeclaring whole first tokens (others ++ rest) exported colon names)
    (back : grammar.ReadsDeclaring whole second others rest exportedToo colonToo more) :
    grammar.ReadsDeclaring whole (first ++ second) (tokens ++ others) rest
      (exported || exportedToo) (colon || colonToo) (names ++ more) := by
  obtain ⟨_, reads, declares⟩ := front
  obtain ⟨_, readsToo, declaresToo⟩ := back
  exact ⟨_, reads.append readsToo, declares.append declaresToo⟩

/-- Another pattern that leaves the same declares the same. -/
theorem ReadsDeclaring.mono
    (reads : grammar.ReadsDeclaring whole first tokens others exported colon names)
    (same : ∀ trees, grammar.Reads first tokens trees others →
      grammar.Reads second tokens trees rest) :
    grammar.ReadsDeclaring whole second tokens rest exported colon names := by
  obtain ⟨trees, reads, declares⟩ := reads
  exact ⟨trees, same trees reads, declares⟩

/-- What stands behind a reading may be grouped in any way. -/
theorem ReadsDeclaring.before
    (reads : grammar.ReadsDeclaring whole first tokens rest exported colon names)
    (same : rest = others) :
    grammar.ReadsDeclaring whole first tokens others exported colon names :=
  same ▸ reads

theorem ReadsDeclaring.append_mark
    (reads : grammar.ReadsDeclaring whole first tokens (blanks ++ ([token] ++ rest)) exported colon
      names)
    (trivial : ∀ token ∈ blanks, token.isTrivia = true)
    (isSymbol : token.isPunctuator mark = true) :
    grammar.ReadsDeclaring whole (first ++ .trivia ++ .symbol mark) (tokens ++ blanks ++ [token])
      rest exported (colon || decide (mark = .colon)) names := by
  obtain ⟨_, reads, declares⟩ := reads
  exact ⟨_, reads.append_mark trivial isSymbol, declares.append_mark trivial isSymbol⟩

theorem readsDeclaring_mark (isSymbol : token.isPunctuator mark = true) :
    grammar.ReadsDeclaring whole (.symbol mark) [token] rest false (decide (mark = .colon)) [] :=
  ⟨_, reads_symbol isSymbol, declares_mark isSymbol⟩

theorem readsDeclaring_blanks
    (trivial : ∀ token ∈ blanks, token.isTrivia = true)
    (significant : Significant rest) :
    grammar.ReadsDeclaring whole .trivia blanks rest false false [] :=
  ⟨_, reads_trivia trivial significant, declares_blanks trivial⟩

/-- A name is read as a node in front of white space, a colon or a semicolon. -/
theorem readsDeclaring_name
    (unmocked : grammar.mocked = [])
    (writes : WritesName parts tokens)
    (within : tokens <:+: whole)
    (trivial : ∀ token ∈ blanks, token.isTrivia = true)
    (isSymbol : token.isPunctuator mark = true)
    (different : mark ≠ .dot)
    (rest : List Token) :
    grammar.ReadsDeclaring whole (.rule .moduleName) tokens (blanks ++ ([token] ++ rest)) false
      false [parts] :=
  ⟨_, reads_nameNode unmocked writes trivial isSymbol different, declares_name writes within⟩

end ReadsDeclaring

section Line

variable (ends : ∀ token ∈ rest.head?, token.isLineEnd = true)
include ends

theorem significant_phrases (writes : WritesPhrases phrases tokens) : Significant (tokens ++ rest) :=
  writes.significant.append_ends ends

/-- White space and comments are skipped up to the next phrase. -/
theorem reads_blanks
    {blanks : List Token}
    (trivial : ∀ token ∈ blanks, token.isTrivia = true)
    (writes : WritesPhrases phrases tokens) :
    grammar.Reads .trivia blanks (blanks.map .leaf) (tokens ++ rest) :=
  reads_trivia trivial (significant_phrases ends writes)

/-- The word that makes a declaration visible is read where it stands. -/
theorem exists_reads_exported
    (grammar : Grammar)
    {exported : Bool}
    (writes : WritesPhrases (Declaration.exportPhrases exported ++ .name [word] :: phrases) tokens)
    (other : word ≠ "export") :
    ∃ front behind, tokens = front ++ behind ∧ WritesPhrases (.name [word] :: phrases) behind ∧
      grammar.Reads .exported front (front.map .leaf) (behind ++ rest) ∧
      ∀ whole, Declares whole exported false [] (front.map .leaf) := by
  cases exported with
  | true =>
      obtain ⟨token, blanks, behind, rfl, isWord, trivial, writes⟩ := writes.exists_word
      refine ⟨token :: blanks, behind, rfl, writes, ?_, fun whole => ?_⟩
      · exact ((reads_word isWord).append (reads_blanks ends trivial writes)).optional
      · exact (declares_word isWord).append (declares_blanks trivial)
  | false =>
      have noExport : grammar.Fails (.word ["export"]) (tokens ++ rest) :=
        fails_word_of_writes writes other
      exact ⟨[], tokens, rfl, writes, noExport.append.optional,
        fun whole => declares_leaves whole []⟩

/-- Behind that word and a keyword, white space and comments are skipped. -/
theorem exists_reads_keyword
    {exported : Bool}
    {lead : Pattern}
    (leads : ∀ tokens trees rest, Significant (tokens ++ rest) →
      grammar.Reads .exported tokens trees rest → grammar.Reads lead tokens trees rest)
    (writes : WritesPhrases
      (Declaration.exportPhrases exported ++ .name [word] :: next :: phrases) tokens)
    (other : word ≠ "export") :
    ∃ front behind, tokens = front ++ behind ∧ WritesPhrases (next :: phrases) behind ∧
      ∀ whole, grammar.ReadsDeclaring whole (lead ++ .word [word] ++ .trivia) front
        (behind ++ rest) exported false [] := by
  have significant := significant_phrases ends writes
  obtain ⟨front, _, rfl, writes, reads, declares⟩ :=
    exists_reads_exported ends grammar writes other
  obtain ⟨token, blanks, behind, rfl, isWord, trivial, writes⟩ := writes.exists_word
  have exports := leads _ _ _ (by simpa using significant) reads
  refine ⟨front ++ token :: blanks, behind, by simp, writes, fun whole => ?_⟩
  rw [List.cons_append, List.append_assoc] at exports
  have lead : grammar.ReadsDeclaring whole lead front ([token] ++ (blanks ++ (behind ++ rest)))
      exported false [] :=
    ⟨_, exports, declares whole⟩
  have keyword : grammar.ReadsDeclaring whole (.word [word]) [token] (blanks ++ (behind ++ rest))
      false false [] := by
    have declares : Declares whole (word == "export") false [] [.leaf token] := declares_word isWord
    rw [beq_eq_false_iff_ne.2 other] at declares
    exact ⟨_, reads_word isWord, declares⟩
  have significant := significant_phrases ends writes
  simpa using (lead.append keyword).append (readsDeclaring_blanks trivial significant)

omit ends in
/-- A partition with a colon in front. -/
theorem readsDeclaring_partition
    {whole blanks further others part : List Token}
    {colon semicolon : Token}
    (unmocked : grammar.mocked = [])
    (trivial : ∀ token ∈ blanks, token.isTrivia = true)
    (isColon : colon.isPunctuator .colon = true)
    (trivialFurther : ∀ token ∈ further, token.isTrivia = true)
    (writes : WritesName parts part)
    (within : part <:+: whole)
    (trivialOthers : ∀ token ∈ others, token.isTrivia = true)
    (isSemicolon : semicolon.isPunctuator .semicolon = true)
    (rest : List Token) :
    grammar.ReadsDeclaring whole
      (.optional (.trivia ++ .symbol .colon ++ .trivia ++ .rule .moduleName))
      (blanks ++ colon :: (further ++ part)) (others ++ ([semicolon] ++ rest)) false true
      [parts] := by
  have name : grammar.ReadsDeclaring whole (.rule .moduleName) part _ false false [parts] :=
    readsDeclaring_name unmocked writes within trivialOthers isSemicolon (by decide) rest
  have read := (((readsDeclaring_blanks trivial (significant_mark isColon _)).append
    (readsDeclaring_mark isColon)).append
    (readsDeclaring_blanks trivialFurther (writes.significant _))).append name
  simpa using read.mono fun _ reads => reads.optional

/-- What is read of a module declaration with a name. -/
theorem readsDeclaring_namedModule
    {exported : Bool}
    {name : List String}
    {partition : Option (List String)}
    (unmocked : grammar.mocked = [])
    (writes : WritesPhrases (Declaration.named exported name partition).phrases tokens) :
    grammar.ReadsDeclaring tokens .namedModule tokens rest exported partition.isSome
      (name :: partition.toList) := by
  have leads (tokens : List Token) (trees : List Tree) (rest : List Token)
      (_ : Significant (tokens ++ rest)) (reads : grammar.Reads .exported tokens trees rest) :
      grammar.Reads .exported tokens trees rest := reads
  cases partition with
  | none =>
      obtain ⟨front, _, rfl, writes, reads⟩ :=
        exists_reads_keyword ends leads writes (by decide)
      obtain ⟨region, blanks, _, rfl, writesName, trivial, writes⟩ := writes.exists_name
      obtain ⟨semicolon, rfl, isSemicolon⟩ := writes.exists_last
      have noColon := Token.isPunctuator_eq_false isSemicolon (by decide : _ ≠ Punctuator.colon)
      have noPartition :
          grammar.Reads (.optional (.trivia ++ .symbol .colon ++ .trivia ++ .rule .moduleName))
            [] [] (blanks ++ ([semicolon] ++ rest)) :=
        ((reads_trivia trivial (significant_mark isSemicolon _)).append_fails
          (fails_token_cons noColon)).append.append.optional
      have within : region <:+: front ++ (region ++ (blanks ++ [semicolon])) :=
        ⟨front, blanks ++ [semicolon], by simp⟩
      have front := ((reads _).before (by simp)).append
        (readsDeclaring_name unmocked writesName within trivial isSemicolon (by decide) rest)
      have read := (front.mono fun _ reads => reads.append_nothing noPartition).append_mark
        trivial isSemicolon
      simpa [Pattern.namedModule] using read
  | some partition =>
      obtain ⟨front, _, rfl, writes, reads⟩ :=
        exists_reads_keyword ends leads writes (by decide)
      obtain ⟨region, blanks, _, rfl, writesName, trivial, writes⟩ := writes.exists_name
      obtain ⟨colon, further, _, rfl, isColon, trivialFurther, writes⟩ := writes.exists_mark
      obtain ⟨part, others, _, rfl, writesPart, trivialOthers, writes⟩ := writes.exists_name
      obtain ⟨semicolon, rfl, isSemicolon⟩ := writes.exists_last
      let tokens :=
        front ++ (region ++ (blanks ++ colon :: (further ++ (part ++ (others ++ [semicolon])))))
      have within : region <:+: tokens := ⟨front, _, List.append_assoc _ _ _⟩
      have withinToo : part <:+: tokens :=
        ⟨front ++ (region ++ (blanks ++ colon :: further)), others ++ [semicolon], by simp [tokens]⟩
      have front := ((reads _).before (by simp)).append
        (readsDeclaring_name unmocked writesName within trivial isColon (by decide)
          (further ++ (part ++ (others ++ ([semicolon] ++ rest)))))
      have read := ((front.before (by simp)).append
        (readsDeclaring_partition unmocked trivial isColon trivialFurther writesPart withinToo
          trivialOthers isSemicolon rest)).append_mark trivialOthers isSemicolon
      simpa [Pattern.namedModule] using read

omit ends in
/-- Nothing but a header name is read as one. -/
theorem fails_headerName
    {token : Token}
    (unmocked : grammar.mocked = [])
    (noLess : token.isPunctuator .less = false)
    (noString : token.kind ≠ .string .none) :
    grammar.Fails .headerName (token :: rest) := by
  have bracketed : grammar.Fails (.rule .includeBodyBracketed) (token :: rest) :=
    fails_node unmocked (fails_token_cons noLess).append.append
  have quoted : grammar.Fails (.rule .includeBodyQuoted) (token :: rest) :=
    fails_node unmocked (fails_token_cons (by simpa using noString))
  exact bracketed.orElse quoted

omit ends in
/-- A name starts with no symbol. -/
theorem fails_symbol_name
    (writes : WritesName parts tokens)
    (mark : Punctuator) :
    grammar.Fails (.symbol mark) (tokens ++ rest) := by
  obtain ⟨token, behind, rfl, isIdentifier⟩ := writes.exists_identifier
  apply fails_token_cons
  simp [Token.isPunctuator, Token.kind_of_isIdentifier isIdentifier]

omit ends in
/-- A name is no header name. -/
theorem fails_headerName_name
    (unmocked : grammar.mocked = [])
    (writes : WritesName parts tokens) :
    grammar.Fails .headerName (tokens ++ rest) := by
  obtain ⟨token, behind, rfl, isIdentifier⟩ := writes.exists_identifier
  have kind := Token.kind_of_isIdentifier isIdentifier
  exact fails_headerName unmocked (by simp [Token.isPunctuator, kind]) (by simp [kind])

/-- What is read of an import without a header name. -/
theorem readsDeclaring_ppImport
    {exported ofPartition : Bool}
    {name : List String}
    (unmocked : grammar.mocked = [])
    (writes : WritesPhrases (Declaration.importing exported ofPartition name).phrases tokens) :
    grammar.ReadsDeclaring tokens .ppImport tokens rest exported ofPartition [name] := by
  have leads (tokens : List Token) (trees : List Tree) (rest : List Token)
      (significant : Significant (tokens ++ rest))
      (reads : grammar.Reads .exported tokens trees rest) :
      grammar.Reads (.trivia ++ .exported) tokens trees rest := by
    simpa using (reads_trivia_nil significant).append reads
  have nothing : ∀ token ∈ ([] : List Token), token.isTrivia = true := by simp
  have ending : grammar.Reads .endOfLine [] [] rest := reads_endOfLine nothing ends
  cases ofPartition with
  | false =>
      obtain ⟨front, _, rfl, writes, reads⟩ :=
        exists_reads_keyword ends leads writes (by decide)
      obtain ⟨region, blanks, _, rfl, writesName, trivial, writes⟩ := writes.exists_name
      obtain ⟨semicolon, rfl, isSemicolon⟩ := writes.exists_last
      have within : region <:+: front ++ (region ++ (blanks ++ [semicolon])) :=
        ⟨front, blanks ++ [semicolon], by simp⟩
      have noPartition : grammar.ReadsDeclaring
          (front ++ (region ++ (blanks ++ [semicolon]))) (.optional (.symbol .colon ++ .trivia)) []
          (region ++ (blanks ++ ([semicolon] ++ rest))) false false [] :=
        ⟨[], (fails_symbol_name writesName .colon).append.optional, declares_leaves _ []⟩
      have target := (noPartition.append (readsDeclaring_name unmocked writesName within trivial
        isSemicolon (by decide) rest)).append_mark trivial isSemicolon
      have noHeader : grammar.Fails (.headerName ++ .optional (.trivia ++ .symbol .semicolon))
          ([] ++ region ++ blanks ++ [semicolon] ++ rest) := by
        simpa using (fails_headerName_name unmocked writesName).append
      have read := ((reads _).before (by simp)).append
        (target.mono fun _ => noHeader.orElse_right)
      simpa [Pattern.ppImport] using read.mono fun _ reads => reads.append_nothing ending
  | true =>
      obtain ⟨front, _, rfl, writes, reads⟩ :=
        exists_reads_keyword ends leads writes (by decide)
      obtain ⟨colon, blanks, _, rfl, isColon, trivial, writes⟩ := writes.exists_mark
      obtain ⟨region, others, _, rfl, writesName, trivialOthers, writes⟩ := writes.exists_name
      obtain ⟨semicolon, rfl, isSemicolon⟩ := writes.exists_last
      let tokens := front ++ colon :: (blanks ++ (region ++ (others ++ [semicolon])))
      have within : region <:+: tokens :=
        ⟨front ++ colon :: blanks, others ++ [semicolon], by simp [tokens]⟩
      have noLess := Token.isPunctuator_eq_false isColon (by decide : _ ≠ Punctuator.less)
      have noString : colon.kind ≠ .string .none := by
        simp [Token.kind_of_isPunctuator isColon]
      have noHeader (rest : List Token) :
          grammar.Fails (.headerName ++ .optional (.trivia ++ .symbol .semicolon))
            (colon :: rest) :=
        (fails_headerName unmocked noLess noString).append
      have mark : grammar.ReadsDeclaring tokens (.optional (.symbol .colon ++ .trivia))
          ([colon] ++ blanks) (region ++ (others ++ ([semicolon] ++ rest))) false true [] :=
        ((readsDeclaring_mark isColon).append
          (readsDeclaring_blanks trivial (writesName.significant _))).mono
            fun _ reads => reads.optional
      have target := (mark.append (readsDeclaring_name unmocked writesName within trivialOthers
        isSemicolon (by decide) rest)).append_mark trivialOthers isSemicolon
      have read := ((reads tokens).before (by simp)).append
        (target.mono fun _ => (noHeader _).orElse_right)
      simpa [Pattern.ppImport] using read.mono fun _ reads => reads.append_nothing ending

/-- A line with the word for modules declares no import. -/
theorem fails_ppImport
    {exported : Bool}
    (writes : WritesPhrases
      (Declaration.exportPhrases exported ++ .name ["module"] :: phrases) tokens) :
    grammar.Fails .ppImport (tokens ++ rest) := by
  have significant := significant_phrases ends writes
  obtain ⟨front, behind, rfl, writes, reads, -⟩ :=
    exists_reads_exported ends grammar writes (by decide)
  have noImport : grammar.Fails (.word ["import"]) (behind ++ rest) :=
    fails_word_of_writes writes (by decide)
  rw [List.append_assoc] at significant ⊢
  have lead : grammar.Reads (.trivia ++ .exported) front (front.map .leaf) (behind ++ rest) := by
    simpa using (reads_trivia_nil significant).append reads
  exact (lead.append_fails noImport).append.append.append

/-- A named module starts no fragment. -/
theorem fails_fragment
    {exported : Bool}
    {parts : List String}
    (writes : WritesPhrases
      (Declaration.exportPhrases exported ++ .name ["module"] :: .name parts :: phrases) tokens)
    (mark : Punctuator) :
    grammar.Fails (.word ["module"] ++ .trivia ++ .symbol mark) (tokens ++ rest) := by
  cases exported with
  | true =>
      have noModule : grammar.Fails (.word ["module"]) (tokens ++ rest) :=
        fails_word_of_writes writes (by decide)
      exact noModule.append.append
  | false =>
      obtain ⟨token, blanks, behind, rfl, isWord, trivial, writes⟩ := writes.exists_word
      have gap : grammar.Reads .trivia blanks (blanks.map .leaf) (behind ++ rest) :=
        reads_blanks ends trivial writes
      obtain ⟨region, more, rfl, here⟩ := writes.exists_first
      cases here with
      | name writes =>
          have noMark : grammar.Fails (.symbol mark) (region ++ more ++ rest) := by
            rw [List.append_assoc]
            exact fails_symbol_name writes mark
          have failed := ((reads_word isWord).append gap).append_fails noMark
          simpa using failed

/-- What is read of a module declaration is read on its line. -/
theorem reads_ppModule
    {trees : List Tree}
    (significant : Significant (tokens ++ rest))
    (reads : grammar.Reads (.globalFragment <|> .privateFragment <|> .namedModule) tokens trees rest) :
    grammar.Reads .ppModule tokens trees rest := by
  have nothing : ∀ token ∈ ([] : List Token), token.isTrivia = true := by simp
  have ending : grammar.Reads .endOfLine [] [] rest := reads_endOfLine nothing ends
  simpa [Pattern.ppModule] using ((reads_trivia_nil significant).append reads).append_nothing ending

omit ends in
/-- The private fragment is not the global one. -/
theorem fails_globalFragment
    (writes : WritesPhrases Declaration.privateFragment.phrases tokens) :
    grammar.Fails .globalFragment (tokens ++ rest) := by
  obtain ⟨token, blanks, _, rfl, isWord, trivial, writes⟩ := writes.exists_word
  obtain ⟨colon, more, _, rfl, isColon, -⟩ := writes.exists_mark
  have noSemicolon := Token.isPunctuator_eq_false isColon (by decide : _ ≠ Punctuator.semicolon)
  have failed (rest : List Token) :
      grammar.Fails .globalFragment (([token] ++ blanks) ++ ([colon] ++ rest)) :=
    ((reads_word isWord).append (reads_trivia trivial (significant_mark isColon _))).append_fails
      (fails_token_cons noSemicolon)
  simpa using failed _

end Line

end Grammar

end PreprocessorSyntax
