import PreprocessorSyntax.Proofs.Grammar.Simulation

/-!
# Number signs and directive names

The alternatives for a directive line are told apart by the name behind the
number sign.  An alternative whose names do not contain it declines: it matches
nothing, and all that it notes are failures at the place where the line starts.
An alternative that matches has read up to the end of the line.
-/

namespace PreprocessorSyntax

/-- The rules for single lines, in the order in which they are tried. -/
def lineRules : List Rule :=
  [.defineLine, .includeLine, .ppImport, .ppModule, .ifLine, .ifdefLine, .elifLine, .elseLine,
   .endifLine, .undefLine, .lineLine, .errorLine, .pragmaLine, .warningLine, .miscLine]

theorem nodup_lineRules : lineRules.Nodup := by decide

namespace Rule

/-- The names that a rule for lines accepts behind the number sign. -/
def directiveNames : Rule → List String
  | .defineLine => ["define"]
  | .includeLine => ["include", "include_next"]
  | .ifLine => ["if"]
  | .ifdefLine => ["ifdef", "ifndef"]
  | .elifLine => ["elif"]
  | .elseLine => ["else"]
  | .endifLine => ["endif"]
  | .undefLine => ["undef"]
  | .lineLine => ["line"]
  | .errorLine => ["error"]
  | .pragmaLine => ["pragma"]
  | .warningLine => ["warning"]
  | _ => []

/-- The rule for the lines with a given name. -/
def ofDirectiveName? (name : String) : Option Rule :=
  lineRules.find? fun rule => rule.directiveNames.contains name

/-- No name belongs to two rules. -/
theorem ofDirectiveName?_of_mem
    {rule : Rule}
    {name : String}
    (named : name ∈ rule.directiveNames) :
    ofDirectiveName? name = some rule := by
  have all : ∀ name ∈ rule.directiveNames, ofDirectiveName? name = some rule := by
    cases rule <;> decide
  exact all name named

theorem mem_of_ofDirectiveName?
    {rule : Rule}
    {name : String}
    (found : ofDirectiveName? name = some rule) :
    rule ∈ lineRules ∧ name ∈ rule.directiveNames :=
  ⟨List.mem_of_find?_eq_some found, by simpa using List.find?_some found⟩

/-- The rules for lines are alternatives of one rule and are called by no other. -/
theorem not_mem_calls_pattern
    {rule other : Rule}
    (notLine : rule ≠ .preprocessorLine)
    (listed : other ∈ .preprocessorLine :: lineRules) :
    other ∉ rule.pattern.calls := by
  have all : ∀ other ∈ Rule.preprocessorLine :: lineRules, other ∉ rule.pattern.calls := by
    cases rule <;> first | contradiction | decide
  exact all other listed

end Rule

/-- The rule for the lines with a given token behind the number sign. -/
def Token.lineRule? (keyword : Token) : Option Rule :=
  if keyword.isIdentifier then Rule.ofDirectiveName? keyword.text else none

theorem Token.lineRule?_eq_some
    {keyword : Token}
    {rule : Rule}
    (meant : keyword.lineRule? = some rule) :
    keyword.isIdentifier = true ∧ rule ∈ lineRules ∧ keyword.text ∈ rule.directiveNames := by
  rw [lineRule?, Option.ite_none_right_eq_some] at meant
  exact ⟨meant.1, Rule.mem_of_ofDirectiveName? meant.2⟩

theorem Token.lineRule?_eq_none {token : Token} (ends : token.isLineEnd = true) :
    token.lineRule? = none := by
  cases means : token.lineRule? with
  | none => rfl
  | some meant =>
      have content := isContent_of_isIdentifier (lineRule?_eq_some means).1
      simp [isContent, ends] at content

namespace Grammar

variable {grammar : Grammar} {hash word : Token} {blanks rest : List Token} {names : List String}

section Hash

variable (isHash : hash.isPunctuator .hash = true)
include isHash

theorem reads_hash :
    grammar.Reads (.trivia ++ .symbol .hash) [hash] [.leaf hash] rest := by
  have front : grammar.Reads .trivia [] [] ([hash] ++ rest) :=
    reads_trivia_nil (significant_cons (Token.isTrivia_of_isPunctuator isHash) rest)
  exact front.append (reads_symbol isHash)

variable (trivial : ∀ token ∈ blanks, token.isTrivia = true)
include trivial

/-- A name that is not listed is no head. -/
theorem fails_directiveHead
    (significant : Significant rest)
    (unnamed : ∀ word ∈ rest.head?, word.isIdentifier = true → word.text ∉ names) :
    grammar.Fails (.directiveHead names) (hash :: (blanks ++ rest)) := by
  have front : grammar.Reads (.trivia ++ .symbol .hash ++ .trivia) ([hash] ++ blanks)
      ([.leaf hash] ++ blanks.map .leaf) rest :=
    (reads_hash isHash).append (reads_trivia trivial significant)
  refine front.append_fails (fails_token ?_)
  intro word first
  have refused := unnamed word first
  cases isName : word.isIdentifier <;> simp_all

/-- A listed name behind the number sign is a head. -/
theorem reads_directiveHead
    (isName : word.isIdentifier = true)
    (listed : word.text ∈ names) :
    grammar.Reads (.directiveHead names) (hash :: (blanks ++ [word]))
      (.leaf hash :: (blanks.map .leaf ++ [.leaf word])) rest := by
  have significant : Significant ([word] ++ rest) :=
    significant_cons (Token.isTrivia_of_isIdentifier isName) rest
  have front : grammar.Reads (.trivia ++ .symbol .hash ++ .trivia) ([hash] ++ blanks)
      ([.leaf hash] ++ blanks.map .leaf) ([word] ++ rest) :=
    (reads_hash isHash).append (reads_trivia trivial significant)
  have name : grammar.Reads (.word names) [word] [.leaf word] rest :=
    reads_identifier (by simp [isName, listed]) isName
  simpa [Pattern.directiveHead] using front.append name

end Hash

/-- A pattern matches nothing at a place and notes failures there and in front of it only. -/
def Declines (grammar : Grammar) (levels : Nat) (pattern : Pattern) (cursor : Cursor) : Prop :=
  ∀ failures, ∃ later, pattern.read (grammar.readRule levels) cursor failures = (none, later) ∧
    AgreeFrom (cursor.position + 1) later failures

variable {levels : Nat} {first second preferred alternative : Pattern} {cursor : Cursor}

theorem declines_of_calls_eq_nil
    (callsNone : first.calls = [])
    (failed : grammar.treesAt? first cursor = none) :
    grammar.Declines levels first cursor := by
  intro failures
  rw [read_of_calls_eq_nil grammar callsNone, failed]
  exact ⟨failures, rfl, .refl _ _⟩

theorem Declines.append (declines : grammar.Declines levels first cursor) :
    grammar.Declines levels (first ++ second) cursor := by
  intro failures
  obtain ⟨later, read, agree⟩ := declines failures
  rw [Pattern.append_eq]
  simp only [Pattern.read, read]
  exact ⟨later, rfl, agree⟩

theorem Declines.behind
    (callsNone : first.calls = [])
    (nothing : grammar.treesAt? first cursor = some ([], cursor))
    (declines : grammar.Declines levels second cursor) :
    grammar.Declines levels (first ++ second) cursor := by
  intro failures
  obtain ⟨later, read, agree⟩ := declines failures
  rw [Pattern.append_eq]
  simp only [Pattern.read, read_of_calls_eq_nil grammar callsNone, nothing, read]
  exact ⟨later, rfl, agree⟩

theorem Declines.orElse
    (declines : grammar.Declines levels preferred cursor)
    (declinesToo : grammar.Declines levels alternative cursor) :
    grammar.Declines levels (preferred <|> alternative) cursor := by
  intro failures
  obtain ⟨later, read, agree⟩ := declines failures
  obtain ⟨last, readToo, agreeToo⟩ := declinesToo later
  rw [Pattern.orElse_eq]
  simp only [Pattern.read, read, readToo]
  exact ⟨last, rfl, agreeToo.trans agree⟩

/-- A rule declines where its pattern does, or where no level is left for it. -/
theorem declines_rule
    {rule : Rule}
    (body : ∀ levels, grammar.Declines levels (grammar.pattern rule) cursor)
    (levels : Nat) :
    grammar.Declines levels (.rule rule) cursor := by
  intro failures
  rw [Pattern.read_rule]
  unfold readRule
  split
  next => exact ⟨failures, rfl, .refl _ _⟩
  next =>
    cases levels with
    | zero => exact ⟨_, rfl, (AgreeFrom.refl _ _).insert_left (Nat.lt_succ_self _) rule⟩
    | succ levels =>
        obtain ⟨later, read, agree⟩ := body levels failures
        simp only [read]
        exact ⟨_, rfl, agree.insert_left (Nat.lt_succ_self _) rule⟩

theorem declines_firstOf
    {preferred : Rule}
    {others : List Rule}
    (declines : ∀ rule ∈ preferred :: others, grammar.Declines levels (.rule rule) cursor) :
    grammar.Declines levels (.firstOf preferred others) cursor := by
  induction others generalizing preferred with
  | nil => exact declines preferred List.mem_cons_self
  | cons next others inductionHypothesis =>
      rw [List.forall_mem_cons] at declines
      exact Declines.orElse declines.1 (inductionHypothesis declines.2)

section Hash

variable (isHash : hash.isPunctuator .hash = true)
include isHash

theorem fails_word (names : List String) : grammar.Fails (.word names) (hash :: rest) := by
  apply fails_token_cons
  simp [Token.isIdentifier, Token.kind_of_isPunctuator isHash]

theorem reads_exported_nil : grammar.Reads .exported [] [] (hash :: rest) :=
  Fails.optional (fails_word isHash ["export"]).append

theorem reads_trivia_hash : grammar.Reads .trivia [] [] (hash :: rest) :=
  reads_trivia_nil (significant_cons (Token.isTrivia_of_isPunctuator isHash) rest)

/-- Imports begin with a word. -/
theorem declines_ppImport (position : Nat) :
    grammar.Declines levels .ppImport ⟨position, hash :: rest⟩ := by
  have front : grammar.Reads (.trivia ++ .exported) [] [] (hash :: rest) :=
    (reads_trivia_hash isHash).append (reads_exported_nil isHash)
  have failed := front.append_fails (fails_word isHash ["import"])
  exact (declines_of_calls_eq_nil rfl (failed position)).append.append.append

/-- So do module declarations. -/
theorem declines_ppModule (position : Nat) :
    grammar.Declines levels .ppModule ⟨position, hash :: rest⟩ := by
  have word : grammar.Fails (.word ["module"]) (hash :: rest) := fails_word isHash ["module"]
  have named := (reads_exported_nil isHash).append_fails word
  have fragments : grammar.Declines levels
      (.globalFragment <|> .privateFragment <|> .namedModule) ⟨position, hash :: rest⟩ := by
    refine Declines.orElse ?_ (Declines.orElse ?_ ?_)
    · exact (declines_of_calls_eq_nil rfl (word position)).append.append
    · exact (declines_of_calls_eq_nil rfl (word position)).append.append.append.append.append.append
    · exact (declines_of_calls_eq_nil rfl (named position)).append.append.append.append.append
  exact (Declines.behind rfl (reads_trivia_hash isHash position) fragments).append

variable (unmocked : grammar.mocked = [])
variable (trivial : ∀ token ∈ blanks, token.isTrivia = true) (significant : Significant rest)
include unmocked trivial significant

/-- A rule for lines declines if the name behind the number sign is none of its own. -/
theorem declines_line
    {rule : Rule}
    (listed : rule ∈ lineRules)
    (named : rule ≠ .miscLine)
    (unnamed : ∀ word ∈ rest.head?, word.isIdentifier = true → word.text ∉ rule.directiveNames)
    (position levels : Nat) :
    grammar.Declines levels (.rule rule) ⟨position, hash :: (blanks ++ rest)⟩ := by
  have head (levels : Nat) : grammar.Declines levels (.directiveHead rule.directiveNames)
      ⟨position, hash :: (blanks ++ rest)⟩ :=
    declines_of_calls_eq_nil rfl (fails_directiveHead isHash trivial significant unnamed position)
  apply declines_rule
  intro levels
  rw [pattern_eq unmocked]
  simp only [lineRules, List.mem_cons, List.not_mem_nil, or_false] at listed
  rcases listed with rfl | rfl | rfl | rfl | rfl | rfl | rfl | rfl | rfl | rfl | rfl | rfl | rfl |
    rfl | rfl
  · -- A definition has its head in the two rules below.
    apply declines_firstOf
    intro rule listed
    apply declines_rule
    intro levels
    rw [pattern_eq unmocked]
    simp only [List.mem_cons, List.not_mem_nil, or_false] at listed
    rcases listed with rfl | rfl
    · exact (head levels).append.append.append.append.append.append.append.append.append.append
    · exact (head levels).append.append.append.append.append.append
  · exact (head levels).append.append.append
  · exact declines_ppImport isHash position
  · exact declines_ppModule isHash position
  · exact (head levels).append.append.append
  · exact (head levels).append.append.append
  · exact (head levels).append.append.append
  · exact (head levels).append
  · exact (head levels).append
  · exact (head levels).append.append.append
  · exact (head levels).append.append.append
  · exact (head levels).append
  · exact (head levels).append
  · exact (head levels).append
  · contradiction

end Hash

/-- Whatever a pattern reads, it reads up to the end of a line. -/
def EndsLine (grammar : Grammar) (pattern : Pattern) : Prop :=
  ∀ levels cursor failures trees after later,
    pattern.read (grammar.readRule levels) cursor failures = (some (trees, after), later) →
      after.atLineEnd = true

theorem EndsLine.behind (ends : grammar.EndsLine second) : grammar.EndsLine (first ++ second) := by
  intro levels cursor failures trees after later read
  rw [Pattern.append_eq] at read
  simp only [Pattern.read] at read
  split at read
  next => cases read
  next =>
    split at read
    next => cases read
    next back => cases read; exact ends _ _ _ _ _ _ back

theorem EndsLine.orElse
    (ends : grammar.EndsLine preferred)
    (endsToo : grammar.EndsLine alternative) :
    grammar.EndsLine (preferred <|> alternative) := by
  intro levels cursor failures trees after later read
  rw [Pattern.orElse_eq] at read
  simp only [Pattern.read] at read
  split at read
  next chosen => cases read; exact ends _ _ _ _ _ _ chosen
  next => exact endsToo _ _ _ _ _ _ read

theorem endsLine_rule
    {rule : Rule}
    (ends : grammar.EndsLine (grammar.pattern rule)) :
    grammar.EndsLine (.rule rule) := by
  intro levels cursor failures trees after later read
  simp only [Pattern.read] at read
  split at read
  next => cases read
  next found =>
    cases read
    unfold readRule at found
    split at found
    next => cases found
    next =>
      cases levels with
      | zero => cases found
      | succ levels =>
          simp only at found
          split at found
          next body => cases found; exact ends _ _ _ _ _ _ body
          next => cases found

theorem endsLine_endOfLine : grammar.EndsLine .endOfLine := by
  refine EndsLine.behind ?_
  intro levels cursor failures trees after later read
  simp only [Pattern.read] at read
  split at read
  next accepted => cases read; exact accepted
  next => cases read

theorem endsLine_restOfLine : grammar.EndsLine .restOfLine := by
  intro levels cursor failures trees after later read
  rw [read_of_calls_eq_nil grammar rfl, Prod.mk.injEq] at read
  have stopped := treesAt?_many_end rfl read.1
  obtain ⟨position, rest⟩ := after
  cases rest with
  | nil => rfl
  | cons token rest =>
      rw [treesAt?_token_cons] at stopped
      by_cases last : token.kind = .endOfInput <;>
        simp_all [Cursor.atLineEnd, Cursor.peekKind, Cursor.peek?, Token.isLineEnd,
          TokenKind.isLineEnd]

/-- Every rule for lines reads up to the end of a line. -/
theorem endsLine_line
    (unmocked : grammar.mocked = [])
    {rule : Rule}
    (listed : rule ∈ lineRules) :
    grammar.EndsLine (.rule rule) := by
  have ofPattern {rule : Rule} (ends : grammar.EndsLine rule.pattern) :
      grammar.EndsLine (.rule rule) :=
    endsLine_rule (by rwa [pattern_eq unmocked])
  simp only [lineRules, List.mem_cons, List.not_mem_nil, or_false] at listed
  rcases listed with rfl | rfl | rfl | rfl | rfl | rfl | rfl | rfl | rfl | rfl | rfl | rfl | rfl |
    rfl | rfl
  · exact ofPattern (EndsLine.orElse (ofPattern endsLine_endOfLine.behind)
      (ofPattern endsLine_endOfLine.behind))
  · exact ofPattern endsLine_endOfLine.behind
  · exact ofPattern endsLine_endOfLine.behind
  · exact ofPattern endsLine_endOfLine.behind
  · exact ofPattern endsLine_endOfLine.behind
  · exact ofPattern endsLine_restOfLine.behind
  · exact ofPattern endsLine_endOfLine.behind
  · exact ofPattern endsLine_restOfLine.behind
  · exact ofPattern endsLine_restOfLine.behind
  · exact ofPattern endsLine_restOfLine.behind
  · exact ofPattern endsLine_restOfLine.behind
  · exact ofPattern endsLine_restOfLine.behind
  · exact ofPattern endsLine_restOfLine.behind
  · exact ofPattern endsLine_restOfLine.behind
  · exact ofPattern endsLine_restOfLine.behind

end Grammar
end PreprocessorSyntax
