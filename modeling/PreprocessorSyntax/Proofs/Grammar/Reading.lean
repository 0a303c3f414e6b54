import PreprocessorSyntax.Proofs.Grammar.Equations

/-!
# Reading a given run of tokens

`Grammar.Reads` says that a pattern reads exactly some tokens when certain other
tokens follow, and `Grammar.Fails` that it reads nothing at all.  Both leave
aside how many tokens came before.  One lemma for each kind of pattern lets the
reading of a whole construct be put together from the readings of its parts.
-/

namespace PreprocessorSyntax

/-- No white space or comment comes first. -/
def Significant (tokens : List Token) : Prop :=
  ∀ token ∈ tokens.head?, token.isTrivia = false

theorem significant_nil : Significant [] := by simp [Significant]

theorem significant_cons
    {token : Token}
    (notTrivia : token.isTrivia = false)
    (rest : List Token) :
    Significant (token :: rest) := by
  rintro found ⟨⟩
  exact notTrivia

namespace Token

variable {token : Token} {symbol : Punctuator}

theorem kind_of_isPunctuator (isSymbol : token.isPunctuator symbol = true) :
    token.kind = .punctuator symbol :=
  beq_iff_eq.1 isSymbol

theorem kind_of_isIdentifier (isName : token.isIdentifier = true) : token.kind = .identifier :=
  beq_iff_eq.1 isName

/-- A token is one punctuator and no other. -/
theorem isPunctuator_eq_false
    {other : Punctuator}
    (isSymbol : token.isPunctuator symbol = true)
    (different : symbol ≠ other) :
    token.isPunctuator other = false := by
  simpa [isPunctuator, kind_of_isPunctuator isSymbol] using different

theorem isIdentifier_of_isPunctuator (isSymbol : token.isPunctuator symbol = true) :
    token.isIdentifier = false := by
  rw [isIdentifier, kind_of_isPunctuator isSymbol]
  rfl

theorem isTrivia_of_isPunctuator (isSymbol : token.isPunctuator symbol = true) :
    token.isTrivia = false := by
  rw [isTrivia, kind_of_isPunctuator isSymbol]
  rfl

theorem isTrivia_of_isIdentifier (isName : token.isIdentifier = true) :
    token.isTrivia = false := by
  rw [isTrivia, kind_of_isIdentifier isName]
  rfl

/-- White space and comments are no punctuators. -/
theorem isPunctuator_of_isTrivia (trivial : token.isTrivia = true) (symbol : Punctuator) :
    token.isPunctuator symbol = false := by
  rw [Bool.eq_false_iff]
  intro isSymbol
  rw [isTrivia_of_isPunctuator isSymbol] at trivial
  cases trivial

theorem isIdentifier_of_isTrivia (trivial : token.isTrivia = true) :
    token.isIdentifier = false := by
  rw [Bool.eq_false_iff]
  intro isName
  rw [isTrivia_of_isIdentifier isName] at trivial
  cases trivial

theorem isContent_of_isPunctuator (isSymbol : token.isPunctuator symbol = true) :
    token.isContent = true := by
  rw [isContent, isTrivia_of_isPunctuator isSymbol, isLineEnd, kind_of_isPunctuator isSymbol]
  rfl

theorem isContent_of_isIdentifier (isName : token.isIdentifier = true) :
    token.isContent = true := by
  rw [isContent, isTrivia_of_isIdentifier isName, isLineEnd, kind_of_isIdentifier isName]
  rfl

end Token

namespace Grammar

/-- In front of `rest`, a pattern reads exactly some tokens, as some trees. -/
def Reads
    (grammar : Grammar)
    (pattern : Pattern)
    (tokens : List Token)
    (trees : List Tree)
    (rest : List Token) : Prop :=
  ∀ position, grammar.treesAt? pattern ⟨position, tokens ++ rest⟩ =
    some (trees, ⟨position + tokens.length, rest⟩)

/-- A pattern matches nothing in front of the given tokens. -/
def Fails (grammar : Grammar) (pattern : Pattern) (rest : List Token) : Prop :=
  ∀ position, grammar.treesAt? pattern ⟨position, rest⟩ = none

variable {grammar : Grammar} {first second item preferred alternative : Pattern}
variable {tokens further rest : List Token} {trees more : List Tree}

theorem reads_token
    {accepts : Token → Bool}
    {token : Token}
    (accepted : accepts token = true)
    (readable : token.kind ≠ .endOfInput) :
    grammar.Reads (.token accepts) [token] [.leaf token] rest := by
  intro position
  rw [List.singleton_append, treesAt?_token_cons, if_neg readable, if_pos accepted]
  rfl

theorem fails_token
    {accepts : Token → Bool}
    (refused : ∀ token ∈ rest.head?, accepts token = false) :
    grammar.Fails (.token accepts) rest := by
  intro position
  cases rest with
  | nil => exact treesAt?_token_nil accepts position
  | cons token rest =>
      rw [treesAt?_token_cons, refused token rfl]
      simp

theorem fails_token_cons
    {accepts : Token → Bool}
    {token : Token}
    (refused : accepts token = false) :
    grammar.Fails (.token accepts) (token :: rest) := by
  apply fails_token
  rintro found ⟨⟩
  exact refused

theorem reads_symbol
    {symbol : Punctuator}
    {token : Token}
    (isSymbol : token.isPunctuator symbol = true) :
    grammar.Reads (.symbol symbol) [token] [.leaf token] rest := by
  apply reads_token isSymbol
  rw [Token.kind_of_isPunctuator isSymbol]
  simp

theorem reads_operator
    {symbols : List Punctuator}
    {token : Token}
    (isOperator : token.isAnyPunctuator symbols = true) :
    grammar.Reads (.token (Token.isAnyPunctuator symbols)) [token] [.leaf token] rest := by
  apply reads_token isOperator
  obtain ⟨symbol, _, isSymbol⟩ := List.any_eq_true.1 isOperator
  rw [Token.kind_of_isPunctuator isSymbol]
  simp

theorem reads_identifier
    {accepts : Token → Bool}
    {token : Token}
    (accepted : accepts token = true)
    (isName : token.isIdentifier = true) :
    grammar.Reads (.token accepts) [token] [.leaf token] rest := by
  apply reads_token accepted
  rw [Token.kind_of_isIdentifier isName]
  simp

/-- Without mocked rules every rule accepts its own pattern. -/
theorem pattern_eq (unmocked : grammar.mocked = []) (rule : Rule) :
    grammar.pattern rule = rule.pattern := by
  simp [pattern, unmocked]

theorem reads_rule
    {called : Rule}
    (body : grammar.Reads (grammar.pattern called) tokens trees rest) :
    grammar.Reads (.rule called) tokens [(called.build trees).toTree] rest := by
  intro position
  rw [treesAt?_rule, nodeAt?_eq, body position]
  rfl

theorem fails_rule
    {called : Rule}
    (body : grammar.Fails (grammar.pattern called) rest) :
    grammar.Fails (.rule called) rest := by
  intro position
  rw [treesAt?_rule, nodeAt?_eq, body position]
  rfl

theorem Reads.append
    (front : grammar.Reads first tokens trees (further ++ rest))
    (back : grammar.Reads second further more rest) :
    grammar.Reads (first ++ second) (tokens ++ further) (trees ++ more) rest := by
  intro position
  rw [List.append_assoc, treesAt?_append, front position, Option.bind_some, back]
  simp [Nat.add_assoc]

theorem Fails.append (front : grammar.Fails first rest) : grammar.Fails (first ++ second) rest := by
  intro position
  rw [treesAt?_append, front position]
  rfl

theorem Reads.append_fails
    (front : grammar.Reads first tokens trees rest)
    (back : grammar.Fails second rest) :
    grammar.Fails (first ++ second) (tokens ++ rest) := by
  intro position
  rw [treesAt?_append, front position, Option.bind_some, back]
  rfl

theorem Reads.orElse_left
    (chosen : grammar.Reads preferred tokens trees rest) :
    grammar.Reads (preferred <|> alternative) tokens trees rest := by
  intro position
  rw [treesAt?_orElse, chosen position]
  rfl

theorem Fails.orElse_right
    (failed : grammar.Fails preferred (tokens ++ rest))
    (chosen : grammar.Reads alternative tokens trees rest) :
    grammar.Reads (preferred <|> alternative) tokens trees rest := by
  intro position
  rw [treesAt?_orElse, failed position, chosen position]
  rfl

theorem Fails.orElse
    (failed : grammar.Fails preferred rest)
    (failedToo : grammar.Fails alternative rest) :
    grammar.Fails (preferred <|> alternative) rest := by
  intro position
  rw [treesAt?_orElse, failed position, failedToo position]
  rfl

theorem Reads.optional
    (read : grammar.Reads item tokens trees rest) :
    grammar.Reads (Pattern.optional item) tokens trees rest :=
  read.orElse_left

theorem Fails.optional
    (failed : grammar.Fails item rest) :
    grammar.Reads (Pattern.optional item) [] [] rest :=
  Fails.orElse_right failed fun _ => treesAt?_empty _

theorem Fails.many
    (failed : grammar.Fails item rest) :
    grammar.Reads (.many item) [] [] rest :=
  fun position => treesAt?_many_stop (failed position)

theorem Reads.many
    (consumes : item.consumes = true)
    (front : grammar.Reads item tokens trees (further ++ rest))
    (back : grammar.Reads (.many item) further more rest) :
    grammar.Reads (.many item) (tokens ++ further) (trees ++ more) rest := by
  intro position
  rw [List.append_assoc, treesAt?_many_further consumes (front position), back]
  simp [Nat.add_assoc]

/-- White space and comments are read up to the first other token. -/
theorem reads_trivia
    {leading : List Token}
    (trivial : ∀ token ∈ leading, token.isTrivia = true)
    (significant : Significant rest) :
    grammar.Reads .trivia leading (leading.map .leaf) rest := by
  have stops : rest.takeWhile Token.isTrivia = [] ∧ rest.dropWhile Token.isTrivia = rest := by
    cases rest with
    | nil => exact ⟨rfl, rfl⟩
    | cons token rest =>
        have notTrivia := significant token rfl
        simp [notTrivia]
  intro position
  rw [treesAt?_trivia, List.takeWhile_append_of_pos trivial, List.dropWhile_append_of_pos trivial,
    stops.1, stops.2, List.append_nil]

theorem reads_trivia_nil (significant : Significant rest) : grammar.Reads .trivia [] [] rest :=
  reads_trivia (by simp) significant

/-- White space may be left out in front of any other token. -/
theorem Reads.skip
    (front : grammar.Reads first tokens trees rest)
    (significant : Significant rest) :
    grammar.Reads (first ++ .trivia) tokens trees rest := by
  have behind : grammar.Reads first tokens trees ([] ++ rest) := front
  simpa using behind.append (reads_trivia_nil significant)

end Grammar
end PreprocessorSyntax
