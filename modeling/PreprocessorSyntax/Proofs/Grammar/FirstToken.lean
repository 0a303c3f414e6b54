import PreprocessorSyntax.Proofs.Grammar.Coverage
import PreprocessorSyntax.Proofs.Line.Head

/-!
# How directive lines begin

Apart from white space and comments, every line that the grammar accepts begins
with a number sign or with one of the words of imports and modules.  This is
shown for derivations, one lemma for each kind of pattern, so it holds of every
parse.
-/

namespace PreprocessorSyntax

/-- The first token that is neither white space nor a comment. -/
def firstSignificant? (tokens : List Token) : Option Token :=
  tokens.find? fun token => !token.isTrivia

/-- A number sign, or one of the words with which imports and modules begin. -/
def Token.startsDirective (token : Token) : Bool :=
  token.isPunctuator .hash ||
    (token.isIdentifier && ["import", "export", "module"].contains token.text)

theorem firstSignificant?_cons (token : Token) (tokens : List Token) :
    firstSignificant? (token :: tokens) =
      if token.isTrivia then firstSignificant? tokens else some token := by
  unfold firstSignificant?
  cases trivial : token.isTrivia <;> simp [trivial]

theorem firstSignificant?_append (front back : List Token) :
    firstSignificant? (front ++ back) =
      (firstSignificant? front).or (firstSignificant? back) :=
  List.find?_append

theorem firstSignificant?_eq_none
    {tokens : List Token}
    (trivial : ∀ token ∈ tokens, token.isTrivia = true) :
    firstSignificant? tokens = none := by
  unfold firstSignificant?
  rw [List.find?_eq_none]
  intro token present
  simp [trivial token present]

namespace Grammar

variable {grammar : Grammar} {accepts : Token → Bool}
variable {first second preferred alternative : Pattern}

/-- All that a pattern matches begins, behind white space and comments, with certain tokens. -/
def Begins (grammar : Grammar) (accepts : Token → Bool) (pattern : Pattern) : Prop :=
  ∀ cursor trees after, grammar.Derives pattern cursor trees after →
    ∃ token ∈ firstSignificant? (Tree.tokensOf trees), accepts token = true

/-- The same, where a pattern may match nothing but white space and comments. -/
def MayBegin (grammar : Grammar) (accepts : Token → Bool) (pattern : Pattern) : Prop :=
  ∀ cursor trees after, grammar.Derives pattern cursor trees after →
    ∀ token ∈ firstSignificant? (Tree.tokensOf trees), accepts token = true

theorem Begins.mayBegin (begins : grammar.Begins accepts first) :
    grammar.MayBegin accepts first := by
  intro cursor trees after derived token here
  obtain ⟨found, there, starts⟩ := begins cursor trees after derived
  rw [Option.mem_def] at here there
  rw [here] at there
  cases there
  exact starts

theorem Begins.mono
    {acceptsToo : Token → Bool}
    (begins : grammar.Begins accepts first)
    (implies : ∀ token, accepts token = true → acceptsToo token = true) :
    grammar.Begins acceptsToo first := by
  intro cursor trees after derived
  obtain ⟨token, here, accepted⟩ := begins cursor trees after derived
  exact ⟨token, here, implies token accepted⟩

theorem begins_token
    {test : Token → Bool}
    (starts : ∀ token, test token = true → accepts token = true ∧ token.isTrivia = false) :
    grammar.Begins accepts (.token test) := by
  intro cursor trees after derived
  cases derived with
  | @token test cursor after found read accepted =>
      obtain ⟨starting, notTrivia⟩ := starts found accepted
      exact ⟨found, by simp [firstSignificant?_cons, notTrivia], starting⟩

theorem begins_hash : grammar.Begins (Token.isPunctuator .hash) (.symbol .hash) :=
  begins_token fun _ isHash => ⟨isHash, Token.isTrivia_of_isPunctuator isHash⟩

theorem begins_word
    {word : String}
    (listed : word ∈ ["import", "export", "module"]) :
    grammar.Begins Token.startsDirective (.word [word]) := by
  apply begins_token
  intro token isWord
  simp_all [Token.startsDirective, Token.isIdentifier, Token.isTrivia, TokenKind.isTrivia]

theorem isTrivia_of_derives
    {cursor after : Cursor}
    {trees : List Tree}
    (derived : grammar.Derives .trivia cursor trees after) :
    ∀ token ∈ Tree.tokensOf trees, token.isTrivia = true := by
  generalize repeated : Pattern.trivia = pattern at derived
  induction derived with
  | stop => simp
  | further front back _ backHypothesis =>
      intro token present
      rw [Tree.tokensOf_append, List.mem_append] at present
      cases repeated
      cases front with
      | token read accepted =>
          rcases present with single | further
          · simp only [Tree.tokensOf_cons, Tree.tokensOf_nil, Tree.tokens_leaf, List.append_nil,
              List.mem_singleton] at single
            rwa [single]
          · exact backHypothesis rfl token further
  | _ => cases repeated

/-- White space and comments have no significant token. -/
theorem mayBegin_trivia : grammar.MayBegin accepts .trivia := by
  intro cursor trees after derived token here
  rw [firstSignificant?_eq_none (isTrivia_of_derives derived)] at here
  cases here

theorem Begins.append (begins : grammar.Begins accepts first) :
    grammar.Begins accepts (first ++ second) := by
  intro cursor trees after derived
  cases derived with
  | sequence front back =>
      obtain ⟨token, here, starts⟩ := begins _ _ _ front
      rw [Option.mem_def] at here
      rw [Tree.tokensOf_append, firstSignificant?_append, here]
      exact ⟨token, rfl, starts⟩

theorem MayBegin.append_begins
    (mayBegin : grammar.MayBegin accepts first)
    (begins : grammar.Begins accepts second) :
    grammar.Begins accepts (first ++ second) := by
  intro cursor trees after derived
  cases derived with
  | sequence front back =>
      rw [Tree.tokensOf_append, firstSignificant?_append]
      cases here : firstSignificant? (Tree.tokensOf _) with
      | none => exact begins _ _ _ back
      | some token => exact ⟨token, rfl, mayBegin _ _ _ front token here⟩

theorem MayBegin.append
    (mayBegin : grammar.MayBegin accepts first)
    (mayBeginToo : grammar.MayBegin accepts second) :
    grammar.MayBegin accepts (first ++ second) := by
  intro cursor trees after derived token here
  cases derived with
  | sequence front back =>
      rw [Tree.tokensOf_append, firstSignificant?_append] at here
      cases there : firstSignificant? (Tree.tokensOf _) with
      | none =>
          rw [there, Option.none_or] at here
          exact mayBeginToo _ _ _ back token here
      | some found =>
          rw [there, Option.some_or] at here
          cases here
          exact mayBegin _ _ _ front _ there

theorem Begins.orElse
    (begins : grammar.Begins accepts preferred)
    (beginsToo : grammar.Begins accepts alternative) :
    grammar.Begins accepts (preferred <|> alternative) := by
  intro cursor trees after derived
  cases derived with
  | preferred chosen => exact begins _ _ _ chosen
  | alternative chosen => exact beginsToo _ _ _ chosen

theorem Begins.optional (begins : grammar.Begins accepts first) :
    grammar.MayBegin accepts (.optional first) := by
  intro cursor trees after derived token here
  cases derived with
  | preferred chosen => exact begins.mayBegin _ _ _ chosen token here
  | alternative chosen =>
      cases chosen with
      | empty => cases here

theorem begins_firstOf
    {preferred : Rule}
    {others : List Rule}
    (begin : ∀ rule ∈ preferred :: others, grammar.Begins accepts (.rule rule)) :
    grammar.Begins accepts (.firstOf preferred others) := by
  induction others generalizing preferred with
  | nil => exact begin preferred List.mem_cons_self
  | cons next others inductionHypothesis =>
      rw [List.forall_mem_cons] at begin
      exact Begins.orElse begin.1 (inductionHypothesis begin.2)

section Unmocked

variable (unmocked : grammar.mocked = [])
include unmocked

theorem begins_rule {called : Rule} (begins : grammar.Begins accepts called.pattern) :
    grammar.Begins accepts (.rule called) := by
  intro cursor trees after derived
  cases derived with
  | rule body =>
      rw [pattern_eq unmocked] at body
      simpa [tokens_build] using begins _ _ _ body

end Unmocked

theorem begins_directiveHead (names : List String) :
    grammar.Begins (Token.isPunctuator .hash) (.directiveHead names) :=
  (mayBegin_trivia.append_begins begins_hash).append.append

theorem begins_conditionLine (name : String) :
    grammar.Begins (Token.isPunctuator .hash) (.conditionLine name) :=
  (begins_directiveHead _).append.append.append

theorem begins_nameLine (names : List String) :
    grammar.Begins (Token.isPunctuator .hash) (.nameLine names) :=
  (begins_directiveHead _).append.append.append

theorem begins_freeLine (name : String) :
    grammar.Begins (Token.isPunctuator .hash) (.freeLine name) :=
  (begins_directiveHead _).append

theorem mayBegin_exported : grammar.MayBegin Token.startsDirective .exported :=
  (begins_word (by simp)).append.optional

theorem begins_ppImport : grammar.Begins Token.startsDirective .ppImport :=
  ((mayBegin_trivia.append mayBegin_exported).append_begins
    (begins_word (by simp))).append.append.append

theorem begins_ppModule : grammar.Begins Token.startsDirective .ppModule := by
  have word : grammar.Begins Token.startsDirective (.word ["module"]) := begins_word (by simp)
  refine (mayBegin_trivia.append_begins (Begins.orElse ?_ (Begins.orElse ?_ ?_))).append
  · exact word.append.append
  · exact word.append.append.append.append.append.append
  · exact (mayBegin_exported.append_begins word).append.append.append.append.append

section Unmocked

variable (unmocked : grammar.mocked = [])
include unmocked

theorem begins_defineLine : grammar.Begins (Token.isPunctuator .hash) .defineLine := by
  apply begins_firstOf
  intro rule listed
  have head : grammar.Begins (Token.isPunctuator .hash) .definitionHead :=
    (begins_directiveHead _).append.append
  simp only [List.mem_cons, List.not_mem_nil, or_false] at listed
  rcases listed with rfl | rfl
  · exact begins_rule unmocked head.append.append.append.append.append.append.append.append
  · exact begins_rule unmocked head.append.append.append.append

/-- Lines that neither import nor declare modules begin with a number sign. -/
theorem begins_line
    {rule : Rule}
    (listed : rule ∈ lineRules)
    (notImport : rule ≠ .ppImport)
    (notModule : rule ≠ .ppModule) :
    grammar.Begins (Token.isPunctuator .hash) (.rule rule) := by
  apply begins_rule unmocked
  simp only [lineRules, List.mem_cons, List.not_mem_nil, or_false] at listed
  rcases listed with rfl | rfl | rfl | rfl | rfl | rfl | rfl | rfl | rfl | rfl | rfl | rfl | rfl |
    rfl | rfl
  · exact begins_defineLine unmocked
  · exact (begins_directiveHead _).append.append.append
  · contradiction
  · contradiction
  · exact begins_conditionLine _
  · exact begins_nameLine _
  · exact begins_conditionLine _
  · exact begins_freeLine _
  · exact begins_freeLine _
  · exact begins_nameLine _
  · exact (begins_directiveHead _).append.append.append
  · exact begins_freeLine _
  · exact begins_freeLine _
  · exact begins_freeLine _
  · exact (mayBegin_trivia.append_begins begins_hash).append

/-- Every line begins with a number sign or with a word of imports and modules. -/
theorem begins_preprocessorLine :
    grammar.Begins Token.startsDirective (.rule .preprocessorLine) := by
  apply begins_rule unmocked
  apply begins_firstOf
  intro rule listed
  by_cases isImport : rule = .ppImport
  · subst isImport
    exact begins_rule unmocked begins_ppImport
  by_cases isModule : rule = .ppModule
  · subst isModule
    exact begins_rule unmocked begins_ppModule
  exact (begins_line unmocked listed isImport isModule).mono fun token isHash => by
    simp [Token.startsDirective, isHash]

/-- So does every token list that is parsed as a line. -/
theorem startsDirective_of_parseTokens
    {tokens : List Token}
    {root : Node}
    (parsed : grammar.parseTokens .preprocessorLine tokens = some root) :
    ∃ token ∈ firstSignificant? root.tokens, token.startsDirective = true := by
  obtain ⟨node, after, trailing, reading, _, _, leaves⟩ := exists_of_rootOf? parsed
  have derived := derives_of_readRule grammar.maxDepth (Prod.ext reading rfl)
  obtain ⟨token, here, starts⟩ := begins_preprocessorLine unmocked _ _ _ derived
  have skipped : firstSignificant? (Cursor.ofTokens tokens).trivia.1 = none :=
    firstSignificant?_eq_none fun _ => Cursor.isTrivia_of_mem_trivia
  have first : firstSignificant? node.tokens = some token := by simpa using here
  refine ⟨token, ?_, starts⟩
  rw [leaves, firstSignificant?_append, firstSignificant?_append, skipped, first]
  rfl

end Unmocked
end Grammar
end PreprocessorSyntax
