import PreprocessorSyntax.Proofs.Directive.Shapes
import PreprocessorSyntax.Proofs.Grammar.Coverage

/-!
# Leaves

`Grammar.Takes` says what the tokens are like that a pattern takes, in every
derivation, so what a construct looks like is found from its pattern part by
part.  The opposite direction, that a pattern does read tokens that look like
this, is `Grammar.Reads`; here are the parts of it that have to do with leaves.
-/

namespace PreprocessorSyntax
namespace Grammar

/-- The leaves of every derivation of a pattern have a certain shape. -/
def Takes (grammar : Grammar) (pattern : Pattern) (shape : List Token → Prop) : Prop :=
  ∀ cursor trees after, grammar.Derives pattern cursor trees after → shape (Tree.tokensOf trees)

variable {grammar : Grammar} {pattern first second third item preferred alternative : Pattern}
variable {shape further : List Token → Prop} {tokens rest : List Token} {trees : List Tree}

theorem takes_token (accepts : Token → Bool) :
    grammar.Takes (.token accepts) fun tokens =>
      ∃ token, tokens = [token] ∧ accepts token = true := by
  intro cursor trees after derived
  cases derived with
  | token read accepted => exact ⟨_, rfl, accepted⟩

theorem takes_trivia :
    grammar.Takes .trivia fun tokens => ∀ token ∈ tokens, token.isTrivia = true := by
  intro cursor trees after derived
  obtain ⟨tokens, rfl, trivial⟩ := exists_leaves_of_many derived
  rwa [Tree.tokensOf_map_leaf]

theorem takes_absent (refused : Rule) : grammar.Takes (.absent refused) (· = []) := by
  intro cursor trees after derived
  cases derived
  rfl

theorem takes_node
    {rule : Rule}
    (unmocked : grammar.mocked = [])
    (takes : grammar.Takes rule.pattern shape) :
    grammar.Takes (.rule rule) shape := by
  intro cursor trees after derived
  cases derived with
  | rule body =>
      rw [pattern_eq unmocked] at body
      simpa using takes _ _ _ body

theorem Takes.mono
    (takes : grammar.Takes pattern shape)
    (weaker : ∀ tokens, shape tokens → further tokens) :
    grammar.Takes pattern further :=
  fun cursor trees after derived => weaker _ (takes cursor trees after derived)

theorem Takes.append
    (front : grammar.Takes first shape)
    (back : grammar.Takes second further) :
    grammar.Takes (first ++ second) fun tokens =>
      ∃ before behind, tokens = before ++ behind ∧ shape before ∧ further behind := by
  intro cursor trees after derived
  cases derived with
  | sequence derivedFront derivedBack =>
      exact ⟨_, _, Tree.tokensOf_append _ _, front _ _ _ derivedFront, back _ _ _ derivedBack⟩

theorem Takes.orElse
    (left : grammar.Takes preferred shape)
    (right : grammar.Takes alternative further) :
    grammar.Takes (preferred <|> alternative) fun tokens => shape tokens ∨ further tokens := by
  intro cursor trees after derived
  cases derived with
  | preferred chosen => exact .inl (left _ _ _ chosen)
  | alternative chosen => exact .inr (right _ _ _ chosen)

theorem Takes.optional (takes : grammar.Takes item shape) :
    grammar.Takes (.optional item) fun tokens => shape tokens ∨ tokens = [] := by
  refine takes.orElse ?_
  intro cursor trees after derived
  cases derived
  rfl

/-- What holds of nothing and is kept by every item holds of a repetition. -/
theorem Takes.many
    (takes : grammar.Takes item shape)
    (empty : further [])
    (step : ∀ front behind, shape front → further behind → further (front ++ behind)) :
    grammar.Takes (.many item) further := by
  intro cursor trees after derived
  generalize repeated : Pattern.many item = pattern at derived
  induction derived with
  | stop => exact empty
  | further front _ _ backHypothesis =>
      cases repeated
      rw [Tree.tokensOf_append]
      exact step _ _ (takes _ _ _ front) (backHypothesis rfl)
  | _ => cases repeated

/-- The leaves of what is read are the tokens that were read. -/
theorem Reads.tokensOf (reads : grammar.Reads pattern tokens trees rest) :
    Tree.tokensOf trees = tokens := by
  have advances := (derives_of_treesAt? (reads 0)).advances
  exact (List.append_cancel_right advances.rest).symm

/-- Sequences may be grouped in either way. -/
theorem Reads.regroup
    (reads : grammar.Reads (first ++ (second ++ third)) tokens trees rest) :
    grammar.Reads (first ++ second ++ third) tokens trees rest := by
  intro position
  rw [← reads position, treesAt?_append, treesAt?_append, treesAt?_append]
  cases grammar.treesAt? first ⟨position, tokens ++ rest⟩ with
  | none => rfl
  | some front =>
      simp only [Option.bind_some, treesAt?_append second third]
      cases grammar.treesAt? second front.2 with
      | none => rfl
      | some middle =>
          simp only [Option.map_some, Option.bind_some, Option.map_map]
          congr 1
          funext back
          simp

/-- A rule that is no layer makes a node of what it reads. -/
theorem Reads.node
    {rule : Rule}
    (unmocked : grammar.mocked = [])
    (keeps : rule.collapses = false)
    (body : grammar.Reads rule.pattern tokens trees rest) :
    grammar.Reads (.rule rule) tokens [.node rule trees] rest := by
  rw [← pattern_eq unmocked] at body
  have reads := reads_rule body
  rwa [build_eq keeps] at reads

theorem fails_node
    {rule : Rule}
    (unmocked : grammar.mocked = [])
    (body : grammar.Fails rule.pattern rest) :
    grammar.Fails (.rule rule) rest := by
  rw [← pattern_eq unmocked] at body
  exact fails_rule body

/-- A look-ahead reads nothing if the next token is as expected. -/
theorem reads_ahead
    {accepts : TokenKind → Bool}
    (expected : accepts (Cursor.ofTokens rest).peekKind = true) :
    grammar.Reads (.ahead accepts) [] [] rest := by
  intro position
  have here : accepts (Cursor.mk position rest).peekKind = true := expected
  rw [List.nil_append, treesAt?_ahead, if_pos here]
  rfl

theorem fails_ahead
    {accepts : TokenKind → Bool}
    (unexpected : accepts (Cursor.ofTokens rest).peekKind = false) :
    grammar.Fails (.ahead accepts) rest := by
  intro position
  have here : accepts (Cursor.mk position rest).peekKind = false := unexpected
  rw [treesAt?_ahead, here]
  rfl

/-- A refused rule is absent where it fails. -/
theorem reads_absent
    {refused : Rule}
    (fails : grammar.Fails (.rule refused) rest) :
    grammar.Reads (.absent refused) [] [] rest := by
  intro position
  have failed := fails position
  rw [treesAt?_rule, Option.map_eq_none_iff] at failed
  rw [List.nil_append, treesAt?_absent, failed]
  rfl

theorem fails_absent
    {refused : Rule}
    (reads : grammar.Reads (.rule refused) tokens trees rest) :
    grammar.Fails (.absent refused) (tokens ++ rest) := by
  intro position
  have read := reads position
  rw [treesAt?_rule, Option.map_eq_some_iff] at read
  obtain ⟨found, here, _⟩ := read
  rw [treesAt?_absent, here]
  rfl

section Separators

variable {gap blanks : List Token} {comma token : Token}
variable (trivial : ∀ token ∈ gap, token.isTrivia = true)
include trivial

theorem fails_separator
    (notTrivia : token.isTrivia = false)
    (noComma : token.isPunctuator .comma = false) :
    grammar.Fails .separator (gap ++ token :: rest) := by
  have front : grammar.Reads .trivia gap (gap.map .leaf) (token :: rest) :=
    reads_trivia trivial (significant_cons notTrivia rest)
  exact (front.append_fails (fails_token_cons noComma)).append

theorem reads_separator
    (isComma : comma.isPunctuator .comma = true)
    (trivialToo : ∀ token ∈ blanks, token.isTrivia = true)
    (significant : Significant rest) :
    grammar.Reads .separator (gap ++ comma :: blanks) ((gap ++ comma :: blanks).map .leaf) rest := by
  have front : grammar.Reads .trivia gap (gap.map .leaf) ([comma] ++ (blanks ++ rest)) :=
    reads_trivia trivial (significant_cons (Token.isTrivia_of_isPunctuator isComma) _)
  have read := (front.append (reads_symbol isComma)).append (reads_trivia trivialToo significant)
  simpa [Pattern.separator] using read

end Separators

section Inputs

variable {blanks core trailing : List Token}

/-- White space and comments in front of something significant are all that is skipped. -/
theorem trivia_append_significant
    (position : Nat)
    (trivial : ∀ token ∈ blanks, token.isTrivia = true)
    (significant : Significant rest) :
    Cursor.trivia ⟨position, blanks ++ rest⟩ = (blanks, ⟨position + blanks.length, rest⟩) := by
  have skipped : (blanks ++ rest).takeWhile Token.isTrivia = blanks := by
    rw [List.takeWhile_append_of_pos trivial]
    cases rest with
    | nil => simp
    | cons token rest => simp [significant token rfl]
  have left : (blanks ++ rest).dropWhile Token.isTrivia = rest := by
    rw [List.dropWhile_append_of_pos trivial]
    cases rest with
    | nil => rfl
    | cons token rest => simp [significant token rfl]
  rw [Cursor.trivia]
  simp only [skipped, left]

/-- Where white space and comments have been skipped, there is nothing to skip. -/
theorem trivia_of_significant {cursor : Cursor} (significant : Significant cursor.rest) :
    cursor.trivia = ([], cursor) :=
  trivia_append_significant cursor.position (List.forall_mem_nil _) significant

theorem trivia_ofTokens
    (trivial : ∀ token ∈ blanks, token.isTrivia = true)
    (significant : Significant rest) :
    (Cursor.ofTokens (blanks ++ rest)).trivia = (blanks, ⟨blanks.length, rest⟩) := by
  rw [Cursor.ofTokens, trivia_append_significant 0 trivial significant, Nat.zero_add]

/-- White space and comments may close an input. -/
theorem closing?_blanks
    (position : Nat)
    (trivial : ∀ token ∈ blanks, token.isTrivia = true)
    (ends : ∀ token ∈ rest.head?, token.kind = .endOfInput) :
    closing? ⟨position, blanks ++ rest⟩ = some blanks := by
  have significant : Significant rest := by
    intro token first
    rw [Token.isTrivia, ends token first]
    rfl
  rw [closing?, trivia_append_significant position trivial significant]
  cases rest with
  | nil => rfl
  | cons token rest => simp [Cursor.bump?, ends token rfl]

/-- A reading with nothing but white space and comments around it makes the root. -/
theorem rootOf?_of_reading
    {rule : Rule}
    {read : Cursor → Pattern.Reading Node}
    (trivial : ∀ token ∈ blanks, token.isTrivia = true)
    (trivialToo : ∀ token ∈ trailing, token.isTrivia = true)
    (significant : Significant (core ++ (trailing ++ rest)))
    (ends : ∀ token ∈ rest.head?, token.kind = .endOfInput)
    (reading : read ⟨blanks.length, core ++ (trailing ++ rest)⟩ =
      some (⟨rule, trees⟩, ⟨blanks.length + core.length, trailing ++ rest⟩)) :
    rootOf? rule (blanks ++ (core ++ (trailing ++ rest))) read =
      some ⟨rule, blanks.map .leaf ++ trees ++ trailing.map .leaf⟩ := by
  have start := trivia_ofTokens trivial significant
  have closed := closing?_blanks (blanks.length + core.length) trivialToo ends
  rw [rootOf?_eq_some (by rw [start]; exact reading) closed, start, if_pos rfl]

/-- A reading of all tokens is the root. -/
theorem parseTokens_of_reading
    {rule : Rule}
    {ending : Token}
    (significant : Significant (core ++ [ending]))
    (ends : ending.kind = .endOfInput)
    (reading : (grammar.readRule grammar.maxDepth rule ⟨0, core ++ [ending]⟩ .empty).1 =
      some (⟨rule, trees⟩, ⟨0 + core.length, [ending]⟩)) :
    grammar.parseTokens rule (core ++ [ending]) = some ⟨rule, trees⟩ := by
  have nothing : ∀ token ∈ ([] : List Token), token.isTrivia = true := List.forall_mem_nil _
  have atEnd : ∀ token ∈ [ending].head?, token.kind = .endOfInput := by simpa using ends
  simpa [parseTokens] using rootOf?_of_reading nothing nothing significant atEnd reading

/-- What the pattern of a rule reads makes a node of this rule. -/
theorem nodeAt?_of_reads
    {rule : Rule}
    (unmocked : grammar.mocked = [])
    (keeps : rule.collapses = false)
    (reads : grammar.Reads rule.pattern core trees rest)
    (position : Nat) :
    grammar.nodeAt? rule ⟨position, core ++ rest⟩ =
      some (⟨rule, trees⟩, ⟨position + core.length, rest⟩) := by
  rw [nodeAt?_eq, pattern_eq unmocked, reads position]
  exact congrArg some (Prod.ext (build_eq keeps trees) rfl)

/-- A construct with nothing but white space and comments around it is parsed as a whole. -/
theorem rootOf?_of_reads
    {rule : Rule}
    (unmocked : grammar.mocked = [])
    (keeps : rule.collapses = false)
    (trivial : ∀ token ∈ blanks, token.isTrivia = true)
    (trivialToo : ∀ token ∈ trailing, token.isTrivia = true)
    (significant : Significant (core ++ (trailing ++ rest)))
    (ends : ∀ token ∈ rest.head?, token.kind = .endOfInput)
    (reads : grammar.Reads rule.pattern core trees (trailing ++ rest)) :
    rootOf? rule (blanks ++ (core ++ (trailing ++ rest))) (grammar.nodeAt? rule) =
      some ⟨rule, blanks.map .leaf ++ trees ++ trailing.map .leaf⟩ := by
  have node := nodeAt?_of_reads unmocked keeps reads blanks.length
  exact rootOf?_of_reading trivial trivialToo significant ends node

end Inputs

end Grammar
end PreprocessorSyntax
