import PreprocessorSyntax.Proofs.Depth.Acceptance
import PreprocessorSyntax.Proofs.Directive.Totality
import PreprocessorSyntax.Proofs.Lexer.Runs
import PreprocessorSyntax.Proofs.Trailing.Places

/-!
# Header names

A header name in angle brackets is any run of tokens without a closing bracket,
and one in quotes is a single literal.  `WritesHeader` says which tokens write a
header name and what that name is.  Neither the place of the tokens nor what
stands behind them matters, so a header name is read back from its own text.
-/

namespace PreprocessorSyntax

open Grammar.Trailing (inBrackets)

/-- Some tokens that write a header name. -/
inductive WritesHeader : List Token → IncludeBody → Prop
  | bracketed
      {opening closing : Token} {inside : List Token}
      (opens : opening.isPunctuator .less = true)
      (something : inside ≠ [])
      (fits : ∀ token ∈ inside, inBrackets token = true)
      (closes : closing.isPunctuator .greater = true) :
      WritesHeader (opening :: (inside ++ [closing]))
        (.bracketed (String.join (inside.map Token.text)))
  | quoted
      {literal : Token} {path : String}
      (isString : literal.kind = .string .none)
      (unquotes : IncludeBody.unquote? literal.text = some path) :
      WritesHeader [literal] (.quoted path)

/-- That no header name starts at a position. -/
def Failures.noHeader (position : Nat) : Failures :=
  (Failures.empty.insert .includeBodyBracketed position).insert .includeBodyQuoted position

variable {tokens again rest : List Token} {body : IncludeBody} {text path : String}

theorem IncludeBody.eq_of_unquote? (unquotes : unquote? text = some path) :
    text = "\"" ++ path ++ "\"" := by
  unfold unquote? at unquotes
  split at unquotes
  next quoted =>
    rw [Option.ite_none_right_eq_some, Option.some.injEq] at unquotes
    obtain ⟨closed, rfl⟩ := unquotes
    obtain ⟨inside, rfl⟩ := List.getLast?_eq_some_iff.1 closed
    apply String.toList_injective
    simp [quoted]
  next => cases unquotes

/-- A header name is displayed as it was written. -/
theorem WritesHeader.display_eq
    (writes : WritesHeader tokens body)
    (spelled : ∀ token ∈ tokens, ∀ symbol, token.isPunctuator symbol = true →
      token.text = symbol.spelling) :
    body.display = String.join (tokens.map Token.text) := by
  cases writes with
  | @bracketed opening closing inside opens _ _ closes =>
      have less : opening.text = "<" := spelled opening List.mem_cons_self _ opens
      have greater : closing.text = ">" := spelled closing (by simp) _ closes
      simp [IncludeBody.display, String.join_cons, String.join_append, less, greater,
        String.append_assoc]
  | quoted _ unquotes =>
      rw [IncludeBody.display, ← IncludeBody.eq_of_unquote? unquotes]
      simp

/-- Tokens of the same kinds and spellings write the same header name. -/
theorem WritesHeader.congr
    (writes : WritesHeader tokens body)
    (same : again.map Token.kindAndText = tokens.map Token.kindAndText) :
    WritesHeader again body := by
  cases writes with
  | @bracketed opening closing inside opens something fits closes =>
      rw [List.map_cons, List.map_append] at same
      obtain ⟨first, _, rfl, isOpening, behind⟩ := List.map_eq_cons_iff.1 same
      obtain ⟨middle, _, rfl, within, atEnd⟩ := List.map_eq_append_iff.1 behind
      obtain ⟨last, rfl, isClosing⟩ := List.map_eq_singleton_iff.1 atEnd
      have texts : middle.map Token.text = inside.map Token.text := by
        have pairs := congrArg (List.map Prod.snd) within
        rwa [List.map_map, List.map_map] at pairs
      have kinds : middle.map Token.kind = inside.map Token.kind := by
        have pairs := congrArg (List.map Prod.fst) within
        rwa [List.map_map, List.map_map] at pairs
      rw [← texts]
      refine .bracketed ?_ ?_ ?_ ?_
      · rwa [Token.isPunctuator_congr isOpening]
      · rintro rfl
        exact something (List.map_eq_nil_iff.1 kinds.symm)
      · have fitting : ∀ kind ∈ middle.map Token.kind,
            (!(kind == .punctuator .greater) && !kind.isLineEnd) = true := by
          rw [kinds, List.forall_mem_map]
          exact fits
        exact List.forall_mem_map.1 fitting
      · rwa [Token.isPunctuator_congr isClosing]
  | quoted isString unquotes =>
      obtain ⟨literal, rfl, isLiteral⟩ := List.map_eq_singleton_iff.1 same
      obtain ⟨kind, text⟩ := Prod.mk.inj isLiteral
      rw [← kind] at isString
      rw [← text] at unquotes
      exact .quoted isString unquotes

namespace Grammar

variable {grammar : Grammar} {form root : Node} {ending : Token}

/-- A path stands between two brackets. -/
theorem ofForm_of_tokens
    {opening closing : Token}
    {inside : List Token}
    (isBracketed : form.rule = .includeBodyBracketed)
    (written : form.tokens = opening :: (inside ++ [closing])) :
    IncludeBody.ofForm form = .ok (.bracketed (String.join (inside.map Token.text))) := by
  rw [IncludeBody.ofForm, isBracketed]
  simp only [written, List.drop_succ_cons, List.drop_zero, List.dropLast_concat]

theorem reads_includeBodyBracketed
    {opening closing : Token}
    {inside : List Token}
    (opens : opening.isPunctuator .less = true)
    (something : inside ≠ [])
    (fits : ∀ token ∈ inside, inBrackets token = true)
    (closes : closing.isPunctuator .greater = true) :
    grammar.Reads .includeBodyBracketed (opening :: (inside ++ [closing]))
      ((opening :: (inside ++ [closing])).map .leaf) rest := by
  intro position
  have refused : inBrackets closing = false := by simp [inBrackets, closes]
  have run : (inside ++ closing :: rest).takeWhile inBrackets = inside := by
    rw [List.takeWhile_append_of_pos fits, List.takeWhile_cons_of_neg (by simp [refused]),
      List.append_nil]
  have left : (inside ++ closing :: rest).dropWhile inBrackets = closing :: rest := by
    rw [List.dropWhile_append_of_pos fits, List.dropWhile_cons_of_neg (by simp [refused])]
  have whole : opening :: (inside ++ [closing]) ++ rest = opening :: (inside ++ closing :: rest) := by
    simp
  rw [whole, Trailing.treesAt?_includeBodyBracketed, run, left, if_pos ⟨opens, something⟩]
  simp [closes, Nat.add_assoc]

section Unmocked

variable (unmocked : grammar.mocked = [])
include unmocked

variable {levels : Nat} {rule preferred : Rule} {cursor after : Cursor} {failures : Failures}
variable {trees : List Tree}

/-- A rule that calls no others is read as its node. -/
theorem readRule_leaf
    (keeps : rule.collapses = false)
    (callsNone : rule.pattern.calls = [])
    (unknown : failures.contains rule cursor.position = false)
    (read : grammar.treesAt? rule.pattern cursor = some (trees, after)) :
    (grammar.readRule (levels + 1) rule cursor failures).1 = some (⟨rule, trees⟩, after) := by
  rw [← pattern_eq unmocked] at callsNone read
  rw [readRule_of_treesAt? callsNone unknown read, build_eq keeps]

/-- A choice of rules goes on behind a rule that calls no others and declines. -/
theorem read_firstOf_of_declines
    (callsNone : preferred.pattern.calls = [])
    (unknown : failures.contains preferred cursor.position = false)
    (declines : grammar.treesAt? preferred.pattern cursor = none)
    (next : Rule)
    (others : List Rule) :
    (Pattern.firstOf preferred (next :: others)).read (grammar.readRule (levels + 1)) cursor
        failures =
      (Pattern.firstOf next others).read (grammar.readRule (levels + 1)) cursor
        (failures.insert preferred cursor.position) := by
  rw [← pattern_eq unmocked] at callsNone declines
  have body : (grammar.pattern preferred).read (grammar.readRule levels) cursor failures =
      (none, failures) := by
    rw [read_of_calls_eq_nil grammar callsNone, declines]
  have declined := readRule_of_none unknown body
  rw [read_firstOf_of_none (by rw [declined]), declined]

/-- An include body is the node around its form. -/
theorem readRule_includeBody (levels : Nat) (cursor : Cursor) :
    (grammar.readRule (levels + 1) .includeBody cursor .empty).1 =
      (Pattern.includeBody.read (grammar.readRule levels) cursor .empty).1.map
        fun found => (⟨.includeBody, found.1⟩, found.2) := by
  rw [readRule_succ (Failures.contains_empty _ _), pattern_eq unmocked]
  simp only [build_eq (show Rule.includeBody.collapses = false from rfl)]
  rfl

theorem read_includeBody_of_bracketed
    (read : grammar.treesAt? .includeBodyBracketed cursor = some (trees, after)) :
    (Pattern.includeBody.read (grammar.readRule (levels + 1)) cursor .empty).1 =
      some ([.node .includeBodyBracketed trees], after) := by
  have unknown := Failures.contains_empty .includeBodyBracketed cursor.position
  exact read_firstOf_of_some (readRule_leaf unmocked rfl rfl unknown read) _

section NoBracket

variable (noBracket : grammar.treesAt? .includeBodyBracketed cursor = none)
include noBracket

theorem read_includeBody_of_noBracket :
    Pattern.includeBody.read (grammar.readRule (levels + 1)) cursor .empty =
      (Pattern.firstOf .includeBodyQuoted [.includeBodyFreeform]).read
        (grammar.readRule (levels + 1)) cursor
        (Failures.empty.insert .includeBodyBracketed cursor.position) :=
  read_firstOf_of_declines unmocked rfl
    (Failures.contains_empty .includeBodyBracketed cursor.position) noBracket _ _

omit unmocked noBracket in
/-- That there is no bracket says nothing of a quote. -/
theorem contains_includeBodyQuoted (position : Nat) :
    (Failures.empty.insert .includeBodyBracketed position).contains .includeBodyQuoted position =
      false := by
  simp [Failures.contains_insert]

theorem read_includeBody_of_quoted
    (read : grammar.treesAt? .includeBodyQuoted cursor = some (trees, after)) :
    (Pattern.includeBody.read (grammar.readRule (levels + 1)) cursor .empty).1 =
      some ([.node .includeBodyQuoted trees], after) := by
  have unknown := contains_includeBodyQuoted cursor.position
  rw [read_includeBody_of_noBracket unmocked noBracket]
  exact read_firstOf_of_some (readRule_leaf unmocked rfl rfl unknown read) _

/-- Where no header name is read, both failures are noted before a macro is tried. -/
theorem read_includeBody_of_neither
    (noQuote : grammar.treesAt? .includeBodyQuoted cursor = none) :
    Pattern.includeBody.read (grammar.readRule (levels + 1)) cursor .empty =
      (Pattern.rule .includeBodyFreeform).read (grammar.readRule (levels + 1)) cursor
        (.noHeader cursor.position) := by
  rw [read_includeBody_of_noBracket unmocked noBracket]
  exact read_firstOf_of_declines unmocked rfl (contains_includeBodyQuoted cursor.position) noQuote
    _ _

end NoBracket

/-- A header name is read in front of anything. -/
theorem exists_form_of_header (writes : WritesHeader tokens body) :
    ∃ form : Node, IncludeBody.ofForm form = .ok body ∧ ∀ levels position rest,
      (Pattern.includeBody.read (grammar.readRule (levels + 1)) ⟨position, tokens ++ rest⟩
        .empty).1 = some ([form.toTree], ⟨position + tokens.length, rest⟩) := by
  cases writes with
  | @bracketed opening closing inside opens something fits closes =>
      refine ⟨⟨.includeBodyBracketed, (opening :: (inside ++ [closing])).map .leaf⟩, ?_, ?_⟩
      · exact ofForm_of_tokens rfl (Tree.tokensOf_map_leaf _)
      · intro levels position rest
        exact read_includeBody_of_bracketed unmocked
          (reads_includeBodyBracketed opens something fits closes position)
  | @quoted literal path isString unquotes =>
      have noLess : literal.isPunctuator .less = false := by simp [Token.isPunctuator, isString]
      have readable : literal.kind ≠ .endOfInput := by simp [isString]
      refine ⟨⟨.includeBodyQuoted, [.leaf literal]⟩, ?_, ?_⟩
      · simp [IncludeBody.ofForm, Node.text, Node.tokens, unquotes]
      · intro levels position rest
        have bracket : grammar.Fails .includeBodyBracketed (literal :: rest) :=
          (fails_token_cons noLess).append.append
        have quote : grammar.Reads .includeBodyQuoted [literal] [.leaf literal] rest :=
          reads_token (beq_iff_eq.2 isString) readable
        exact read_includeBody_of_quoted unmocked (bracket position) (quote position)

omit unmocked in
/-- An include body says what its form says, whatever white space is around it. -/
theorem ofNode_includeBody_between (leading trailing : List Token) (form : Node) :
    IncludeBody.ofNode ⟨.includeBody,
      leading.map .leaf ++ [form.toTree] ++ trailing.map .leaf⟩ = IncludeBody.ofForm form := by
  have children : Node.childNodes ⟨.includeBody,
      leading.map .leaf ++ [form.toTree] ++ trailing.map .leaf⟩ = [form] :=
    filterMap_node?_between _ _ _
  rw [IncludeBody.ofNode]
  simp only [children]

omit unmocked in
theorem ofNode_includeBody (form : Node) :
    IncludeBody.ofNode ⟨.includeBody, [form.toTree]⟩ = IncludeBody.ofForm form :=
  ofNode_includeBody_between [] [] form

/-- A header name that stands alone is matched as an include body. -/
theorem exists_parseTokens_of_header
    (deep : 2 ≤ grammar.maxDepth)
    (writes : WritesHeader tokens body)
    (ends : ending.kind = .endOfInput) :
    ∃ root, grammar.parseTokens .includeBody (tokens ++ [ending]) = some root ∧
      IncludeBody.ofNode root = .ok body := by
  obtain ⟨form, means, reads⟩ := exists_form_of_header unmocked writes
  obtain ⟨levels, depth⟩ := Nat.exists_eq_add_of_le' deep
  have significant : Significant (tokens ++ [ending]) := by
    cases writes with
    | bracketed opens =>
        exact significant_cons (Token.isTrivia_of_isPunctuator opens) _
    | quoted isString =>
        exact significant_cons (by simp [Token.isTrivia, isString, TokenKind.isTrivia]) _
  have reading : (grammar.readRule grammar.maxDepth .includeBody ⟨0, tokens ++ [ending]⟩
      .empty).1 = some (⟨.includeBody, [form.toTree]⟩, ⟨0 + tokens.length, [ending]⟩) := by
    rw [depth, readRule_includeBody unmocked, reads levels]
    rfl
  exact ⟨_, parseTokens_of_reading significant ends reading,
    (ofNode_includeBody form).trans means⟩

/-- What was read as a header name writes one. -/
theorem exists_header_of_stems
    (stems : grammar.Stems form)
    (literals : form.Quoted)
    (isHeader : form.rule = .includeBodyBracketed ∨ form.rule = .includeBodyQuoted) :
    ∃ body, IncludeBody.ofForm form = .ok body ∧ WritesHeader form.tokens body := by
  obtain ⟨rule, children⟩ := form
  obtain ⟨cursor, after, derived⟩ := stems
  rw [pattern_eq unmocked] at derived
  rcases isHeader with rfl | rfl
  · obtain ⟨_, _, _, rfl, derived, back⟩ := exists_of_derives_append derived
    obtain ⟨_, _, _, rfl, front, run⟩ := exists_of_derives_append derived
    obtain ⟨_, _, _, rfl, single, several⟩ := exists_of_derives_append run
    obtain ⟨opening, rfl, opens⟩ := exists_of_derives_token front
    obtain ⟨token, rfl, fits⟩ := exists_of_derives_token single
    obtain ⟨inside, rfl, fitsBehind⟩ := exists_leaves_of_many several
    obtain ⟨closing, rfl, closes⟩ := exists_of_derives_token back
    have tokens : Node.tokens ⟨.includeBodyBracketed,
        [.leaf opening] ++ ([.leaf token] ++ inside.map .leaf) ++ [.leaf closing]⟩ =
          opening :: (token :: inside ++ [closing]) := by
      simp [Node.tokens]
    refine ⟨.bracketed (String.join ((token :: inside).map Token.text)), ?_, ?_⟩
    · exact ofForm_of_tokens rfl tokens
    · rw [tokens]
      exact .bracketed opens (by simp) (List.forall_mem_cons.2 ⟨fits, fitsBehind⟩) closes
  · obtain ⟨literal, rfl, isString⟩ := exists_of_derives_token derived
    have kind : literal.kind = .string .none := beq_iff_eq.1 isString
    have present : literal ∈ Node.tokens ⟨.includeBodyQuoted, [.leaf literal]⟩ := by
      simp [Node.tokens]
    obtain ⟨path, unquotes⟩ := Option.isSome_iff_exists.1 (literals literal present kind)
    refine ⟨.quoted path, ?_, .quoted kind unquotes⟩
    simp [IncludeBody.ofForm, Node.text, Node.tokens, unquotes]

end Unmocked

end Grammar
end PreprocessorSyntax
