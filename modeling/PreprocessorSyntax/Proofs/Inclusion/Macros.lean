import PreprocessorSyntax.Proofs.Inclusion.Lines

/-!
# Macros in inclusions

An include body that starts with a name is a single name or a macro call.  Its
white space does not matter: in two lines with the same content it is read side
by side, as conditions are.  What was noted before the name is tried is noted in
both lines, so the limit on nesting is met in both of them or in neither.
-/

namespace PreprocessorSyntax

namespace Grammar

variable {grammar : Grammar} {levels : Nat} {cursor place start after behind : Cursor}
variable {line other rest tokens : List Token} {token ending : Token} {inner form root : Node}

namespace Layout

/-- The rules for macros in inclusions treat lines with the same content alike. -/
theorem sound_macros
    (inLine : InLine line)
    (otherInLine : InLine other)
    (unmocked : grammar.mocked = []) :
    (alignment line other).Sound grammar (Signed (.includeBodyFreeform :: Rule.ofCalls)) := by
  refine sound_of_leads inLine otherInLine unmocked fun rule listed => ?_
  have skips : (alignment line other).Skips grammar
      (Signed (.includeBodyFreeform :: Rule.ofCalls)) .settled .loose .loose :=
    skips inLine otherInLine
  have called : ∀ rule ∈ Rule.ofCalls, rule ≠ .argumentList →
      Signed (.includeBodyFreeform :: Rule.ofCalls) rule .settled .loose :=
    fun rule listed _ => ⟨List.mem_cons_of_mem _ listed, rfl, rfl⟩
  rcases List.mem_cons.1 listed with rfl | isCall
  · exact (Alignment.Leads.rule (called _ (by decide) (by decide))).choice (skips.token _)
  · by_cases isList : rule = .argumentList
    · rw [isList]
      exact skips.argumentList called
    · exact skips.ofCalls called ⟨by decide, rfl, rfl⟩ isCall isList

/-- What is noted of header names is noted at places that belong together. -/
theorem remembers_noHeader
    (inLine : InLine line)
    (otherInLine : InLine other)
    (meets : Meets line other .settled ([], cursor) ([], place)) :
    Remembers line other (.noHeader cursor.position) (.noHeader place.position) := by
  have nothing : Remembers line other .empty .empty := fun _ _ _ _ => by simp
  exact Remembers.insert inLine otherInLine
    (Remembers.insert inLine otherInLine nothing meets .includeBodyBracketed) meets
    .includeBodyQuoted

end Layout

section Unmocked

variable (unmocked : grammar.mocked = [])
include unmocked

/-- No header name starts with a name. -/
theorem readRule_includeBody_of_name
    (isName : token.isIdentifier = true)
    (starts : cursor.rest = token :: rest) :
    (grammar.readRule (levels + 2) .includeBody cursor .empty).1 =
      (grammar.readRule (levels + 1) .includeBodyFreeform cursor
        (.noHeader cursor.position)).1.map
          fun found => (⟨.includeBody, [found.1.toTree]⟩, found.2) := by
  obtain ⟨position, _⟩ := cursor
  cases starts
  have kind := Token.kind_of_isIdentifier isName
  have noBracket : grammar.Fails .includeBodyBracketed (token :: rest) :=
    (fails_token_cons (by simp [Token.isPunctuator, kind])).append.append
  have noQuote : grammar.Fails .includeBodyQuoted (token :: rest) :=
    fails_token_cons (by simp [kind])
  rw [readRule_includeBody unmocked,
    read_includeBody_of_neither unmocked (noBracket position) (noQuote position), Pattern.read_rule,
    Option.map_map]
  rfl

/-- An include body is read alike in two lines with the same content. -/
theorem exists_readRule_includeBody_of_name
    (inLine : InLine line)
    (otherInLine : InLine other)
    (meets : Layout.Meets line other .settled ([], place) ([], start))
    (isName : token.isIdentifier = true)
    (starts : place.rest = token :: rest)
    (read : (grammar.readRule levels .includeBody place .empty).1 = some (inner, behind)) :
    ∃ again last, (grammar.readRule levels .includeBody start .empty).1 = some (again, last) ∧
      Reached other last ∧
      last.rest.filter Token.isContent = behind.rest.filter Token.isContent := by
  obtain ⟨few, _, rfl, -, body, -⟩ := exists_of_readRule (Prod.ext read rfl)
  rw [pattern_eq unmocked] at body
  obtain ⟨few, rfl⟩ := exists_of_read_firstOf body
  obtain ⟨_, startsToo⟩ : ∃ rest, start.rest = token :: rest := by
    rcases meets.next inLine otherInLine with ⟨nothing, -⟩ | ⟨_, _, further, here, there, -, -⟩
    · rw [nothing] at starts
      cases starts
    · rw [starts, List.cons.injEq] at here
      exact ⟨further, here.1 ▸ there⟩
  rw [readRule_includeBody_of_name unmocked isName starts, Option.map_eq_some_iff] at read
  obtain ⟨⟨form, _⟩, read, equal⟩ := read
  cases equal
  have remembers := Layout.remembers_noHeader inLine otherInLine meets
  have sound : (Layout.alignment line other).Sound grammar _ :=
    Layout.sound_macros inLine otherInLine unmocked
  have alike := (sound.corresponds_rule (few + 1) ⟨List.mem_cons_self, rfl, rfl⟩ place start _ _
    meets remembers).1
  rw [Pattern.read_rule, Pattern.read_rule, read] at alike
  rw [readRule_includeBody_of_name unmocked isName startsToo]
  generalize (grammar.readRule (few + 1) .includeBodyFreeform start _).1 = reading at alike ⊢
  cases reading with
  | none => cases alike
  | some found =>
      cases alike with
      | some alike => exact ⟨_, _, rfl, alike.otherReached, alike.content.symm⟩

/-- So it is matched on its own if nothing but white space and comments follows it. -/
theorem isSome_parseTokens_of_content
    (inLine : InLine line)
    (otherInLine : InLine other)
    (deep : levels ≤ grammar.maxDepth)
    (reached : Reached line place)
    (isName : token.isIdentifier = true)
    (starts : place.rest = token :: rest)
    (read : (grammar.readRule levels .includeBody place .empty).1 = some (inner, behind))
    (last : behind.rest.filter Token.isContent = [])
    (content : place.rest.filter Token.isContent = other.filter Token.isContent) :
    (grammar.parseTokens .includeBody other).isSome = true := by
  have significant : Significant place.rest := by
    rw [starts]
    exact significant_cons (Token.isTrivia_of_isIdentifier isName) rest
  have meets : Layout.Meets line other .settled ([], place)
      ([], (Cursor.ofTokens other).trivia.2) := by
    refine ⟨⟨reached, ⟨_, (Cursor.ofTokens other).advances_trivia⟩, rfl, ?_⟩, significant,
      significant_dropWhile _⟩
    rw [Layout.filter_isContent_trivia]
    exact content
  obtain ⟨again, after, readAgain, reachedAgain, left⟩ :=
    exists_readRule_includeBody_of_name unmocked inLine otherInLine meets isName starts read
  have closed : closing? after = some after.rest := by
    rw [Layout.closing?_eq_ite (reachedAgain.inLine otherInLine), if_pos (left.trans last)]
  obtain ⟨more, readMore, -⟩ :=
    exists_readRule_of_le unmocked (by decide) deep readAgain closed
  rw [parseTokens, rootOf?_eq_some readMore closed]
  rfl

omit unmocked in
/-- Tokens that are moved stay in their line. -/
theorem Reached.relocate (reached : Reached line place) (move : Location → Location) :
    Reached (line.map (Token.relocate move)) (place.relocate move) := by
  obtain ⟨front, early⟩ := reached
  refine ⟨front.map (Token.relocate move), ?_, ?_, ?_⟩
  · have whole : line = front ++ place.rest := early.rest
    rw [Cursor.relocate, ← List.map_append, ← whole]
    rfl
  · rw [List.length_map, Cursor.position_relocate, early.position]
    rfl
  · rw [List.forall_mem_map]
    exact early.readable

/-- It makes no difference where the tokens stand. -/
theorem isSome_parseTokens_of_kindAndText
    (inLine : InLine line)
    (otherInLine : InLine other)
    (deep : levels ≤ grammar.maxDepth)
    (reached : Reached line place)
    (isName : token.isIdentifier = true)
    (starts : place.rest = token :: rest)
    (read : (grammar.readRule levels .includeBody place .empty).1 = some (inner, behind))
    (last : behind.rest.filter Token.isContent = [])
    (same : (place.rest.filter Token.isContent).map Token.kindAndText =
      (other.filter Token.isContent).map Token.kindAndText) :
    (grammar.parseTokens .includeBody other).isSome = true := by
  let elsewhere : Token → Token := Token.relocate fun _ => .unknown
  have moved {tokens : List Token} (inLine : InLine tokens) : InLine (tokens.map elsewhere) := by
    rw [InLine, List.forall_mem_map]
    exact inLine
  have content (tokens : List Token) :
      (tokens.map elsewhere).filter Token.isContent =
        (tokens.filter Token.isContent).map elsewhere :=
    List.filter_map
  have movedName : (elsewhere token).isIdentifier = true := isName
  have movedStarts : (place.relocate fun _ => .unknown).rest =
      elsewhere token :: rest.map elsewhere := by
    rw [Cursor.relocate, starts]
    rfl
  have movedRead : (grammar.readRule levels .includeBody (place.relocate fun _ => .unknown)
      .empty).1 = some (inner.relocate fun _ => .unknown, behind.relocate fun _ => .unknown) := by
    rw [relocates_readRule grammar levels .includeBody place .empty, read]
    rfl
  have movedLast : (behind.rest.map elsewhere).filter Token.isContent = [] := by
    rw [content, last, List.map_nil]
  have movedContent : (place.rest.map elsewhere).filter Token.isContent =
      (other.map elsewhere).filter Token.isContent := by
    rw [content, content]
    exact Token.map_relocate_of_kindAndText same .unknown
  have matched := isSome_parseTokens_of_content unmocked (moved inLine) (moved otherInLine) deep
    (reached.relocate _) movedName movedStarts movedRead movedLast movedContent
  rwa [parseTokens_relocate, Option.isSome_map] at matched

omit unmocked in
/-- A macro means the content of its tokens. -/
theorem ofForm_of_isMacro
    (isMacro : form.rule = .includeBodyFreeform)
    (inLine : InLine form.tokens) :
    IncludeBody.ofForm form = .ok (.freeform (form.tokens.filter Token.isContent)) := by
  rw [IncludeBody.ofForm, isMacro, Node.significantTokens, inLine.filter_not_isTrivia]

/-- An include body that starts with a name is all the content of its line. -/
theorem ofNode_includeBody_of_name
    (otherInLine : InLine other)
    (isName : token.isIdentifier = true)
    (starts : other.filter Token.isContent = token :: tokens)
    (found : grammar.parseTokens .includeBody other = some root) :
    IncludeBody.ofNode root = .ok (.freeform (other.filter Token.isContent)) := by
  have whole := (tokens_of_parseTokens found).2
  obtain ⟨node, after, trailing, reading, closed, rfl, leaves⟩ := exists_of_rootOf? found
  obtain ⟨few, _, depth, -, body, -⟩ := exists_of_readRule (Prod.ext reading rfl)
  rw [pattern_eq unmocked] at body
  obtain ⟨few, rfl⟩ := exists_of_read_firstOf body
  obtain ⟨rest, stands⟩ : ∃ rest, (Cursor.ofTokens other).trivia.2.rest = token :: rest := by
    obtain ⟨blanks, rest, rfl, trivial, -, -⟩ := otherInLine.exists_of_filter_eq_cons starts
    have significant := significant_cons (Token.isTrivia_of_isIdentifier isName) rest
    exact ⟨rest, by rw [trivia_ofTokens trivial significant]⟩
  rw [depth, readRule_includeBody_of_name unmocked isName stands, Option.map_eq_some_iff] at reading
  obtain ⟨⟨form, _⟩, read, equal⟩ := reading
  cases equal
  have formTokens : Node.tokens ⟨.includeBody, [form.toTree]⟩ = form.tokens := by
    simp [Node.tokens, Node.toTree]
  rw [whole, otherInLine.upcoming_eq, formTokens] at leaves
  have parts := otherInLine
  rw [leaves, InLine.append_iff, InLine.append_iff] at parts
  obtain ⟨⟨-, inLineForm⟩, inLineBehind⟩ := parts
  have silentBefore : (Cursor.ofTokens other).trivia.1.filter Token.isContent = [] :=
    filter_isContent_eq_nil fun _ => Cursor.isTrivia_of_mem_trivia
  have silentBehind : trailing.filter Token.isContent = [] := by
    refine filter_isContent_eq_nil fun token present => ?_
    exact (isTrivia_or_newline_of_closing? closed token present).resolve_right
      (inLineBehind.noFeed token present)
  have content : other.filter Token.isContent = form.tokens.filter Token.isContent := by
    rw [leaves, List.filter_append, List.filter_append, silentBefore, silentBehind,
      List.nil_append, List.append_nil]
  rw [if_pos rfl, ofNode_includeBody_between, content]
  exact ofForm_of_isMacro (rule_of_readRule rfl read) inLineForm

end Unmocked

end Grammar
end PreprocessorSyntax
