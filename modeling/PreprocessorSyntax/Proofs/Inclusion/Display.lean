import PreprocessorSyntax.Proofs.Inclusion.Macros

/-!
# Include bodies survive display

What an inclusion names is displayed as it was written, a macro with single
spaces in place of white space and comments.  The text that is displayed is cut
out of its line, so that nothing stands behind it any more.  Still the lexer
finds the tokens of the body in it, and the grammar the same body again.
-/

namespace PreprocessorSyntax

/-- Two include bodies are the same, wherever the tokens of a macro stand. -/
def IncludeBody.Agrees : IncludeBody → IncludeBody → Prop
  | .freeform first, .freeform second =>
    first.map Token.kindAndText = second.map Token.kindAndText
  | first, second => first = second

variable {lexer : Lexer} {before after tokens : List Token} {body : IncludeBody}

theorem WritesHeader.agrees
    (writes : WritesHeader tokens body) :
    body.Agrees body := by
  cases writes <;> exact rfl

/-- The text of a header name in a line is a header name on its own. -/
theorem WritesHeader.lexes_display
    (writes : WritesHeader tokens body)
    (yields : lexer.Yields (before ++ (tokens ++ after)))
    (something : after ≠ [])
    (noFeed : '\n' ∉ lexer.rest)
    (inLine : InLine tokens) :
    Lexes body.display.toList fun again => WritesHeader again body := by
  have spelled : ∀ token ∈ tokens, ∀ symbol, token.isPunctuator symbol = true →
      token.text = symbol.spelling := by
    intro token present symbol
    exact yields.text_of_isPunctuator
      (List.mem_append_right before (List.mem_append_left after present))
  rw [writes.display_eq spelled]
  exact (yields.lexes_run something noFeed inLine).mono fun again same => writes.congr same

namespace Grammar

/-- So it is matched, and read back. -/
theorem exists_parse_display_of_header
    (lexes : Lexes body.display.toList fun again => WritesHeader again body)
    (file : FileId)
    (line : UInt32) :
    ∃ node, standard.parse .includeBody body.display file line = .ok node ∧
      IncludeBody.ofNode node = .ok body := by
  have unmocked : standard.mocked = [] := rfl
  obtain ⟨again, ending, lexed, ends, -, writes⟩ := lexes.tokenize file line
  obtain ⟨root, found, means⟩ := exists_parseTokens_of_header unmocked (by decide) writes ends
  exact ⟨root, parse_eq_ok lexed found, means⟩

/-- A macro in an inclusion is matched on its own, and read back. -/
theorem exists_parse_display_of_name
    {line rest : List Token}
    {ending token : Token}
    {place behind : Cursor}
    {levels : Nat}
    {inner : Node}
    (yields : lexer.Yields (line ++ [ending]))
    (ends : ending.kind = .endOfInput)
    (noFeed : '\n' ∉ lexer.rest)
    (inLine : InLine line)
    (deep : levels ≤ standard.maxDepth)
    (reached : Reached line place)
    (isName : token.isIdentifier = true)
    (starts : place.rest = token :: rest)
    (read : (standard.readRule levels .includeBody place .empty).1 = some (inner, behind))
    (last : behind.rest.filter Token.isContent = [])
    (file : FileId)
    (number : UInt32) :
    ∃ node again, standard.parse .includeBody
        (significantText (place.rest.filter Token.isContent)) file number = .ok node ∧
      IncludeBody.ofNode node = .ok (.freeform again) ∧
      again.map Token.kindAndText =
        (place.rest.filter Token.isContent).map Token.kindAndText := by
  have unmocked : standard.mocked = [] := rfl
  obtain ⟨front, early⟩ := reached
  have whole : line = front ++ place.rest := early.rest
  rw [whole, List.append_assoc] at yields
  obtain ⟨again, endingAgain, lexed, endsAgain, inLineAgain, -, same⟩ :=
    (yields.lexes_significantText noFeed ends).tokenize file number
  have matched := isSome_parseTokens_of_kindAndText unmocked inLine inLineAgain deep
    ⟨front, early⟩ isName starts read last same.symm
  obtain ⟨root, found⟩ := Option.isSome_iff_exists.1 matched
  obtain ⟨first, more, stands, isNameAgain⟩ : ∃ first more,
      again.filter Token.isContent = first :: more ∧ first.isIdentifier = true := by
    rw [starts, List.filter_cons_of_pos (Token.isContent_of_isIdentifier isName),
      List.map_cons] at same
    obtain ⟨first, more, stands, kind, -⟩ := List.map_eq_cons_iff.1 same
    exact ⟨first, more, stands, by rwa [Token.isIdentifier_congr kind]⟩
  refine ⟨root, again.filter Token.isContent, parse_eq_ok lexed ?_,
    ofNode_includeBody_of_name unmocked inLineAgain isNameAgain stands found, same⟩
  rwa [parseTokens_append_ending standard _ inLineAgain endsAgain]

end Grammar

/--
Include bodies survive display.  The body of an inclusion that is matched has a
reading, and what it displays is matched as an include body that says the same: the
same path in the same brackets or quotes, or the same kinds and spellings of tokens.
-/
theorem exists_parse_display
    {source : String}
    {file : FileId}
    {line : UInt32}
    {node : Node}
    (noFeed : '\n' ∉ source.toList)
    (parsed : Grammar.standard.parse .includeLine source file line = .ok node) :
    ∃ inner body, node.child? .includeBody = some inner ∧ IncludeBody.ofNode inner = .ok body ∧
      ∀ file line, ∃ nodeAgain again,
        Grammar.standard.parse .includeBody body.display file line = .ok nodeAgain ∧
          IncludeBody.ofNode nodeAgain = .ok again ∧ again.Agrees body := by
  have unmocked : Grammar.standard.mocked = [] := rfl
  obtain ⟨tokens, lexed, found⟩ := Grammar.parseTokens_of_parse parsed
  have yields := Lexer.yields_of_tokens _ lexed
  have literals := Grammar.quoted_of_parseTokens lexed found
  obtain ⟨content, ending, rfl, ends, inLine⟩ := yields.exists_inLine noFeed
  rw [Grammar.parseTokens_append_ending _ _ inLine ends] at found
  obtain ⟨levels, inner, place, behind, depth, child, reached, significant, read, last⟩ :=
    Grammar.exists_body_of_parseTokens unmocked inLine found
  obtain ⟨form, rfl, stems, split, kind⟩ := Grammar.exists_form_of_readRule unmocked significant read
  have ofForm : IncludeBody.ofNode ⟨.includeBody, [form.toTree]⟩ = IncludeBody.ofForm form :=
    Grammar.ofNode_includeBody form
  obtain ⟨front, early⟩ := reached
  have whole : content = front ++ (form.tokens ++ behind.rest) := by
    rw [← split]
    exact early.rest
  have inLineForm : InLine form.tokens := by
    rw [whole, InLine.append_iff, InLine.append_iff] at inLine
    exact inLine.2.1
  rcases kind with isHeader | ⟨isMacro, token, rest, starts, isName⟩
  · have present : form ∈ Node.childNodes ⟨.includeBody, [form.toTree]⟩ := List.mem_cons_self
    have quoted : form.Quoted :=
      (literals.child (List.mem_of_find?_eq_some child)).child present
    obtain ⟨body, means, writes⟩ :=
      Grammar.exists_header_of_stems unmocked stems quoted isHeader
    rw [whole, List.append_assoc, List.append_assoc] at yields
    have lexes := writes.lexes_display yields (by simp) noFeed inLineForm
    refine ⟨_, body, child, ofForm.trans means, fun file line => ?_⟩
    obtain ⟨again, parsedAgain, meansAgain⟩ :=
      Grammar.exists_parse_display_of_header lexes file line
    exact ⟨again, body, parsedAgain, meansAgain, writes.agrees⟩
  · have means := Grammar.ofForm_of_isMacro isMacro inLineForm
    have content : place.rest.filter Token.isContent = form.tokens.filter Token.isContent := by
      rw [split, List.filter_append, last, List.append_nil]
    rw [← content] at means
    refine ⟨_, _, child, ofForm.trans means, fun file line => ?_⟩
    obtain ⟨nodeAgain, again, parsedAgain, meansAgain, same⟩ :=
      Grammar.exists_parse_display_of_name yields ends noFeed inLine (by omega) ⟨front, early⟩ isName
        starts read last file line
    exact ⟨nodeAgain, _, parsedAgain, meansAgain, same⟩

/--
So it is with a name in which a quote stays open, and an arrow and a comment do not
close the bracket.
-/
theorem exists_parse_display_of_stray_quote :
    ∃ node,
      Grammar.standard.parse .includeLine "# include/**/<a'b->c /* > */ d> // \"e" 3 7 =
          .ok node ∧
        ∃ inner body, node.child? .includeBody = some inner ∧
          IncludeBody.ofNode inner = .ok body ∧
          body.display = "<a'b->c /* > */ d>" ∧
          ∀ file line, ∃ nodeAgain again,
            Grammar.standard.parse .includeBody body.display file line = .ok nodeAgain ∧
              IncludeBody.ofNode nodeAgain = .ok again ∧ again.Agrees body := by
  have spelled :
      (Grammar.standard.parse .includeLine
          "# include/**/<a'b->c /* > */ d> // \"e" 3 7).toOption.bind
        (fun node => (node.child? .includeBody).bind fun inner =>
          (IncludeBody.ofNode inner).toOption.map IncludeBody.display) =
        some "<a'b->c /* > */ d>" := by
    decide +kernel
  cases parsed : Grammar.standard.parse .includeLine
      "# include/**/<a'b->c /* > */ d> // \"e" 3 7 with
  | error fault =>
      rw [parsed] at spelled
      cases spelled
  | ok node =>
      obtain ⟨inner, body, child, read, again⟩ := exists_parse_display (by decide) parsed
      have displayed : ((node.child? .includeBody).bind fun inner =>
          (IncludeBody.ofNode inner).toOption.map IncludeBody.display) =
            some "<a'b->c /* > */ d>" := by
        rw [parsed] at spelled
        exact spelled
      rw [child, Option.bind_some, read] at displayed
      exact ⟨node, rfl, inner, body, child, read, Option.some.inj displayed, again⟩

end PreprocessorSyntax
