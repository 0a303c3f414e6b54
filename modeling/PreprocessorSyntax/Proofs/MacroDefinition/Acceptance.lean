import PreprocessorSyntax.Proofs.Line.Isolation
import PreprocessorSyntax.Proofs.MacroDefinition.Lines

/-!
# Which lines define macros

A line is matched as a definition exactly if it is written as one.  Its name and
what stands directly behind the name then decide which of the two kinds of
definition it is, and the macro that is read off the tree has the name, the
parameters and the replacement that are written.
-/

namespace PreprocessorSyntax

/--
A line that defines a macro with a given name: what stands directly behind the
name, how the macro is used and the tokens in which its replacement stands.
-/
inductive WritesDefineLine : List Token → Token → List Token → MacroShape → List Token → Prop
  | intro
      {blanks front behind tokens : List Token} {name : Token} {shape : MacroShape}
      (trivial : ∀ token ∈ blanks, token.isTrivia = true)
      (head : WritesHead front name)
      (tail : WritesTail behind shape tokens) :
      WritesDefineLine (blanks ++ (front ++ behind)) name behind shape tokens

variable {behind tokens : List Token} {shape : MacroShape}

/-- A macro takes arguments exactly if a parenthesis opens directly behind its name. -/
theorem WritesTail.ne_object_iff (tail : WritesTail behind shape tokens) :
    shape ≠ .object ↔ ∃ left ∈ behind.head?, left.isPunctuator .leftParen = true := by
  cases tail with
  | object apart =>
      refine iff_of_false (fun different => different rfl) ?_
      rintro ⟨left, first, isLeft⟩
      rw [apart left first] at isLeft
      cases isLeft
  | nullary isLeft => exact iff_of_true nofun ⟨_, rfl, isLeft⟩
  | function isLeft => exact iff_of_true nofun ⟨_, rfl, isLeft⟩

namespace MacroDefinition

/-- Exactly the definitions with parameters are those of macros that take arguments. -/
theorem ne_object_iff_of_ofDefinition
    {node : Node}
    {definition : MacroDefinition}
    (read : ofDefinition node = .ok definition) :
    definition.shape ≠ .object ↔ node.rule = .functionlikeMacroDefinition := by
  have shaped : definition.shape = shapeOf node := by
    unfold ofDefinition at read
    split at read
    next => cases read
    next =>
      split at read
      next => cases read
      next =>
        cases read
        rfl
  rw [shaped, shapeOf]
  split
  next isFunction =>
    refine iff_of_true ?_ isFunction
    split <;> simp [shapeOfParameters]
  next noFunction => exact iff_of_false (fun different => different rfl) noFunction

end MacroDefinition

namespace Grammar

variable {grammar : Grammar}

/-- What is written as a definition is matched as one of its kind and read off the tree. -/
theorem exists_parseTokens_of_writes
    {line replacement : List Token}
    {name : Token}
    (unmocked : grammar.mocked = [])
    (enough : 4 ≤ grammar.maxDepth)
    (inLine : InLine line)
    (writes : WritesDefineLine line name behind shape replacement) :
    ∃ root node definition,
      grammar.parseTokens .defineLine line = some root ∧ root.childNodes = [node] ∧
      node.rule ∈ [Rule.functionlikeMacroDefinition, .objectlikeMacroDefinition] ∧
      (node.rule = .functionlikeMacroDefinition ↔
        ∃ left ∈ behind.head?, left.isPunctuator .leftParen = true) ∧
      MacroDefinition.ofNode root = .ok definition ∧
      definition.name = name.text ∧ definition.shape = shape ∧
      definition.replacement = replacement.filter Token.isContent := by
  let ending : Token := ⟨.endOfInput, "", .unknown⟩
  have ends : ending.kind = .endOfInput := rfl
  have confined := parseTokens_append_ending grammar .defineLine inLine ends
  cases writes with
  | @intro blanks front _ _ _ _ trivial head tail =>
      obtain ⟨rule, trees, trailing, listed, parsed, read⟩ :=
        exists_parseTokens_definition unmocked enough ends trivial (.intro head tail)
          (InLine.append_iff.1 inLine).2
      rw [← List.append_assoc, confined] at parsed
      have single : (Node.mk .defineLine
          (blanks.map .leaf ++ .node rule trees :: trailing.map .leaf)).childNodes =
            [⟨rule, trees⟩] := by
        rw [Node.childNodes, List.filterMap_append, List.filterMap_cons, filterMap_node?_map_leaf,
          filterMap_node?_map_leaf]
        rfl
      exact ⟨_, ⟨rule, trees⟩, _, parsed, single, listed,
        (MacroDefinition.ne_object_iff_of_ofDefinition read).symm.trans tail.ne_object_iff,
        (ofNode_defineLine listed blanks trailing).trans read, rfl, rfl, rfl⟩

/-- What is matched as a definition is written as one. -/
theorem exists_writes_of_parseTokens
    {line : List Token}
    {root : Node}
    (unmocked : grammar.mocked = [])
    (enough : 4 ≤ grammar.maxDepth)
    (inLine : InLine line)
    (parsed : grammar.parseTokens .defineLine line = some root) :
    ∃ name behind shape replacement, WritesDefineLine line name behind shape replacement := by
  let ending : Token := ⟨.endOfInput, "", .unknown⟩
  have ends : ending.kind = .endOfInput := rfl
  rw [← parseTokens_append_ending grammar .defineLine inLine ends] at parsed
  obtain ⟨blanks, written, definition, rfl, trivial, ⟨head, tail⟩, -⟩ :=
    exists_of_parseTokens_defineLine unmocked enough ends inLine parsed
  exact ⟨_, _, _, _, .intro trivial head tail⟩

/--
Exactly the lines that are written as definitions are matched.  The tree of such
a line is one definition, of the kind with parameters exactly if a parenthesis
opens directly behind the name, and the macro that is read off the tree has the
name, the parameters and the replacement that are written.
-/
theorem parseTokens_defineLine
    (unmocked : grammar.mocked = [])
    (enough : 4 ≤ grammar.maxDepth)
    (noFeed : ∀ token ∈ tokens, token.kind ≠ .newline) :
    ((grammar.parseTokens .defineLine tokens).isSome = true ↔
      ∃ name behind shape replacement,
        WritesDefineLine (firstLine tokens) name behind shape replacement) ∧
    ∀ name behind shape replacement,
      WritesDefineLine (firstLine tokens) name behind shape replacement →
      ∃ root node definition,
        grammar.parseTokens .defineLine tokens = some root ∧ root.childNodes = [node] ∧
        node.rule ∈ [Rule.functionlikeMacroDefinition, .objectlikeMacroDefinition] ∧
        (node.rule = .functionlikeMacroDefinition ↔
          ∃ left ∈ behind.head?, left.isPunctuator .leftParen = true) ∧
        MacroDefinition.ofNode root = .ok definition ∧
        definition.name = name.text ∧ definition.shape = shape ∧
        definition.replacement = replacement.filter Token.isContent := by
  have inLine := inLine_firstLine tokens
  rw [← parseTokens_firstLine grammar .defineLine noFeed]
  generalize firstLine tokens = line at inLine
  refine ⟨⟨fun matched => ?_, ?_⟩, fun name behind shape replacement writes =>
    exists_parseTokens_of_writes unmocked enough inLine writes⟩
  · obtain ⟨root, parsed⟩ := Option.isSome_iff_exists.1 matched
    exact exists_writes_of_parseTokens unmocked enough inLine parsed
  · rintro ⟨name, behind, shape, replacement, writes⟩
    obtain ⟨root, -, -, parsed, -⟩ := exists_parseTokens_of_writes unmocked enough inLine writes
    rw [parsed]
    rfl

/-- So `#define F(a,b...) x` defines a macro with a name for its further arguments. -/
theorem parseTokens_defineLine_named_variadic :
    let hash : Token := ⟨.punctuator .hash, "#", .unknown⟩
    let blank : Token := ⟨.whitespace, " ", .unknown⟩
    let left : Token := ⟨.punctuator .leftParen, "(", .unknown⟩
    let comma : Token := ⟨.punctuator .comma, ",", .unknown⟩
    let ellipsis : Token := ⟨.punctuator .ellipsis, "...", .unknown⟩
    let right : Token := ⟨.punctuator .rightParen, ")", .unknown⟩
    let word (text : String) : Token := ⟨.identifier, text, .unknown⟩
    let tokens : List Token :=
      [hash, word "define", blank, word "F", left, word "a", comma, word "b", ellipsis, right,
       blank, word "x", ⟨.endOfInput, "", .unknown⟩]
    ∃ root node definition,
      standard.parseTokens .defineLine tokens = some root ∧ root.childNodes = [node] ∧
      node.rule = .functionlikeMacroDefinition ∧ MacroDefinition.ofNode root = .ok definition ∧
      definition.name = "F" ∧ definition.shape = .function ["a"] (some (.named "b")) ∧
      definition.replacement = [word "x"] := by
  intro hash blank left comma ellipsis right word tokens
  have noTrivia : ∀ token ∈ ([] : List Token), token.isTrivia = true := by simp
  have head : WritesHead (hash :: ([] ++ word "define" :: ([blank] ++ [word "F"]))) (word "F") :=
    .intro rfl noTrivia rfl (by decide) rfl
  have parameters : WritesParameters [word "a", comma, word "b", ellipsis] ["a"]
      (some (.named "b")) :=
    .further rfl rfl (.variadic (.named rfl rfl))
  have tail : WritesTail
      (left :: ([word "a", comma, word "b", ellipsis] ++ right :: [blank, word "x"]))
      (.function ["a"] (some (.named "b"))) [blank, word "x"] :=
    .function rfl parameters rfl
  have writes : WritesDefineLine (firstLine tokens) (word "F")
      (left :: ([word "a", comma, word "b", ellipsis] ++ right :: [blank, word "x"]))
      (.function ["a"] (some (.named "b"))) [blank, word "x"] :=
    WritesDefineLine.intro noTrivia head tail
  obtain ⟨root, node, definition, parsed, single, -, opens, read, name, shape, replacement⟩ :=
    (parseTokens_defineLine (show standard.mocked = [] from rfl) (by decide)
      (show ∀ token ∈ tokens, token.kind ≠ .newline by decide)).2 _ _ _ _ writes
  exact ⟨root, node, definition, parsed, single, opens.2 ⟨left, rfl, rfl⟩, read, name, shape,
    replacement⟩

end Grammar
end PreprocessorSyntax
