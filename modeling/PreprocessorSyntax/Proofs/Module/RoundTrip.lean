import PreprocessorSyntax.Proofs.Depth.Acceptance
import PreprocessorSyntax.Proofs.Grammar.Levels
import PreprocessorSyntax.Proofs.Module.Readings

/-!
# Declarations are read back

A declaration of a module or of an import is matched as a line, and its
directive is what was declared: no choice of names turns it into another one.
-/

namespace PreprocessorSyntax

variable {declaration : Declaration} {tokens rest : List Token}

/-- Every declaration starts with a word. -/
theorem Declaration.exists_phrases_eq (declaration : Declaration) :
    ∃ word phrases, declaration.phrases = .name [word] :: phrases := by
  rcases declaration with _ | _ | ⟨_ | _, _, _ | _⟩ | ⟨_ | _, _ | _, _⟩ <;> exact ⟨_, _, rfl⟩

theorem exists_identifier_of_declaration (writes : WritesPhrases declaration.phrases tokens) :
    ∃ token behind, tokens = token :: behind ∧ token.isIdentifier = true := by
  obtain ⟨word, more, written⟩ := declaration.exists_phrases_eq
  rw [written] at writes
  obtain ⟨_, behind, rfl, here⟩ := writes.exists_first
  obtain ⟨token, rfl, isWord⟩ := here.exists_word
  exact ⟨token, behind, rfl, (Bool.and_eq_true_iff.1 isWord).1⟩

/-- The rule that reads a declaration. -/
def Declaration.rule : Declaration → Rule
  | .importing _ _ _ => .ppImport
  | _ => .ppModule

theorem Declaration.rule_eq (declaration : Declaration) :
    declaration.rule = .ppImport ∨ declaration.rule = .ppModule := by
  cases declaration <;> simp [rule]

namespace Grammar

variable {grammar : Grammar}

section Line

variable (unmocked : grammar.mocked = [])
variable (ends : ∀ token ∈ rest.head?, token.isLineEnd = true)
include unmocked ends

/-- A declaration is read by its rule, and its directive is read off the tree. -/
theorem exists_reads_declaration
    (writes : WritesPhrases declaration.phrases tokens)
    (spelled : ∀ parts region, region <:+: tokens → WritesName parts region →
      significantText region = ".".intercalate parts) :
    ∃ trees, grammar.Reads declaration.rule.pattern tokens trees rest ∧
      Directive.ofLine ⟨declaration.rule, trees⟩ = .ok declaration.directive := by
  have significant := significant_phrases ends writes
  cases declaration with
  | globalFragment =>
      refine ⟨_, reads_ppModule ends significant (reads_globalFragment writes).orElse_left, ?_⟩
      have noPrivate : tokens.any (Token.isWord "private") = false := by
        obtain ⟨token, blanks, _, rfl, isWord, trivial, writes⟩ := writes.exists_word
        obtain ⟨semicolon, rfl, isSemicolon⟩ := writes.exists_last
        rw [List.any_cons, List.any_append, any_isWord_of_isTrivia trivial, Token.isWord_eq isWord,
          List.any_cons, Token.isWord_of_isPunctuator isSemicolon]
        decide
      have read := Directive.moduleOfNode_map_leaf tokens
      rw [noPrivate] at read
      simp [Directive.ofLine, Declaration.rule, Declaration.directive, read]
  | privateFragment =>
      refine ⟨_, reads_ppModule ends significant ((fails_globalFragment writes).orElse_right
        (reads_privateFragment writes).orElse_left), ?_⟩
      have isPrivate : tokens.any (Token.isWord "private") = true := by
        obtain ⟨token, blanks, _, rfl, _, _, writes⟩ := writes.exists_word
        obtain ⟨colon, more, _, rfl, _, _, writes⟩ := writes.exists_mark
        obtain ⟨word, others, _, rfl, isWord, _⟩ := writes.exists_word
        simp [isWord]
      have read := Directive.moduleOfNode_map_leaf tokens
      rw [isPrivate] at read
      simp [Directive.ofLine, Declaration.rule, Declaration.directive, read]
  | named exported name partition =>
      obtain ⟨trees, reads, declares⟩ := readsDeclaring_namedModule ends unmocked writes
      obtain ⟨noGlobal, noPrivate⟩ : grammar.Fails .globalFragment (tokens ++ rest) ∧
          grammar.Fails .privateFragment (tokens ++ rest) := by
        obtain ⟨more, written⟩ : ∃ more, (Declaration.named exported name partition).phrases =
            Declaration.exportPhrases exported ++ .name ["module"] :: .name name :: more := by
          cases partition <;> exact ⟨_, rfl⟩
        rw [written] at writes
        exact ⟨fails_fragment ends writes .semicolon,
          (fails_fragment ends writes .colon).append.append.append.append⟩
      refine ⟨trees, reads_ppModule ends significant
        (noGlobal.orElse_right (noPrivate.orElse_right reads)), ?_⟩
      have read := Directive.moduleOfNode_of_declares spelled declares
      simp [Directive.ofLine, Declaration.rule, Declaration.directive, read]
  | importing exported ofPartition name =>
      obtain ⟨trees, reads, declares⟩ := readsDeclaring_ppImport ends unmocked writes
      have read := Directive.importOfNode_of_declares spelled declares
      refine ⟨trees, reads, ?_⟩
      simp [Directive.ofLine, Declaration.rule, Declaration.directive, read, Except.map]

omit unmocked in
/-- A declaration of a module is no import. -/
theorem fails_ppImport_of_rule
    (writes : WritesPhrases declaration.phrases tokens)
    (isModule : declaration.rule = .ppModule) :
    grammar.Fails .ppImport (tokens ++ rest) := by
  obtain ⟨exported, more, written⟩ : ∃ exported more, declaration.phrases =
      Declaration.exportPhrases exported ++ .name ["module"] :: more := by
    rcases declaration with _ | _ | ⟨exported, _, _ | _⟩ | _
    · exact ⟨false, _, rfl⟩
    · exact ⟨false, _, rfl⟩
    · exact ⟨exported, _, rfl⟩
    · exact ⟨exported, _, rfl⟩
    · cases isModule
  rw [written] at writes
  exact fails_ppImport ends writes

/-- An import is tried first, and a declaration is read by its rule all the same. -/
theorem exists_nodeAt?_declaration
    (writes : WritesPhrases declaration.phrases tokens)
    (spelled : ∀ parts region, region <:+: tokens → WritesName parts region →
      significantText region = ".".intercalate parts)
    (position : Nat) :
    ∃ trees, (grammar.nodeAt? .ppImport ⟨position, tokens ++ rest⟩).or
        (grammar.nodeAt? .ppModule ⟨position, tokens ++ rest⟩) =
          some (⟨declaration.rule, trees⟩, ⟨position + tokens.length, rest⟩) ∧
      Directive.ofLine ⟨declaration.rule, trees⟩ = .ok declaration.directive := by
  obtain ⟨trees, reads, means⟩ := exists_reads_declaration unmocked ends writes spelled
  refine ⟨trees, ?_, means⟩
  rcases declaration.rule_eq with isImport | isModule
  · rw [isImport] at reads ⊢
    rw [nodeAt?_of_reads unmocked rfl reads position]
    rfl
  · have fails : grammar.Fails .ppImport (tokens ++ rest) :=
      fails_ppImport_of_rule ends writes isModule
    have noImport : grammar.nodeAt? .ppImport ⟨position, tokens ++ rest⟩ = none := by
      rw [nodeAt?_eq, pattern_eq unmocked, Rule.pattern, fails position]
      rfl
    rw [isModule] at reads ⊢
    rw [noImport, nodeAt?_of_reads unmocked rfl reads position]
    rfl

end Line

/-- Without a number sign in front, a line is no directive. -/
theorem fails_directiveHead_of_isIdentifier
    {token : Token}
    (isIdentifier : token.isIdentifier = true)
    (names : List String) :
    grammar.Fails (.directiveHead names) (token :: rest) := by
  have noHash : token.isPunctuator .hash = false := by
    simp [Token.isPunctuator, Token.kind_of_isIdentifier isIdentifier]
  have start : grammar.Reads .trivia [] [] (token :: rest) :=
    reads_trivia_nil (significant_cons (Token.isTrivia_of_isIdentifier isIdentifier) rest)
  exact (start.append_fails (fails_token_cons noHash)).append.append

/-- A choice of rules reads what the first of them reads. -/
theorem read_firstOf_eq
    {State : Type}
    {readRule : Rule → Pattern.Reader State Node}
    {preferred : Rule}
    {cursor : Cursor}
    {state after : State}
    {found : Node × Cursor}
    (read : readRule preferred cursor state = (some found, after))
    (others : List Rule) :
    (Pattern.firstOf preferred others).read readRule cursor state =
      (some ([found.1.toTree], found.2), after) := by
  have chosen := Pattern.read_rule readRule preferred cursor state
  rw [read] at chosen
  cases others with
  | nil => exact chosen
  | cons next others => simp only [Pattern.firstOf, Pattern.read.eq_7, chosen, Option.map_some]

section Name

variable {levels position : Nat} {token : Token}
variable (unmocked : grammar.mocked = [])
variable (enough : 4 ≤ levels)
variable (isIdentifier : token.isIdentifier = true)
include unmocked enough isIdentifier

/-- A line that starts with a name defines no macro. -/
theorem readAfresh_defineLine_of_isIdentifier :
    grammar.readAfresh levels .defineLine ⟨position, token :: rest⟩ false = (none, false) := by
  have noHead : grammar.Fails (.directiveHead ["define"]) (token :: rest) :=
    fails_directiveHead_of_isIdentifier isIdentifier _
  have function : grammar.Fails (.rule .functionlikeMacroDefinition) (token :: rest) :=
    fails_node unmocked noHead.append.append.append.append.append.append.append.append.append.append
  have object : grammar.Fails (.rule .objectlikeMacroDefinition) (token :: rest) :=
    fails_node unmocked noHead.append.append.append.append.append.append
  have failed : grammar.treesAt? Rule.defineLine.pattern ⟨position, token :: rest⟩ = none :=
    function.orElse object position
  rw [readAfresh_of_nestsWithin_of_le unmocked (by decide) enough, nodeAt?_eq,
    pattern_eq unmocked, failed]
  rfl

/-- Nor does it include a file. -/
theorem readAfresh_includeLine_of_isIdentifier :
    grammar.readAfresh levels .includeLine ⟨position, token :: rest⟩ false = (none, false) := by
  obtain ⟨levels, rfl⟩ := Nat.exists_eq_add_of_le' (Nat.le_trans (by decide : 1 ≤ 4) enough)
  have noHead : grammar.Fails (.directiveHead ["include", "include_next"]) (token :: rest) :=
    fails_directiveHead_of_isIdentifier isIdentifier _
  have callsNone : (Pattern.directiveHead ["include", "include_next"]).calls = [] := rfl
  have head := read_of_calls_eq_nil grammar callsNone (grammar.readAfresh levels)
    ⟨position, token :: rest⟩ false
  rw [noHead position] at head
  rw [readAfresh_succ, pattern_eq unmocked, Rule.pattern, Pattern.includeLine]
  simp only [Pattern.append_eq, Pattern.read.eq_6, head, Option.map_none]

/-- It is read as an import, or else as a declaration of a module. -/
theorem readAfresh_preprocessorLine
    {found : Node × Cursor}
    (read : (grammar.nodeAt? .ppImport ⟨position, token :: rest⟩).or
      (grammar.nodeAt? .ppModule ⟨position, token :: rest⟩) = some found) :
    grammar.readAfresh (levels + 1) .preprocessorLine ⟨position, token :: rest⟩ false =
      (some (⟨.preprocessorLine, [found.1.toTree]⟩, found.2), false) := by
  have noDefine : grammar.readAfresh levels .defineLine ⟨position, token :: rest⟩ false = _ :=
    readAfresh_defineLine_of_isIdentifier unmocked enough isIdentifier
  have noInclude : grammar.readAfresh levels .includeLine ⟨position, token :: rest⟩ false = _ :=
    readAfresh_includeLine_of_isIdentifier unmocked enough isIdentifier
  generalize Cursor.mk position (token :: rest) = cursor at read noDefine noInclude ⊢
  have imports : grammar.readAfresh levels .ppImport cursor false = _ :=
    readAfresh_of_nestsWithin_of_le unmocked (by decide) enough cursor
  have modules : grammar.readAfresh levels .ppModule cursor false = _ :=
    readAfresh_of_nestsWithin_of_le unmocked (by decide) enough cursor
  have line : Pattern.preprocessorLine.read (grammar.readAfresh levels) cursor false =
      (some ([found.1.toTree], found.2), false) := by
    rw [Pattern.preprocessorLine, read_firstOf_of_none (by rw [noDefine]), noDefine,
      read_firstOf_of_none (by rw [noInclude]), noInclude]
    cases isImport : grammar.nodeAt? .ppImport cursor with
    | some other =>
        rw [isImport] at read imports
        cases read
        exact read_firstOf_eq imports _
    | none =>
        rw [isImport] at read imports
        rw [read_firstOf_of_none (by rw [imports]), imports]
        rw [show grammar.nodeAt? .ppModule cursor = some found from read] at modules
        exact read_firstOf_eq modules _
  rw [readAfresh_succ, pattern_eq unmocked, Rule.pattern, line]
  rfl

end Name

/-- A declaration that stands alone on its line is matched, and read back. -/
theorem exists_parseTokens_declaration
    {ending : Token}
    (ends : ending.kind = .endOfInput)
    (writes : WritesPhrases declaration.phrases tokens)
    (spelled : ∀ parts region, region <:+: tokens → WritesName parts region →
      significantText region = ".".intercalate parts) :
    ∃ root, standard.parseTokens .preprocessorLine (tokens ++ [ending]) = some root ∧
      Directive.ofNode root = .ok declaration.directive := by
  have unmocked : standard.mocked = [] := rfl
  have endsLine : ∀ token ∈ [ending].head?, token.isLineEnd = true := by
    rintro _ ⟨⟩
    rw [Token.isLineEnd, ends]
    rfl
  have significant := significant_phrases endsLine writes
  obtain ⟨trees, found, means⟩ := exists_nodeAt?_declaration unmocked endsLine writes spelled 0
  obtain ⟨token, behind, rfl, isIdentifier⟩ := exists_identifier_of_declaration writes
  have read := readAfresh_preprocessorLine unmocked (by decide : 4 ≤ 1023) isIdentifier found
  have depth : standard.maxDepth = 1023 + 1 := rfl
  have reading : (standard.readRule standard.maxDepth .preprocessorLine
      ⟨0, token :: behind ++ [ending]⟩ .empty).1 =
        some (⟨.preprocessorLine, [.node declaration.rule trees]⟩,
          ⟨0 + (token :: behind).length, [ending]⟩) := by
    have start : (Cursor.ofTokens (token :: behind ++ [ending])).trivia.2 =
        ⟨0, token :: behind ++ [ending]⟩ :=
      congrArg Prod.snd (trivia_of_significant significant)
    rw [depth, ← start, readRule_eq_readAfresh (by rw [start]; exact congrArg Prod.snd read), start]
    exact congrArg Prod.fst read
  exact ⟨_, parseTokens_of_reading significant ends reading, means⟩

end Grammar

/--
Declarations of modules and imports are read back.  Whatever names are chosen,
keywords among them, and whatever white space and block comments are added
between the phrases, the line is matched, and its directive is the declaration
that was written and no other one.
-/
theorem ofNode_parse_declaration
    {source : String}
    (plain : ∀ name ∈ declaration.names, name ≠ [] ∧
      ∀ part ∈ name, munch part.toList = some (.identifier, part.length))
    (spaced : Spaced declaration.phrases source.toList)
    (file : FileId)
    (line : UInt32) :
    ∃ root, Grammar.standard.parse .preprocessorLine source file line = .ok root ∧
      Directive.ofNode root = .ok declaration.directive := by
  have lexes := lexes_phrases spaced (Declaration.isPlain_of_mem_phrases plain)
  obtain ⟨tokens, ending, lexed, ends, inLine, writes⟩ := lexes.tokenize file line
  have yields := Lexer.yields_of_tokens _ lexed
  have spelled (parts : List String) (region : List Token) (within : region <:+: tokens)
      (named : WritesName parts region) : significantText region = ".".intercalate parts := by
    obtain ⟨before, after, rfl⟩ := within
    rw [List.append_assoc, List.append_assoc] at yields
    have something : region ++ (after ++ [ending]) ≠ [] := by simp
    rw [yields.significantText_run something named.isContent, named.join_text]
  obtain ⟨root, parsed, means⟩ := Grammar.exists_parseTokens_declaration ends writes spelled
  exact ⟨root, Grammar.parse_eq_ok lexed parsed, means⟩

/-- Names that are keywords, a comment that separates two of them, and white space. -/
theorem ofNode_parse_declaration_keywords :
    let declaration : Declaration := .named true ["import", "export"] (some ["private"])
    let source := "export/**/module import.export\t: private;"
    (∀ name ∈ declaration.names, name ≠ [] ∧
      ∀ part ∈ name, munch part.toList = some (.identifier, part.length)) ∧
    Spaced declaration.phrases source.toList ∧
    ∃ root, Grammar.standard.parse .preprocessorLine source 0 1 = .ok root ∧
      Directive.ofNode root =
        .ok (.moduleUnit (.named true "import.export" (some "private"))) := by
  intro declaration source
  have plain : ∀ name ∈ declaration.names, name ≠ [] ∧
      ∀ part ∈ name, munch part.toList = some (.identifier, part.length) := by decide
  have blank {c : Char} (isBlank : isBlank c = true) : IsGap [c] := .blank isBlank .nil
  have comment : IsGap ['/', '*', '*', '/'] := by
    have noEnd : ¬ ['*', '/'] <:+: [] := by decide
    exact .comment noEnd .nil
  have apart {gap : List Char} (something : gap ≠ []) (phrase next : Phrase) (empty : gap = []) :
      phrase.isName ≠ next.isName :=
    absurd empty something
  have spaced : Spaced declaration.phrases source.toList := by
    have last : Spaced [.name ["private"], .symbol .semicolon] _ :=
      .further .nil (by decide) (.last (.symbol .semicolon))
    have colon := Spaced.further (blank (by decide : isBlank ' ' = true))
      (apart (by decide) (.symbol .colon) _) last
    have name := Spaced.further (blank (by decide : isBlank '\t' = true))
      (apart (by decide) (.name ["import", "export"]) _) colon
    have keyword := Spaced.further (blank (by decide : isBlank ' ' = true))
      (apart (by decide) (.name ["module"]) _) name
    have whole := Spaced.further comment (apart (by decide) (.name ["export"]) _) keyword
    refine cast (congrArg (Spaced _) ?_) whole
    decide +kernel
  obtain ⟨root, parsed, read⟩ := ofNode_parse_declaration plain spaced 0 1
  exact ⟨plain, spaced, root, parsed, read⟩

end PreprocessorSyntax
