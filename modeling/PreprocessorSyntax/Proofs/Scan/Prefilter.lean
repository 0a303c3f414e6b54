import Mathlib.Data.List.TakeWhile
import PreprocessorSyntax.Proofs.Grammar.FirstToken
import PreprocessorSyntax.Proofs.Scan.Lines
import PreprocessorSyntax.Scan

/-!
# Which lines a scan passes over

A scan looks at the characters of a line before it reads its tokens.  For a line
that the grammar accepts, the look fails exactly if a comment stands in front of
the directive.  So a scan finds the accepted lines that start with no comment,
and no others.
-/

namespace PreprocessorSyntax

theorem isWhiteSpace_of_isBlank {c : Char} (blank : isBlank c = true) : isWhiteSpace c = true := by
  simp only [isBlank, Bool.or_eq_true, beq_iff_eq] at blank
  rcases blank with (((rfl | rfl) | rfl) | rfl) | rfl <;> decide

theorem looksLikeDirective_blanks
    {blanks : List Char}
    (blank : ∀ c ∈ blanks, isBlank c = true)
    (text : List Char) :
    looksLikeDirective (String.ofList (blanks ++ text)) =
      looksLikeDirective (String.ofList text) := by
  have white : ∀ c ∈ blanks, isWhiteSpace c = true :=
    fun c present => isWhiteSpace_of_isBlank (blank c present)
  have trimmed : trimStart (blanks ++ text) = trimStart text :=
    List.dropWhile_append_of_pos white
  simp only [looksLikeDirective, String.toList_ofList, trimmed]

theorem looksLikeDirective_slash (text : List Char) :
    looksLikeDirective (String.ofList ('/' :: text)) = false := by
  have visible : trimStart ('/' :: text) = '/' :: text := rfl
  have wordless : ('/' :: text).takeWhile isWordPart = [] := rfl
  simp [looksLikeDirective, String.toList_ofList, visible, wordless]

theorem looksLikeDirective_hash (text : List Char) :
    looksLikeDirective (String.ofList ('#' :: text)) = true := by
  have visible : trimStart ('#' :: text) = '#' :: text := rfl
  simp [looksLikeDirective, String.toList_ofList, visible]

/-- The characters of a word also continue an identifier. -/
theorem takeWhile_isWordPart
    {text : List Char}
    (plain : ∀ c ∈ text.takeWhile isIdentifierPart, isWordPart c = true) :
    text.takeWhile isWordPart = text.takeWhile isIdentifierPart := by
  have both : (fun c => decide (isWordPart c = true ∧ isIdentifierPart c = true)) = isWordPart := by
    funext c
    cases part : isWordPart c with
    | false => simp
    | true =>
        simp only [isWordPart] at part
        simp [isIdentifierPart, part]
  rw [← both, ← List.takeWhile_takeWhile, List.takeWhile_eq_self_iff]
  exact plain

/-- A word of imports and modules that is a whole identifier is found. -/
theorem looksLikeDirective_word
    {text : List Char}
    (listed : String.ofList (text.takeWhile isIdentifierPart) ∈ ["import", "export", "module"]) :
    looksLikeDirective (String.ofList text) = true := by
  have known : ∀ word ∈ ["import", "export", "module"], word.toList.all isWordPart = true ∧
      ∀ rest, trimStart (word.toList ++ rest) = word.toList ++ rest := by
    intro word isWord
    simp only [List.mem_cons, List.not_mem_nil, or_false] at isWord
    rcases isWord with rfl | rfl | rfl <;> exact ⟨rfl, fun _ => rfl⟩
  obtain ⟨plain, visible⟩ := known _ listed
  have whole := visible (text.dropWhile isIdentifierPart)
  rw [String.toList_ofList] at plain whole
  rw [List.takeWhile_append_dropWhile] at whole
  have words := takeWhile_isWordPart (List.all_eq_true.1 plain)
  simp only [looksLikeDirective, String.toList_ofList, whole, words]
  simp only [List.contains_eq_mem, decide_eq_true listed, Bool.or_true]

/-- The white space at the front of a line consists of blanks. -/
theorem exists_blanks
    {text : List Char}
    (hidden : FeedsBehindSlash text) :
    ∃ blanks, text = blanks ++ text.drop (blankLength text) ∧ ∀ c ∈ blanks, isBlank c = true := by
  fun_induction blankLength text with
  | case1 rest inductionHypothesis => simp [FeedsBehindSlash] at hidden
  | case2 rest inductionHypothesis => simp [FeedsBehindSlash] at hidden
  | case3 c rest _ _ blank inductionHypothesis =>
      have notSlash : '/' ∉ [c] := by
        rintro present
        cases List.mem_singleton.1 present
        cases blank
      obtain ⟨blanks, equal, all⟩ := inductionHypothesis (hidden.of_append notSlash).2
      refine ⟨c :: blanks, ?_, ?_⟩
      · rw [List.drop_succ_cons, List.cons_append, ← equal]
      · simpa [blank] using all
  | case4 c rest _ _ dark => exact ⟨[], rfl, by simp⟩
  | case5 => exact ⟨[], rfl, by simp⟩

/-- White space at the front of a line does not count for the look. -/
theorem looksLikeDirective_whitespace
    {text : List Char}
    {length : Nat}
    (hidden : FeedsBehindSlash text)
    (munched : munch text = some (.whitespace, length)) :
    looksLikeDirective (String.ofList text) =
        looksLikeDirective (String.ofList (text.drop length)) ∧
      FeedsBehindSlash (text.drop length) := by
  have fronts : length = blankLength text := (munches_of_munch munched).fronts
  -- Without line feeds the white space holds no splices, only blanks.
  obtain ⟨blanks, equal, blank⟩ := exists_blanks hidden
  rw [← fronts] at equal
  generalize text.drop length = rest at equal ⊢
  subst equal
  have noSlash : '/' ∉ blanks := by
    intro present
    have impossible := blank '/' present
    contradiction
  exact ⟨looksLikeDirective_blanks blank rest, (hidden.of_append noSlash).2⟩

/-- The look finds whatever token a directive begins with. -/
theorem looksLikeDirective_of_startsDirective
    {text : List Char}
    {length : Nat}
    {token : Token}
    (munched : munch text = some (token.kind, length))
    (spelled : token.text = String.ofList (text.take length))
    (starts : token.startsDirective = true) :
    looksLikeDirective (String.ofList text) = true := by
  have fronts := (munches_of_munch munched).fronts
  rcases Bool.or_eq_true_iff.1 starts with isHash | isWord
  · rw [Token.kind_of_isPunctuator isHash] at fronts
    obtain ⟨rest, rfl⟩ := fronts
    exact looksLikeDirective_hash rest
  · obtain ⟨isName, listed⟩ := Bool.and_eq_true_iff.1 isWord
    rw [Token.kind_of_isIdentifier isName] at fronts
    have whole : text.take length = text.takeWhile isIdentifierPart := by
      rw [show length = _ from fronts]
      exact (List.prefix_iff_eq_take.1 (List.takeWhile_prefix _)).symm
    apply looksLikeDirective_word
    rw [← whole, ← spelled]
    simpa using listed

/-- The look says of a text what its tokens say, if they begin as a directive does. -/
theorem looksLikeDirective_of_yields
    {lexer : Lexer}
    {tokens : List Token}
    (yields : lexer.Yields tokens)
    (hidden : FeedsBehindSlash lexer.rest)
    (begins : ∃ token ∈ firstSignificant? tokens, token.startsDirective = true) :
    looksLikeDirective (String.ofList lexer.rest) =
      (tokens.takeWhile Token.isTrivia).all fun token => token.kind == .whitespace := by
  induction yields with
  | @last lexer after token read ends =>
      obtain ⟨found, here, starts⟩ := begins
      have notTrivia : token.isTrivia = false := by
        simp [Token.isTrivia, TokenKind.isTrivia, ends]
      rw [firstSignificant?_cons, notTrivia] at here
      cases here
      simp [Token.startsDirective, Token.isPunctuator, Token.isIdentifier, ends] at starts
  | @step lexer after token tokens read continues rest inductionHypothesis =>
      obtain ⟨length, munched, spelled, _, rfl⟩ := Lexer.next_eq_ok read
      obtain ⟨found, here, starts⟩ := begins
      have fronts := (munches_of_munch munched).fronts
      cases kind : token.kind with
      | whitespace =>
          have trivial : token.isTrivia = true := by simp [Token.isTrivia, TokenKind.isTrivia, kind]
          rw [firstSignificant?_cons, if_pos trivial] at here
          rw [kind] at munched
          obtain ⟨looks, hiddenLater⟩ := looksLikeDirective_whitespace hidden munched
          have later := inductionHypothesis hiddenLater ⟨found, here, starts⟩
          simpa [looks, Lexer.skip, trivial, kind] using later
      | comment style =>
          have trivial : token.isTrivia = true := by simp [Token.isTrivia, TokenKind.isTrivia, kind]
          rw [kind] at fronts
          obtain ⟨tail, equal⟩ := fronts
          rw [equal, looksLikeDirective_slash]
          simp [trivial, kind]
      | _ =>
          have notTrivia : token.isTrivia = false := by
            simp [Token.isTrivia, TokenKind.isTrivia, kind]
          rw [firstSignificant?_cons, notTrivia] at here
          cases here
          rw [looksLikeDirective_of_startsDirective munched spelled starts]
          simp [notTrivia]

/-- Whether a comment stands in front of everything significant. -/
def Node.startsWithComment (node : Node) : Bool :=
  !(node.tokens.takeWhile Token.isTrivia).all fun token => token.kind == .whitespace

/-- The tree of a line that has no lexical error and that the grammar accepts. -/
def Grammar.lineTree? (grammar : Grammar) (file : FileId) (line : LogicalLine) : Option Node :=
  match tokenize line.text file line.line with
  | .error _ => none
  | .ok tokens => grammar.parseTokens .preprocessorLine tokens

theorem Grammar.lineTree?_eq
    (grammar : Grammar)
    {file : FileId}
    {line : LogicalLine}
    {tokens : List Token}
    (lexed : tokenize line.text file line.line = .ok tokens) :
    grammar.lineTree? file line = grammar.parseTokens .preprocessorLine tokens := by
  rw [lineTree?, lexed]

/-- A line that the grammar accepts is passed over exactly if it starts with a comment. -/
theorem looksLikeDirective_of_lineTree?
    {grammar : Grammar}
    (unmocked : grammar.mocked = [])
    {source : String}
    {file : FileId}
    {line : LogicalLine}
    (present : line ∈ logicalLines source)
    {node : Node}
    (accepted : grammar.lineTree? file line = some node) :
    looksLikeDirective line.text = !node.startsWithComment := by
  unfold Grammar.lineTree? at accepted
  split at accepted
  next => cases accepted
  next tokens lexed =>
    obtain ⟨content, ending, rfl, ends, before, _⟩ := tokenize_eq_ok lexed
    have leaves : node.tokens = content := by
      rw [(Grammar.tokens_of_parseTokens accepted).2, Cursor.upcoming_ofTokens before ends]
    obtain ⟨first, here, starts⟩ := Grammar.startsDirective_of_parseTokens unmocked accepted
    rw [leaves, Option.mem_def] at here
    have begins : ∃ token ∈ firstSignificant? (content ++ [ending]),
        token.startsDirective = true :=
      ⟨first, by rw [firstSignificant?_append, here, Option.some_or, Option.mem_def], starts⟩
    have notTrivia : ending.isTrivia = false := by
      simp [Token.isTrivia, TokenKind.isTrivia, ends]
    have leading : (content ++ [ending]).takeWhile Token.isTrivia =
        content.takeWhile Token.isTrivia := by
      rw [List.takeWhile_append]
      split
      next whole => simp [notTrivia, (List.takeWhile_prefix _).eq_of_length whole]
      next => rfl
    have looked := looksLikeDirective_of_yields (Lexer.yields_of_tokens _ lexed)
      (feedsBehindSlash_of_mem_logicalLines present) begins
    rw [leading] at looked
    rw [Node.startsWithComment, leaves, Bool.not_not, ← looked]
    simp [Lexer.ofString]

/-- What a scan makes of one line. -/
theorem scanLine_eq_ok
    {grammar : Grammar}
    {file : FileId}
    {line : LogicalLine}
    {found : Option ScannedDirective}
    (scanned : scanLine grammar file line = .ok found) :
    found.map ScannedDirective.node =
        (if looksLikeDirective line.text then grammar.lineTree? file line else none) ∧
      ∀ entry ∈ found, Directive.ofNode entry.node = .ok entry.directive := by
  unfold scanLine at scanned
  split at scanned
  next looks =>
    rw [if_pos looks]
    split at scanned
    next => cases scanned
    next tokens lexed =>
      rw [grammar.lineTree?_eq lexed]
      split at scanned
      next refused =>
        cases scanned
        exact ⟨refused.symm, by simp⟩
      next node accepted =>
        split at scanned
        next => cases scanned
        next directive means =>
          cases scanned
          refine ⟨accepted.symm, ?_⟩
          rintro entry ⟨⟩
          exact means
  next dark =>
    cases scanned
    rw [if_neg dark]
    exact ⟨rfl, by simp⟩

/-- A line is found if the grammar accepts it and it does not start with a comment. -/
theorem nodes_of_scanLine
    {grammar : Grammar}
    {file : FileId}
    {line : LogicalLine}
    {found : Option ScannedDirective}
    (looks : ∀ node, grammar.lineTree? file line = some node →
      looksLikeDirective line.text = !node.startsWithComment)
    (scanned : scanLine grammar file line = .ok found) :
    found.toList.map ScannedDirective.node =
      (grammar.lineTree? file line).toList.filter fun node => !node.startsWithComment := by
  have tree := (scanLine_eq_ok scanned).1
  rw [← Option.toList_map, tree]
  cases accepted : grammar.lineTree? file line with
  | none => rw [ite_self]; rfl
  | some node =>
      rw [looks node accepted]
      cases hidden : node.startsWithComment <;> simp [hidden]

/-- So the lines that are found keep their order. -/
theorem scanLines_eq_ok
    {grammar : Grammar}
    {file : FileId}
    {lines : List LogicalLine}
    {found : List ScannedDirective}
    (looks : ∀ line ∈ lines, ∀ node, grammar.lineTree? file line = some node →
      looksLikeDirective line.text = !node.startsWithComment)
    (scanned : scanLines grammar file lines = .ok found) :
    found.map ScannedDirective.node =
        (lines.filterMap (grammar.lineTree? file)).filter (fun node => !node.startsWithComment) ∧
      ∀ entry ∈ found, Directive.ofNode entry.node = .ok entry.directive := by
  induction lines generalizing found with
  | nil =>
      cases scanned
      exact ⟨rfl, by simp⟩
  | cons line lines inductionHypothesis =>
      rw [List.forall_mem_cons] at looks
      unfold scanLines at scanned
      split at scanned
      next => cases scanned
      next front one =>
        cases rest : scanLines grammar file lines with
        | error fault => simp [rest, Except.map] at scanned
        | ok back =>
            rw [rest] at scanned
            cases scanned
            have meaning := (scanLine_eq_ok one).2
            obtain ⟨trees, meanings⟩ := inductionHypothesis looks.2 rest
            have head := nodes_of_scanLine looks.1 one
            refine ⟨?_, ?_⟩
            · rw [List.map_append, head, trees, ← List.filter_append]
              cases accepted : grammar.lineTree? file line <;> simp [accepted]
            · intro entry listed
              rcases List.mem_append.1 listed with early | late
              · exact meaning entry (Option.mem_toList.1 early)
              · exact meanings entry late

/--
A scan finds exactly the lines that the grammar accepts, in their order, except
for those that start with a comment.  So it finds all accepted lines if and only
if none of them starts with a comment.
-/
theorem scanSource_nodes
    {grammar : Grammar}
    (unmocked : grammar.mocked = [])
    {source : String}
    {file : FileId}
    {found : List ScannedDirective}
    (scanned : scanSource grammar source file = .ok found) :
    let accepted := (logicalLines source).filterMap (grammar.lineTree? file)
    found.map ScannedDirective.node = accepted.filter (fun node => !node.startsWithComment) ∧
      (found.map ScannedDirective.node = accepted ↔
        ∀ node ∈ accepted, node.startsWithComment = false) ∧
      (∀ entry ∈ found, Directive.ofNode entry.node = .ok entry.directive) ∧
      ∀ line ∈ logicalLines source, ∀ node, grammar.lineTree? file line = some node →
        looksLikeDirective line.text = !node.startsWithComment := by
  intro accepted
  have looks : ∀ line ∈ logicalLines source, ∀ node, grammar.lineTree? file line = some node →
      looksLikeDirective line.text = !node.startsWithComment :=
    fun _ present _ => looksLikeDirective_of_lineTree? unmocked present
  obtain ⟨nodes, meanings⟩ := scanLines_eq_ok looks scanned
  refine ⟨nodes, ?_, meanings, looks⟩
  rw [nodes, List.filter_eq_self]
  simp [accepted]

/-- White space in front of the number sign does not hide a line, a comment behind it neither. -/
theorem scanSource_nodes_comment_behind :
    let source := " #/* c */define A\nint x;\n"
    let accepted := (logicalLines source).filterMap (Grammar.standard.lineTree? 0)
    ∃ found, scanSource .standard source 0 = .ok found ∧ found.length = 1 ∧
      found.map ScannedDirective.node = accepted.filter (fun node => !node.startsWithComment) ∧
      (found.map ScannedDirective.node = accepted ↔
        ∀ node ∈ accepted, node.startsWithComment = false) ∧
      (∀ entry ∈ found, Directive.ofNode entry.node = .ok entry.directive) ∧
      ∀ line ∈ logicalLines source, ∀ node,
        Grammar.standard.lineTree? 0 line = some node →
          looksLikeDirective line.text = !node.startsWithComment := by
  intro source accepted
  have read : (scanSource .standard source 0).toOption.map List.length = some 1 := by
    decide +kernel
  cases scanned : scanSource .standard source 0 with
  | error fault => simp [scanned, Except.toOption] at read
  | ok found =>
      rw [scanned] at read
      exact ⟨found, rfl, Option.some.inj read, scanSource_nodes rfl scanned⟩

/-- A comment in front of the number sign hides a line that the grammar accepts. -/
theorem scanSource_comment_before :
    let source := "/* c */ #define A 1\n"
    let accepted := (logicalLines source).filterMap (Grammar.standard.lineTree? 0)
    scanSource .standard source 0 = .ok [] ∧
      accepted.map (fun node => node.significantTokens.head?.map Token.kind) =
        [some (.punctuator .hash)] := by
  decide +kernel

end PreprocessorSyntax
