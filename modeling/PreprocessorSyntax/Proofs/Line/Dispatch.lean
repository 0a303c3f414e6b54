import PreprocessorSyntax.Proofs.Grammar.Coverage
import PreprocessorSyntax.Proofs.Line.Alternatives
import PreprocessorSyntax.Proofs.Line.Content

/-!
# Which rule reads a directive line

A line that starts with a number sign is always read, and the name behind the
number sign decides by which rule.  For most names the next content token tells
whether their rule takes the line.  The rules for definitions, inclusions and
conditions take it if they match it alone.  All other lines are read by the last
rule, and whatever rule reads a line leaves nothing of it.
-/

namespace PreprocessorSyntax

/--
Whether the rule for a directive name takes the line, given whether it matches
the line alone and the content tokens behind the name.
-/
def Rule.takes (rule : Rule) (alone : Bool) (operands : List Token) : Bool :=
  match rule with
  | .elseLine | .endifLine | .errorLine | .warningLine | .pragmaLine => true
  | .ifdefLine | .undefLine => operands.head?.any Token.isIdentifier
  | .lineLine => !operands.isEmpty
  | _ => alone

/-- The rule that reads a line with the given content tokens behind its number sign. -/
def lineRule (alone : Rule → Bool) (content : List Token) : Rule :=
  ((content.head?.bind Token.lineRule?).filter fun rule =>
    rule.takes (alone rule) content.tail).getD .miscLine

namespace Grammar

variable {grammar : Grammar}

theorem isSome_append
    {first second : Pattern}
    {tokens rest : List Token}
    {trees : List Tree}
    (front : grammar.Reads first tokens trees rest)
    (position : Nat) :
    (grammar.treesAt? (first ++ second) ⟨position, tokens ++ rest⟩).isSome =
      (grammar.treesAt? second ⟨position + tokens.length, rest⟩).isSome := by
  rw [treesAt?_append, front position, Option.bind_some, Option.isSome_map]

/-- The rest of a line can always be taken. -/
theorem isSome_append_restOfLine (first : Pattern) (cursor : Cursor) :
    (grammar.treesAt? (first ++ .restOfLine) cursor).isSome =
      (grammar.treesAt? first cursor).isSome := by
  rw [treesAt?_append]
  cases grammar.treesAt? first cursor with
  | none => rfl
  | some found => rw [Option.bind_some, Option.isSome_map]; rfl

/-- A content token can be read if it is the next one. -/
theorem isSome_token
    {accepts : Token → Bool}
    (content : ∀ token, accepts token = true → token.isContent = true)
    {rest : List Token}
    (significant : Significant rest)
    (oneLine : isOneLine rest = true)
    (position : Nat) :
    (grammar.treesAt? (.token accepts) ⟨position, rest⟩).isSome =
      (contentTokens rest).head?.any accepts := by
  rcases content_or_lineEnd significant oneLine with
    ⟨token, behind, rfl, isContent, contents⟩ | ⟨ends, contents⟩
  · rw [contents, treesAt?_token_cons, if_neg (readable_of_isContent isContent)]
    cases accepted : accepts token <;> simp [accepted]
  · rw [contents, List.head?_nil, Option.any_none]
    have failed : grammar.Fails (.token accepts) rest := by
      apply fails_token
      intro token first
      cases accepted : accepts token with
      | false => rfl
      | true =>
          have isContent := content token accepted
          simp [Token.isContent, ends token first] at isContent
    rw [failed position, Option.isSome_none]

section Operands

variable {hash keyword : Token} {blanks behind : List Token} {names : List String}
variable (isHash : hash.isPunctuator .hash = true)
variable (trivial : ∀ token ∈ blanks, token.isTrivia = true)
variable (isName : keyword.isIdentifier = true) (named : keyword.text ∈ names)
include isHash trivial isName named

/-- A directive with its operands optional takes any line with its name. -/
theorem isSome_free (position : Nat) :
    (grammar.treesAt? (.directiveHead names ++ .restOfLine)
      ⟨position, hash :: (blanks ++ keyword :: behind)⟩).isSome = true := by
  have head : grammar.Reads (.directiveHead names) (hash :: (blanks ++ [keyword]))
      (.leaf hash :: (blanks.map .leaf ++ [.leaf keyword])) behind :=
    reads_directiveHead isHash trivial isName named
  have read := head position
  rw [List.cons_append, List.append_assoc, List.singleton_append] at read
  rw [isSome_append_restOfLine, read]
  rfl

/-- A directive with an operand takes a line if that is the next content token. -/
theorem isSome_operand
    {accepts : Token → Bool}
    (content : ∀ token, accepts token = true → token.isContent = true)
    (oneLine : isOneLine behind = true)
    (position : Nat) :
    (grammar.treesAt? (.directiveHead names ++ .trivia ++ .token accepts ++ .restOfLine)
        ⟨position, hash :: (blanks ++ keyword :: behind)⟩).isSome =
      (contentTokens behind).head?.any accepts := by
  obtain ⟨further, rest, rfl, trivialFurther, significant⟩ := exists_significant behind
  have head : grammar.Reads (.directiveHead names) (hash :: (blanks ++ [keyword]))
      (.leaf hash :: (blanks.map .leaf ++ [.leaf keyword])) (further ++ rest) :=
    reads_directiveHead isHash trivial isName named
  have front := head.append (reads_trivia trivialFurther significant)
  have oneLineRest : isOneLine rest = true :=
    isOneLine_of_append (fun token skipped => readable_of_isTrivia (trivialFurther token skipped))
      oneLine
  have whole : hash :: (blanks ++ keyword :: (further ++ rest)) =
      hash :: (blanks ++ [keyword]) ++ further ++ rest := by simp
  rw [isSome_append_restOfLine, whole, isSome_append front,
    isSome_token content significant oneLineRest, contentTokens_append trivialFurther]

omit named in
/-- The rule for a name matches the line if it takes it. -/
theorem isSome_readRule_line
    (unmocked : grammar.mocked = [])
    {rule : Rule}
    (named : keyword.text ∈ rule.directiveNames)
    (oneLine : isOneLine behind = true)
    {start : Cursor}
    (stands : start.rest = hash :: (blanks ++ keyword :: behind))
    (levels : Nat) :
    (grammar.readRule (levels + 1) rule start .empty).1.isSome =
      rule.takes (grammar.readRule (levels + 1) rule start .empty).1.isSome
        (contentTokens behind) := by
  obtain ⟨position, here⟩ := start
  cases stands
  generalize here : Cursor.mk position _ = start
  have quiet (callsNone : rule.pattern.calls = []) :
      (grammar.readRule (levels + 1) rule start .empty).1.isSome =
        (grammar.treesAt? rule.pattern start).isSome := by
    rw [← pattern_eq unmocked] at callsNone ⊢
    rw [readRule_of_calls_eq_nil callsNone (Failures.contains_empty _ _), Option.isSome_map]
  have free (names : List String) (named : keyword.text ∈ names) :
      (grammar.treesAt? (.directiveHead names ++ .restOfLine) start).isSome = true :=
    here ▸ isSome_free isHash trivial isName named position
  have name (names : List String) (named : keyword.text ∈ names) :
      (grammar.treesAt? (.nameLine names) start).isSome =
        (contentTokens behind).head?.any Token.isIdentifier := by
    rw [← here]
    exact isSome_operand isHash trivial isName named
      (fun _ => Token.isContent_of_isIdentifier) oneLine position
  have line (named : keyword.text ∈ ["line"]) :
      (grammar.treesAt? .lineLine start).isSome = !(contentTokens behind).isEmpty := by
    rw [← here, Pattern.lineLine,
      isSome_operand isHash trivial isName named (fun _ content => content) oneLine position]
    cases contents : contentTokens behind with
    | nil => rfl
    | cons token others =>
        have present : token ∈ contentTokens behind := by simp [contents]
        simpa using (List.mem_filter.1 present).2
  cases rule <;> try rfl
  case ifdefLine => exact (quiet rfl).trans (name _ named)
  case undefLine => exact (quiet rfl).trans (name _ named)
  case lineLine => exact (quiet rfl).trans (line named)
  all_goals exact (quiet rfl).trans (free _ named)

end Operands

/-- A rule for lines that matches one line leaves nothing of it. -/
theorem exists_closing?_line
    (unmocked : grammar.mocked = [])
    {rule : Rule}
    (listed : rule ∈ lineRules)
    {tokens : List Token}
    (oneLine : isOneLine tokens = true)
    {levels : Nat}
    {node : Node}
    {after : Cursor}
    (read : (grammar.readRule levels rule (Cursor.ofTokens tokens).trivia.2 .empty).1 =
      some (node, after)) :
    ∃ trailing, closing? after = some trailing := by
  have derived := derives_of_readRule levels (Prod.ext read rfl)
  have advances := (Cursor.ofTokens tokens).advances_trivia.append derived.advances
  have ends : after.atLineEnd = true := by
    apply endsLine_line unmocked listed levels (Cursor.ofTokens tokens).trivia.2 .empty
    rw [Pattern.read_rule, read]
    rfl
  have oneLineAfter : isOneLine after.rest = true := by
    have stands : tokens = _ ++ after.rest := advances.rest
    rw [stands] at oneLine
    exact isOneLine_of_append advances.readable oneLine
  exact Option.isSome_iff_exists.1 (isSome_closing? ends oneLineAfter)

/-- On one line, a rule for lines matches whatever it can read. -/
theorem isSome_parseTokens_line
    (unmocked : grammar.mocked = [])
    {rule : Rule}
    (listed : rule ∈ lineRules)
    {tokens : List Token}
    (oneLine : isOneLine tokens = true)
    (depth : Nat) :
    (parseTokens { grammar with maxDepth := depth } rule tokens).isSome =
      (grammar.readRule depth rule (Cursor.ofTokens tokens).trivia.2 .empty).1.isSome := by
  unfold parseTokens
  rw [readRule_withDepth]
  cases read : (grammar.readRule depth rule (Cursor.ofTokens tokens).trivia.2 .empty).1 with
  | none =>
      unfold rootOf?
      simp only [read, Option.isSome_none]
  | some found =>
      obtain ⟨trailing, closed⟩ := exists_closing?_line unmocked listed oneLine read
      rw [rootOf?_eq_some read closed]
      rfl

/-- The last alternative reads any line that starts with a number sign. -/
theorem isSome_miscLine
    (unmocked : grammar.mocked = [])
    {hash : Token}
    (isHash : hash.isPunctuator .hash = true)
    {start : Cursor}
    {rest : List Token}
    (stands : start.rest = hash :: rest)
    (levels : Nat) :
    (grammar.readRule (levels + 1) .miscLine start .empty).1.isSome = true := by
  have callsNone : (grammar.pattern .miscLine).calls = [] := by
    rw [pattern_eq unmocked]
    rfl
  obtain ⟨position, here⟩ := start
  cases stands
  have head : grammar.treesAt? (.trivia ++ .symbol .hash) ⟨position, hash :: rest⟩ = _ :=
    reads_hash isHash position
  rw [readRule_of_calls_eq_nil callsNone (Failures.contains_empty _ _), Option.isSome_map,
    pattern_eq unmocked, Rule.pattern, Pattern.miscLine, isSome_append_restOfLine, head]
  rfl

theorem collapses_line {rule : Rule} (listed : rule ∈ lineRules) : rule.collapses = false := by
  have all : ∀ rule ∈ lineRules, rule.collapses = false := by decide
  exact all rule listed

/-- Some rule reads the line, and which one the content behind the number sign tells. -/
theorem exists_line
    (unmocked : grammar.mocked = [])
    {hash : Token}
    (isHash : hash.isPunctuator .hash = true)
    {blanks rest : List Token}
    (trivial : ∀ token ∈ blanks, token.isTrivia = true)
    (significant : Significant rest)
    (oneLine : isOneLine rest = true)
    {start : Cursor}
    (stands : start.rest = hash :: (blanks ++ rest))
    (levels : Nat) :
    ∃ rule child after,
      rule ∈ lineRules ∧
      rule = lineRule (fun rule => (grammar.readRule (levels + 1) rule start .empty).1.isSome)
        (contentTokens rest) ∧
      (grammar.readRule (levels + 1) rule start .empty).1 = some (child, after) ∧
      (Pattern.preprocessorLine.read (grammar.readRule (levels + 1)) start .empty).1 =
        some ([child.toTree], after) := by
  have read := read_preprocessorLine unmocked stands isHash trivial significant levels
  obtain ⟨⟨misc, miscAfter⟩, readMisc⟩ :=
    Option.isSome_iff_exists.1 (isSome_miscLine unmocked isHash stands levels)
  rw [readMisc] at read
  have last : .miscLine ∈ lineRules := by decide
  rcases content_or_lineEnd significant oneLine with
    ⟨keyword, behind, rfl, isContent, contents⟩ | ⟨ends, contents⟩
  · rw [contents, lineRule, List.head?_cons, List.tail_cons, Option.bind_some]
    rw [List.head?_cons, Option.bind_some] at read
    cases means : keyword.lineRule? with
    | none =>
        rw [means] at read
        exact ⟨.miscLine, misc, miscAfter, last, rfl, readMisc, read⟩
    | some meant =>
        obtain ⟨isName, listed, named⟩ := Token.lineRule?_eq_some means
        have oneLineBehind : isOneLine behind = true := by
          refine isOneLine_of_append (List.forall_mem_singleton.2 ?_) oneLine
          exact readable_of_isContent isContent
        have takes := isSome_readRule_line isHash trivial isName unmocked named oneLineBehind stands
          levels
        rw [means, Option.bind_some] at read
        cases readMeant : (grammar.readRule (levels + 1) meant start .empty).1 with
        | none =>
            rw [readMeant] at read takes
            refine ⟨.miscLine, misc, miscAfter, last, ?_, readMisc, read⟩
            rw [Option.filter_some, readMeant, ← takes]
            rfl
        | some found =>
            obtain ⟨child, after⟩ := found
            rw [readMeant] at read takes
            refine ⟨meant, child, after, listed, ?_, readMeant, read⟩
            rw [Option.filter_some, readMeant, ← takes]
            rfl
  · have unnamed : rest.head?.bind Token.lineRule? = none := by
      rw [Option.bind_eq_none_iff]
      exact fun token first => Token.lineRule?_eq_none (ends token first)
    rw [unnamed] at read
    refine ⟨.miscLine, misc, miscAfter, last, ?_, readMisc, read⟩
    rw [contents]
    rfl

theorem lineRule_congr
    {alone other : Rule → Bool}
    (same : ∀ rule ∈ lineRules, alone rule = other rule)
    (content : List Token) :
    lineRule alone content = lineRule other content := by
  unfold lineRule
  cases head : content.head?.bind Token.lineRule? with
  | none => rfl
  | some meant =>
      obtain ⟨keyword, _, means⟩ := Option.bind_eq_some_iff.1 head
      rw [Option.filter_some, Option.filter_some, same meant (Token.lineRule?_eq_some means).2.1]

/-- Imports and modules have no number sign. -/
theorem lineRule_ne (alone : Rule → Bool) (content : List Token) :
    lineRule alone content ≠ .ppImport ∧ lineRule alone content ≠ .ppModule := by
  unfold lineRule
  cases head : content.head?.bind Token.lineRule? with
  | none => simp
  | some meant =>
      obtain ⟨keyword, _, means⟩ := Option.bind_eq_some_iff.1 head
      have named := (Token.lineRule?_eq_some means).2.2
      rw [Option.filter_some]
      split
      next =>
        constructor
        · rintro rfl
          cases named
        · rintro rfl
          cases named
      next => simp

/--
A line that starts with a number sign is always read, and by one rule: the one
that belongs to the name behind the number sign if that takes the line, or else
the one for all other lines.  The rules for definitions, inclusions and
conditions take the line if they match it alone with one level less.
-/
theorem exists_parseTokens_preprocessorLine
    {grammar : Grammar}
    (unmocked : grammar.mocked = [])
    (deep : 2 ≤ grammar.maxDepth)
    {tokens behind : List Token}
    {hash : Token}
    (oneLine : isOneLine tokens = true)
    (contents : contentTokens tokens = hash :: behind)
    (isHash : hash.isPunctuator .hash = true) :
    ∃ root child,
      grammar.parseTokens .preprocessorLine tokens = some root ∧
      root.childNodes = [child] ∧
      child.rule = lineRule (fun rule =>
        (parseTokens { grammar with maxDepth := grammar.maxDepth - 1 } rule tokens).isSome) behind ∧
      child.rule ≠ .ppImport ∧ child.rule ≠ .ppModule := by
  obtain ⟨levels, depth⟩ : ∃ levels, grammar.maxDepth = levels + 2 :=
    ⟨grammar.maxDepth - 2, by omega⟩
  have leading := (Cursor.ofTokens tokens).advances_trivia
  have started : tokens = _ ++ _ := leading.rest
  have oneLineStart : isOneLine (Cursor.ofTokens tokens).trivia.2.rest = true := by
    rw [started] at oneLine
    exact isOneLine_of_append leading.readable oneLine
  have significantStart : Significant (Cursor.ofTokens tokens).trivia.2.rest :=
    significant_dropWhile tokens
  rw [started, contentTokens_append fun _ => Cursor.isTrivia_of_mem_trivia] at contents
  obtain ⟨blanks, rest, stands, trivial, significant, oneLineRest, rfl⟩ :=
    exists_rest_of_contentTokens significantStart oneLineStart contents
  obtain ⟨rule, child, after, listed, chosen, readChild, readLine⟩ :=
    exists_line unmocked isHash trivial significant oneLineRest stands levels
  obtain ⟨trailing, closed⟩ := exists_closing?_line unmocked listed oneLine readChild
  have readRoot : (grammar.readRule grammar.maxDepth .preprocessorLine
      (Cursor.ofTokens tokens).trivia.2 .empty).1 =
        some (⟨.preprocessorLine, [child.toTree]⟩, after) := by
    rw [depth, readRule_succ (Failures.contains_empty _ _), pattern_eq unmocked, Rule.pattern,
      readLine, Option.map_some, build_eq rfl]
  have alone : rule = lineRule (fun rule =>
      (parseTokens { grammar with maxDepth := grammar.maxDepth - 1 } rule tokens).isSome)
        (contentTokens rest) := by
    rw [chosen]
    apply lineRule_congr
    intro rule listed
    rw [isSome_parseTokens_line unmocked listed oneLine, depth]
    rfl
  have sameRule : child.rule = rule := rule_of_readRule (collapses_line listed) readChild
  refine ⟨_, child, rootOf?_eq_some readRoot closed, ?_, ?_⟩
  · rw [if_pos rfl, Node.childNodes, filterMap_node?_between]
    rfl
  · rw [sameRule, alone]
    exact ⟨rfl, lineRule_ne _ _⟩

/-- Without levels for its expression, a condition is a line like any other. -/
theorem exists_parseTokens_preprocessorLine_if :
    let tokens : List Token :=
      [⟨.comment .block, "/**/", .unknown⟩, ⟨.punctuator .hash, "#", .unknown⟩,
       ⟨.whitespace, " ", .unknown⟩, ⟨.identifier, "if", .unknown⟩,
       ⟨.whitespace, " ", .unknown⟩, ⟨.identifier, "A", .unknown⟩, ⟨.newline, "\n", .unknown⟩,
       ⟨.comment .line, "//", .unknown⟩, ⟨.endOfInput, "", .unknown⟩]
    isOneLine tokens = true ∧
      (∃ root child, Grammar.standard.parseTokens .preprocessorLine tokens = some root ∧
        root.childNodes = [child] ∧ child.rule = .ifLine) ∧
      ∃ root child, parseTokens ⟨2, []⟩ .preprocessorLine tokens = some root ∧
        root.childNodes = [child] ∧ child.rule = .miscLine := by
  intro tokens
  have oneLine : isOneLine tokens = true := by decide
  have contents : contentTokens tokens =
      [⟨.punctuator .hash, "#", .unknown⟩, ⟨.identifier, "if", .unknown⟩,
       ⟨.identifier, "A", .unknown⟩] := by decide
  obtain ⟨root, child, parsed, children, rule, -⟩ :=
    exists_parseTokens_preprocessorLine (show standard.mocked = [] from rfl) (by decide) oneLine
      contents rfl
  obtain ⟨shallowRoot, shallowChild, parsedShallow, childrenShallow, ruleShallow, -⟩ :=
    exists_parseTokens_preprocessorLine (show (Grammar.mk 2 []).mocked = [] from rfl) (by decide)
      oneLine contents rfl
  refine ⟨oneLine, ⟨root, child, parsed, children, rule.trans ?_⟩,
    shallowRoot, shallowChild, parsedShallow, childrenShallow, ruleShallow.trans ?_⟩
  · decide +kernel
  · decide +kernel

end Grammar
end PreprocessorSyntax
