import PreprocessorSyntax.Proofs.Depth.Constructs
import PreprocessorSyntax.Proofs.Line.Dispatch

/-!
# Lines with few levels and with many

A line that starts with a number sign may be read by another rule if more levels
are left, so its trees need not be alike.  It is still read.  No rule reads past
the end of a line, so what is matched with few levels is a single line, and for
these two levels are enough.

Imports and modules are the other lines.  They are told apart by their tokens, and
their rules read alike with few levels and with many.
-/

namespace PreprocessorSyntax

/-- Whether a pattern has a place for a token, other than in the rules that it calls. -/
def Pattern.takes (token : Token) : Pattern → Bool
  | .token accepts => accepts token
  | .rule _ => false
  | .ahead _ => false
  | .absent _ => false
  | .empty => false
  | .sequence first second => first.takes token || second.takes token
  | .choice preferred alternative => preferred.takes token || alternative.takes token
  | .many item => item.takes token

/-- No rule has a place for a line feed. -/
theorem Rule.takes_pattern_of_feed
    (rule : Rule)
    {feed : Token}
    (isFeed : feed.kind = .newline) :
    rule.pattern.takes feed = false := by
  obtain ⟨kind, text, location⟩ := feed
  cases isFeed
  cases rule <;> rfl

namespace Pattern

/-- The rules for lines that are tried behind those for imports and modules. -/
def hashLines : Pattern :=
  firstOf .ifLine (lineRules.drop 5)

theorem preprocessorLine_eq :
    preprocessorLine =
      (.rule .defineLine <|> .rule .includeLine <|> .rule .ppImport <|> .rule .ppModule <|>
        hashLines) := rfl

end Pattern

namespace Grammar

variable {grammar : Grammar} {few many levels : Nat} {cursor after : Cursor} {trees : List Tree}

section Unmocked

variable (unmocked : grammar.mocked = [])
include unmocked

/-- So no line feed is among the tokens that a pattern of the grammar reads. -/
theorem Derives.kind_ne_newline
    {pattern : Pattern}
    (derived : grammar.Derives pattern cursor trees after)
    (refuses : ∀ feed : Token, feed.kind = .newline → pattern.takes feed = false) :
    ∀ token ∈ Tree.tokensOf trees, token.kind ≠ .newline := by
  induction derived with
  | @token accepts _ _ found _ accepted =>
      intro token present isFeed
      obtain rfl : token = found := by simpa using present
      exact absurd accepted (Bool.eq_false_iff.1 (refuses token isFeed))
  | rule _ bodyHypothesis =>
      rw [pattern_eq unmocked] at bodyHypothesis
      simpa using bodyHypothesis fun _ => Rule.takes_pattern_of_feed _
  | ahead _ => simp
  | absent _ _ => simp
  | empty _ => simp
  | sequence _ _ frontHypothesis backHypothesis =>
      have both (feed : Token) (isFeed : feed.kind = .newline) :=
        Bool.or_eq_false_iff.1 (refuses feed isFeed)
      intro token present
      rw [Tree.tokensOf_append] at present
      exact (List.mem_append.1 present).elim
        (frontHypothesis (fun feed isFeed => (both feed isFeed).1) token)
        (backHypothesis (fun feed isFeed => (both feed isFeed).2) token)
  | preferred _ chosenHypothesis =>
      exact chosenHypothesis fun feed isFeed => (Bool.or_eq_false_iff.1 (refuses feed isFeed)).1
  | alternative _ chosenHypothesis =>
      exact chosenHypothesis fun feed isFeed => (Bool.or_eq_false_iff.1 (refuses feed isFeed)).2
  | stop _ _ => simp
  | further _ _ frontHypothesis backHypothesis =>
      intro token present
      rw [Tree.tokensOf_append] at present
      exact (List.mem_append.1 present).elim (frontHypothesis refuses token)
        (backHypothesis refuses token)

/-- What a rule reads up to the end of the input is a single line. -/
theorem isOneLine_of_read
    {rule : Rule}
    {failures later : Failures}
    {node : Node}
    {trailing : List Token}
    (read : grammar.readRule levels rule cursor failures = (some (node, after), later))
    (closed : closing? after = some trailing) :
    isOneLine cursor.rest = true := by
  have derived := derives_of_readRule levels read
  rw [derived.advances.rest, isOneLine_append derived.advances.readable
    (derived.kind_ne_newline unmocked fun _ _ => rfl)]
  exact isOneLine_of_closing? closed

/-- With two levels, one of the rules for lines reads a line with a number sign, and all of it. -/
theorem exists_of_hash
    {hash : Token}
    {tokens rest : List Token}
    (isHash : hash.isPunctuator .hash = true)
    (stands : (Cursor.ofTokens tokens).trivia.2.rest = hash :: rest)
    (oneLine : isOneLine (Cursor.ofTokens tokens).trivia.2.rest = true)
    (levels : Nat) :
    ∃ node after trailing,
      (grammar.readRule (levels + 2) .preprocessorLine (Cursor.ofTokens tokens).trivia.2 .empty).1 =
        some (node, after) ∧
      closing? after = some trailing := by
  obtain ⟨blanks, behind, rfl, trivial, significant⟩ := exists_significant rest
  have oneLineBehind : isOneLine behind = true := by
    rw [stands] at oneLine
    have readable : ∀ token ∈ hash :: blanks, token.kind ≠ .endOfInput :=
      List.forall_mem_cons.2 ⟨readable_of_isContent (Token.isContent_of_isPunctuator isHash),
        fun token skipped => readable_of_isTrivia (trivial token skipped)⟩
    exact isOneLine_of_append readable oneLine
  obtain ⟨rule, child, after, listed, _, readChild, readLine⟩ :=
    exists_line unmocked isHash trivial significant oneLineBehind stands levels
  rw [← isOneLine_trivia] at oneLine
  obtain ⟨trailing, closed⟩ := exists_closing?_line unmocked listed oneLine readChild
  refine ⟨⟨.preprocessorLine, [child.toTree]⟩, after, trailing, ?_, closed⟩
  rw [readRule_succ (Failures.contains_empty _ _), pattern_eq unmocked, Rule.pattern, readLine,
    Option.map_some, build_eq rfl]

/-- A line that begins as an import does declares no module, whatever is remembered. -/
theorem declines_ppModule_of_import
    (significant : Significant cursor.rest)
    (begun : grammar.treesAt? (.trivia ++ .exported ++ .word ["import"]) cursor =
      some (trees, after))
    (levels : Nat) :
    grammar.Declines levels (.rule .ppModule) cursor := by
  have blank : grammar.treesAt? .trivia cursor = some ([], cursor) :=
    reads_trivia_nil significant cursor.position
  obtain ⟨_, middle, _, front, word, _⟩ := exists_of_treesAt?_append begun
  obtain ⟨_, _, _, skipped, exported, _⟩ := exists_of_treesAt?_append front
  rw [blank] at skipped
  cases skipped
  obtain ⟨token, found, isImport, _⟩ := exists_of_treesAt?_token word
  have behindExport : grammar.Fails (.word ["module"]) middle.rest := by
    refine fails_token fun other first => ?_
    rw [(Cursor.advances_of_bump? found).rest] at first
    cases first
    simp_all
  have atOnce : grammar.Fails (.word ["module"]) cursor.rest := by
    rw [Pattern.exported, Pattern.optional, ← Pattern.orElse_eq, treesAt?_orElse,
      Option.or_eq_some_iff] at exported
    rcases exported with exported | ⟨_, nothing⟩
    · obtain ⟨_, _, _, exported, _⟩ := exists_of_treesAt?_append exported
      obtain ⟨first, foundFirst, isExport, _⟩ := exists_of_treesAt?_token exported
      refine fails_token fun other here => ?_
      rw [(Cursor.advances_of_bump? foundFirst).rest] at here
      cases here
      simp_all
    · cases nothing
      exact behindExport
  have named : grammar.treesAt? (.exported ++ .word ["module"]) cursor = none := by
    have failed : grammar.treesAt? (.word ["module"]) middle = none :=
      behindExport middle.position
    rw [treesAt?_append, exported, Option.bind_some, failed, Option.map_none]
  have fragment {levels : Nat} : grammar.Declines levels (.word ["module"]) cursor :=
    declines_of_calls_eq_nil rfl (atOnce cursor.position)
  refine declines_rule (fun levels => ?_) levels
  rw [pattern_eq unmocked]
  refine (Declines.behind rfl blank (Declines.orElse ?_ (Declines.orElse ?_ ?_))).append
  · exact fragment.append.append
  · exact fragment.append.append.append.append.append.append
  · exact (declines_of_calls_eq_nil rfl named).append.append.append.append.append

theorem begins_hashLines : grammar.Begins (Token.isPunctuator .hash) .hashLines := by
  have all : ∀ rule ∈ Rule.ifLine :: lineRules.drop 5,
      rule ∈ lineRules ∧ rule ≠ .ppImport ∧ rule ≠ .ppModule := by decide
  refine begins_firstOf fun rule listed => ?_
  obtain ⟨isLine, notImport, notModule⟩ := all rule listed
  exact begins_line unmocked isLine notImport notModule

section Words

variable (noHash : ∀ token ∈ cursor.next?, token.isPunctuator .hash = false)
include noHash

/-- Where no number sign comes next, nothing is defined. -/
theorem barren_defineLine (levels : Nat) : grammar.Barren levels (.rule .defineLine) cursor := by
  have head {levels : Nat} : grammar.Barren levels .definitionHead cursor :=
    (barren_trivia_token noHash).append.append.append.append
  refine barren_called unmocked (by simp) (fun levels => Barren.orElse ?_ ?_) levels
  · refine barren_called unmocked (by simp) (fun levels => ?_) levels
    exact head.append.append.append.append.append.append.append.append
  · refine barren_called unmocked (by simp) (fun levels => ?_) levels
    exact head.append.append.append.append

theorem barren_includeLine (levels : Nat) : grammar.Barren levels (.rule .includeLine) cursor :=
  barren_called unmocked (by simp)
    (fun _ => (barren_trivia_token noHash).append.append.append.append.append) levels

/-- Lines without a number sign are read alike with few levels and with many. -/
theorem exists_of_word
    {failures others later : Failures}
    (significant : Significant cursor.rest)
    (le : few ≤ many)
    (harmless : grammar.Harmless cursor failures)
    (harmlessToo : grammar.Harmless cursor others)
    (read : Pattern.preprocessorLine.read (grammar.readRule few) cursor failures =
      (some (trees, after), later)) :
    ∃ more last, Pattern.preprocessorLine.read (grammar.readRule many) cursor others =
      (some (more, after), last) := by
  have refused {between later : Failures} {trees : List Tree} {after : Cursor}
      (read : Pattern.hashLines.read (grammar.readRule few) cursor between =
        (some (trees, after), later)) : False := by
    obtain ⟨token, next, isHash⟩ := (begins_hashLines unmocked).exists_next?
      (derives_of_read (derives_of_readRule few) _ read)
    rw [noHash token next] at isHash
    cases isHash
  rw [Pattern.preprocessorLine_eq] at read ⊢
  obtain ⟨_, _, harmless, harmlessToo, read, same⟩ := exists_of_barren_orElse le harmless
    harmlessToo (fun many _ => barren_defineLine unmocked noHash many) read
  obtain ⟨_, _, harmless, harmlessToo, read, sameToo⟩ := exists_of_barren_orElse le harmless
    harmlessToo (fun many _ => barren_includeLine unmocked noHash many) read
  rw [same, sameToo]
  have carriesImport : grammar.Carries few Alike Anywhere (.rule .ppImport) :=
    carries_ppImport unmocked
  have carriesModule : grammar.Carries few Alike Anywhere (.rule .ppModule) :=
    carries_ppModule unmocked
  cases begun : grammar.treesAt? (.trivia ++ .exported ++ .word ["import"]) cursor with
  | some found =>
      obtain ⟨more, last, readMany, _⟩ := carriesImport.orElse_left le harmless harmlessToo
        (fun {between} _ rest => by
          obtain ⟨_, failed, _⟩ :=
            declines_ppModule_of_import unmocked significant begun few between
          rw [read_orElse_of_none failed] at rest
          exact refused rest) read trivial
      exact ⟨more, last, readMany⟩
  | none =>
      have noImport (levels : Nat) : grammar.Barren levels (.rule .ppImport) cursor := by
        refine barren_called unmocked (by simp) (fun levels => ?_) levels
        exact (barren_of_calls_eq_nil rfl begun).append.append.append
      obtain ⟨_, _, harmless, harmlessToo, read, same⟩ := exists_of_barren_orElse le harmless
        harmlessToo (fun many _ => noImport many) read
      rw [same]
      obtain ⟨more, last, readMany, _⟩ := carriesModule.orElse_left le harmless harmlessToo
        (fun _ rest => refused rest) read trivial
      exact ⟨more, last, readMany⟩

end Words

end Unmocked
end Grammar
end PreprocessorSyntax
