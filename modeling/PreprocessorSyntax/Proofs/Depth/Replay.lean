import PreprocessorSyntax.Proofs.Grammar.Simulation

/-!
# Reading arguments once more

Reading the same place again, with all that was learned the first time, gives
the same result.  This is not true of every grammar: it takes that whatever
fails on the way to a match has left a note, so that it fails again.  The rules
for the arguments of macro calls are of this kind.

The rank of rules shows that an attempt that succeeds has left no note about
itself: at its own place only rules of lower rank have been tried meanwhile.
-/

namespace PreprocessorSyntax
namespace Pattern

/-- Whether a pattern matches everywhere, if only the empty run of tokens. -/
def total : Pattern → Bool
  | .token _ => false
  | .rule _ => false
  | .ahead _ => false
  | .absent _ => false
  | .empty => true
  | .sequence first second => first.total && second.total
  | .choice _ alternative => alternative.total
  | .many _ => true

/-- Whether every failure of a pattern is due to tokens or to rules that have failed. -/
def stable : Pattern → Bool
  | .token _ => true
  | .rule _ => true
  | .ahead _ => true
  | .absent _ => false
  | .empty => true
  | .sequence first second =>
    first.calls.isEmpty && second.stable || first.stable && second.total
  | .choice preferred alternative => preferred.stable && alternative.stable
  | .many _ => true

/-- Whether all failures that are passed over on the way to a match are stable. -/
def replays : Pattern → Bool
  | .token _ => true
  | .rule _ => true
  | .ahead _ => true
  | .absent _ => false
  | .empty => true
  | .sequence first second => first.replays && second.replays
  | .choice preferred alternative =>
    preferred.stable && preferred.replays && alternative.replays
  | .many item => item.stable && item.replays

end Pattern

/-- The rules for the arguments of macro calls. -/
def Rule.arguments : List Rule :=
  [.argumentList, .argument, .somethingContainingParentheses, .somethingWithoutParentheses]

namespace Rule

theorem replays_pattern : ∀ rule ∈ arguments, rule.pattern.replays = true := by decide

theorem calls_arguments :
    ∀ rule ∈ arguments, ∀ called ∈ rule.pattern.calls, called ∈ arguments := by
  decide

end Rule

/-- A memory holds all that another one does, and nothing more about places before a position. -/
structure Failures.Extends (others failures : Failures) (position : Nat) : Prop where
  /-- Nothing is forgotten. -/
  keeps : ∀ rule place, failures.contains rule place = true → others.contains rule place = true
  /-- Nothing is added in front of the position. -/
  adds : ∀ rule place, place < position → others.contains rule place = failures.contains rule place

namespace Failures.Extends

variable {failures others between : Failures} {position earlier : Nat}

theorem refl (failures : Failures) (position : Nat) : failures.Extends failures position :=
  ⟨fun _ _ remembered => remembered, fun _ _ _ => rfl⟩

theorem trans
    (first : others.Extends between position)
    (second : between.Extends failures earlier)
    (le : earlier ≤ position) :
    others.Extends failures earlier where
  keeps rule place remembered := first.keeps rule place (second.keeps rule place remembered)
  adds rule place before :=
    (first.adds rule place (Nat.lt_of_lt_of_le before le)).trans (second.adds rule place before)

end Failures.Extends

namespace Grammar

variable {grammar : Grammar} {levels : Nat} {rule : Rule}
variable {pattern first second preferred alternative item : Pattern}
variable {cursor middle after : Cursor} {failures later others : Failures} {trees : List Tree}

section Reading

variable {State : Type} {readRule : Rule → Pattern.Reader State Node} {state between last : State}

theorem read_append_of_none
    (front : first.read readRule cursor state = (none, last)) :
    (first ++ second).read readRule cursor state = (none, last) := by
  rw [Pattern.append_eq]
  simp only [Pattern.read, front]

theorem read_append_of_some
    (front : first.read readRule cursor state = (some (trees, middle), between)) :
    (first ++ second).read readRule cursor state =
      ((second.read readRule middle between).1.map fun back => (trees ++ back.1, back.2),
        (second.read readRule middle between).2) := by
  rw [Pattern.append_eq]
  simp only [Pattern.read, front]
  split
  next read => rw [read]; rfl
  next read => rw [read]; rfl

theorem read_eq_none_of_append
    (front : first.read readRule cursor state = (some (trees, middle), between))
    (failed : (first ++ second).read readRule cursor state = (none, last)) :
    second.read readRule middle between = (none, last) := by
  rw [read_append_of_some front] at failed
  rcases back : second.read readRule middle between with ⟨_ | found, later⟩
  · rw [back] at failed
    cases failed
    rfl
  · rw [back] at failed
    cases failed

/-- A sequence is read by reading its parts one after the other. -/
theorem exists_of_read_append
    (read : (first ++ second).read readRule cursor state = (some (trees, after), last)) :
    ∃ front middle between back,
      first.read readRule cursor state = (some (front, middle), between) ∧
      second.read readRule middle between = (some (back, after), last) ∧
      trees = front ++ back := by
  rcases front : first.read readRule cursor state with ⟨_ | ⟨frontTrees, middle⟩, between⟩
  · rw [read_append_of_none front] at read
    cases read
  · rw [read_append_of_some front] at read
    rcases back : second.read readRule middle between with ⟨_ | ⟨backTrees, behind⟩, last⟩
    · rw [back] at read
      cases read
    · rw [back] at read
      cases read
      exact ⟨_, _, _, _, rfl, back, rfl⟩

/-- It does not matter how a sequence of three is put together. -/
theorem read_append_assoc
    (first second third : Pattern)
    (readRule : Rule → Pattern.Reader State Node)
    (cursor : Cursor)
    (state : State) :
    (first ++ second ++ third).read readRule cursor state =
      (first ++ (second ++ third)).read readRule cursor state := by
  rcases front : first.read readRule cursor state with ⟨_ | ⟨_, middle⟩, between⟩
  · rw [read_append_of_none front, read_append_of_none (read_append_of_none front)]
  · rcases back : second.read readRule middle between with ⟨_ | ⟨_, behind⟩, last⟩
    · have failed : (first ++ second).read readRule cursor state = _ := read_append_of_some front
      rw [back] at failed
      rw [read_append_of_none failed, read_append_of_some front, read_append_of_none back]
      rfl
    · have both : (first ++ second).read readRule cursor state = _ := read_append_of_some front
      rw [back] at both
      rw [read_append_of_some both, read_append_of_some front, read_append_of_some back]
      simp [Option.map_map, Function.comp_def]

theorem read_orElse_of_none
    (failed : preferred.read readRule cursor state = (none, between)) :
    (preferred <|> alternative).read readRule cursor state =
      alternative.read readRule cursor between := by
  rw [Pattern.orElse_eq]
  simp only [Pattern.read, failed]

theorem read_orElse_of_some
    {found : List Tree × Cursor}
    (chosen : preferred.read readRule cursor state = (some found, last)) :
    (preferred <|> alternative).read readRule cursor state = (some found, last) := by
  rw [Pattern.orElse_eq]
  simp only [Pattern.read, chosen]

theorem read_optional_of_none (failed : item.read readRule cursor state = (none, last)) :
    (Pattern.optional item).read readRule cursor state = (some ([], cursor), last) :=
  read_orElse_of_none failed

theorem exists_of_read_rule
    {called : Rule}
    (read : (Pattern.rule called).read readRule cursor state = (some (trees, after), last)) :
    ∃ node, readRule called cursor state = (some (node, after), last) ∧ trees = [node.toTree] := by
  rw [Pattern.read_rule] at read
  rcases found : readRule called cursor state with ⟨_ | ⟨node, behind⟩, later⟩
  · rw [found] at read
    cases read
  · rw [found] at read
    cases read
    exact ⟨node, rfl, rfl⟩

theorem readRule_eq_none_of_read
    {called : Rule}
    (read : (Pattern.rule called).read readRule cursor state = (none, last)) :
    readRule called cursor state = (none, last) := by
  rw [Pattern.read_rule] at read
  rcases found : readRule called cursor state with ⟨_ | ⟨node, behind⟩, later⟩
  · rw [found] at read
    cases read
    rfl
  · rw [found] at read
    cases read

theorem read_rule_of_some
    {called : Rule}
    {node : Node}
    (read : readRule called cursor state = (some (node, after), last)) :
    (Pattern.rule called).read readRule cursor state = (some ([node.toTree], after), last) := by
  rw [Pattern.read_rule, read]
  rfl

theorem read_rule_of_none
    {called : Rule}
    (failed : readRule called cursor state = (none, last)) :
    (Pattern.rule called).read readRule cursor state = (none, last) := by
  rw [Pattern.read_rule, failed]
  rfl

theorem read_trivia
    (readRule : Rule → Pattern.Reader State Node)
    (cursor : Cursor)
    (state : State) :
    Pattern.trivia.read readRule cursor state =
      (some (cursor.trivia.1.map .leaf, cursor.trivia.2), state) := by
  rw [read_of_calls_eq_nil .standard rfl]
  exact congrArg (·, state) (treesAt?_trivia_eq cursor)

end Reading

theorem readRule_of_contains
    (remembered : failures.contains rule cursor.position = true) :
    grammar.readRule levels rule cursor failures = (none, failures) := by
  unfold readRule
  rw [if_pos remembered]

theorem readRule_of_some
    {children : List Tree}
    (unknown : failures.contains rule cursor.position = false)
    (body : (grammar.pattern rule).read (grammar.readRule levels) cursor failures =
      (some (children, after), later)) :
    grammar.readRule (levels + 1) rule cursor failures =
      (some (rule.build children, after), later) := by
  unfold readRule
  simp [unknown, body]

theorem readRule_of_none
    (unknown : failures.contains rule cursor.position = false)
    (body : (grammar.pattern rule).read (grammar.readRule levels) cursor failures =
      (none, later)) :
    grammar.readRule (levels + 1) rule cursor failures =
      (none, later.insert rule cursor.position) := by
  unfold readRule
  simp [unknown, body]

theorem readRule_zero (unknown : failures.contains rule cursor.position = false) :
    grammar.readRule 0 rule cursor failures = (none, failures.insert rule cursor.position) := by
  unfold readRule
  simp [unknown]

/-- A rule that matches is not known to fail, has a level left, and its pattern matches. -/
theorem exists_of_readRule
    {node : Node}
    (read : grammar.readRule levels rule cursor failures = (some (node, after), later)) :
    ∃ below children, levels = below + 1 ∧ failures.contains rule cursor.position = false ∧
      (grammar.pattern rule).read (grammar.readRule below) cursor failures =
        (some (children, after), later) ∧
      node = rule.build children := by
  cases known : failures.contains rule cursor.position with
  | true =>
      rw [readRule_of_contains known] at read
      cases read
  | false =>
      cases levels with
      | zero =>
          rw [readRule_zero known] at read
          cases read
      | succ below =>
          rcases body : (grammar.pattern rule).read (grammar.readRule below) cursor failures with
            ⟨_ | ⟨children, behind⟩, between⟩
          · rw [readRule_of_none known body] at read
            cases read
          · rw [readRule_of_some known body] at read
            cases read
            exact ⟨below, children, rfl, rfl, body, rfl⟩

/-- A rule that does not match is known to fail from then on. -/
theorem contains_of_readRule_eq_none
    (failed : grammar.readRule levels rule cursor failures = (none, later)) :
    later.contains rule cursor.position = true := by
  cases known : failures.contains rule cursor.position with
  | true =>
      rw [readRule_of_contains known] at failed
      cases failed
      exact known
  | false =>
      cases levels with
      | zero =>
          rw [readRule_zero known] at failed
          cases failed
          simp [Failures.contains_insert]
      | succ below =>
          rcases body : (grammar.pattern rule).read (grammar.readRule below) cursor failures with
            ⟨_ | ⟨children, behind⟩, between⟩
          · rw [readRule_of_none known body] at failed
            cases failed
            simp [Failures.contains_insert]
          · rw [readRule_of_some known body] at failed
            cases failed

/-- A rule that fails in spite of a level left fails because its pattern does. -/
theorem exists_of_readRule_eq_none
    (unknown : failures.contains rule cursor.position = false)
    (failed : grammar.readRule (levels + 1) rule cursor failures = (none, later)) :
    ∃ between, (grammar.pattern rule).read (grammar.readRule levels) cursor failures =
        (none, between) ∧
      later = between.insert rule cursor.position := by
  rcases body : (grammar.pattern rule).read (grammar.readRule levels) cursor failures with
    ⟨_ | ⟨children, behind⟩, between⟩
  · rw [readRule_of_none unknown body] at failed
    cases failed
    exact ⟨between, rfl, rfl⟩
  · rw [readRule_of_some unknown body] at failed
    cases failed

/-- A rule that calls no rules matches what its pattern matches, and nothing is noted. -/
theorem exists_of_readRule_of_calls_eq_nil
    {node : Node}
    (callsNone : (grammar.pattern rule).calls = [])
    (read : grammar.readRule levels rule cursor failures = (some (node, after), later)) :
    ∃ below children, levels = below + 1 ∧ failures.contains rule cursor.position = false ∧
      grammar.treesAt? (grammar.pattern rule) cursor = some (children, after) ∧
      node = rule.build children ∧ later = failures := by
  obtain ⟨below, children, rfl, unknown, body, rfl⟩ := exists_of_readRule read
  rw [read_of_calls_eq_nil grammar callsNone, Prod.mk.injEq] at body
  exact ⟨below, children, rfl, unknown, body.1, rfl, body.2.symm⟩

theorem readRule_of_treesAt?
    {children : List Tree}
    (callsNone : (grammar.pattern rule).calls = [])
    (unknown : failures.contains rule cursor.position = false)
    (read : grammar.treesAt? (grammar.pattern rule) cursor = some (children, after)) :
    grammar.readRule (levels + 1) rule cursor failures =
      (some (rule.build children, after), failures) := by
  apply readRule_of_some unknown
  rw [read_of_calls_eq_nil grammar callsNone, read]

/-! ## What a reading notes -/

/-- What is true of a memory stays true if every note at the places of a reading keeps it. -/
theorem invariant_read
    {place : Cursor → Prop}
    (known : Failures → Prop)
    (closed : ∀ {cursor tokens after}, place cursor → cursor.Advances tokens after → place after)
    (noted : ∀ rule cursor failures, place cursor → known failures →
      known (failures.insert rule cursor.position))
    (levels : Nat)
    (pattern : Pattern)
    (here : place cursor)
    (holds : known failures) :
    known (pattern.read (grammar.readRule levels) cursor failures).2 := by
  have simulates :
      Simulates place place (fun now before => now = before ∧ known now)
        (pattern.read (grammar.readRule levels)) (pattern.read (grammar.readRule levels)) := by
    refine simulates_read closed fun called _ =>
      simulates_readRule (fun _ => True) closed (fun _ _ _ _ => trivial) ?_ ?_ levels trivial
    · rintro rule cursor now _ _ _ ⟨rfl, _⟩
      rfl
    · rintro rule cursor now _ _ here ⟨rfl, holds⟩
      exact ⟨rfl, noted rule cursor now here holds⟩
  exact (simulates cursor failures failures here ⟨rfl, holds⟩).2.1.2

/-- A reading forgets nothing and notes nothing about places in front of it. -/
theorem extends_read
    (levels : Nat)
    (pattern : Pattern)
    (cursor : Cursor)
    (failures : Failures) :
    (pattern.read (grammar.readRule levels) cursor failures).2.Extends failures
      cursor.position := by
  have closed {start after : Cursor} {tokens : List Token}
      (here : cursor.position ≤ start.position) (advances : start.Advances tokens after) :
      cursor.position ≤ after.position := by
    have moved := advances.position
    omega
  refine invariant_read (·.Extends failures cursor.position) closed ?_ levels pattern
    (Nat.le_refl _) (.refl failures _)
  intro rule start now here holds
  refine ⟨?_, ?_⟩
  · intro other place remembered
    rw [Failures.contains_insert, holds.keeps other place remembered, Bool.or_true]
  · intro other place before
    have apart : ¬ (rule = other ∧ start.position = place) := by omega
    rw [Failures.contains_insert, holds.adds other place before]
    simp [apart]

theorem extends_of_read
    {reading : Pattern.Reading (List Tree)}
    (read : pattern.read (grammar.readRule levels) cursor failures = (reading, later)) :
    later.Extends failures cursor.position := by
  have grown : (pattern.read (grammar.readRule levels) cursor failures).2.Extends failures
      cursor.position := extends_read levels pattern cursor failures
  rwa [read] at grown

/-- The same holds of repetition with any bound. -/
theorem extends_readMany
    (item : Pattern)
    (limit : List Token)
    (failures : Failures)
    (cursor : Cursor) :
    (Pattern.readMany (item.read (grammar.readRule levels)) limit cursor failures).2.Extends
      failures cursor.position := by
  induction limit generalizing cursor failures with
  | nil =>
      have grown : (item.read (grammar.readRule levels) cursor failures).2.Extends failures
          cursor.position := extends_read levels item cursor failures
      unfold Pattern.readMany
      split <;> simp_all
  | cons token limit inductionHypothesis =>
      have grown : (item.read (grammar.readRule levels) cursor failures).2.Extends failures
          cursor.position := extends_read levels item cursor failures
      unfold Pattern.readMany
      split
      next read => rwa [read] at grown
      next trees middle between read =>
        rw [read] at grown
        have moved := (derives_of_read (derives_of_readRule levels) item read).advances.position
        exact (inductionHypothesis between middle).trans grown (by omega)

/-- Rules note at their own place only rules that have no higher rank. -/
def NotesBelow (grammar : Grammar) (levels : Nat) : Prop :=
  ∀ (rule other : Rule) (cursor : Cursor) (failures : Failures), rule.rank < other.rank →
    (grammar.readRule levels rule cursor failures).2.contains other cursor.position =
      failures.contains other cursor.position

theorem contains_readMany
    {other : Rule}
    {position : Nat}
    (items : ∀ (cursor : Cursor) (failures : Failures), position ≤ cursor.position →
      (item.read (grammar.readRule levels) cursor failures).2.contains other position =
        failures.contains other position)
    (limit : List Token)
    (le : position ≤ cursor.position) :
    (Pattern.readMany (item.read (grammar.readRule levels)) limit cursor failures).2.contains
        other position =
      failures.contains other position := by
  induction limit generalizing cursor failures with
  | nil =>
      have kept := items cursor failures le
      unfold Pattern.readMany
      split <;> simp_all
  | cons token limit inductionHypothesis =>
      have kept := items cursor failures le
      unfold Pattern.readMany
      split
      next read => rwa [read] at kept
      next trees middle between read =>
        rw [read] at kept
        have moved := (derives_of_read (derives_of_readRule levels) item read).advances.position
        exact (inductionHypothesis (by omega)).trans kept

/-- At its place a pattern notes only what it may call there. -/
theorem contains_read
    (rules : grammar.NotesBelow levels)
    {bound : Nat}
    {other : Rule}
    (high : bound ≤ other.rank)
    (descends : pattern.descends bound = true) :
    (pattern.read (grammar.readRule levels) cursor failures).2.contains other cursor.position =
      failures.contains other cursor.position := by
  -- Behind the place nothing is noted about it.
  have further (pattern : Pattern) (place : Cursor) (failures : Failures) {position : Nat}
      (le : position ≤ place.position)
      (here : position = place.position →
        (pattern.read (grammar.readRule levels) place failures).2.contains other place.position =
          failures.contains other place.position) :
      (pattern.read (grammar.readRule levels) place failures).2.contains other position =
        failures.contains other position := by
    rcases Nat.lt_or_eq_of_le le with behind | same
    · exact (extends_read levels pattern place failures).adds other position behind
    · rw [same]
      exact here same
  induction pattern generalizing cursor failures with
  | token accepts => rw [read_of_calls_eq_nil grammar rfl]
  | rule called =>
      rw [Pattern.read_rule]
      have lower : called.rank < bound := by simpa [Pattern.descends] using descends
      exact rules called other cursor failures (Nat.lt_of_lt_of_le lower high)
  | ahead accepts => rfl
  | absent refused =>
      rw [Pattern.read_absent]
      have lower : refused.rank < bound := by simpa [Pattern.descends] using descends
      exact rules refused other cursor failures (Nat.lt_of_lt_of_le lower high)
  | empty => rfl
  | sequence first second firstHypothesis secondHypothesis =>
      obtain ⟨descendsFirst, behind⟩ := Bool.and_eq_true_iff.1 descends
      have kept : (first.read (grammar.readRule levels) cursor failures).2.contains other
          cursor.position = failures.contains other cursor.position :=
        firstHypothesis descendsFirst
      rw [← Pattern.append_eq]
      rcases read : first.read (grammar.readRule levels) cursor failures with
        ⟨_ | ⟨trees, middle⟩, between⟩
      · rw [read] at kept
        rwa [read_append_of_none read]
      · rw [read] at kept
        have derived := derives_of_read (derives_of_readRule levels) first read
        have moved := derived.advances.position
        rw [read_append_of_some read]
        refine (further second middle between (by omega) fun same => ?_).trans kept
        rcases Bool.or_eq_true_iff.1 behind with consumes | descendsSecond
        · have positive := List.length_pos_iff.2 (derived.tokensOf_ne_nil consumes)
          omega
        · exact secondHypothesis descendsSecond
  | choice preferred alternative preferredHypothesis alternativeHypothesis =>
      obtain ⟨descendsFirst, descendsSecond⟩ := Bool.and_eq_true_iff.1 descends
      have kept : (preferred.read (grammar.readRule levels) cursor failures).2.contains other
          cursor.position = failures.contains other cursor.position :=
        preferredHypothesis descendsFirst
      rw [← Pattern.orElse_eq]
      rcases read : preferred.read (grammar.readRule levels) cursor failures with
        ⟨_ | found, between⟩
      · rw [read] at kept
        rw [read_orElse_of_none read]
        exact (alternativeHypothesis descendsSecond).trans kept
      · rw [read] at kept
        rwa [read_orElse_of_some read]
  | many item inductionHypothesis =>
      refine contains_readMany ?_ cursor.rest (Nat.le_refl _)
      intro place now le
      exact further item place now le fun _ => inductionHypothesis descends

theorem notesBelow (levels : Nat) : grammar.NotesBelow levels := by
  induction levels with
  | zero =>
      intro rule other cursor failures higher
      have apart : ¬ (rule = other) := by
        rintro rfl
        exact Nat.lt_irrefl _ higher
      unfold readRule
      split
      next => rfl
      next => simp [Failures.contains_insert, apart]
  | succ levels inductionHypothesis =>
      intro rule other cursor failures higher
      have apart : ¬ (rule = other) := by
        rintro rfl
        exact Nat.lt_irrefl _ higher
      have kept : ((grammar.pattern rule).read (grammar.readRule levels) cursor failures).2.contains
          other cursor.position = failures.contains other cursor.position :=
        contains_read inductionHypothesis (Nat.le_of_lt higher) (descends_pattern rule)
      unfold readRule
      split
      next => rfl
      next =>
        simp only
        split
        next read => rwa [read] at kept
        next read =>
          rw [read] at kept
          simp [Failures.contains_insert, apart, kept]

/-- An attempt that succeeds has left no note about itself. -/
theorem contains_of_readRule_eq_some
    {node : Node}
    (read : grammar.readRule levels rule cursor failures = (some (node, after), later)) :
    later.contains rule cursor.position = false := by
  obtain ⟨below, children, rfl, unknown, body, _⟩ := exists_of_readRule read
  have kept : ((grammar.pattern rule).read (grammar.readRule below) cursor failures).2.contains
      rule cursor.position = failures.contains rule cursor.position :=
    contains_read (notesBelow below) (Nat.le_refl _) (descends_pattern rule)
  rwa [body, unknown] at kept

/-- A total pattern matches whatever is remembered. -/
theorem read_ne_none_of_total
    (total : pattern.total = true)
    (cursor : Cursor)
    (failures : Failures) :
    pattern.read (grammar.readRule levels) cursor failures ≠ (none, later) := by
  induction pattern generalizing cursor failures later with
  | token accepts => cases total
  | rule called => cases total
  | ahead accepts => cases total
  | absent refused => cases total
  | empty =>
      intro failed
      cases failed
  | sequence first second firstHypothesis secondHypothesis =>
      obtain ⟨totalFirst, totalSecond⟩ := Bool.and_eq_true_iff.1 total
      rw [← Pattern.append_eq]
      intro failed
      rcases read : first.read (grammar.readRule levels) cursor failures with
        ⟨_ | ⟨trees, middle⟩, between⟩
      · exact firstHypothesis totalFirst cursor failures read
      · rw [read_append_of_some read] at failed
        rcases back : second.read (grammar.readRule levels) middle between with
          ⟨_ | found, last⟩
        · exact secondHypothesis totalSecond middle between back
        · rw [back] at failed
          cases failed
  | choice preferred alternative _ alternativeHypothesis =>
      rw [← Pattern.orElse_eq]
      intro failed
      rcases read : preferred.read (grammar.readRule levels) cursor failures with
        ⟨_ | found, between⟩
      · rw [read_orElse_of_none read] at failed
        exact alternativeHypothesis total cursor between failed
      · rw [read_orElse_of_some read] at failed
        cases failed
  | many item _ =>
      intro failed
      cases failed

/-- What fails in a stable way fails again as long as nothing is forgotten. -/
theorem read_of_stable
    (stable : pattern.stable = true)
    (failed : pattern.read (grammar.readRule levels) cursor failures = (none, later))
    (keeps : ∀ rule place, later.contains rule place = true → others.contains rule place = true) :
    pattern.read (grammar.readRule levels) cursor others = (none, others) := by
  induction pattern generalizing cursor failures later with
  | token accepts =>
      rw [read_of_calls_eq_nil grammar rfl] at failed ⊢
      have stuck : grammar.treesAt? (.token accepts) cursor = none := (Prod.ext_iff.1 failed).1
      rw [stuck]
  | rule called =>
      rw [Pattern.read_rule] at failed ⊢
      rcases read : grammar.readRule levels called cursor failures with ⟨_ | found, last⟩
      · rw [read] at failed
        cases failed
        rw [readRule_of_contains (keeps _ _ (contains_of_readRule_eq_none read))]
        rfl
      · rw [read] at failed
        cases failed
  | ahead accepts =>
      rw [read_of_calls_eq_nil grammar rfl] at failed ⊢
      have stuck : grammar.treesAt? (.ahead accepts) cursor = none := (Prod.ext_iff.1 failed).1
      rw [stuck]
  | absent refused => cases stable
  | empty => cases failed
  | sequence first second firstHypothesis secondHypothesis =>
      rw [← Pattern.append_eq] at failed ⊢
      rcases Bool.or_eq_true_iff.1 stable with quiet | endless
      · obtain ⟨callsNone, stableSecond⟩ := Bool.and_eq_true_iff.1 quiet
        have readFirst (now : Failures) :
            first.read (grammar.readRule levels) cursor now =
              (grammar.treesAt? first cursor, now) :=
          read_of_calls_eq_nil grammar (List.isEmpty_iff.1 callsNone) _ cursor now
        cases front : grammar.treesAt? first cursor with
        | none =>
            rw [front] at readFirst
            exact read_append_of_none (readFirst others)
        | some found =>
            rw [front] at readFirst
            rw [read_append_of_some (readFirst failures)] at failed
            rw [read_append_of_some (readFirst others)]
            rcases back : second.read (grammar.readRule levels) found.2 failures with
              ⟨_ | further, last⟩
            · rw [back] at failed
              cases failed
              rw [secondHypothesis stableSecond back keeps]
              rfl
            · rw [back] at failed
              cases failed
      · obtain ⟨stableFirst, total⟩ := Bool.and_eq_true_iff.1 endless
        rcases read : first.read (grammar.readRule levels) cursor failures with
          ⟨_ | ⟨trees, middle⟩, between⟩
        · rw [read_append_of_none read] at failed
          cases failed
          exact read_append_of_none (firstHypothesis stableFirst read keeps)
        · rw [read_append_of_some read] at failed
          rcases back : second.read (grammar.readRule levels) middle between with
            ⟨_ | further, last⟩
          · exact absurd back (read_ne_none_of_total total middle between)
          · rw [back] at failed
            cases failed
  | choice preferred alternative preferredHypothesis alternativeHypothesis =>
      obtain ⟨stableFirst, stableSecond⟩ := Bool.and_eq_true_iff.1 stable
      rw [← Pattern.orElse_eq] at failed ⊢
      rcases read : preferred.read (grammar.readRule levels) cursor failures with
        ⟨_ | found, between⟩
      · rw [read_orElse_of_none read] at failed
        have grows := extends_of_read failed
        rw [read_orElse_of_none (preferredHypothesis stableFirst read fun rule place remembered =>
          keeps rule place (grows.keeps rule place remembered))]
        exact alternativeHypothesis stableSecond failed keeps
      · rw [read_orElse_of_some read] at failed
        cases failed
  | many item _ => cases failed

/-- A rule that has matched matches again, if nothing is added in front of where it ended. -/
def Replays (grammar : Grammar) (levels : Nat) (rule : Rule) : Prop :=
  ∀ {cursor after failures later others node},
    grammar.readRule levels rule cursor failures = (some (node, after), later) →
      others.Extends later after.position →
      grammar.readRule levels rule cursor others = (some (node, after), others)

theorem readMany_of_replays
    (stable : item.stable = true)
    (items : ∀ {cursor after failures later others trees},
      item.read (grammar.readRule levels) cursor failures = (some (trees, after), later) →
        others.Extends later after.position →
        item.read (grammar.readRule levels) cursor others = (some (trees, after), others))
    (limit : List Token)
    (read : Pattern.readMany (item.read (grammar.readRule levels)) limit cursor failures =
      ((trees, after), later))
    (grows : others.Extends later after.position) :
    Pattern.readMany (item.read (grammar.readRule levels)) limit cursor others =
      ((trees, after), others) := by
  induction limit generalizing cursor failures trees with
  | nil =>
      unfold Pattern.readMany at read ⊢
      rcases front : item.read (grammar.readRule levels) cursor failures with
        ⟨_ | ⟨first, middle⟩, between⟩
      · rw [front] at read
        cases read
        rw [read_of_stable stable front grows.keeps]
      · rw [front] at read
        cases read
        rw [items front grows]
  | cons token limit inductionHypothesis =>
      unfold Pattern.readMany at read ⊢
      rcases front : item.read (grammar.readRule levels) cursor failures with
        ⟨_ | ⟨first, middle⟩, between⟩
      · rw [front] at read
        cases read
        rw [read_of_stable stable front grows.keeps]
      · rw [front] at read
        rcases back : Pattern.readMany (item.read (grammar.readRule levels)) limit middle between
          with ⟨⟨more, last⟩, final⟩
        simp only [back] at read
        cases read
        have derived : grammar.Derives (.many item) middle
            (Pattern.readMany (item.read (grammar.readRule levels)) limit middle between).1.1
            (Pattern.readMany (item.read (grammar.readRule levels)) limit middle between).1.2 :=
          derives_readMany (derives_of_read (derives_of_readRule levels) item) limit middle between
        rw [back] at derived
        have moved : after.position = middle.position + (Tree.tokensOf more).length :=
          derived.advances.position
        have behind : later.Extends between middle.position := by
          have grown : (Pattern.readMany (item.read (grammar.readRule levels)) limit middle
              between).2.Extends between middle.position :=
            extends_readMany item limit between middle
          rwa [back] at grown
        rw [items front (grows.trans behind (by omega))]
        simp only [inductionHypothesis back]

/-- What matches by replayable means matches again. -/
theorem read_of_replays
    (replays : pattern.replays = true)
    (rules : ∀ rule ∈ pattern.calls, grammar.Replays levels rule)
    (read : pattern.read (grammar.readRule levels) cursor failures = (some (trees, after), later))
    (grows : others.Extends later after.position) :
    pattern.read (grammar.readRule levels) cursor others = (some (trees, after), others) := by
  induction pattern generalizing cursor failures later trees after others with
  | token accepts =>
      rw [read_of_calls_eq_nil grammar rfl] at read ⊢
      have found : grammar.treesAt? (.token accepts) cursor = some (trees, after) :=
        (Prod.ext_iff.1 read).1
      rw [found]
  | rule called =>
      rw [Pattern.read_rule] at read ⊢
      rcases found : grammar.readRule levels called cursor failures with ⟨_ | ⟨node, behind⟩, last⟩
      · rw [found] at read
        cases read
      · rw [found] at read
        cases read
        rw [rules called (List.mem_singleton.2 rfl) found grows]
        rfl
  | ahead accepts =>
      rw [read_of_calls_eq_nil grammar rfl] at read ⊢
      have found : grammar.treesAt? (.ahead accepts) cursor = some (trees, after) :=
        (Prod.ext_iff.1 read).1
      rw [found]
  | absent refused => cases replays
  | empty =>
      cases read
      rfl
  | sequence first second firstHypothesis secondHypothesis =>
      obtain ⟨replaysFirst, replaysSecond⟩ := Bool.and_eq_true_iff.1 replays
      simp only [Pattern.calls, List.mem_append] at rules
      rw [← Pattern.append_eq] at read ⊢
      obtain ⟨front, middle, between, back, readFirst, readSecond, rfl⟩ :=
        exists_of_read_append read
      have derived := derives_of_read (derives_of_readRule levels) second readSecond
      have moved := derived.advances.position
      have behind := extends_of_read readSecond
      have again := firstHypothesis replaysFirst (fun rule called => rules rule (.inl called))
        readFirst (grows.trans behind (by omega))
      rw [read_append_of_some again, secondHypothesis replaysSecond
        (fun rule called => rules rule (.inr called)) readSecond grows]
      rfl
  | choice preferred alternative preferredHypothesis alternativeHypothesis =>
      obtain ⟨both, replaysSecond⟩ := Bool.and_eq_true_iff.1 replays
      obtain ⟨stable, replaysFirst⟩ := Bool.and_eq_true_iff.1 both
      simp only [Pattern.calls, List.mem_append] at rules
      rw [← Pattern.orElse_eq] at read ⊢
      rcases chosen : preferred.read (grammar.readRule levels) cursor failures with
        ⟨_ | found, between⟩
      · rw [read_orElse_of_none chosen] at read
        have behind := extends_of_read read
        rw [read_orElse_of_none (read_of_stable stable chosen fun rule place remembered =>
          grows.keeps rule place (behind.keeps rule place remembered))]
        exact alternativeHypothesis replaysSecond (fun rule called => rules rule (.inr called)) read
          grows
      · rw [read_orElse_of_some chosen] at read
        cases read
        exact read_orElse_of_some (preferredHypothesis replaysFirst
          (fun rule called => rules rule (.inl called)) chosen grows)
  | many item inductionHypothesis =>
      obtain ⟨stable, replaysItem⟩ := Bool.and_eq_true_iff.1 replays
      simp only [Pattern.read, Prod.mk.injEq, Option.some.injEq] at read ⊢
      have again := readMany_of_replays stable
        (fun found prolongs => inductionHypothesis replaysItem rules found prolongs) cursor.rest
        (Prod.ext read.1 read.2) grows
      rw [again]
      exact ⟨rfl, rfl⟩

/-- A sequence that has failed fails again with what it noted, if its first part is replayable. -/
theorem read_again_of_none
    (stable : first.stable = true)
    (replays : first.replays = true)
    (rules : ∀ rule ∈ first.calls, grammar.Replays levels rule)
    (callsNone : second.calls = [])
    (failed : (first ++ second).read (grammar.readRule levels) cursor failures = (none, later)) :
    (first ++ second).read (grammar.readRule levels) cursor later = (none, later) := by
  rcases front : first.read (grammar.readRule levels) cursor failures with
    ⟨_ | ⟨trees, middle⟩, between⟩
  · rw [read_append_of_none front] at failed
    cases failed
    exact read_append_of_none (read_of_stable stable front fun _ _ remembered => remembered)
  · rw [read_append_of_some front, read_of_calls_eq_nil grammar callsNone, Prod.mk.injEq] at failed
    obtain ⟨failed, rfl⟩ := failed
    rw [read_append_of_some (read_of_replays replays rules front (.refl _ _)),
      read_of_calls_eq_nil grammar callsNone, failed]

/-- The rules for arguments match again. -/
theorem replays_argument
    (unmocked : grammar.mocked = [])
    (levels : Nat) :
    ∀ rule ∈ Rule.arguments, grammar.Replays levels rule := by
  induction levels with
  | zero =>
      intro rule _ cursor after failures later others node read
      obtain ⟨below, _, impossible, _⟩ := exists_of_readRule read
      cases impossible
  | succ levels inductionHypothesis =>
      intro rule listed cursor after failures later others node read grows
      have forgotten := contains_of_readRule_eq_some read
      obtain ⟨below, children, levelsEq, unknown, body, rfl⟩ := exists_of_readRule read
      cases levelsEq
      have consumes : (grammar.pattern rule).consumes = true := by
        apply consumes_pattern
        rintro rfl
        simp [Rule.arguments] at listed
      have derived := derives_of_read (derives_of_readRule levels) _ body
      have positive := List.length_pos_iff.2 (derived.tokensOf_ne_nil consumes)
      have moved := derived.advances.position
      have stillUnknown : others.contains rule cursor.position = false := by
        rw [grows.adds rule cursor.position (by omega), forgotten]
      refine readRule_of_some stillUnknown (read_of_replays ?_ ?_ body grows)
      · rw [pattern_eq unmocked]
        exact Rule.replays_pattern rule listed
      · rw [pattern_eq unmocked]
        exact fun called mentioned =>
          inductionHypothesis called (Rule.calls_arguments rule listed called mentioned)

end Grammar
end PreprocessorSyntax
