import Mathlib.Data.List.TakeWhile
import PreprocessorSyntax.Proofs.Depth.Replay
import PreprocessorSyntax.Proofs.Grammar.FirstToken

/-!
# Failures that do no harm

A parser with few levels left also remembers attempts that failed for want of
levels, and such an attempt might have to succeed later.  A memory is harmless
from a place on if that cannot happen: whatever it says about this place and
those behind it would fail with any number of levels.

`Grammar.Barren` says of a pattern that it matches nothing at a place and leaves
a harmless memory harmless.  An alternative that is barren may be tried in vain
without consequences, whatever the number of levels.
-/

namespace PreprocessorSyntax

/-- Whether an argument of a macro call begins with such a token, or goes on with it. -/
def Token.opensArgument (token : Token) : Bool :=
  token.isContent && !token.isAnyPunctuator [.comma, .rightParen]

/-- The next token that is neither white space nor a comment. -/
def Cursor.next? (cursor : Cursor) : Option Token :=
  firstSignificant? cursor.rest

namespace Cursor

variable {cursor middle after : Cursor} {tokens more : List Token}

/-- Where one place is reached from another one, the tokens between them are determined. -/
theorem Advances.of_le
    (first : cursor.Advances tokens middle)
    (second : cursor.Advances more after)
    (le : middle.position ≤ after.position) :
    middle.Advances (more.drop tokens.length) after := by
  have lengths : tokens.length ≤ more.length := by
    have start := first.position
    have stop := second.position
    omega
  have same : tokens ++ middle.rest = more ++ after.rest := first.rest.symm.trans second.rest
  have taken := congrArg (List.take tokens.length) same
  rw [List.take_left, List.take_append_of_le_length lengths] at taken
  have front := (List.take_append_drop tokens.length more).symm
  rw [← taken] at front
  refine ⟨?_, ?_, ?_⟩
  · rw [front, List.append_assoc, List.append_cancel_left_eq] at same
    exact same
  · have start := first.position
    have stop := second.position
    rw [List.length_drop]
    omega
  · exact fun token present => second.readable token (List.mem_of_mem_drop present)

/-- A place is determined by its position. -/
theorem Advances.eq_of_position
    (first : cursor.Advances tokens middle)
    (second : cursor.Advances more after)
    (same : middle.position = after.position) :
    middle = after := by
  have between := first.of_le second (Nat.le_of_eq same)
  have nothingLeft : more.drop tokens.length = [] := by
    have lengths := between.position
    exact List.eq_nil_of_length_eq_zero (by omega)
  have rest := between.rest
  rw [nothingLeft, List.nil_append] at rest
  cases middle
  cases after
  simp_all

theorem next?_trivia (cursor : Cursor) : cursor.trivia.2.next? = cursor.next? := by
  have skipped : firstSignificant? cursor.trivia.1 = none :=
    firstSignificant?_eq_none fun _ => isTrivia_of_mem_trivia
  rw [next?, next?, ← trivia_append cursor, firstSignificant?_append, skipped, Option.none_or]

theorem Advances.next? (advances : cursor.Advances tokens after) :
    cursor.next? = (firstSignificant? tokens).or after.next? := by
  rw [Cursor.next?, Cursor.next?, advances.rest, firstSignificant?_append]

/-- Behind white space and comments the next token is a significant one. -/
theorem head?_trivia (cursor : Cursor) : cursor.trivia.2.rest.head? = cursor.next? :=
  (List.find?_not_eq_head?_dropWhile Token.isTrivia cursor.rest).symm

/-- The very next token is white space, a comment or the next significant one. -/
theorem isTrivia_or_next?
    {token : Token}
    (first : token ∈ cursor.rest.head?) :
    token.isTrivia = true ∨ token ∈ cursor.next? := by
  obtain ⟨behind, stands⟩ : ∃ behind, cursor.rest = token :: behind := by
    cases rest : cursor.rest with
    | nil => simp [rest] at first
    | cons other behind =>
        rw [rest] at first
        cases first
        exact ⟨behind, rfl⟩
  rw [Cursor.next?, stands, firstSignificant?_cons]
  cases token.isTrivia <;> simp

end Cursor

namespace Grammar

variable {grammar : Grammar} {levels : Nat} {first second preferred alternative item : Pattern}
variable {cursor middle after place : Cursor} {failures later : Failures} {trees more : List Tree}

/--
An attempt that fails with any number of levels.  A call with tokens in front of
its parentheses counts only where it cannot even begin.
-/
def Hopeless (grammar : Grammar) (rule : Rule) (place : Cursor) : Prop :=
  grammar.nodeAt? rule place = none ∧
    (rule = .somethingContainingParentheses →
      ∀ token ∈ place.rest.head?, token.opensArgument = false)

/-- Whatever is remembered about a place and those behind it is hopeless. -/
def Harmless (grammar : Grammar) (cursor : Cursor) (failures : Failures) : Prop :=
  ∀ rule tokens place, cursor.Advances tokens place →
    failures.contains rule place.position = true → grammar.Hopeless rule place

theorem harmless_empty (cursor : Cursor) : grammar.Harmless cursor .empty := by
  intro rule tokens place _ remembered
  simp at remembered

namespace Harmless

/-- A harmless memory stays harmless further on. -/
theorem advance
    {tokens : List Token}
    (harmless : grammar.Harmless cursor failures)
    (advances : cursor.Advances tokens after) :
    grammar.Harmless after failures :=
  fun rule _ place further remembered =>
    harmless rule _ place (advances.append further) remembered

/-- What can succeed is not remembered as a failure. -/
theorem contains_eq_false
    {rule : Rule}
    (harmless : grammar.Harmless cursor failures)
    (hope : ¬ grammar.Hopeless rule cursor) :
    failures.contains rule cursor.position = false := by
  rw [Bool.eq_false_iff]
  exact fun remembered => hope (harmless rule [] cursor (.refl cursor) remembered)

/-- A hopeless attempt may be remembered. -/
theorem insert
    {rule : Rule}
    (harmless : grammar.Harmless cursor failures)
    (hopeless : grammar.Hopeless rule cursor) :
    grammar.Harmless cursor (failures.insert rule cursor.position) := by
  intro other tokens place advances remembered
  rw [Failures.contains_insert, Bool.or_eq_true, decide_eq_true_eq] at remembered
  rcases remembered with ⟨rfl, same⟩ | before
  · rwa [← (Cursor.Advances.refl cursor).eq_of_position advances same]
  · exact harmless other tokens place advances before

/-- What is remembered about places in front of the cursor does not matter. -/
theorem of_agreeFrom
    {others : Failures}
    {position : Nat}
    (harmless : grammar.Harmless cursor others)
    (agree : AgreeFrom position failures others)
    (le : position ≤ cursor.position) :
    grammar.Harmless cursor failures := by
  intro rule tokens place advances remembered
  have behind : position ≤ place.position := by
    have moved := advances.position
    omega
  rw [agree rule place.position behind] at remembered
  exact harmless rule tokens place advances remembered

/-- A reading that is harmless further on, and notes nothing before, is harmless. -/
theorem of_extends
    {tokens : List Token}
    (harmless : grammar.Harmless cursor failures)
    (harmlessLater : grammar.Harmless middle later)
    (grows : later.Extends failures middle.position)
    (advances : cursor.Advances tokens middle) :
    grammar.Harmless cursor later := by
  intro rule more place reached remembered
  rcases Nat.lt_or_ge place.position middle.position with before | behind
  · rw [grows.adds rule place.position before] at remembered
    exact harmless rule more place reached remembered
  · exact harmlessLater rule _ place (advances.of_le reached behind) remembered

end Harmless

/-- With levels enough and nothing remembered, a pattern is read as if there were no limit. -/
theorem exists_levels (pattern : Pattern) (cursor : Cursor) :
    ∃ levels, ∀ more, levels ≤ more →
      (pattern.read (grammar.readRule more) cursor .empty).1 = grammar.treesAt? pattern cursor := by
  refine ⟨54 * cursor.upcoming.length + 54, fun more enough => ?_⟩
  have accepted : (pattern.read (grammar.readAfresh more) cursor false).2 = false :=
    accepts_read (accepts_readAfresh more) pattern.descends_rank_bound enough
  let tokens := List.replicate cursor.position ⟨.other, "", .unknown⟩ ++ cursor.rest
  have here : InTokens tokens cursor := by
    simp [InTokens, tokens]
  rw [(follows_read InTokens.advances (follows_readRule tokens more) pattern cursor .empty here
    (justified_empty tokens) accepted).1, read_eq_treesAt? accepted]

/-- A pattern matches nothing at a place, and a harmless memory stays harmless. -/
def Barren (grammar : Grammar) (levels : Nat) (pattern : Pattern) (cursor : Cursor) : Prop :=
  ∀ failures, grammar.Harmless cursor failures →
    ∃ later, pattern.read (grammar.readRule levels) cursor failures = (none, later) ∧
      grammar.Harmless cursor later

/-- A pattern matches the empty run of tokens, and a harmless memory stays harmless. -/
def Idle (grammar : Grammar) (levels : Nat) (pattern : Pattern) (cursor : Cursor) : Prop :=
  ∀ failures, grammar.Harmless cursor failures →
    ∃ later, pattern.read (grammar.readRule levels) cursor failures = (some ([], cursor), later) ∧
      grammar.Harmless cursor later

theorem barren_of_calls_eq_nil
    (callsNone : first.calls = [])
    (failed : grammar.treesAt? first cursor = none) :
    grammar.Barren levels first cursor := by
  intro failures harmless
  rw [read_of_calls_eq_nil grammar callsNone, failed]
  exact ⟨failures, rfl, harmless⟩

theorem Barren.append (barren : grammar.Barren levels first cursor) :
    grammar.Barren levels (first ++ second) cursor := by
  intro failures harmless
  obtain ⟨later, read, harmlessLater⟩ := barren failures harmless
  exact ⟨later, read_append_of_none read, harmlessLater⟩

theorem barren_token
    {accepts : Token → Bool}
    (refused : ∀ token ∈ cursor.rest.head?, accepts token = false) :
    grammar.Barren levels (.token accepts) cursor :=
  barren_of_calls_eq_nil rfl (fails_token refused cursor.position)

/-- A sequence is barren if its second part is, wherever the first one leads. -/
theorem Barren.behind
    (callsNone : first.calls = [])
    (barren : ∀ trees middle, grammar.treesAt? first cursor = some (trees, middle) →
      grammar.Barren levels second middle) :
    grammar.Barren levels (first ++ second) cursor := by
  intro failures harmless
  have front := read_of_calls_eq_nil grammar callsNone (grammar.readRule levels) cursor failures
  cases read : grammar.treesAt? first cursor with
  | none =>
      rw [read] at front
      exact ⟨failures, read_append_of_none front, harmless⟩
  | some found =>
      obtain ⟨trees, middle⟩ := found
      rw [read] at front
      have advances := (derives_of_treesAt? read).advances
      obtain ⟨later, back, harmlessLater⟩ :=
        barren trees middle read failures (harmless.advance advances)
      refine ⟨later, ?_, harmless.of_extends harmlessLater (extends_of_read back) advances⟩
      rw [read_append_of_some front, back]
      rfl

/-- Behind white space and comments, a pattern is barren if it is where they end. -/
theorem Barren.behind_trivia (barren : grammar.Barren levels second cursor.trivia.2) :
    grammar.Barren levels (.trivia ++ second) cursor := by
  refine Barren.behind rfl fun trees middle read => ?_
  rw [treesAt?_trivia_eq] at read
  cases read
  exact barren

/-- No token that is refused comes next, apart from white space and comments. -/
theorem barren_trivia_token
    {accepts : Token → Bool}
    (refused : ∀ token ∈ cursor.next?, accepts token = false) :
    grammar.Barren levels (.trivia ++ .token accepts) cursor := by
  refine Barren.behind_trivia (barren_token ?_)
  rwa [Cursor.head?_trivia]

theorem Idle.append_barren
    (idle : grammar.Idle levels first cursor)
    (barren : grammar.Barren levels second cursor) :
    grammar.Barren levels (first ++ second) cursor := by
  intro failures harmless
  obtain ⟨between, front, harmlessBetween⟩ := idle failures harmless
  obtain ⟨later, back, harmlessLater⟩ := barren between harmlessBetween
  refine ⟨later, ?_, harmlessLater⟩
  rw [read_append_of_some front, back]
  rfl

theorem Barren.orElse
    (barren : grammar.Barren levels preferred cursor)
    (barrenToo : grammar.Barren levels alternative cursor) :
    grammar.Barren levels (preferred <|> alternative) cursor := by
  intro failures harmless
  obtain ⟨between, failed, harmlessBetween⟩ := barren failures harmless
  obtain ⟨later, failedToo, harmlessLater⟩ := barrenToo between harmlessBetween
  exact ⟨later, (read_orElse_of_none failed).trans failedToo, harmlessLater⟩

theorem Barren.optional (barren : grammar.Barren levels item cursor) :
    grammar.Idle levels (.optional item) cursor := by
  intro failures harmless
  obtain ⟨later, failed, harmlessLater⟩ := barren failures harmless
  exact ⟨later, read_orElse_of_none failed, harmlessLater⟩

/-- A rule is barren where its pattern is, also if no level is left for it. -/
theorem barren_rule
    {rule : Rule}
    (body : ∀ levels, grammar.Barren levels (grammar.pattern rule) cursor)
    (closed : rule = .somethingContainingParentheses →
      ∀ token ∈ cursor.rest.head?, token.opensArgument = false)
    (levels : Nat) :
    grammar.Barren levels (.rule rule) cursor := by
  have hopeless : grammar.Hopeless rule cursor := by
    obtain ⟨enough, limit⟩ := exists_levels (grammar.pattern rule) cursor
    obtain ⟨later, read, _⟩ := body enough .empty (harmless_empty cursor)
    refine ⟨?_, closed⟩
    rw [nodeAt?_eq, ← limit enough (Nat.le_refl _), read]
    rfl
  intro failures harmless
  rw [Pattern.read_rule]
  unfold readRule
  split
  next => exact ⟨failures, rfl, harmless⟩
  next =>
    cases levels with
    | zero => exact ⟨_, rfl, harmless.insert hopeless⟩
    | succ levels =>
        obtain ⟨later, read, harmlessLater⟩ := body levels failures harmless
        simp only [read]
        exact ⟨_, rfl, harmlessLater.insert hopeless⟩

/-- With a harmless memory, a rule is read as if there were no limit. -/
def Faithful (grammar : Grammar) (levels : Nat) (rule : Rule) : Prop :=
  ∀ cursor failures, grammar.Harmless cursor failures →
    ∃ later, grammar.readRule levels rule cursor failures = (grammar.nodeAt? rule cursor, later) ∧
      grammar.Harmless cursor later

/-- A pattern is read as if there were no limit if the rules that it calls are. -/
theorem exists_of_faithful
    {pattern : Pattern}
    (faithful : ∀ called ∈ pattern.calls, grammar.Faithful levels called)
    (harmless : grammar.Harmless cursor failures) :
    ∃ later, pattern.read (grammar.readRule levels) cursor failures =
        (grammar.treesAt? pattern cursor, later) ∧
      grammar.Harmless cursor later := by
  have simulates :
      Simulates (fun place => ∃ tokens, cursor.Advances tokens place)
        (fun place => ∃ tokens, cursor.Advances tokens place)
        (fun now (_ : Unit) => grammar.Harmless cursor now)
        (pattern.read (grammar.readRule levels))
        (pattern.read fun rule place (_ : Unit) => (grammar.nodeAt? rule place, ())) := by
    refine simulates_read ?_ fun called mentioned => ?_
    · rintro place tokens after ⟨more, reached⟩ advances
      exact ⟨_, reached.append advances⟩
    · rintro place now _ ⟨tokens, reached⟩ harmless
      obtain ⟨later, read, harmlessLater⟩ :=
        faithful called mentioned place now (harmless.advance reached)
      rw [read]
      have grows : ((Pattern.rule called).read (grammar.readRule levels) place now).2.Extends now
          place.position := extends_read levels (.rule called) place now
      rw [Pattern.read_rule, read] at grows
      refine ⟨rfl, harmless.of_extends harmlessLater grows reached, ?_⟩
      intro node after found
      exact ⟨_, reached.append (derives_of_nodeAt? found).advances⟩
  obtain ⟨same, harmlessLater, _⟩ :=
    simulates cursor failures () ⟨[], .refl cursor⟩ harmless
  exact ⟨_, Prod.ext same rfl, harmlessLater⟩

/-- Where a pattern that is read in this way fails, it is barren. -/
theorem barren_of_faithful
    {pattern : Pattern}
    (faithful : ∀ called ∈ pattern.calls, grammar.Faithful levels called)
    (failed : grammar.treesAt? pattern cursor = none) :
    grammar.Barren levels pattern cursor := by
  intro failures harmless
  obtain ⟨later, read, harmlessLater⟩ := exists_of_faithful faithful harmless
  exact ⟨later, by rw [read, failed], harmlessLater⟩

/-- One level more than the rules below it need is enough for a rule. -/
theorem faithful_rule
    {rule : Rule}
    (noCall : rule ≠ .somethingContainingParentheses)
    (faithful : ∀ called ∈ (grammar.pattern rule).calls, grammar.Faithful levels called) :
    grammar.Faithful (levels + 1) rule := by
  intro cursor failures harmless
  have closed : rule = .somethingContainingParentheses →
      ∀ token ∈ cursor.rest.head?, token.opensArgument = false :=
    fun isCall => absurd isCall noCall
  cases known : failures.contains rule cursor.position with
  | true =>
      have hopeless := harmless rule [] cursor (.refl cursor) known
      refine ⟨failures, ?_, harmless⟩
      rw [readRule_of_contains known, hopeless.1]
  | false =>
      obtain ⟨later, body, harmlessLater⟩ := exists_of_faithful faithful harmless
      cases read : grammar.treesAt? (grammar.pattern rule) cursor with
      | none =>
          have failed : grammar.nodeAt? rule cursor = none := by
            rw [nodeAt?_eq, read]
            rfl
          rw [read] at body
          rw [readRule_of_none known body, failed]
          exact ⟨_, rfl, harmlessLater.insert ⟨failed, closed⟩⟩
      | some found =>
          rw [read] at body
          rw [readRule_of_some known body, nodeAt?_eq, read]
          exact ⟨_, rfl, harmlessLater⟩

/-- A rule that calls no rules needs a single level. -/
theorem faithful_of_calls_eq_nil
    (unmocked : grammar.mocked = [])
    {rule : Rule}
    (noCall : rule ≠ .somethingContainingParentheses)
    (callsNone : rule.pattern.calls = [])
    (levels : Nat) :
    grammar.Faithful (levels + 1) rule :=
  faithful_rule noCall (by simp [pattern_eq unmocked, callsNone])

/-- What fails with levels enough fails with more of them. -/
theorem barren_of_readRule_eq_none
    {rule : Rule}
    {few : Nat}
    (faithful : ∀ many, few ≤ many → grammar.Faithful many rule)
    (harmless : grammar.Harmless cursor failures)
    (failed : grammar.readRule few rule cursor failures = (none, later))
    (many : Nat)
    (le : few ≤ many) :
    grammar.Barren many (.rule rule) cursor := by
  obtain ⟨last, read, _⟩ := faithful few (Nat.le_refl few) cursor failures harmless
  rw [failed, Prod.mk.injEq] at read
  refine barren_of_faithful ?_ (by rw [treesAt?_rule, ← read.1]; rfl)
  intro called mentioned
  cases List.mem_singleton.1 mentioned
  exact faithful many le

end Grammar
end PreprocessorSyntax
