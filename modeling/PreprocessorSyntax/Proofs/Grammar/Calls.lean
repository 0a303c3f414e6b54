import PreprocessorSyntax.Proofs.Grammar.Equations

/-!
# Runs of the parser and their active calls

`Grammar.Runs` is the parser as a machine: repetition goes on until an item
fails, nothing but that bounds it, and the limit on nesting is compared with
the calls that are active.  A log keeps every stack of active calls that ever
occurs, and whether a call was refused for want of levels.

Every call has one run, because items of repetitions take tokens.  Among the
calls that start at one place the rank goes down, so no two of them are for the
same rule, and the number of active calls is bounded by the number of tokens.
-/

namespace PreprocessorSyntax

/-- A call of a rule at a place. -/
structure Call where
  /-- The rule that is called. -/
  rule : Rule
  /-- The number of tokens in front of the place. -/
  position : Nat
  deriving DecidableEq, Repr

/-- What a run keeps in mind, and what is written down about it. -/
structure Log where
  /-- The attempts that are known to fail. -/
  failures : Failures
  /-- All stacks of active calls so far, each with the innermost call first. -/
  callStacks : List (List Call)
  /-- Whether a call was refused because of the limit on nesting. -/
  refused : Bool

namespace Log

/-- Nothing has happened yet. -/
def start : Log :=
  { failures := .empty, callStacks := [], refused := false }

/-- A call becomes active. -/
def enter (log : Log) (stack : List Call) : Log :=
  { log with callStacks := stack :: log.callStacks }

/-- A call fails, which is remembered. -/
def fail (log : Log) (call : Call) : Log :=
  { log with failures := log.failures.insert call.rule call.position }

/-- A call is refused. -/
def refuse (log : Log) : Log :=
  { log with refused := true }

/--
No stack holds a call twice or is longer than a bound, and a limit on nesting
that is not below this bound has refused nothing.
-/
structure Within (log : Log) (bound maxDepth : Nat) : Prop where
  /-- The calls that are active at one time are different from each other. -/
  nodup : ∀ stack ∈ log.callStacks, stack.Nodup
  /-- There are never more active calls than the bound says. -/
  length_le : ∀ stack ∈ log.callStacks, stack.length ≤ bound
  /-- A limit that is not below the bound is never reached. -/
  unrefused : bound ≤ maxDepth → log.refused = false

namespace Within

variable {log : Log} {bound maxDepth : Nat} {stack : List Call}

theorem enter
    (within : log.Within bound maxDepth)
    (nodup : stack.Nodup)
    (length_le : stack.length ≤ bound) :
    (log.enter stack).Within bound maxDepth where
  nodup := List.forall_mem_cons.2 ⟨nodup, within.nodup⟩
  length_le := List.forall_mem_cons.2 ⟨length_le, within.length_le⟩
  unrefused := within.unrefused

theorem fail (within : log.Within bound maxDepth) (call : Call) :
    (log.fail call).Within bound maxDepth :=
  ⟨within.nodup, within.length_le, within.unrefused⟩

theorem refuse (within : log.Within bound maxDepth) (reached : maxDepth < bound) :
    log.refuse.Within bound maxDepth :=
  ⟨within.nodup, within.length_le, fun enough => absurd enough (Nat.not_le_of_lt reached)⟩

end Within

theorem within_start (bound maxDepth : Nat) : start.Within bound maxDepth where
  nodup := List.forall_mem_nil _
  length_le := List.forall_mem_nil _
  unrefused _ := rfl

end Log

namespace Pattern

/-- Whether every item that is repeated takes a token each time. -/
def progresses : Pattern → Bool
  | .token _ => true
  | .rule _ => true
  | .ahead _ => true
  | .absent _ => true
  | .empty => true
  | .sequence first second => first.progresses && second.progresses
  | .choice preferred alternative => preferred.progresses && alternative.progresses
  | .many item => item.consumes && item.progresses

end Pattern

/-- No repetition of the grammar can go on without reading. -/
theorem Rule.progresses_pattern (rule : Rule) : rule.pattern.progresses = true := by
  cases rule <;> rfl

namespace Grammar

/--
The run of a pattern at a place, below some active calls: how it reads, and what
the log is before and behind it.
-/
inductive Runs (grammar : Grammar) :
    List Call → Pattern → Cursor → Log → Pattern.Reading (List Tree) → Log → Prop
  | stuck
      {active : List Call} {accepts : Token → Bool} {cursor : Cursor} {log : Log}
      (ends : cursor.bump? = none) :
      Runs grammar active (.token accepts) cursor log none log
  | mismatch
      {active : List Call} {accepts : Token → Bool} {cursor after : Cursor} {log : Log}
      {found : Token}
      (read : cursor.bump? = some (found, after))
      (rejected : accepts found = false) :
      Runs grammar active (.token accepts) cursor log none log
  | token
      {active : List Call} {accepts : Token → Bool} {cursor after : Cursor} {log : Log}
      {found : Token}
      (read : cursor.bump? = some (found, after))
      (accepted : accepts found = true) :
      Runs grammar active (.token accepts) cursor log (some ([.leaf found], after)) log
  | ahead
      {active : List Call} {accepts : TokenKind → Bool} {cursor : Cursor} {log : Log} :
      Runs grammar active (.ahead accepts) cursor log
        (if accepts cursor.peekKind then some ([], cursor) else none) log
  | absent
      {active : List Call} {refused : Rule} {cursor : Cursor} {log later : Log}
      {reading : Pattern.Reading (List Tree)}
      (attempt : Runs grammar active (.rule refused) cursor log reading later) :
      Runs grammar active (.absent refused) cursor log
        (if reading.isNone then some ([], cursor) else none) later
  | empty
      {active : List Call} {cursor : Cursor} {log : Log} :
      Runs grammar active .empty cursor log (some ([], cursor)) log
  | broken
      {active : List Call} {first second : Pattern} {cursor : Cursor} {log later : Log}
      (front : Runs grammar active first cursor log none later) :
      Runs grammar active (.sequence first second) cursor log none later
  | sequence
      {active : List Call} {first second : Pattern} {cursor middle : Cursor}
      {log between later : Log} {trees : List Tree} {reading : Pattern.Reading (List Tree)}
      (front : Runs grammar active first cursor log (some (trees, middle)) between)
      (back : Runs grammar active second middle between reading later) :
      Runs grammar active (.sequence first second) cursor log
        (reading.map fun found => (trees ++ found.1, found.2)) later
  | preferred
      {active : List Call} {preferred alternative : Pattern} {cursor : Cursor} {log later : Log}
      {found : List Tree × Cursor}
      (chosen : Runs grammar active preferred cursor log (some found) later) :
      Runs grammar active (.choice preferred alternative) cursor log (some found) later
  | alternative
      {active : List Call} {preferred alternative : Pattern} {cursor : Cursor}
      {log between later : Log} {reading : Pattern.Reading (List Tree)}
      (failed : Runs grammar active preferred cursor log none between)
      (chosen : Runs grammar active alternative cursor between reading later) :
      Runs grammar active (.choice preferred alternative) cursor log reading later
  | stop
      {active : List Call} {item : Pattern} {cursor : Cursor} {log later : Log}
      (failed : Runs grammar active item cursor log none later) :
      Runs grammar active (.many item) cursor log (some ([], cursor)) later
  | further
      {active : List Call} {item : Pattern} {cursor middle after : Cursor}
      {log between later : Log} {trees more : List Tree}
      (front : Runs grammar active item cursor log (some (trees, middle)) between)
      (back : Runs grammar active (.many item) middle between (some (more, after)) later) :
      Runs grammar active (.many item) cursor log (some (trees ++ more, after)) later
  | known
      {active : List Call} {called : Rule} {cursor : Cursor} {log : Log}
      (remembered : log.failures.contains called cursor.position = true) :
      Runs grammar active (.rule called) cursor log none
        (log.enter (⟨called, cursor.position⟩ :: active))
  | refused
      {active : List Call} {called : Rule} {cursor : Cursor} {log : Log}
      (unknown : log.failures.contains called cursor.position = false)
      (limit : grammar.maxDepth ≤ active.length) :
      Runs grammar active (.rule called) cursor log none
        (((log.enter (⟨called, cursor.position⟩ :: active)).fail ⟨called, cursor.position⟩).refuse)
  | failed
      {active : List Call} {called : Rule} {cursor : Cursor} {log later : Log}
      (unknown : log.failures.contains called cursor.position = false)
      (room : active.length < grammar.maxDepth)
      (body : Runs grammar (⟨called, cursor.position⟩ :: active) (grammar.pattern called) cursor
        (log.enter (⟨called, cursor.position⟩ :: active)) none later) :
      Runs grammar active (.rule called) cursor log none (later.fail ⟨called, cursor.position⟩)
  | matched
      {active : List Call} {called : Rule} {cursor after : Cursor} {log later : Log}
      {trees : List Tree}
      (unknown : log.failures.contains called cursor.position = false)
      (room : active.length < grammar.maxDepth)
      (body : Runs grammar (⟨called, cursor.position⟩ :: active) (grammar.pattern called) cursor
        (log.enter (⟨called, cursor.position⟩ :: active)) (some (trees, after)) later) :
      Runs grammar active (.rule called) cursor log
        (some ([(called.build trees).toTree], after)) later

variable {grammar : Grammar} {active : List Call} {pattern item : Pattern} {rule : Rule}
variable {cursor after : Cursor} {log later : Log}

/-- What a run reads is a derivation. -/
theorem Runs.derives
    {reading : Pattern.Reading (List Tree)}
    (run : grammar.Runs active pattern cursor log reading later) :
    ∀ trees after, reading = some (trees, after) → grammar.Derives pattern cursor trees after := by
  induction run with
  | stuck _ => rintro _ _ ⟨⟩
  | mismatch _ _ => rintro _ _ ⟨⟩
  | token read accepted =>
      rintro _ _ ⟨⟩
      exact .token read accepted
  | ahead =>
      intro trees after found
      split at found
      next accepted => cases found; exact .ahead accepted
      next => cases found
  | absent _ _ =>
      intro trees after found
      split at found
      next => cases found; exact .absent _ _
      next => cases found
  | empty =>
      rintro _ _ ⟨⟩
      exact .empty _
  | broken _ _ => rintro _ _ ⟨⟩
  | sequence _ _ frontHypothesis backHypothesis =>
      intro trees after found
      obtain ⟨⟨more, last⟩, rfl, equal⟩ := Option.map_eq_some_iff.1 found
      cases equal
      exact .sequence (frontHypothesis _ _ rfl) (backHypothesis _ _ rfl)
  | preferred _ inductionHypothesis =>
      intro trees after found
      exact .preferred (inductionHypothesis trees after found)
  | alternative _ _ _ inductionHypothesis =>
      intro trees after found
      exact .alternative (inductionHypothesis trees after found)
  | stop _ _ =>
      rintro _ _ ⟨⟩
      exact .stop _ _
  | further _ _ frontHypothesis backHypothesis =>
      rintro _ _ ⟨⟩
      exact .further (frontHypothesis _ _ rfl) (backHypothesis _ _ rfl)
  | known _ => rintro _ _ ⟨⟩
  | refused _ _ => rintro _ _ ⟨⟩
  | failed _ _ _ _ => rintro _ _ ⟨⟩
  | matched _ _ _ inductionHypothesis =>
      rintro _ _ ⟨⟩
      exact .rule (inductionHypothesis _ _ rfl)

/-- There is one run only: how it goes is determined by where it starts. -/
theorem Runs.deterministic
    {reading other : Pattern.Reading (List Tree)}
    {last : Log}
    (run : grammar.Runs active pattern cursor log reading later)
    (runToo : grammar.Runs active pattern cursor log other last) :
    other = reading ∧ last = later := by
  induction run generalizing other last with
  | stuck ends =>
      cases runToo with
      | stuck _ => exact ⟨rfl, rfl⟩
      | mismatch read _ => simp [read] at ends
      | token read _ => simp [read] at ends
  | mismatch read rejected =>
      cases runToo with
      | stuck ends => simp [read] at ends
      | mismatch _ _ => exact ⟨rfl, rfl⟩
      | token readToo accepted =>
          rw [read] at readToo
          cases readToo
          simp [rejected] at accepted
  | token read accepted =>
      cases runToo with
      | stuck ends => simp [read] at ends
      | mismatch readToo rejected =>
          rw [read] at readToo
          cases readToo
          simp [rejected] at accepted
      | token readToo _ =>
          rw [read] at readToo
          cases readToo
          exact ⟨rfl, rfl⟩
  | ahead =>
      cases runToo
      exact ⟨rfl, rfl⟩
  | absent _ inductionHypothesis =>
      cases runToo with
      | absent attempt =>
          obtain ⟨rfl, rfl⟩ := inductionHypothesis attempt
          exact ⟨rfl, rfl⟩
  | empty =>
      cases runToo
      exact ⟨rfl, rfl⟩
  | broken _ inductionHypothesis =>
      cases runToo with
      | broken front => exact ⟨rfl, (inductionHypothesis front).2⟩
      | sequence front _ => cases (inductionHypothesis front).1
  | sequence _ _ frontHypothesis backHypothesis =>
      cases runToo with
      | broken front => cases (frontHypothesis front).1
      | sequence front back =>
          obtain ⟨equal, rfl⟩ := frontHypothesis front
          cases equal
          obtain ⟨rfl, rfl⟩ := backHypothesis back
          exact ⟨rfl, rfl⟩
  | preferred _ inductionHypothesis =>
      cases runToo with
      | preferred chosen => exact inductionHypothesis chosen
      | alternative failed _ => cases (inductionHypothesis failed).1
  | alternative _ _ failedHypothesis chosenHypothesis =>
      cases runToo with
      | preferred chosen => cases (failedHypothesis chosen).1
      | alternative failed chosen =>
          obtain ⟨_, rfl⟩ := failedHypothesis failed
          exact chosenHypothesis chosen
  | stop _ inductionHypothesis =>
      cases runToo with
      | stop failed => exact ⟨rfl, (inductionHypothesis failed).2⟩
      | further front _ => cases (inductionHypothesis front).1
  | further _ _ frontHypothesis backHypothesis =>
      cases runToo with
      | stop failed => cases (frontHypothesis failed).1
      | further front back =>
          obtain ⟨equal, rfl⟩ := frontHypothesis front
          cases equal
          obtain ⟨equalMore, rfl⟩ := backHypothesis back
          cases equalMore
          exact ⟨rfl, rfl⟩
  | known remembered =>
      cases runToo with
      | known _ => exact ⟨rfl, rfl⟩
      | refused unknown _ => simp [remembered] at unknown
      | failed unknown _ _ => simp [remembered] at unknown
      | matched unknown _ _ => simp [remembered] at unknown
  | refused unknown limit =>
      cases runToo with
      | known remembered => simp [remembered] at unknown
      | refused _ _ => exact ⟨rfl, rfl⟩
      | failed _ room _ => omega
      | matched _ room _ => omega
  | failed unknown room _ inductionHypothesis =>
      cases runToo with
      | known remembered => simp [remembered] at unknown
      | refused _ limit => omega
      | failed _ _ body =>
          obtain ⟨_, rfl⟩ := inductionHypothesis body
          exact ⟨rfl, rfl⟩
      | matched _ _ body => cases (inductionHypothesis body).1
  | matched unknown room _ inductionHypothesis =>
      cases runToo with
      | known remembered => simp [remembered] at unknown
      | refused _ limit => omega
      | failed _ _ body => cases (inductionHypothesis body).1
      | matched _ _ body =>
          obtain ⟨equal, rfl⟩ := inductionHypothesis body
          cases equal
          exact ⟨rfl, rfl⟩

/-! ## Every call has a run -/

/-- With some levels left, a pattern has a run that reads and remembers what the parser does. -/
def Performs (grammar : Grammar) (levels : Nat) (pattern : Pattern) : Prop :=
  ∀ (active : List Call) (cursor : Cursor) (log : Log),
    active.length + levels = grammar.maxDepth →
      ∃ later,
        grammar.Runs active pattern cursor log
          (pattern.read (grammar.readRule levels) cursor log.failures).1 later ∧
        later.failures = (pattern.read (grammar.readRule levels) cursor log.failures).2

theorem performs_many
    {levels : Nat}
    (consumes : item.consumes = true)
    (items : grammar.Performs levels item) :
    grammar.Performs levels (.many item) := by
  intro active cursor log depth
  have loop (bound : List Token) (cursor : Cursor) (log : Log)
      (enough : cursor.upcoming.length ≤ bound.length) :
      ∃ later,
        grammar.Runs active (.many item) cursor log
          (some (Pattern.readMany (item.read (grammar.readRule levels)) bound cursor
            log.failures).1) later ∧
        later.failures = (Pattern.readMany (item.read (grammar.readRule levels)) bound cursor
            log.failures).2 := by
    obtain ⟨between, run, same⟩ := items active cursor log depth
    induction bound generalizing cursor log between with
    | nil =>
        unfold Pattern.readMany
        rcases read : item.read (grammar.readRule levels) cursor log.failures with
          ⟨_ | ⟨trees, middle⟩, failures⟩
        · rw [read] at run same
          exact ⟨between, .stop run, same⟩
        · have derived := derives_of_read (derives_of_readRule levels) item read
          have shorter := derived.upcoming_lt consumes
          simp only [List.length_nil] at enough
          omega
    | cons token bound inductionHypothesis =>
        unfold Pattern.readMany
        rcases read : item.read (grammar.readRule levels) cursor log.failures with
          ⟨_ | ⟨trees, middle⟩, failures⟩
        · rw [read] at run same
          exact ⟨between, .stop run, same⟩
        · have derived := derives_of_read (derives_of_readRule levels) item read
          have shorter := derived.upcoming_lt consumes
          rw [read] at run same
          simp only [List.length_cons] at enough
          obtain ⟨next, runNext, sameNext⟩ := items active middle between depth
          obtain ⟨later, back, sameLater⟩ :=
            inductionHypothesis middle between (by omega) next runNext sameNext
          rw [same] at back sameLater
          exact ⟨later, .further run back, sameLater⟩
  exact loop cursor.rest cursor log (upcoming_length_le cursor)

/-- A pattern performs if its rules do, provided repetition takes tokens. -/
theorem performs_read
    {levels : Nat}
    (rules : ∀ rule, grammar.Performs levels (.rule rule))
    {pattern : Pattern}
    (progresses : pattern.progresses = true) :
    grammar.Performs levels pattern := by
  induction pattern with
  | token accepts =>
      intro active cursor log _
      simp only [Pattern.read]
      split
      next ends => exact ⟨log, .stuck ends, rfl⟩
      next found after read =>
        split
        next accepted => exact ⟨log, .token read accepted, rfl⟩
        next rejected => exact ⟨log, .mismatch read (by simpa using rejected), rfl⟩
  | rule called => exact rules called
  | ahead accepts =>
      intro active cursor log _
      exact ⟨log, .ahead, rfl⟩
  | absent refused =>
      intro active cursor log depth
      obtain ⟨later, run, same⟩ := rules refused active cursor log depth
      rw [Pattern.read_rule] at run same
      rw [Pattern.read_absent]
      refine ⟨later, ?_, same⟩
      simpa using Runs.absent run
  | empty =>
      intro active cursor log _
      exact ⟨log, .empty, rfl⟩
  | sequence first second firstHypothesis secondHypothesis =>
      intro active cursor log depth
      obtain ⟨front, back⟩ := Bool.and_eq_true_iff.1 progresses
      obtain ⟨between, run, same⟩ := firstHypothesis front active cursor log depth
      simp only [Pattern.read]
      split
      next failures read =>
        rw [read] at run same
        exact ⟨between, .broken run, same⟩
      next trees middle failures read =>
        rw [read] at run same
        obtain ⟨later, runBack, sameLater⟩ := secondHypothesis back active middle between depth
        rw [same] at runBack sameLater
        refine ⟨later, ?_, ?_⟩
        · have whole := Runs.sequence run runBack
          split <;> simp_all
        · split <;> simp_all
  | choice preferred alternative preferredHypothesis alternativeHypothesis =>
      intro active cursor log depth
      obtain ⟨first, second⟩ := Bool.and_eq_true_iff.1 progresses
      obtain ⟨between, run, same⟩ := preferredHypothesis first active cursor log depth
      simp only [Pattern.read]
      split
      next found failures read =>
        rw [read] at run same
        exact ⟨between, .preferred run, same⟩
      next failures read =>
        rw [read] at run same
        obtain ⟨later, runBack, sameLater⟩ := alternativeHypothesis second active cursor between depth
        rw [same] at runBack sameLater
        exact ⟨later, .alternative run runBack, sameLater⟩
  | many item inductionHypothesis =>
      obtain ⟨consumes, further⟩ := Bool.and_eq_true_iff.1 progresses
      exact performs_many consumes (inductionHypothesis further)

theorem progresses_pattern (rule : Rule) : (grammar.pattern rule).progresses = true := by
  unfold pattern
  split
  next => rfl
  next => exact rule.progresses_pattern

/-- Every rule has a run, whatever is mocked and however many levels are left. -/
theorem performs_rule (levels : Nat) (rule : Rule) : grammar.Performs levels (.rule rule) := by
  induction levels generalizing rule with
  | zero =>
      intro active cursor log depth
      rw [Pattern.read_rule]
      unfold readRule
      cases known : log.failures.contains rule cursor.position with
      | true => exact ⟨_, .known known, rfl⟩
      | false => exact ⟨_, .refused known (by omega), rfl⟩
  | succ levels inductionHypothesis =>
      intro active cursor log depth
      rw [Pattern.read_rule]
      unfold readRule
      cases known : log.failures.contains rule cursor.position with
      | true => exact ⟨_, .known known, rfl⟩
      | false =>
          obtain ⟨later, run, same⟩ :=
            performs_read inductionHypothesis (progresses_pattern rule)
              (⟨rule, cursor.position⟩ :: active) cursor
              (log.enter (⟨rule, cursor.position⟩ :: active))
              (by simp only [List.length_cons]; omega)
          simp only [Log.enter] at run same
          simp only [Bool.false_eq_true, if_false]
          rcases read : (grammar.pattern rule).read (grammar.readRule levels) cursor
            log.failures with ⟨_ | ⟨trees, after⟩, failures⟩
          · rw [read] at run same
            exact ⟨_, .failed known (by omega) run, by simp [Log.fail, same]⟩
          · rw [read] at run same
            exact ⟨later, .matched known (by omega) run, same⟩

/-- The active calls are different, and those at the current place have ranks of a bound or more. -/
structure Descends (active : List Call) (cursor : Cursor) (bound limit : Nat) : Prop where
  /-- No call is active twice. -/
  nodup : active.Nodup
  /-- Calls started earlier, or at this place with a rank that is not below the bound. -/
  before : ∀ call ∈ active,
    call.position < cursor.position ∨ call.position = cursor.position ∧ bound ≤ call.rule.rank
  /-- Every token and every rank that is left may add a call. -/
  length_le : active.length + 54 * cursor.upcoming.length + bound ≤ limit

namespace Descends

variable {bound limit : Nat} {tokens : List Token}

/-- A rule with a rank below the bound may be called. -/
theorem call
    (descends : Descends active cursor bound limit)
    (lower : rule.rank < bound) :
    Descends (⟨rule, cursor.position⟩ :: active) cursor rule.rank limit where
  nodup := by
    refine List.nodup_cons.2 ⟨?_, descends.nodup⟩
    intro present
    have apart := descends.before _ present
    simp only at apart
    omega
  before := by
    refine List.forall_mem_cons.2 ⟨.inr ⟨rfl, Nat.le_refl _⟩, ?_⟩
    intro call present
    have earlier := descends.before call present
    omega
  length_le := by
    have fits := descends.length_le
    simp only [List.length_cons]
    omega

/-- Once a token has been read every rule may be called. -/
theorem consume
    (descends : Descends active cursor bound limit)
    (advances : cursor.Advances tokens after)
    (nonempty : tokens ≠ []) :
    Descends active after 54 limit where
  nodup := descends.nodup
  before := by
    intro call present
    have earlier := descends.before call present
    have positive := List.length_pos_iff.2 nonempty
    have place := advances.position
    omega
  length_le := by
    have fits := descends.length_le
    have positive := List.length_pos_iff.2 nonempty
    have lengths := advances.upcoming_length
    omega

/-- Until then the same rules may be called. -/
theorem advance
    (descends : Descends active cursor bound limit)
    (advances : cursor.Advances tokens after) :
    Descends active after bound limit where
  nodup := descends.nodup
  before := by
    intro call present
    have earlier := descends.before call present
    have place := advances.position
    omega
  length_le := by
    have fits := descends.length_le
    have lengths := advances.upcoming_length
    omega

end Descends

/-- One run keeps the log within the limit if the calls below which it takes place descend. -/
theorem Runs.within
    {bound limit : Nat}
    {reading : Pattern.Reading (List Tree)}
    (run : grammar.Runs active pattern cursor log reading later)
    (lower : pattern.descends bound = true)
    (descends : Descends active cursor bound limit)
    (within : log.Within limit grammar.maxDepth) :
    later.Within limit grammar.maxDepth := by
  induction run generalizing bound with
  | stuck _ => exact within
  | mismatch _ _ => exact within
  | token _ _ => exact within
  | ahead => exact within
  | absent _ inductionHypothesis => exact inductionHypothesis lower descends within
  | empty => exact within
  | broken _ inductionHypothesis =>
      exact inductionHypothesis (Bool.and_eq_true_iff.1 lower).1 descends within
  | sequence front _ frontHypothesis backHypothesis =>
      obtain ⟨lowerFront, behind⟩ := Bool.and_eq_true_iff.1 lower
      have derived := front.derives _ _ rfl
      have withinFront := frontHypothesis lowerFront descends within
      rcases Bool.or_eq_true_iff.1 behind with consumes | lowerBack
      · have nonempty := derived.tokensOf_ne_nil consumes
        exact backHypothesis (Pattern.descends_rank_bound _)
          (descends.consume derived.advances nonempty) withinFront
      · exact backHypothesis lowerBack (descends.advance derived.advances) withinFront
  | preferred _ inductionHypothesis =>
      exact inductionHypothesis (Bool.and_eq_true_iff.1 lower).1 descends within
  | alternative _ _ failedHypothesis chosenHypothesis =>
      obtain ⟨lowerFirst, lowerSecond⟩ := Bool.and_eq_true_iff.1 lower
      exact chosenHypothesis lowerSecond descends (failedHypothesis lowerFirst descends within)
  | stop _ inductionHypothesis => exact inductionHypothesis lower descends within
  | further front _ frontHypothesis backHypothesis =>
      have derived := front.derives _ _ rfl
      exact backHypothesis lower (descends.advance derived.advances)
        (frontHypothesis lower descends within)
  | known _ =>
      have entered := descends.call (by simpa [Pattern.descends] using lower)
      exact within.enter entered.nodup (by have fits := entered.length_le; omega)
  | refused _ reached =>
      have entered := descends.call (by simpa [Pattern.descends] using lower)
      have fits := entered.length_le
      rw [List.length_cons] at fits
      exact ((within.enter entered.nodup (by rw [List.length_cons]; omega)).fail _).refuse (by omega)
  | failed _ _ _ inductionHypothesis =>
      have entered := descends.call (by simpa [Pattern.descends] using lower)
      refine (inductionHypothesis (descends_pattern _) entered ?_).fail _
      exact within.enter entered.nodup (by have fits := entered.length_le; omega)
  | matched _ _ _ inductionHypothesis =>
      have entered := descends.call (by simpa [Pattern.descends] using lower)
      refine inductionHypothesis (descends_pattern _) entered ?_
      exact within.enter entered.nodup (by have fits := entered.length_le; omega)

/--
The grammar has no left recursion, so a limit on nesting can be too large to
matter.  A parse has exactly one run.  The calls that are active at one time and
start at one place are for different rules, hence never more than 54 for each
token in front of the end of the input and 54 more.  A limit of that size
refuses no call, and every larger one leads to the same result.
-/
theorem exists_runs_of_parseTokens (grammar : Grammar) (rule : Rule) (tokens : List Token) :
    (∃ (reading : Pattern.Reading Node) (log : Log),
      (∀ trees last,
        grammar.Runs [] (.rule rule) (Cursor.ofTokens tokens).trivia.2 .start trees last ↔
          trees = reading.map (fun found => ([found.1.toTree], found.2)) ∧ last = log) ∧
      grammar.parseTokens rule tokens = rootOf? rule tokens (fun _ => reading) ∧
      (∀ stack ∈ log.callStacks, stack.Nodup ∧
        stack.length ≤ 54 * ((Cursor.ofTokens tokens).upcoming.length + 1)) ∧
      (54 * ((Cursor.ofTokens tokens).upcoming.length + 1) ≤ grammar.maxDepth →
        log.refused = false)) ∧
    ∀ depth, 54 * ((Cursor.ofTokens tokens).upcoming.length + 1) ≤ depth →
      parseTokens { grammar with maxDepth := depth } rule tokens =
        parseTokens
          { grammar with maxDepth := 54 * ((Cursor.ofTokens tokens).upcoming.length + 1) }
          rule tokens := by
  refine ⟨?_, ?_⟩
  · obtain ⟨log, run, _⟩ := performs_rule grammar.maxDepth rule []
      (Cursor.ofTokens tokens).trivia.2 .start (Nat.zero_add _)
    have descends : Descends [] (Cursor.ofTokens tokens).trivia.2 54
        (54 * ((Cursor.ofTokens tokens).upcoming.length + 1)) := by
      refine ⟨List.nodup_nil, List.forall_mem_nil _, ?_⟩
      have shorter := (Cursor.ofTokens tokens).advances_trivia.upcoming_length
      rw [List.length_nil]
      omega
    have within := run.within (Pattern.descends_rank_bound _) descends (Log.within_start _ _)
    rw [Pattern.read_rule] at run
    refine ⟨(grammar.readRule grammar.maxDepth rule (Cursor.ofTokens tokens).trivia.2 .empty).1, log,
      ?_, ?_, ?_, within.unrefused⟩
    · intro trees last
      constructor
      · exact run.deterministic
      · rintro ⟨rfl, rfl⟩
        exact run
    · exact rootOf?_congr rfl
    · exact fun stack logged => ⟨within.nodup stack logged, within.length_le stack logged⟩
  · have read (depth : Nat)
        (enough : 54 * ((Cursor.ofTokens tokens).upcoming.length + 1) ≤ depth) :
        (readRule { grammar with maxDepth := depth } depth rule
          (Cursor.ofTokens tokens).trivia.2 .empty).1 =
            grammar.nodeAt? rule (Cursor.ofTokens tokens).trivia.2 := by
      rw [readRule_withDepth, readRule_eq_nodeAt? enough]
    intro depth enough
    exact rootOf?_congr ((read depth enough).trans (read _ (Nat.le_refl _)).symm)

/-- Two tokens allow for 162 active calls, also if arguments are mocked. -/
theorem exists_runs_of_parseTokens_two_tokens :
    let tokens : List Token :=
      [⟨.identifier, "f", .unknown⟩, ⟨.punctuator .leftParen, "(", .unknown⟩]
    let grammar : Grammar := { maxDepth := 162, mocked := [.argument] }
    54 * ((Cursor.ofTokens tokens).upcoming.length + 1) ≤ 162 ∧
      (∃ log, (∃ reading, grammar.Runs [] (.rule .expression) (Cursor.ofTokens tokens).trivia.2
          .start reading log) ∧
        log.refused = false) ∧
      parseTokens { grammar with maxDepth := 1024 } .expression tokens =
        grammar.parseTokens .expression tokens := by
  intro tokens grammar
  have enough : 54 * ((Cursor.ofTokens tokens).upcoming.length + 1) ≤ 162 := by decide
  obtain ⟨⟨reading, log, runs, _, _, unrefused⟩, same⟩ :=
    exists_runs_of_parseTokens grammar .expression tokens
  exact ⟨enough, ⟨log, ⟨_, (runs _ _).2 ⟨rfl, rfl⟩⟩, unrefused enough⟩,
    (same 1024 (by decide)).trans (same 162 enough).symm⟩

end Grammar
end PreprocessorSyntax
