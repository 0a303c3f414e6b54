import PreprocessorSyntax.Proofs.Grammar.Reading

/-!
# Readings side by side

What a reader keeps in mind may differ from one attempt to another and still
lead to the same reading.  `Grammar.Simulates` compares two readers: wherever
their states are related they read the same, and their states stay related.
A pattern passes this on from the rules that it calls, so a fact about what is
kept in mind has to be shown for rules only.

Two consequences carry the proofs about directive lines.  A pattern without
rules reads the same in every state, and a reading depends on no failure that
was noted in front of the place where it starts.
-/

namespace PreprocessorSyntax
namespace Pattern

/-- The rules that a pattern mentions. -/
def calls : Pattern → List Rule
  | .token _ => []
  | .rule called => [called]
  | .ahead _ => []
  | .absent refused => [refused]
  | .empty => []
  | .sequence first second => first.calls ++ second.calls
  | .choice preferred alternative => preferred.calls ++ alternative.calls
  | .many item => item.calls

end Pattern

namespace Grammar

/--
From some places on, and from related states, two readers read the same and go
on to places of another kind, and their states stay related.
-/
def Simulates
    {State Other Result : Type}
    (start stop : Cursor → Prop)
    (related : State → Other → Prop)
    (reader : Pattern.Reader State Result)
    (model : Pattern.Reader Other Result) : Prop :=
  ∀ cursor state other, start cursor → related state other →
    (reader cursor state).1 = (model cursor other).1 ∧
      related (reader cursor state).2 (model cursor other).2 ∧
      ∀ result after, (reader cursor state).1 = some (result, after) → stop after

section Patterns

variable {State Other : Type} {start middle stop place : Cursor → Prop}
variable {related : State → Other → Prop}
variable {readRule : Rule → Pattern.Reader State Node}
variable {modelRule : Rule → Pattern.Reader Other Node}

/-- What a simulation says about one reading. -/
theorem Simulates.reading
    {Result : Type}
    {reader : Pattern.Reader State Result}
    {model : Pattern.Reader Other Result}
    (simulates : Simulates start stop related reader model)
    {cursor : Cursor}
    {state later : State}
    {other : Other}
    {reading : Pattern.Reading Result}
    (here : start cursor)
    (relation : related state other)
    (read : reader cursor state = (reading, later)) :
    ∃ otherLater, model cursor other = (reading, otherLater) ∧ related later otherLater ∧
      ∀ result after, reading = some (result, after) → stop after := by
  have agreement := simulates cursor state other here relation
  rw [read] at agreement
  exact ⟨_, Prod.ext agreement.1.symm rfl, agreement.2⟩

/-- A sequence is simulated part by part. -/
theorem Simulates.sequence
    {first second : Pattern}
    (front : Simulates start middle related (first.read readRule) (first.read modelRule))
    (back : Simulates middle stop related (second.read readRule) (second.read modelRule)) :
    Simulates start stop related
      ((first ++ second).read readRule) ((first ++ second).read modelRule) := by
  rw [Pattern.append_eq]
  intro cursor state other here relation
  simp only [Pattern.read]
  rcases read : first.read readRule cursor state with ⟨_ | ⟨trees, between⟩, later⟩
  · obtain ⟨otherLater, same, relationLater, _⟩ := front.reading here relation read
    rw [same]
    exact ⟨rfl, relationLater, by simp⟩
  · obtain ⟨otherLater, same, relationLater, reached⟩ := front.reading here relation read
    rw [same]
    simp only
    rcases readBack : second.read readRule between later with ⟨_ | ⟨more, after⟩, last⟩
    · obtain ⟨_, sameBack, relationLast, _⟩ :=
        back.reading (reached _ _ rfl) relationLater readBack
      rw [sameBack]
      exact ⟨rfl, relationLast, by simp⟩
    · obtain ⟨_, sameBack, relationLast, reachedBack⟩ :=
        back.reading (reached _ _ rfl) relationLater readBack
      rw [sameBack]
      refine ⟨rfl, relationLast, ?_⟩
      rintro _ _ ⟨⟩
      exact reachedBack _ _ rfl

/-- A choice is simulated if both of its alternatives are. -/
theorem Simulates.choice
    {preferred alternative : Pattern}
    (first : Simulates start stop related (preferred.read readRule) (preferred.read modelRule))
    (second : Simulates start stop related
      (alternative.read readRule) (alternative.read modelRule)) :
    Simulates start stop related
      ((preferred <|> alternative).read readRule) ((preferred <|> alternative).read modelRule) := by
  rw [Pattern.orElse_eq]
  intro cursor state other here relation
  simp only [Pattern.read]
  rcases read : preferred.read readRule cursor state with ⟨_ | ⟨trees, after⟩, later⟩
  · obtain ⟨_, same, relationLater, _⟩ := first.reading here relation read
    rw [same]
    exact second cursor later _ here relationLater
  · obtain ⟨_, same, relationLater, reached⟩ := first.reading here relation read
    rw [same]
    exact ⟨rfl, relationLater, reached⟩

/-- Repetition is simulated item by item. -/
theorem Simulates.readMany
    {reader : Pattern.Reader State (List Tree)}
    {model : Pattern.Reader Other (List Tree)}
    (items : Simulates place place related reader model)
    (bound : List Token)
    {cursor : Cursor}
    {state : State}
    {other : Other}
    (here : place cursor)
    (relation : related state other) :
    (Pattern.readMany reader bound cursor state).1 =
        (Pattern.readMany model bound cursor other).1 ∧
      related (Pattern.readMany reader bound cursor state).2
        (Pattern.readMany model bound cursor other).2 ∧
      place (Pattern.readMany reader bound cursor state).1.2 := by
  induction bound generalizing cursor state other with
  | nil =>
      unfold Pattern.readMany
      rcases read : reader cursor state with ⟨_ | ⟨trees, after⟩, later⟩
      · obtain ⟨_, same, relationLater, _⟩ := items.reading here relation read
        rw [same]
        exact ⟨rfl, relationLater, here⟩
      · obtain ⟨_, same, relationLater, reached⟩ := items.reading here relation read
        rw [same]
        exact ⟨rfl, relationLater, reached _ _ rfl⟩
  | cons token bound inductionHypothesis =>
      unfold Pattern.readMany
      rcases read : reader cursor state with ⟨_ | ⟨trees, after⟩, later⟩
      · obtain ⟨_, same, relationLater, _⟩ := items.reading here relation read
        rw [same]
        exact ⟨rfl, relationLater, here⟩
      · obtain ⟨_, same, relationLater, reached⟩ := items.reading here relation read
        obtain ⟨sameMore, relationLast, reachedLast⟩ :=
          inductionHypothesis (reached _ _ rfl) relationLater
        rw [same]
        exact ⟨by simp only [sameMore], relationLast, reachedLast⟩

/-- A pattern is simulated if the rules that it calls are. -/
theorem simulates_read
    (closed : ∀ {cursor tokens after}, place cursor → cursor.Advances tokens after → place after)
    {pattern : Pattern}
    (rules : ∀ rule ∈ pattern.calls,
      Simulates place place related (readRule rule) (modelRule rule)) :
    Simulates place place related (pattern.read readRule) (pattern.read modelRule) := by
  induction pattern with
  | token accepts =>
      intro cursor state other here relation
      simp only [Pattern.read]
      split
      next => exact ⟨rfl, relation, by simp⟩
      next found after read =>
        have reached : place after := closed here (Cursor.advances_of_bump? read)
        split
        next => exact ⟨rfl, relation, by rintro _ _ ⟨⟩; exact reached⟩
        next => exact ⟨rfl, relation, by simp⟩
  | rule called =>
      intro cursor state other here relation
      rw [Pattern.read_rule, Pattern.read_rule]
      obtain ⟨same, relationLater, reached⟩ :=
        rules called (List.mem_singleton.2 rfl) cursor state other here relation
      refine ⟨by rw [same], relationLater, ?_⟩
      intro result after found
      rw [Option.map_eq_some_iff] at found
      obtain ⟨⟨node, place⟩, found, equal⟩ := found
      cases equal
      exact reached _ _ found
  | ahead accepts =>
      intro cursor state other here relation
      refine ⟨rfl, relation, ?_⟩
      intro result after found
      simp only [Pattern.read, Option.ite_none_right_eq_some, Option.some.injEq,
        Prod.mk.injEq] at found
      exact found.2.2 ▸ here
  | absent refused =>
      intro cursor state other here relation
      rw [Pattern.read_absent, Pattern.read_absent]
      obtain ⟨same, relationLater, _⟩ :=
        rules refused (List.mem_singleton.2 rfl) cursor state other here relation
      refine ⟨by rw [same], relationLater, ?_⟩
      intro result after found
      simp only [Option.ite_none_right_eq_some, Option.some.injEq, Prod.mk.injEq] at found
      exact found.2.2 ▸ here
  | empty =>
      intro cursor state other here relation
      exact ⟨rfl, relation, by rintro _ _ ⟨⟩; exact here⟩
  | sequence first second firstHypothesis secondHypothesis =>
      simp only [Pattern.calls, List.mem_append] at rules
      exact Simulates.sequence (firstHypothesis fun rule called => rules rule (.inl called))
        (secondHypothesis fun rule called => rules rule (.inr called))
  | choice preferred alternative preferredHypothesis alternativeHypothesis =>
      simp only [Pattern.calls, List.mem_append] at rules
      exact Simulates.choice (preferredHypothesis fun rule called => rules rule (.inl called))
        (alternativeHypothesis fun rule called => rules rule (.inr called))
  | many item inductionHypothesis =>
      intro cursor state other here relation
      simp only [Pattern.read]
      obtain ⟨same, relationLater, reached⟩ :=
        (inductionHypothesis rules).readMany cursor.rest here relation
      refine ⟨by rw [same], relationLater, ?_⟩
      intro result after found
      rw [Option.some.injEq] at found
      rwa [found] at reached

end Patterns

variable {grammar : Grammar}

/-- A pattern that calls no rules reads the same whatever is kept in mind, and changes nothing. -/
theorem read_of_calls_eq_nil
    (grammar : Grammar)
    {State : Type}
    {pattern : Pattern}
    (callsNone : pattern.calls = [])
    (readRule : Rule → Pattern.Reader State Node)
    (cursor : Cursor)
    (state : State) :
    pattern.read readRule cursor state = (grammar.treesAt? pattern cursor, state) := by
  have simulates :
      Simulates (fun _ => True) (fun _ => True) (fun now (_ : Unit) => now = state)
        (pattern.read readRule)
        (pattern.read fun rule place (_ : Unit) => (grammar.nodeAt? rule place, ())) :=
    simulates_read (fun _ _ => trivial) (by simp [callsNone])
  obtain ⟨same, unchanged, _⟩ := simulates cursor state () trivial rfl
  exact Prod.ext same unchanged

/-- A token is read before a consuming pattern without rules is read. -/
theorem simulates_of_calls_eq_nil
    {State Other : Type}
    {related : State → Other → Prop}
    {readRule : Rule → Pattern.Reader State Node}
    {modelRule : Rule → Pattern.Reader Other Node}
    {pattern : Pattern}
    (callsNone : pattern.calls = [])
    (consumes : pattern.consumes = true)
    (start : Cursor) :
    Simulates (· = start) (start.position + 1 ≤ ·.position) related
      (pattern.read readRule) (pattern.read modelRule) := by
  rintro _ state other rfl relation
  rw [read_of_calls_eq_nil .standard callsNone,
    read_of_calls_eq_nil .standard callsNone]
  refine ⟨rfl, relation, ?_⟩
  intro trees after read
  have derived := derives_of_treesAt? read
  have positive := List.length_pos_iff.2 (derived.tokensOf_ne_nil consumes)
  rw [derived.advances.position]
  omega

/-- A relation between memories is kept by a rule if all rules below may note their failures. -/
theorem simulates_readRule
    {place : Cursor → Prop}
    {related : Failures → Failures → Prop}
    (allowed : Rule → Prop)
    (closed : ∀ {cursor tokens after}, place cursor → cursor.Advances tokens after → place after)
    (below : ∀ rule, allowed rule → ∀ called ∈ (grammar.pattern rule).calls, allowed called)
    (known : ∀ rule cursor failures others, allowed rule → place cursor →
      related failures others →
        failures.contains rule cursor.position = others.contains rule cursor.position)
    (noted : ∀ rule cursor failures others, allowed rule → place cursor →
      related failures others →
        related (failures.insert rule cursor.position) (others.insert rule cursor.position))
    (levels : Nat)
    {rule : Rule}
    (here : allowed rule) :
    Simulates place place related
      (grammar.readRule levels rule) (grammar.readRule levels rule) := by
  induction levels generalizing rule with
  | zero =>
      intro cursor failures others there relation
      unfold readRule
      rw [known rule cursor failures others here there relation]
      split
      next => exact ⟨rfl, relation, by simp⟩
      next => exact ⟨rfl, noted rule cursor failures others here there relation, by simp⟩
  | succ levels inductionHypothesis =>
      intro cursor failures others there relation
      unfold readRule
      rw [known rule cursor failures others here there relation]
      split
      next => exact ⟨rfl, relation, by simp⟩
      next =>
        have body : Simulates place place related
            ((grammar.pattern rule).read (grammar.readRule levels))
            ((grammar.pattern rule).read (grammar.readRule levels)) :=
          simulates_read closed fun called mentioned =>
            inductionHypothesis (below rule here called mentioned)
        simp only
        rcases read : (grammar.pattern rule).read (grammar.readRule levels) cursor failures with
          ⟨_ | ⟨trees, after⟩, later⟩
        · obtain ⟨_, same, relationLater, _⟩ := body.reading there relation read
          rw [same]
          exact ⟨rfl, noted rule cursor _ _ here there relationLater, by simp⟩
        · obtain ⟨_, same, relationLater, reached⟩ := body.reading there relation read
          rw [same]
          exact ⟨rfl, relationLater, by rintro _ _ ⟨⟩; exact reached _ _ rfl⟩

/-- Two memories hold the same failures from a position on. -/
def AgreeFrom (position : Nat) (failures others : Failures) : Prop :=
  ∀ rule later, position ≤ later → failures.contains rule later = others.contains rule later

namespace AgreeFrom

variable {position earlier : Nat} {failures others more : Failures}

theorem refl (position : Nat) (failures : Failures) : AgreeFrom position failures failures :=
  fun _ _ _ => rfl

theorem trans
    (first : AgreeFrom position failures others)
    (second : AgreeFrom position others more) :
    AgreeFrom position failures more :=
  fun rule later behind => (first rule later behind).trans (second rule later behind)

theorem insert
    (agree : AgreeFrom position failures others)
    (rule : Rule)
    (noted : Nat) :
    AgreeFrom position (failures.insert rule noted) (others.insert rule noted) := by
  intro other later behind
  rw [Failures.contains_insert, Failures.contains_insert, agree other later behind]

/-- A failure that is noted further in front makes no difference. -/
theorem insert_left
    (agree : AgreeFrom position failures others)
    (before : earlier < position)
    (rule : Rule) :
    AgreeFrom position (failures.insert rule earlier) others := by
  intro other later behind
  rw [Failures.contains_insert, agree other later behind]
  have apart : ¬ (rule = other ∧ earlier = later) := by omega
  simp [apart]

end AgreeFrom

/-- A rule reads the same wherever the same is known from the place on where it is read. -/
theorem agree_readRule (position levels : Nat) (rule : Rule) :
    Simulates (position ≤ ·.position) (position ≤ ·.position) (AgreeFrom position)
      (grammar.readRule levels rule) (grammar.readRule levels rule) := by
  refine simulates_readRule (fun _ => True) ?_ (fun _ _ _ _ => trivial) ?_ ?_ levels trivial
  · intro cursor tokens after here advances
    exact Nat.le_trans here (advances.position ▸ Nat.le_add_right _ _)
  · intro rule cursor failures others _ here agree
    exact agree rule cursor.position here
  · intro rule cursor failures others _ _ agree
    exact agree.insert rule cursor.position

/-- A reading notes failures of the rules that it can reach only. -/
theorem contains_readRule
    {other : Rule}
    {allowed : Rule → Prop}
    (below : ∀ rule, allowed rule → ∀ called ∈ (grammar.pattern rule).calls, allowed called)
    (apart : ∀ rule, allowed rule → rule ≠ other)
    (levels : Nat)
    {rule : Rule}
    (here : allowed rule)
    (cursor : Cursor)
    (failures : Failures)
    (position : Nat) :
    (grammar.readRule levels rule cursor failures).2.contains other position =
      failures.contains other position := by
  have simulates :
      Simulates (fun _ => True) (fun _ => True)
        (fun now before => now = before ∧ now.contains other position =
          failures.contains other position)
        (grammar.readRule levels rule) (grammar.readRule levels rule) := by
    refine simulates_readRule allowed (fun _ _ => trivial) below ?_ ?_ levels here
    · rintro rule cursor now _ _ _ ⟨rfl, _⟩
      rfl
    · rintro rule cursor now _ reached _ ⟨rfl, same⟩
      refine ⟨rfl, ?_⟩
      rw [Failures.contains_insert, same]
      simp [apart rule reached]
  exact (simulates cursor failures failures trivial ⟨rfl, rfl⟩).2.1.2

end Grammar
end PreprocessorSyntax
