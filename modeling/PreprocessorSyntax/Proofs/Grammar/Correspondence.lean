import PreprocessorSyntax.Proofs.Grammar.Equations
import PreprocessorSyntax.Proofs.Grammar.Simulation

/-!
# Two inputs read side by side

Two inputs that differ in white space are read at different places, so what is
noted about one concerns other positions than what is noted about the other.
`Grammar.Corresponds` says that a pattern is read on both with like results:
either both readings fail, or both succeed, and what was read and the places
that were reached correspond; and the memories stay related.

An `Alignment` says what corresponds.  Whether white space was skipped, and
whatever else has to be known of a pair of places, is its footing there, and
`Alignment.Leads` follows the footing through a pattern.  It is enough to do
this once for the pattern of each rule.
-/

namespace PreprocessorSyntax
namespace Grammar

variable {grammar : Grammar} {levels : Nat}

/-- A pattern is read with like results at places of two inputs that correspond. -/
def Corresponds
    (grammar : Grammar)
    (levels : Nat)
    (related : Failures → Failures → Prop)
    (start : Cursor → Cursor → Prop)
    (stop : List Tree × Cursor → List Tree × Cursor → Prop)
    (pattern : Pattern) : Prop :=
  ∀ cursor place failures others, start cursor place → related failures others →
    Option.Rel stop (pattern.read (grammar.readRule levels) cursor failures).1
        (pattern.read (grammar.readRule levels) place others).1 ∧
      related (pattern.read (grammar.readRule levels) cursor failures).2
        (pattern.read (grammar.readRule levels) place others).2

namespace Corresponds

variable {related : Failures → Failures → Prop} {start : Cursor → Cursor → Prop}
variable {middle stop : List Tree × Cursor → List Tree × Cursor → Prop}
variable {pattern preferred alternative : Pattern} {rule : Rule}

/-- Two readings that correspond both fail, or both succeed. -/
theorem reading
    (corresponds : grammar.Corresponds levels related start stop pattern)
    {cursor place : Cursor}
    {failures others : Failures}
    (here : start cursor place)
    (relation : related failures others) :
    ∃ later otherLater, related later otherLater ∧
      (pattern.read (grammar.readRule levels) cursor failures = (none, later) ∧
          pattern.read (grammar.readRule levels) place others = (none, otherLater) ∨
        ∃ found matching,
          pattern.read (grammar.readRule levels) cursor failures = (some found, later) ∧
          pattern.read (grammar.readRule levels) place others = (some matching, otherLater) ∧
          stop found matching) := by
  have agreement := corresponds cursor place failures others here relation
  generalize pattern.read (grammar.readRule levels) cursor failures = reading at agreement ⊢
  generalize pattern.read (grammar.readRule levels) place others = otherReading at agreement ⊢
  obtain ⟨reading, later⟩ := reading
  obtain ⟨otherReading, otherLater⟩ := otherReading
  obtain ⟨alike, relationLater⟩ := agreement
  refine ⟨later, otherLater, relationLater, ?_⟩
  cases alike with
  | none => exact .inl ⟨rfl, rfl⟩
  | some stops => exact .inr ⟨_, _, rfl, rfl, stops⟩

/-- What corresponds may be said in a weaker way. -/
theorem mono
    {weaker : List Tree × Cursor → List Tree × Cursor → Prop}
    (corresponds : grammar.Corresponds levels related start stop pattern)
    (weaken : ∀ found matching, stop found matching → weaker found matching) :
    grammar.Corresponds levels related start weaker pattern := by
  intro cursor place failures others here relation
  obtain ⟨later, otherLater, relationLater, ⟨failed, otherFailed⟩ |
    ⟨found, matching, read, otherRead, stops⟩⟩ := corresponds.reading here relation
  · rw [failed, otherFailed]
    exact ⟨.none, relationLater⟩
  · rw [read, otherRead]
    exact ⟨.some (weaken _ _ stops), relationLater⟩

/-- A choice is made alike if both of its alternatives are read alike. -/
theorem choice
    (first : grammar.Corresponds levels related start stop preferred)
    (second : grammar.Corresponds levels related start stop alternative) :
    grammar.Corresponds levels related start stop (.choice preferred alternative) := by
  intro cursor place failures others here relation
  simp only [Pattern.read]
  obtain ⟨later, otherLater, relationLater, ⟨failed, otherFailed⟩ |
    ⟨found, matching, read, otherRead, stops⟩⟩ := first.reading here relation
  · rw [failed, otherFailed]
    exact second cursor place later otherLater here relationLater
  · rw [read, otherRead]
    exact ⟨.some stops, relationLater⟩

section Rules

variable (known : ∀ {cursor place failures others}, start cursor place → related failures others →
  failures.contains rule cursor.position = others.contains rule place.position)
variable (noted : ∀ {cursor place failures others}, start cursor place → related failures others →
  related (failures.insert rule cursor.position) (others.insert rule place.position))
include known noted

/-- Without levels left, a rule is refused on both sides. -/
theorem rule_zero : grammar.Corresponds 0 related start stop (.rule rule) := by
  intro cursor place failures others here relation
  rw [Pattern.read_rule, Pattern.read_rule, readRule, readRule, known here relation]
  split
  next => exact ⟨.none, relation⟩
  next => exact ⟨.none, noted here relation⟩

/-- A rule is read alike if its pattern is, and what is made of the trees corresponds. -/
theorem rule_succ
    (body : grammar.Corresponds levels related start middle (grammar.pattern rule))
    (build : ∀ {cursor place trees after others last}, start cursor place →
      grammar.Derives (grammar.pattern rule) cursor trees after →
      grammar.Derives (grammar.pattern rule) place others last →
      middle (trees, after) (others, last) →
        stop ([(rule.build trees).toTree], after) ([(rule.build others).toTree], last)) :
    grammar.Corresponds (levels + 1) related start stop (.rule rule) := by
  intro cursor place failures others here relation
  rw [Pattern.read_rule, Pattern.read_rule, readRule, readRule, known here relation]
  split
  next => exact ⟨.none, relation⟩
  next =>
    simp only
    obtain ⟨later, otherLater, relationLater, ⟨failed, otherFailed⟩ |
      ⟨⟨trees, after⟩, ⟨otherTrees, last⟩, read, otherRead, stops⟩⟩ := body.reading here relation
    · rw [failed, otherFailed]
      exact ⟨.none, noted here relationLater⟩
    · have derived := derives_of_read (derives_of_readRule levels) _ read
      have otherDerived := derives_of_read (derives_of_readRule levels) _ otherRead
      rw [read, otherRead]
      exact ⟨.some (build here derived otherDerived stops), relationLater⟩

/-- With any number of levels, a rule is read alike if its pattern is. -/
theorem of_pattern
    (body : ∀ levels, grammar.Corresponds levels related start middle (grammar.pattern rule))
    (build : ∀ {cursor place trees after others last}, start cursor place →
      grammar.Derives (grammar.pattern rule) cursor trees after →
      grammar.Derives (grammar.pattern rule) place others last →
      middle (trees, after) (others, last) →
        stop ([(rule.build trees).toTree], after) ([(rule.build others).toTree], last))
    (levels : Nat) :
    grammar.Corresponds levels related start stop (.rule rule) := by
  cases levels with
  | zero => exact rule_zero known noted
  | succ levels => exact rule_succ known noted (body levels) build

end Rules

/-- The first rule of some that matches is the same on both sides. -/
theorem firstOf
    {first : Rule}
    {further : List Rule}
    (rules : ∀ rule ∈ first :: further,
      grammar.Corresponds levels related start stop (.rule rule)) :
    grammar.Corresponds levels related start stop (.firstOf first further) := by
  induction further generalizing first with
  | nil => exact rules first List.mem_cons_self
  | cons next further inductionHypothesis =>
      rw [List.forall_mem_cons] at rules
      exact rules.1.choice (inductionHypothesis rules.2)

end Corresponds

/--
How two inputs are read side by side: for each kind of footing, which readings
of the two correspond, and which memories do.
-/
structure Alignment (Footing : Type) where
  /-- What was read and where, in the one input and in the other. -/
  meets : Footing → List Tree × Cursor → List Tree × Cursor → Prop
  /-- What is known to fail in the one input and in the other. -/
  related : Failures → Failures → Prop

namespace Alignment

variable {Footing : Type} {alignment : Alignment Footing}
variable {signature : Rule → Footing → Footing → Prop} {before middle after : Footing}

/-- Two places correspond where nothing was read yet. -/
def Starts (alignment : Alignment Footing) (footing : Footing) (cursor place : Cursor) : Prop :=
  alignment.meets footing ([], cursor) ([], place)

/--
From one footing, a pattern leads to another.  The signature says from which
footing to which other one the rules lead.
-/
inductive Leads
    (alignment : Alignment Footing)
    (grammar : Grammar)
    (signature : Rule → Footing → Footing → Prop) : Footing → Footing → Pattern → Prop
  | step
      {before after : Footing} {pattern : Pattern}
      (callsNone : pattern.calls = [])
      (steps : ∀ cursor place, alignment.Starts before cursor place →
        Option.Rel (alignment.meets after) (grammar.treesAt? pattern cursor)
          (grammar.treesAt? pattern place)) :
      Leads alignment grammar signature before after pattern
  | rule
      {before after : Footing} {called : Rule}
      (signed : signature called before after) :
      Leads alignment grammar signature before after (.rule called)
  | absent
      {before after : Footing} {refused : Rule}
      (signed : signature refused before after) :
      Leads alignment grammar signature before before (.absent refused)
  | empty (before : Footing) :
      Leads alignment grammar signature before before .empty
  | sequence
      {before middle after : Footing} {first second : Pattern}
      (front : Leads alignment grammar signature before middle first)
      (back : Leads alignment grammar signature middle after second) :
      Leads alignment grammar signature before after (first ++ second)
  | choice
      {before after : Footing} {preferred alternative : Pattern}
      (first : Leads alignment grammar signature before after preferred)
      (second : Leads alignment grammar signature before after alternative) :
      Leads alignment grammar signature before after (.choice preferred alternative)
  | many
      {footing : Footing} {item : Pattern}
      (consumes : item.consumes = true)
      (each : Leads alignment grammar signature footing footing item) :
      Leads alignment grammar signature footing footing (.many item)
  | weaken
      {before middle after : Footing} {pattern : Pattern}
      (leads : Leads alignment grammar signature before middle pattern)
      (weaker : ∀ {found matching}, alignment.meets middle found matching →
        alignment.meets after found matching) :
      Leads alignment grammar signature before after pattern
  | strengthen
      {before middle after : Footing} {pattern : Pattern}
      (stronger : ∀ {cursor place}, alignment.Starts before cursor place →
        alignment.Starts middle cursor place)
      (leads : Leads alignment grammar signature middle after pattern) :
      Leads alignment grammar signature before after pattern
  | never
      {before : Footing} (after : Footing) (pattern : Pattern)
      (none : ∀ cursor place, ¬ alignment.Starts before cursor place) :
      Leads alignment grammar signature before after pattern

/-- Readings that correspond can be gone on with, and put together. -/
structure Lawful (alignment : Alignment Footing) : Prop where
  /-- What was read before does not matter for what is read next. -/
  forget : ∀ {footing found matching}, alignment.meets footing found matching →
    alignment.Starts footing found.2 matching.2
  /-- Readings behind each other are one. -/
  join : ∀ {before after trees cursor others place more last further otherLast},
    alignment.meets before (trees, cursor) (others, place) →
    cursor.Advances (Tree.tokensOf more) last → place.Advances (Tree.tokensOf further) otherLast →
    alignment.meets after (more, last) (further, otherLast) →
      alignment.meets after (trees ++ more, last) (others ++ further, otherLast)

/-- An alignment that all rules keep from and to the footings of a signature. -/
structure Sound
    (alignment : Alignment Footing)
    (grammar : Grammar)
    (signature : Rule → Footing → Footing → Prop) : Prop extends alignment.Lawful where
  /-- Where a rule is read, the same is known of it. -/
  known : ∀ {rule before after cursor place failures others}, signature rule before after →
    alignment.Starts before cursor place → alignment.related failures others →
      failures.contains rule cursor.position = others.contains rule place.position
  /-- Where a rule is read, its failure may be noted. -/
  noted : ∀ {rule before after cursor place failures others}, signature rule before after →
    alignment.Starts before cursor place → alignment.related failures others →
      alignment.related (failures.insert rule cursor.position) (others.insert rule place.position)
  /-- What a rule accepts leads where the rule leads. -/
  body : ∀ {rule before after}, signature rule before after →
    ∃ middle, alignment.Leads grammar signature before middle (grammar.pattern rule) ∧
      ∀ {cursor place trees last others otherLast}, alignment.Starts before cursor place →
        grammar.Derives (grammar.pattern rule) cursor trees last →
        grammar.Derives (grammar.pattern rule) place others otherLast →
        alignment.meets middle (trees, last) (others, otherLast) →
          alignment.meets after ([(rule.build trees).toTree], last)
            ([(rule.build others).toTree], otherLast)

section Lawful

variable (lawful : alignment.Lawful)
include lawful

/-- Patterns behind each other are read alike if each of them is. -/
theorem corresponds_sequence
    {first second : Pattern}
    (front : grammar.Corresponds levels alignment.related (alignment.Starts before)
      (alignment.meets middle) first)
    (back : grammar.Corresponds levels alignment.related (alignment.Starts middle)
      (alignment.meets after) second) :
    grammar.Corresponds levels alignment.related (alignment.Starts before)
      (alignment.meets after) (first ++ second) := by
  rw [Pattern.append_eq]
  intro cursor place failures others here relation
  simp only [Pattern.read]
  obtain ⟨later, otherLater, relationLater, ⟨failed, otherFailed⟩ |
    ⟨⟨trees, between⟩, ⟨otherTrees, otherBetween⟩, read, otherRead, reached⟩⟩ :=
      front.reading here relation
  · rw [failed, otherFailed]
    exact ⟨.none, relationLater⟩
  · rw [read, otherRead]
    simp only
    obtain ⟨last, otherLast, relationLast, ⟨failed, otherFailed⟩ |
      ⟨⟨more, after⟩, ⟨further, otherAfter⟩, readBack, otherReadBack, stops⟩⟩ :=
        back.reading (lawful.forget reached) relationLater
    · rw [failed, otherFailed]
      exact ⟨.none, relationLast⟩
    · have derived := derives_of_read (derives_of_readRule levels) _ readBack
      have otherDerived := derives_of_read (derives_of_readRule levels) _ otherReadBack
      rw [readBack, otherReadBack]
      exact ⟨.some (lawful.join reached derived.advances otherDerived.advances stops),
        relationLast⟩

/-- Repetition goes on equally long if its items are read alike. -/
theorem corresponds_readMany
    {footing : Footing}
    {item : Pattern}
    (consumes : item.consumes = true)
    (items : grammar.Corresponds levels alignment.related (alignment.Starts footing)
      (alignment.meets footing) item)
    {bound otherBound : List Token}
    {cursor place : Cursor}
    {failures others : Failures}
    (enough : cursor.upcoming.length ≤ bound.length)
    (enoughToo : place.upcoming.length ≤ otherBound.length)
    (here : alignment.Starts footing cursor place)
    (relation : alignment.related failures others) :
    alignment.meets footing
        (Pattern.readMany (item.read (grammar.readRule levels)) bound cursor failures).1
        (Pattern.readMany (item.read (grammar.readRule levels)) otherBound place others).1 ∧
      alignment.related
        (Pattern.readMany (item.read (grammar.readRule levels)) bound cursor failures).2
        (Pattern.readMany (item.read (grammar.readRule levels)) otherBound place others).2 := by
  induction bound generalizing otherBound cursor place failures others with
  | nil =>
      obtain ⟨later, otherLater, relationLater, ⟨failed, otherFailed⟩ |
        ⟨⟨trees, after⟩, _, read, _, _⟩⟩ := items.reading here relation
      · unfold Pattern.readMany
        rw [failed, otherFailed]
        exact ⟨here, relationLater⟩
      · have derived := derives_of_read (derives_of_readRule levels) _ read
        have shorter := derived.upcoming_lt consumes
        simp only [List.length_nil] at enough
        omega
  | cons token bound inductionHypothesis =>
      obtain ⟨later, otherLater, relationLater, ⟨failed, otherFailed⟩ |
        ⟨⟨trees, after⟩, ⟨otherTrees, otherAfter⟩, read, otherRead, reached⟩⟩ :=
          items.reading here relation
      · unfold Pattern.readMany
        rw [failed, otherFailed]
        exact ⟨here, relationLater⟩
      · have shorter :=
          (derives_of_read (derives_of_readRule levels) _ read).upcoming_lt consumes
        have otherShorter :=
          (derives_of_read (derives_of_readRule levels) _ otherRead).upcoming_lt consumes
        cases otherBound with
        | nil =>
            simp only [List.length_nil] at enoughToo
            omega
        | cons otherToken otherBound =>
            simp only [List.length_cons] at enough enoughToo
            have fits : after.upcoming.length ≤ bound.length := by omega
            have fitsToo : otherAfter.upcoming.length ≤ otherBound.length := by omega
            obtain ⟨alike, relationLast⟩ :=
              inductionHypothesis fits fitsToo (lawful.forget reached) relationLater
            have items {cursor state trees after later}
                (read : item.read (grammar.readRule levels) cursor state =
                  (some (trees, after), later)) :=
              derives_of_read (derives_of_readRule levels) item read
            have derived := derives_readMany items bound after later
            have otherDerived := derives_readMany items otherBound otherAfter otherLater
            unfold Pattern.readMany
            rw [read, otherRead]
            exact ⟨lawful.join reached derived.advances otherDerived.advances alike, relationLast⟩

/-- A pattern is read alike along the footings to which it leads if rules are. -/
theorem corresponds_of_leads
    (rules : ∀ {rule before after}, signature rule before after →
      grammar.Corresponds levels alignment.related (alignment.Starts before)
        (alignment.meets after) (.rule rule))
    {pattern : Pattern}
    (leads : alignment.Leads grammar signature before after pattern) :
    grammar.Corresponds levels alignment.related (alignment.Starts before)
      (alignment.meets after) pattern := by
  induction leads with
  | step callsNone steps =>
      intro cursor place failures others here relation
      rw [read_of_calls_eq_nil grammar callsNone, read_of_calls_eq_nil grammar callsNone]
      exact ⟨steps cursor place here, relation⟩
  | rule signed => exact rules signed
  | absent signed =>
      intro cursor place failures others here relation
      obtain ⟨alike, relationLater⟩ := rules signed cursor place failures others here relation
      rw [Pattern.read_rule, Pattern.read_rule] at alike relationLater
      rw [Pattern.read_absent, Pattern.read_absent]
      refine ⟨?_, relationLater⟩
      generalize (grammar.readRule levels _ cursor failures).1 = reading at alike ⊢
      generalize (grammar.readRule levels _ place others).1 = otherReading at alike ⊢
      cases reading <;> cases otherReading <;> cases alike
      · exact .some here
      · exact .none
  | empty before =>
      intro cursor place failures others here relation
      exact ⟨.some here, relation⟩
  | sequence _ _ front back => exact corresponds_sequence lawful front back
  | choice _ _ first second => exact first.choice second
  | many consumes _ items =>
      intro cursor place failures others here relation
      simp only [Pattern.read]
      obtain ⟨alike, relationLater⟩ := corresponds_readMany lawful consumes items
        (upcoming_length_le cursor) (upcoming_length_le place) here relation
      exact ⟨.some alike, relationLater⟩
  | weaken _ weaker corresponds => exact corresponds.mono fun _ _ => weaker
  | strengthen stronger _ corresponds =>
      exact fun cursor place failures others here =>
        corresponds cursor place failures others (stronger here)
  | never after pattern none =>
      exact fun cursor place failures others here => absurd here (none cursor place)

end Lawful

/-- With any number of levels, rules are read alike from and to the footings of the signature. -/
theorem Sound.corresponds_rule
    (sound : alignment.Sound grammar signature)
    (levels : Nat)
    {rule : Rule}
    (signed : signature rule before after) :
    grammar.Corresponds levels alignment.related (alignment.Starts before)
      (alignment.meets after) (.rule rule) := by
  induction levels generalizing rule before after with
  | zero => exact .rule_zero (sound.known signed) (sound.noted signed)
  | succ levels inductionHypothesis =>
      obtain ⟨middle, leads, build⟩ := sound.body signed
      exact .rule_succ (sound.known signed) (sound.noted signed)
        (corresponds_of_leads sound.toLawful inductionHypothesis leads) build

end Alignment
end Grammar
end PreprocessorSyntax
