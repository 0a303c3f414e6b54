import PreprocessorSyntax.Proofs.Line.Head

/-!
# The alternatives for a directive line

The rules for lines are tried one after the other and share one memory.  The
rules in front of the one that is meant decline, so what they note stands at
the place where the line starts and concerns none of the rules that are still
to be tried.  The rule that is meant therefore reads what it reads alone, and
where it fails, the rules behind it decline until the last one takes the line.
-/

namespace PreprocessorSyntax
namespace Grammar

variable {grammar : Grammar}

/-- A rule that is not known to fail reads what its pattern reads. -/
theorem readRule_succ
    {levels : Nat}
    {rule : Rule}
    {cursor : Cursor}
    {failures : Failures}
    (unknown : failures.contains rule cursor.position = false) :
    (grammar.readRule (levels + 1) rule cursor failures).1 =
      ((grammar.pattern rule).read (grammar.readRule levels) cursor failures).1.map
        fun found => (rule.build found.1, found.2) := by
  rw [readRule, unknown]
  simp only [Bool.false_eq_true, if_false]
  split <;> simp_all

/-- A rule that calls no rules reads the same whatever else is known. -/
theorem readRule_of_calls_eq_nil
    {levels : Nat}
    {rule : Rule}
    {cursor : Cursor}
    {failures : Failures}
    (callsNone : (grammar.pattern rule).calls = [])
    (unknown : failures.contains rule cursor.position = false) :
    (grammar.readRule (levels + 1) rule cursor failures).1 =
      (grammar.treesAt? (grammar.pattern rule) cursor).map
        fun found => (rule.build found.1, found.2) := by
  rw [readRule_succ unknown, read_of_calls_eq_nil grammar callsNone]

/-- The node that a rule reads is its own, except for layers of the expression grammar. -/
theorem rule_of_readRule
    {levels : Nat}
    {rule : Rule}
    {cursor after : Cursor}
    {failures : Failures}
    {node : Node}
    (keeps : rule.collapses = false)
    (read : (grammar.readRule levels rule cursor failures).1 = some (node, after)) :
    node.rule = rule := by
  cases known : failures.contains rule cursor.position with
  | true =>
      unfold readRule at read
      simp [known] at read
  | false =>
      cases levels with
      | zero =>
          unfold readRule at read
          simp [known] at read
      | succ levels =>
          rw [readRule_succ known, Option.map_eq_some_iff] at read
          obtain ⟨⟨children, last⟩, _, equal⟩ := read
          cases equal
          rw [build_eq keeps]

/-- Behind its head, a rule for lines depends on nothing that was noted at the head. -/
theorem agree_line
    {rule : Rule}
    (named : rule.directiveNames ≠ [])
    (apart : rule ≠ .defineLine)
    (levels : Nat)
    (start : Cursor) :
    Simulates (· = start) (start.position + 1 ≤ ·.position) (AgreeFrom (start.position + 1))
      (rule.pattern.read (grammar.readRule levels))
      (rule.pattern.read (grammar.readRule levels)) := by
  have behind (pattern : Pattern) :
      Simulates (start.position + 1 ≤ ·.position) (start.position + 1 ≤ ·.position)
        (AgreeFrom (start.position + 1))
        (pattern.read (grammar.readRule levels)) (pattern.read (grammar.readRule levels)) := by
    refine simulates_read ?_ fun rule _ => agree_readRule _ levels rule
    intro cursor tokens after here advances
    exact Nat.le_trans here (advances.position ▸ Nat.le_add_right _ _)
  have head (names : List String) :
      Simulates (· = start) (start.position + 1 ≤ ·.position) (AgreeFrom (start.position + 1))
        ((Pattern.directiveHead names ++ .trivia).read (grammar.readRule levels))
        ((Pattern.directiveHead names ++ .trivia).read (grammar.readRule levels)) :=
    simulates_of_calls_eq_nil rfl rfl start
  cases rule <;> try contradiction
  case includeLine => exact ((head _).sequence (behind _)).sequence (behind _)
  case ifLine => exact ((head _).sequence (behind _)).sequence (behind _)
  case elifLine => exact ((head _).sequence (behind _)).sequence (behind _)
  all_goals exact simulates_of_calls_eq_nil rfl rfl start

section Unmocked

variable (unmocked : grammar.mocked = [])
include unmocked

/-- A rule for lines reads the same if nothing is known behind the place where the line starts. -/
theorem readRule_line_eq
    {rule : Rule}
    (named : rule.directiveNames ≠ [])
    (apart : rule ≠ .defineLine)
    (levels : Nat)
    {start : Cursor}
    {failures : Failures}
    (unknown : failures.contains rule start.position = false)
    (agree : AgreeFrom (start.position + 1) failures .empty) :
    (grammar.readRule (levels + 1) rule start failures).1 =
      (grammar.readRule (levels + 1) rule start .empty).1 := by
  have same : (rule.pattern.read (grammar.readRule levels) start failures).1 =
      (rule.pattern.read (grammar.readRule levels) start .empty).1 :=
    (agree_line named apart levels start start failures .empty rfl agree).1
  rw [readRule_succ unknown, readRule_succ (Failures.contains_empty _ _), pattern_eq unmocked, same]

/-- Reading one alternative notes no failure of another one. -/
theorem contains_line
    {rule other : Rule}
    (listed : rule ∈ lineRules)
    (listedToo : other ∈ lineRules)
    (apart : rule ≠ other)
    (levels : Nat)
    (cursor : Cursor)
    (failures : Failures)
    (position : Nat) :
    (grammar.readRule levels rule cursor failures).2.contains other position =
      failures.contains other position := by
  have below : ∀ rule, rule ≠ .preprocessorLine ∧ rule ≠ other →
      ∀ called ∈ (grammar.pattern rule).calls, called ≠ .preprocessorLine ∧ called ≠ other := by
    rintro rule ⟨notLine, _⟩ called mentioned
    rw [pattern_eq unmocked] at mentioned
    constructor
    · rintro rfl
      exact Rule.not_mem_calls_pattern notLine List.mem_cons_self mentioned
    · rintro rfl
      exact Rule.not_mem_calls_pattern notLine (List.mem_cons_of_mem _ listedToo) mentioned
  have notLine : rule ≠ .preprocessorLine := by
    rintro rfl
    exact absurd listed (by decide)
  exact contains_readRule below (fun _ reached => reached.2) levels ⟨notLine, apart⟩ cursor failures
    position

end Unmocked

/-- The last alternative is never left out. -/
theorem mem_of_suffix
    {preferred : Rule}
    {others : List Rule}
    (listed : preferred :: others <:+ lineRules) :
    .miscLine ∈ preferred :: others := by
  obtain ⟨front, equal⟩ := listed
  have last := congrArg List.getLast? equal
  rw [List.getLast?_append, List.getLast?_cons, Option.some_or] at last
  apply List.mem_of_getLast?
  rw [List.getLast?_cons, last]
  rfl

theorem eq_miscLine_of_suffix {preferred : Rule} (listed : [preferred] <:+ lineRules) :
    preferred = .miscLine :=
  (List.mem_singleton.1 (mem_of_suffix listed)).symm

theorem ne_miscLine_of_suffix
    {preferred next : Rule}
    {others : List Rule}
    (listed : preferred :: next :: others <:+ lineRules) :
    preferred ≠ .miscLine := by
  have distinct := listed.sublist.nodup nodup_lineRules
  have further := mem_of_suffix ((List.suffix_cons _ _).trans listed)
  rintro rfl
  exact (List.nodup_cons.1 distinct).1 further

/-- The last alternative reads the same whatever else is known. -/
theorem readRule_miscLine_eq
    (unmocked : grammar.mocked = [])
    {levels : Nat}
    (start : Cursor)
    {failures : Failures}
    (unknown : failures.contains .miscLine start.position = false) :
    (grammar.readRule (levels + 1) .miscLine start failures).1 =
      (grammar.readRule (levels + 1) .miscLine start .empty).1 := by
  have callsNone : (grammar.pattern .miscLine).calls = [] := by
    rw [pattern_eq unmocked]
    rfl
  rw [readRule_of_calls_eq_nil callsNone unknown,
    readRule_of_calls_eq_nil callsNone (Failures.contains_empty _ _)]

/-- Where a rule declines, reading it fails. -/
theorem Declines.readRule
    {levels : Nat}
    {rule : Rule}
    {cursor : Cursor}
    (declines : grammar.Declines levels (.rule rule) cursor)
    (failures : Failures) :
    (grammar.readRule levels rule cursor failures).1 = none ∧
      AgreeFrom (cursor.position + 1)
        (grammar.readRule levels rule cursor failures).2 failures := by
  obtain ⟨later, read, agree⟩ := declines failures
  rw [Pattern.read_rule, Prod.mk.injEq, Option.map_eq_none_iff] at read
  rw [read.2]
  exact ⟨read.1, agree⟩

theorem read_firstOf_of_some
    {State : Type}
    {readRule : Rule → Pattern.Reader State Node}
    {preferred : Rule}
    {cursor : Cursor}
    {state : State}
    {found : Node × Cursor}
    (read : (readRule preferred cursor state).1 = some found)
    (others : List Rule) :
    ((Pattern.firstOf preferred others).read readRule cursor state).1 =
      some ([found.1.toTree], found.2) := by
  have chosen := Pattern.read_rule readRule preferred cursor state
  rw [read] at chosen
  cases others with
  | nil => rw [Pattern.firstOf, chosen]; rfl
  | cons next others => simp only [Pattern.firstOf, Pattern.read.eq_7, chosen, Option.map_some]

theorem read_firstOf_of_none
    {State : Type}
    {readRule : Rule → Pattern.Reader State Node}
    {preferred : Rule}
    {cursor : Cursor}
    {state : State}
    (failed : (readRule preferred cursor state).1 = none)
    (next : Rule)
    (others : List Rule) :
    (Pattern.firstOf preferred (next :: others)).read readRule cursor state =
      (Pattern.firstOf next others).read readRule cursor (readRule preferred cursor state).2 := by
  have declined := Pattern.read_rule readRule preferred cursor state
  rw [failed] at declined
  simp only [Pattern.firstOf, Pattern.read.eq_7, declined, Option.map_none]

section Line

variable {hash : Token} {blanks rest : List Token} {start : Cursor}
variable (unmocked : grammar.mocked = []) (stands : start.rest = hash :: (blanks ++ rest))
variable (isHash : hash.isPunctuator .hash = true)
variable (trivial : ∀ token ∈ blanks, token.isTrivia = true) (significant : Significant rest)
include unmocked stands isHash trivial significant

/-- A rule for lines declines unless it is the rule of the token behind the number sign. -/
theorem declines_other
    {rule : Rule}
    (listed : rule ∈ lineRules)
    (named : rule ≠ .miscLine)
    (other : rest.head?.bind Token.lineRule? ≠ some rule)
    (levels : Nat) :
    grammar.Declines levels (.rule rule) start := by
  obtain ⟨position, here⟩ := start
  cases stands
  apply declines_line isHash unmocked trivial significant listed named
  intro word first isName named
  rw [Option.mem_def] at first
  rw [first, Option.bind_some, Token.lineRule?, if_pos isName] at other
  exact other (Rule.ofDirectiveName?_of_mem named)

/-- If no rule in front of the last one is meant, the last one reads the line. -/
theorem read_others
    {preferred : Rule}
    {others : List Rule}
    (listed : preferred :: others <:+ lineRules)
    (other : ∀ rule ∈ preferred :: others, rest.head?.bind Token.lineRule? ≠ some rule)
    {levels : Nat}
    {failures : Failures}
    (unknown : failures.contains .miscLine start.position = false) :
    ((Pattern.firstOf preferred others).read (grammar.readRule (levels + 1)) start failures).1 =
      (grammar.readRule (levels + 1) .miscLine start .empty).1.map
        fun found => ([found.1.toTree], found.2) := by
  induction others generalizing preferred failures with
  | nil =>
      obtain rfl := eq_miscLine_of_suffix listed
      rw [Pattern.firstOf, Pattern.read_rule]
      simp only
      rw [readRule_miscLine_eq unmocked start unknown]
  | cons next others inductionHypothesis =>
      have here : preferred ∈ lineRules := listed.subset List.mem_cons_self
      have named : preferred ≠ .miscLine := ne_miscLine_of_suffix listed
      have declines := declines_other unmocked stands isHash trivial significant here named
        (other preferred List.mem_cons_self) (levels + 1)
      have further : next :: others <:+ lineRules := (List.suffix_cons _ _).trans listed
      rw [read_firstOf_of_none (declines.readRule failures).1]
      apply inductionHypothesis further
      · exact fun rule later => other rule (List.mem_cons_of_mem _ later)
      · rw [contains_line unmocked here (by decide) named, unknown]

/-- Where the rule that is meant comes first, it reads the line, or the last one does. -/
theorem read_preferred
    {preferred : Rule}
    {others : List Rule}
    (listed : preferred :: others <:+ lineRules)
    (head : rest.head?.bind Token.lineRule? = some preferred)
    {levels : Nat}
    {failures : Failures}
    (unknown : failures.contains .miscLine start.position = false) :
    ((Pattern.firstOf preferred others).read (grammar.readRule (levels + 1)) start failures).1 =
      ((grammar.readRule (levels + 1) preferred start failures).1.or
        (grammar.readRule (levels + 1) .miscLine start .empty).1).map
          fun found => ([found.1.toTree], found.2) := by
  cases read : (grammar.readRule (levels + 1) preferred start failures).1 with
  | some found =>
      rw [read_firstOf_of_some read]
      rfl
  | none =>
      cases others with
      | nil =>
          obtain rfl := eq_miscLine_of_suffix listed
          rw [readRule_miscLine_eq unmocked start unknown] at read
          rw [Pattern.firstOf, Pattern.read_rule, readRule_miscLine_eq unmocked start unknown, read]
          rfl
      | cons next others =>
          have named : preferred ≠ .miscLine := ne_miscLine_of_suffix listed
          rw [read_firstOf_of_none read, Option.none_or]
          apply read_others unmocked stands isHash trivial significant
            ((List.suffix_cons _ _).trans listed)
          · intro rule later meant
            have distinct := listed.sublist.nodup nodup_lineRules
            rw [head, Option.some.injEq] at meant
            exact (List.nodup_cons.1 distinct).1 (meant ▸ later)
          · rw [contains_line unmocked (listed.subset List.mem_cons_self) (by decide) named,
              unknown]

/-- Alternatives in front of the rule that is meant decline, and it reads as it does alone. -/
theorem read_meant
    {preferred meant : Rule}
    {others : List Rule}
    (listed : preferred :: others <:+ lineRules)
    (head : rest.head?.bind Token.lineRule? = some meant)
    (named : meant.directiveNames ≠ [])
    (apart : meant ≠ .defineLine)
    (present : meant ∈ preferred :: others)
    {levels : Nat}
    {failures : Failures}
    (unknown : ∀ rule ∈ preferred :: others, failures.contains rule start.position = false)
    (agree : AgreeFrom (start.position + 1) failures .empty) :
    ((Pattern.firstOf preferred others).read (grammar.readRule (levels + 1)) start failures).1 =
      ((grammar.readRule (levels + 1) meant start .empty).1.or
        (grammar.readRule (levels + 1) .miscLine start .empty).1).map
          fun found => ([found.1.toTree], found.2) := by
  have last : .miscLine ∈ preferred :: others := mem_of_suffix listed
  induction others generalizing preferred failures with
  | nil =>
      obtain rfl := List.mem_singleton.1 present
      rw [read_preferred unmocked stands isHash trivial significant listed head (unknown _ last),
        readRule_line_eq unmocked named apart levels (unknown _ present) agree]
  | cons next others inductionHypothesis =>
      rcases List.mem_cons.1 present with rfl | later
      · rw [read_preferred unmocked stands isHash trivial significant listed head (unknown _ last),
          readRule_line_eq unmocked named apart levels (unknown _ present) agree]
      · have here : preferred ∈ lineRules := listed.subset List.mem_cons_self
        have further : next :: others <:+ lineRules := (List.suffix_cons _ _).trans listed
        have other : preferred ≠ meant := by
          rintro rfl
          exact (List.nodup_cons.1 (listed.sublist.nodup nodup_lineRules)).1 later
        have declines := declines_other unmocked stands isHash trivial significant here
          (ne_miscLine_of_suffix listed) (by rw [head]; simpa using Ne.symm other) (levels + 1)
        obtain ⟨failed, agreeLater⟩ := declines.readRule failures
        rw [read_firstOf_of_none failed]
        refine inductionHypothesis further later ?_ (agreeLater.trans agree) (mem_of_suffix further)
        intro rule below
        have apartRule : preferred ≠ rule := by
          rintro rfl
          exact (List.nodup_cons.1 (listed.sublist.nodup nodup_lineRules)).1 below
        rw [contains_line unmocked here (further.subset below) apartRule]
        exact unknown rule (List.mem_cons_of_mem _ below)

/--
The name behind the number sign chooses between the rules for lines: its own
rule reads the line as it does alone, or else the last one reads it.
-/
theorem read_preprocessorLine (levels : Nat) :
    (Pattern.preprocessorLine.read (grammar.readRule (levels + 1)) start .empty).1 =
      (((rest.head?.bind Token.lineRule?).bind fun meant =>
          (grammar.readRule (levels + 1) meant start .empty).1).or
        (grammar.readRule (levels + 1) .miscLine start .empty).1).map
          fun found => ([found.1.toTree], found.2) := by
  have listed : .defineLine :: lineRules.tail <:+ lineRules := List.suffix_rfl
  have unknown (rule : Rule) : Failures.empty.contains rule start.position = false :=
    Failures.contains_empty rule start.position
  change ((Pattern.firstOf .defineLine lineRules.tail).read (grammar.readRule (levels + 1))
    start .empty).1 = _
  cases head : rest.head?.bind Token.lineRule? with
  | none =>
      refine read_others unmocked stands isHash trivial significant listed ?_ (unknown .miscLine)
      simp [head]
  | some meant =>
      rw [Option.bind_some]
      by_cases first : meant = .defineLine
      · subst first
        exact read_preferred unmocked stands isHash trivial significant listed head
          (unknown .miscLine)
      · obtain ⟨keyword, _, means⟩ := Option.bind_eq_some_iff.1 head
        obtain ⟨_, present, named⟩ := Token.lineRule?_eq_some means
        exact read_meant unmocked stands isHash trivial significant listed head
          (List.ne_nil_of_mem named) first present (fun rule _ => unknown rule) (.refl _ _)

end Line

end Grammar
end PreprocessorSyntax
