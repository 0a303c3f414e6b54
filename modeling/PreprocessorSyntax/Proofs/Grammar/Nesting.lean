import PreprocessorSyntax.Proofs.Grammar.Memory

/-!
# How deeply rules nest

No rule calls itself again before a token has been read: among the rules that
are called at one place, `Rule.rank` goes down.  So 54 levels for every token
still to be read, and 54 more, are never used up, and with so many levels
neither their number nor the memory of failures has any influence.  What a rule
reads is then given by `Grammar.nodeAt?`, which obeys one equation for each kind
of pattern.
-/

namespace PreprocessorSyntax

/-- Callers of a rule at the same place have a higher rank. -/
def Rule.rank : Rule → Nat
  | .conditionalExpression => 17
  | .expression => 18
  | rule => 53 - rule.index

theorem Rule.rank_lt (rule : Rule) : rule.rank < 54 := by
  cases rule <;> decide

namespace Pattern

/-- Whether all that a pattern matches has a token. -/
def consumes : Pattern → Bool
  | .token _ => true
  | .rule called => called != .replacementList
  | .ahead _ => false
  | .absent _ => false
  | .empty => false
  | .sequence first second => first.consumes || second.consumes
  | .choice preferred alternative => preferred.consumes && alternative.consumes
  | .many _ => false

/-- Whether the rules that a pattern calls before it has read a token have ranks below a bound. -/
def descends (bound : Nat) : Pattern → Bool
  | .token _ => true
  | .rule called => called.rank < bound
  | .ahead _ => true
  | .absent refused => refused.rank < bound
  | .empty => true
  | .sequence first second => first.descends bound && (first.consumes || second.descends bound)
  | .choice preferred alternative => preferred.descends bound && alternative.descends bound
  | .many item => item.descends bound

/-- Every rank is below 54. -/
theorem descends_rank_bound (pattern : Pattern) : pattern.descends 54 = true := by
  induction pattern with
  | token accepts => rfl
  | rule called => simp [descends, called.rank_lt]
  | ahead accepts => rfl
  | absent refused => simp [descends, refused.rank_lt]
  | empty => rfl
  | sequence first second firstHypothesis secondHypothesis =>
      simp [descends, firstHypothesis, secondHypothesis]
  | choice preferred alternative preferredHypothesis alternativeHypothesis =>
      simp [descends, preferredHypothesis, alternativeHypothesis]
  | many item inductionHypothesis => simp [descends, inductionHypothesis]

end Pattern

/-- Only a replacement list may be empty. -/
theorem Rule.consumes_pattern
    {rule : Rule}
    (notReplacement : rule ≠ .replacementList) :
    rule.pattern.consumes = true := by
  cases rule <;> first | contradiction | rfl

/-- The grammar has no left recursion. -/
theorem Rule.descends_pattern (rule : Rule) : rule.pattern.descends rule.rank = true := by
  cases rule <;> rfl

namespace Grammar

variable {grammar : Grammar}

theorem consumes_pattern
    {rule : Rule}
    (notReplacement : rule ≠ .replacementList) :
    (grammar.pattern rule).consumes = true := by
  unfold pattern
  split
  next => rfl
  next => exact Rule.consumes_pattern notReplacement

theorem descends_pattern (rule : Rule) : (grammar.pattern rule).descends rule.rank = true := by
  unfold pattern
  split
  next => rfl
  next => exact rule.descends_pattern

/-- What a consuming pattern is read as has a leaf. -/
theorem Derives.tokensOf_ne_nil
    {pattern : Pattern}
    {cursor after : Cursor}
    {trees : List Tree}
    (derived : grammar.Derives pattern cursor trees after)
    (consumes : pattern.consumes = true) :
    Tree.tokensOf trees ≠ [] := by
  induction derived with
  | token _ _ => simp
  | @rule called _ _ _ _ inductionHypothesis =>
      have notReplacement : called ≠ .replacementList := by
        simpa [Pattern.consumes] using consumes
      simpa using inductionHypothesis (consumes_pattern notReplacement)
  | ahead _ => cases consumes
  | absent _ _ => cases consumes
  | empty _ => cases consumes
  | sequence _ _ frontHypothesis backHypothesis =>
      intro noTokens
      rw [Tree.tokensOf_append, List.append_eq_nil_iff] at noTokens
      rcases Bool.or_eq_true_iff.1 consumes with front | back
      · exact frontHypothesis front noTokens.1
      · exact backHypothesis back noTokens.2
  | preferred _ inductionHypothesis =>
      exact inductionHypothesis (Bool.and_eq_true_iff.1 consumes).1
  | alternative _ inductionHypothesis =>
      exact inductionHypothesis (Bool.and_eq_true_iff.1 consumes).2
  | stop _ _ => cases consumes
  | further _ _ _ _ => cases consumes

/-- Reading leaves no more tokens to be read than there were. -/
theorem Derives.upcoming_le
    {pattern : Pattern}
    {cursor after : Cursor}
    {trees : List Tree}
    (derived : grammar.Derives pattern cursor trees after) :
    after.upcoming.length ≤ cursor.upcoming.length := by
  have lengths := derived.advances.upcoming_length
  omega

/-- Reading a consuming pattern leaves fewer tokens to be read. -/
theorem Derives.upcoming_lt
    {pattern : Pattern}
    {cursor after : Cursor}
    {trees : List Tree}
    (derived : grammar.Derives pattern cursor trees after)
    (consumes : pattern.consumes = true) :
    after.upcoming.length < cursor.upcoming.length := by
  have lengths := derived.advances.upcoming_length
  have positive := List.length_pos_iff.2 (derived.tokensOf_ne_nil consumes)
  omega

section Levels

variable {levels bound : Nat}

/-- Rules whose callers stand far enough below the limit refuse nothing. -/
def Accepts (grammar : Grammar) (levels : Nat) : Prop :=
  ∀ rule (cursor : Cursor), 54 * cursor.upcoming.length + rule.rank < levels →
    (grammar.readAfresh levels rule cursor false).2 = false

theorem accepts_readMany
    {item : Pattern}
    (items : ∀ cursor : Cursor, 54 * cursor.upcoming.length + bound ≤ levels →
      (item.read (grammar.readAfresh levels) cursor false).2 = false)
    (limit : List Token)
    {cursor : Cursor}
    (room : 54 * cursor.upcoming.length + bound ≤ levels) :
    (Pattern.readMany (item.read (grammar.readAfresh levels)) limit cursor false).2 = false := by
  induction limit generalizing cursor with
  | nil =>
      have accepted := items cursor room
      unfold Pattern.readMany
      split <;> simp_all
  | cons token limit inductionHypothesis =>
      have accepted := items cursor room
      unfold Pattern.readMany
      split
      next => simp_all
      next trees after flag read =>
        have shorter := (derives_of_read (derives_of_readAfresh levels) item read).upcoming_le
        rw [read] at accepted
        simp only at accepted
        subst accepted
        exact inductionHypothesis (by omega)

/-- A pattern refuses nothing if the rules it calls at its place have ranks below the room left. -/
theorem accepts_read
    (rules : grammar.Accepts levels)
    {pattern : Pattern}
    (descends : pattern.descends bound = true)
    {cursor : Cursor}
    (room : 54 * cursor.upcoming.length + bound ≤ levels) :
    (pattern.read (grammar.readAfresh levels) cursor false).2 = false := by
  induction pattern generalizing cursor bound with
  | token accepts =>
      simp only [Pattern.read]
      split
      next => rfl
      next => split <;> rfl
  | rule called =>
      have lower : called.rank < bound := by simpa [Pattern.descends] using descends
      rw [Pattern.read_rule]
      exact rules called cursor (by omega)
  | ahead accepts => rfl
  | absent refused =>
      have lower : refused.rank < bound := by simpa [Pattern.descends] using descends
      rw [Pattern.read_absent]
      exact rules refused cursor (by omega)
  | empty => rfl
  | sequence first second firstHypothesis secondHypothesis =>
      obtain ⟨firstDescends, behind⟩ := Bool.and_eq_true_iff.1 descends
      have accepted := firstHypothesis firstDescends room
      simp only [Pattern.read]
      split
      next => simp_all
      next trees middle flag read =>
        have derived := derives_of_read (derives_of_readAfresh levels) first read
        rw [read] at accepted
        simp only at accepted
        subst accepted
        have acceptedBack : (second.read (grammar.readAfresh levels) middle false).2 = false := by
          rcases Bool.or_eq_true_iff.1 behind with consumes | secondDescends
          · -- a token has been read, so every rule may be called again
            have shorter := derived.upcoming_lt consumes
            exact secondHypothesis second.descends_rank_bound (by omega)
          · have shorter := derived.upcoming_le
            exact secondHypothesis secondDescends (by omega)
        split <;> simp_all
  | choice preferred alternative preferredHypothesis alternativeHypothesis =>
      obtain ⟨preferredDescends, alternativeDescends⟩ := Bool.and_eq_true_iff.1 descends
      have accepted := preferredHypothesis preferredDescends room
      simp only [Pattern.read]
      split
      next => simp_all
      next flag read =>
        rw [read] at accepted
        simp only at accepted
        subst accepted
        exact alternativeHypothesis alternativeDescends room
  | many item inductionHypothesis =>
      simp only [Pattern.read]
      exact accepts_readMany (fun _ => inductionHypothesis descends) cursor.rest room

end Levels

/-- With enough levels no rule is refused. -/
theorem accepts_readAfresh (levels : Nat) : grammar.Accepts levels := by
  induction levels with
  | zero =>
      intro rule cursor room
      exact absurd room (Nat.not_lt_zero _)
  | succ levels inductionHypothesis =>
      intro rule cursor room
      rw [readAfresh_succ]
      exact accepts_read inductionHypothesis (descends_pattern rule) (Nat.le_of_lt_succ room)

/-- Levels that suffice for every rule at a place. -/
def levelsFor (cursor : Cursor) : Nat :=
  54 * (cursor.upcoming.length + 1)

theorem accepts_levelsFor (rule : Rule) (cursor : Cursor) :
    (grammar.readAfresh (levelsFor cursor) rule cursor false).2 = false := by
  apply accepts_readAfresh
  have bounded := rule.rank_lt
  unfold levelsFor
  omega

/-- What a rule reads at a place, given levels enough. -/
def nodeAt? (grammar : Grammar) (rule : Rule) (cursor : Cursor) : Pattern.Reading Node :=
  (grammar.readAfresh (levelsFor cursor) rule cursor false).1

/-- What a pattern reads at a place, given levels enough. -/
def treesAt? (grammar : Grammar) (pattern : Pattern) (cursor : Cursor) :
    Pattern.Reading (List Tree) :=
  (pattern.read (fun rule place (_ : Unit) => (grammar.nodeAt? rule place, ())) cursor ()).1

/-- More levels than suffice change nothing. -/
theorem readAfresh_eq_nodeAt?
    {levels : Nat}
    {rule : Rule}
    {cursor : Cursor}
    (accepted : (grammar.readAfresh levels rule cursor false).2 = false) :
    (grammar.readAfresh levels rule cursor false).1 = grammar.nodeAt? rule cursor := by
  have enough : (grammar.readAfresh (levelsFor cursor) rule cursor false).2 = false :=
    accepts_levelsFor rule cursor
  unfold nodeAt?
  rcases Nat.le_total levels (levelsFor cursor) with le | le
  · rw [readAfresh_of_le le accepted]
  · rw [readAfresh_of_le le enough]

/-- Where nothing is refused, a pattern reads what it reads with levels enough. -/
theorem read_eq_treesAt?
    {levels : Nat}
    {pattern : Pattern}
    {cursor : Cursor}
    (accepted : (pattern.read (grammar.readAfresh levels) cursor false).2 = false) :
    (pattern.read (grammar.readAfresh levels) cursor false).1 =
      grammar.treesAt? pattern cursor := by
  have rules (rule : Rule) :
      Follows (fun _ => True) (fun _ => True)
        (fun place (_ : Unit) => (grammar.nodeAt? rule place, ()))
        (grammar.readAfresh levels rule) := by
    intro place state _ _ acceptedRule
    exact ⟨(readAfresh_eq_nodeAt? acceptedRule).symm, trivial⟩
  exact (follows_read (fun _ _ => trivial) rules pattern cursor () trivial trivial accepted).1.symm

/-- A rule reads what it accepts and makes a node of it. -/
theorem nodeAt?_eq (rule : Rule) (cursor : Cursor) :
    grammar.nodeAt? rule cursor =
      (grammar.treesAt? (grammar.pattern rule) cursor).map
        fun found => (rule.build found.1, found.2) := by
  have accepted : (grammar.readAfresh (levelsFor cursor) rule cursor false).2 = false :=
    accepts_levelsFor rule cursor
  have levels : levelsFor cursor = 54 * cursor.upcoming.length + 53 + 1 := by
    unfold levelsFor
    omega
  unfold nodeAt?
  rw [levels, readAfresh_succ] at accepted ⊢
  rw [read_eq_treesAt? accepted]

end Grammar
end PreprocessorSyntax
