import PreprocessorSyntax.Proofs.Grammar.Derivation

/-!
# Remembering failures changes no result

`Grammar.readAfresh` reads rules without any memory of failed attempts: the same
attempt is made again wherever it comes up.  All it keeps in mind is whether a
rule was refused because no level of nesting was left.

As long as nothing is refused, the number of levels makes no difference, so an
attempt that failed at one depth fails at every other.  This is why a remembered
failure may stand in for the attempt itself.
-/

namespace PreprocessorSyntax
namespace Grammar

/-- Read a rule without memory; the flag tells whether any rule was refused so far. -/
def readAfresh (grammar : Grammar) : Nat → Rule → Pattern.Reader Bool Node
  | 0, _, _, _ => (none, true)
  | levels + 1, rule, cursor, refused =>
    match (grammar.pattern rule).read (grammar.readAfresh levels) cursor refused with
    | (some (children, after), refused) => (some (rule.build children, after), refused)
    | (none, refused) => (none, refused)

/-- The tree of one rule that covers a whole token list, read without memory. -/
def parseAfresh (grammar : Grammar) (rule : Rule) (tokens : List Token) : Option Node :=
  rootOf? rule tokens fun start => (grammar.readAfresh grammar.maxDepth rule start false).1

/-- Whether a parse without memory refuses some rule because no level of nesting is left. -/
def refuses (grammar : Grammar) (rule : Rule) (tokens : List Token) : Bool :=
  (grammar.readAfresh grammar.maxDepth rule (Cursor.ofTokens tokens).trivia.2 false).2

variable {grammar : Grammar}

/-- A rule derives what it reads without memory. -/
theorem derives_of_readAfresh
    (levels : Nat)
    {rule : Rule}
    {cursor after : Cursor}
    {refused later : Bool}
    {node : Node}
    (read : grammar.readAfresh levels rule cursor refused = (some (node, after), later)) :
    grammar.Derives (.rule rule) cursor [node.toTree] after := by
  induction levels generalizing rule cursor refused node after later with
  | zero => cases read
  | succ levels inductionHypothesis =>
      unfold readAfresh at read
      split at read
      next body =>
        cases read
        exact .rule (derives_of_read inductionHypothesis _ body)
      next => cases read

section Refusal

variable {readRule : Rule → Pattern.Reader Bool Node}

theorem refused_readMany
    {item : Pattern.Reader Bool (List Tree)}
    (keeps : ∀ cursor, (item cursor true).2 = true)
    (bound : List Token)
    (cursor : Cursor) :
    (Pattern.readMany item bound cursor true).2 = true := by
  induction bound generalizing cursor with
  | nil =>
      have kept := keeps cursor
      unfold Pattern.readMany
      split <;> simp_all
  | cons token bound inductionHypothesis =>
      have kept := keeps cursor
      unfold Pattern.readMany
      split
      next => simp_all
      next trees after flag front =>
        rw [front] at kept
        subst kept
        exact inductionHypothesis after

/-- A pattern keeps a refusal in mind if rules do. -/
theorem refused_read
    (keeps : ∀ rule cursor, (readRule rule cursor true).2 = true)
    (pattern : Pattern)
    (cursor : Cursor) :
    (pattern.read readRule cursor true).2 = true := by
  induction pattern generalizing cursor with
  | token accepts =>
      simp only [Pattern.read]
      split
      next => rfl
      next => split <;> rfl
  | rule called =>
      rw [Pattern.read_rule]
      exact keeps called cursor
  | ahead accepts => rfl
  | absent refused =>
      rw [Pattern.read_absent]
      exact keeps refused cursor
  | empty => rfl
  | sequence first second firstHypothesis secondHypothesis =>
      have kept := firstHypothesis cursor
      simp only [Pattern.read]
      split
      next => simp_all
      next trees middle flag front =>
        rw [front] at kept
        subst kept
        have keptAgain := secondHypothesis middle
        split <;> simp_all
  | choice preferred alternative preferredHypothesis alternativeHypothesis =>
      have kept := preferredHypothesis cursor
      simp only [Pattern.read]
      split
      next => simp_all
      next flag failed =>
        rw [failed] at kept
        subst kept
        exact alternativeHypothesis cursor
  | many item inductionHypothesis =>
      simp only [Pattern.read]
      exact refused_readMany inductionHypothesis _ cursor

end Refusal

/-- A rule is read by reading what it accepts with one level less. -/
theorem readAfresh_succ (levels : Nat) (rule : Rule) (cursor : Cursor) (refused : Bool) :
    grammar.readAfresh (levels + 1) rule cursor refused =
      (((grammar.pattern rule).read (grammar.readAfresh levels) cursor refused).1.map
          fun found => (rule.build found.1, found.2),
        ((grammar.pattern rule).read (grammar.readAfresh levels) cursor refused).2) := by
  rw [readAfresh]
  split
  next read => rw [read]; rfl
  next read => rw [read]; rfl

theorem refused_readAfresh (levels : Nat) (rule : Rule) (cursor : Cursor) :
    (grammar.readAfresh levels rule cursor true).2 = true := by
  induction levels generalizing rule cursor with
  | zero => rfl
  | succ levels inductionHypothesis =>
      rw [readAfresh_succ]
      exact refused_read inductionHypothesis (grammar.pattern rule) cursor

section Agreement

variable {State : Type} {place : Cursor → Prop} {known : State → Prop}

/--
A reader follows one without memory if, wherever the latter refuses nothing,
both read the same, and what the former keeps in mind stays sound.
-/
def Follows
    {Result : Type}
    (place : Cursor → Prop)
    (known : State → Prop)
    (reader : Pattern.Reader State Result)
    (afresh : Pattern.Reader Bool Result) : Prop :=
  ∀ cursor state, place cursor → known state → (afresh cursor false).2 = false →
    (reader cursor state).1 = (afresh cursor false).1 ∧ known (reader cursor state).2

theorem Follows.reading
    {Result : Type}
    {reader : Pattern.Reader State Result}
    {afresh : Pattern.Reader Bool Result}
    (follows : Follows place known reader afresh)
    {cursor : Cursor}
    {state : State}
    {reading : Pattern.Reading Result}
    (here : place cursor)
    (sound : known state)
    (read : afresh cursor false = (reading, false)) :
    ∃ later, reader cursor state = (reading, later) ∧ known later := by
  have agreement := follows cursor state here sound (by rw [read])
  rw [read] at agreement
  exact ⟨_, Prod.ext agreement.1 rfl, agreement.2⟩

variable {readRule : Rule → Pattern.Reader State Node} {levels : Nat}

/-- Repetition follows repetition without memory if its items do. -/
theorem follows_readMany
    (closed : ∀ {cursor tokens after}, place cursor → cursor.Advances tokens after → place after)
    {item : Pattern}
    (items : Follows place known (item.read readRule) (item.read (grammar.readAfresh levels)))
    (bound : List Token)
    {cursor : Cursor}
    {state : State}
    (here : place cursor)
    (sound : known state)
    (accepted : (Pattern.readMany (item.read (grammar.readAfresh levels))
      bound cursor false).2 = false) :
    (Pattern.readMany (item.read readRule) bound cursor state).1 =
        (Pattern.readMany (item.read (grammar.readAfresh levels)) bound cursor false).1 ∧
      known (Pattern.readMany (item.read readRule) bound cursor state).2 := by
  induction bound generalizing cursor state with
  | nil =>
      unfold Pattern.readMany at accepted ⊢
      rcases read : item.read (grammar.readAfresh levels) cursor false with ⟨reading, flag⟩
      rw [read] at accepted
      have unrefused : flag = false := by
        cases reading <;> exact accepted
      subst unrefused
      obtain ⟨later, same, soundLater⟩ := items.reading here sound read
      rw [same]
      cases reading <;> exact ⟨rfl, soundLater⟩
  | cons token bound inductionHypothesis =>
      unfold Pattern.readMany at accepted ⊢
      rcases read : item.read (grammar.readAfresh levels) cursor false with ⟨reading, flag⟩
      rw [read] at accepted
      cases reading with
      | none =>
          have unrefused : flag = false := accepted
          subst unrefused
          obtain ⟨later, same, soundLater⟩ := items.reading here sound read
          rw [same]
          exact ⟨rfl, soundLater⟩
      | some front =>
          obtain ⟨trees, after⟩ := front
          cases flag with
          | true =>
              have kept : (Pattern.readMany (item.read (grammar.readAfresh levels))
                  bound after true).2 = true :=
                refused_readMany (refused_read (refused_readAfresh levels) item) bound after
              simp [kept] at accepted
          | false =>
              obtain ⟨later, same, soundLater⟩ := items.reading here sound read
              have derived := derives_of_read (derives_of_readAfresh levels) item read
              obtain ⟨agree, soundEnd⟩ :=
                inductionHypothesis (closed here derived.advances) soundLater accepted
              rw [same]
              exact ⟨by simp [agree], soundEnd⟩

/-- A sequence follows its reading without memory if both of its parts do. -/
theorem Follows.sequence
    (closed : ∀ {cursor tokens after}, place cursor → cursor.Advances tokens after → place after)
    {first second : Pattern}
    (front : Follows place known (first.read readRule) (first.read (grammar.readAfresh levels)))
    (back : Follows place known (second.read readRule) (second.read (grammar.readAfresh levels))) :
    Follows place known ((first ++ second).read readRule)
      ((first ++ second).read (grammar.readAfresh levels)) := by
  rw [Pattern.append_eq]
  intro cursor state here sound accepted
  simp only [Pattern.read] at accepted ⊢
  rcases read : first.read (grammar.readAfresh levels) cursor false with ⟨reading, flag⟩
  rw [read] at accepted
  cases reading with
  | none =>
      have unrefused : flag = false := accepted
      subst unrefused
      obtain ⟨later, same, soundLater⟩ := front.reading here sound read
      rw [same]
      exact ⟨rfl, soundLater⟩
  | some found =>
      obtain ⟨trees, middle⟩ := found
      simp only at accepted ⊢
      rcases readBack : second.read (grammar.readAfresh levels) middle flag with ⟨more, last⟩
      rw [readBack] at accepted
      have unrefused : last = false := by
        cases more <;> exact accepted
      subst unrefused
      cases flag with
      | true =>
          have kept : (second.read (grammar.readAfresh levels) middle true).2 = true :=
            refused_read (refused_readAfresh levels) second middle
          simp [readBack] at kept
      | false =>
          obtain ⟨later, same, soundLater⟩ := front.reading here sound read
          have derived := derives_of_read (derives_of_readAfresh levels) first read
          obtain ⟨final, sameBack, soundFinal⟩ :=
            back.reading (closed here derived.advances) soundLater readBack
          rw [same]
          simp only [sameBack]
          cases more <;> exact ⟨rfl, soundFinal⟩

/-- A choice follows its reading without memory if both of its alternatives do. -/
theorem Follows.choice
    {preferred alternative : Pattern}
    (first : Follows place known (preferred.read readRule)
      (preferred.read (grammar.readAfresh levels)))
    (second : Follows place known (alternative.read readRule)
      (alternative.read (grammar.readAfresh levels))) :
    Follows place known ((preferred <|> alternative).read readRule)
      ((preferred <|> alternative).read (grammar.readAfresh levels)) := by
  rw [Pattern.orElse_eq]
  intro cursor state here sound accepted
  simp only [Pattern.read] at accepted ⊢
  rcases read : preferred.read (grammar.readAfresh levels) cursor false with ⟨reading, flag⟩
  rw [read] at accepted
  cases reading with
  | some chosen =>
      have unrefused : flag = false := accepted
      subst unrefused
      obtain ⟨later, same, soundLater⟩ := first.reading here sound read
      rw [same]
      exact ⟨rfl, soundLater⟩
  | none =>
      cases flag with
      | true =>
          have kept : (alternative.read (grammar.readAfresh levels) cursor true).2 = true :=
            refused_read (refused_readAfresh levels) alternative cursor
          simp [kept] at accepted
      | false =>
          obtain ⟨later, same, soundLater⟩ := first.reading here sound read
          rw [same]
          exact second cursor later here soundLater accepted

/-- A pattern follows its reading without memory if rules do. -/
theorem follows_read
    (closed : ∀ {cursor tokens after}, place cursor → cursor.Advances tokens after → place after)
    (rules : ∀ rule, Follows place known (readRule rule) (grammar.readAfresh levels rule))
    (pattern : Pattern) :
    Follows place known (pattern.read readRule) (pattern.read (grammar.readAfresh levels)) := by
  induction pattern with
  | token accepts =>
      intro cursor state here sound accepted
      simp only [Pattern.read]
      split
      next => exact ⟨rfl, sound⟩
      next => split <;> exact ⟨rfl, sound⟩
  | rule called =>
      intro cursor state here sound accepted
      rw [Pattern.read_rule] at accepted
      obtain ⟨agree, soundLater⟩ := rules called cursor state here sound accepted
      rw [Pattern.read_rule, Pattern.read_rule, agree]
      exact ⟨rfl, soundLater⟩
  | ahead accepts =>
      intro cursor state here sound accepted
      exact ⟨rfl, sound⟩
  | absent refused =>
      intro cursor state here sound accepted
      rw [Pattern.read_absent] at accepted
      obtain ⟨agree, soundLater⟩ := rules refused cursor state here sound accepted
      rw [Pattern.read_absent, Pattern.read_absent, agree]
      exact ⟨rfl, soundLater⟩
  | empty =>
      intro cursor state here sound accepted
      exact ⟨rfl, sound⟩
  | sequence first second firstHypothesis secondHypothesis =>
      exact firstHypothesis.sequence closed secondHypothesis
  | choice preferred alternative preferredHypothesis alternativeHypothesis =>
      exact preferredHypothesis.choice alternativeHypothesis
  | many item inductionHypothesis =>
      intro cursor state here sound accepted
      simp only [Pattern.read] at accepted ⊢
      obtain ⟨agree, soundLater⟩ :=
        follows_readMany closed inductionHypothesis cursor.rest here sound accepted
      exact ⟨congrArg some agree, soundLater⟩

end Agreement

/-- More levels change no reading in which no rule was refused. -/
theorem readAfresh_of_le
    {levels more : Nat}
    (le : levels ≤ more)
    {rule : Rule}
    {cursor : Cursor}
    (accepted : (grammar.readAfresh levels rule cursor false).2 = false) :
    grammar.readAfresh more rule cursor false = grammar.readAfresh levels rule cursor false := by
  induction levels generalizing more rule cursor with
  | zero => cases accepted
  | succ levels inductionHypothesis =>
      obtain ⟨more, rfl⟩ := Nat.exists_eq_add_of_le' (Nat.le_trans (Nat.succ_pos levels) le)
      have rules (called : Rule) :
          Follows (fun _ => True) (fun refused => refused = false)
            (grammar.readAfresh more called) (grammar.readAfresh levels called) := by
        rintro cursor refused - rfl accepted
        rw [inductionHypothesis (Nat.le_of_succ_le_succ le) accepted]
        exact ⟨rfl, accepted⟩
      rw [readAfresh_succ] at accepted
      have body := follows_read (fun _ _ => trivial) rules (grammar.pattern rule)
        cursor false trivial rfl accepted
      rw [readAfresh_succ, readAfresh_succ, body.1, body.2, accepted]

/-- All remembered attempts fail when they are made again and nothing is refused. -/
def Justified (grammar : Grammar) (tokens : List Token) (failures : Failures) : Prop :=
  ∀ rule position, failures.contains rule position = true →
    ∃ levels, grammar.readAfresh levels rule ⟨position, tokens.drop position⟩ false = (none, false)

/-- A place in a given token list. -/
def InTokens (tokens : List Token) (cursor : Cursor) : Prop :=
  cursor.rest = tokens.drop cursor.position

/-- Reading does not leave the token list. -/
theorem InTokens.advances
    {tokens skipped : List Token}
    {cursor after : Cursor}
    (here : InTokens tokens cursor)
    (advances : cursor.Advances skipped after) :
    InTokens tokens after := by
  unfold InTokens at here ⊢
  rw [advances.position, ← List.drop_drop, ← here, advances.rest, List.drop_left]

/-- Nothing needs to be justified in the beginning. -/
theorem justified_empty (tokens : List Token) : grammar.Justified tokens .empty := by
  intro rule position remembered
  simp at remembered

/-- An attempt that failed without a refusal may be remembered. -/
theorem Justified.insert
    {tokens : List Token}
    {failures : Failures}
    {rule : Rule}
    {cursor : Cursor}
    {levels : Nat}
    (justified : grammar.Justified tokens failures)
    (here : InTokens tokens cursor)
    (failed : grammar.readAfresh levels rule cursor false = (none, false)) :
    grammar.Justified tokens (failures.insert rule cursor.position) := by
  intro other position remembered
  rw [Failures.contains_insert, Bool.or_eq_true, decide_eq_true_eq] at remembered
  rcases remembered with ⟨rfl, rfl⟩ | before
  · refine ⟨levels, ?_⟩
    rw [← here]
    exact failed
  · exact justified other position before

/-- Reading with memory gives what reading without it gives, unless that refuses some rule. -/
theorem follows_readRule (tokens : List Token) (levels : Nat) (rule : Rule) :
    Follows (InTokens tokens) (grammar.Justified tokens)
      (grammar.readRule levels rule) (grammar.readAfresh levels rule) := by
  induction levels generalizing rule with
  | zero =>
      intro cursor failures here justified accepted
      cases accepted
  | succ levels inductionHypothesis =>
      intro cursor failures here justified accepted
      unfold readRule
      split
      next remembered =>
        obtain ⟨depth, failed⟩ := justified rule cursor.position remembered
        rw [← here] at failed
        have same : grammar.readAfresh (levels + 1) rule cursor false = (none, false) := by
          rcases Nat.le_total depth (levels + 1) with le | le
          · rw [readAfresh_of_le le (by rw [failed]), failed]
          · rw [← readAfresh_of_le le accepted, failed]
        exact ⟨by rw [same], justified⟩
      next =>
        have accepted' := accepted
        rw [readAfresh_succ] at accepted'
        have body := follows_read InTokens.advances inductionHypothesis (grammar.pattern rule)
          cursor failures here justified accepted'
        rw [readAfresh_succ]
        simp only
        split
        next read =>
          rw [read] at body
          exact ⟨by rw [← body.1]; rfl, body.2⟩
        next read =>
          rw [read] at body
          have failed : grammar.readAfresh (levels + 1) rule cursor false = (none, false) := by
            rw [readAfresh_succ, ← body.1, accepted']
            rfl
          exact ⟨by rw [← body.1]; rfl, body.2.insert here failed⟩

/-- A parse that starts without remembered failures reads its rule as if it had no memory. -/
theorem readRule_eq_readAfresh
    {levels : Nat}
    {rule : Rule}
    {tokens : List Token}
    (accepted : (grammar.readAfresh levels rule (Cursor.ofTokens tokens).trivia.2 false).2 = false) :
    (grammar.readRule levels rule (Cursor.ofTokens tokens).trivia.2 .empty).1 =
      (grammar.readAfresh levels rule (Cursor.ofTokens tokens).trivia.2 false).1 := by
  have start : InTokens tokens (Cursor.ofTokens tokens) := rfl
  have here := start.advances (Cursor.ofTokens tokens).advances_trivia
  exact (follows_readRule tokens levels rule _ _ here (justified_empty tokens) accepted).1

/-- The root depends on the reading behind the leading white space and comments only. -/
theorem rootOf?_congr
    {rule : Rule}
    {tokens : List Token}
    {first second : Cursor → Pattern.Reading Node}
    (same : first (Cursor.ofTokens tokens).trivia.2 = second (Cursor.ofTokens tokens).trivia.2) :
    rootOf? rule tokens first = rootOf? rule tokens second := by
  unfold rootOf?
  simp only [same]

/--
Remembering failures is transparent: where the parser without memory refuses no
rule for want of levels, the parser with memory gives the same tree, or none
like it.
-/
theorem parseTokens_eq_parseAfresh
    (grammar : Grammar)
    (rule : Rule)
    (tokens : List Token)
    (accepted : grammar.refuses rule tokens = false) :
    grammar.parseTokens rule tokens = grammar.parseAfresh rule tokens :=
  rootOf?_congr (readRule_eq_readAfresh accepted)

/-- In an unclosed call every alternative fails, most of them more than once. -/
theorem parseTokens_eq_parseAfresh_unclosed :
    let tokens : List Token :=
      [⟨.identifier, "f", .unknown⟩, ⟨.punctuator .leftParen, "(", .unknown⟩,
       ⟨.identifier, "x", .unknown⟩, ⟨.punctuator .leftParen, "(", .unknown⟩,
       ⟨.endOfInput, "", .unknown⟩]
    Grammar.standard.refuses .constantExpression tokens = false ∧
      Grammar.standard.parseTokens .constantExpression tokens =
        Grammar.standard.parseAfresh .constantExpression tokens := by
  intro tokens
  have accepted : Grammar.standard.refuses .constantExpression tokens = false := by
    decide +kernel
  exact ⟨accepted, parseTokens_eq_parseAfresh .standard .constantExpression tokens accepted⟩

end Grammar
end PreprocessorSyntax
