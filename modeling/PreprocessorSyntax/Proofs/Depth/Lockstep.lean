import PreprocessorSyntax.Proofs.Depth.Harmless
import PreprocessorSyntax.Proofs.Depth.Literals

/-!
# Few levels and many

`Grammar.Carries` compares a reading with few levels left to one with at least as
many.  Where the first one matches, the second one matches the same tokens, as
alike trees.  That is not true everywhere: with few levels a repetition may end
early because its next item is too deep.  So it is claimed only where a reading
stops in front of something that can follow, and patterns differ in what that is.

There is one lemma for each kind of pattern.  Those for choice and repetition ask
why an alternative was passed over, or why no further item was read: the reason
must be one that holds with any number of levels.
-/

namespace PreprocessorSyntax

/-- Only certain tokens may come next, apart from white space and comments. -/
def Cursor.Precedes (allowed : Token → Prop) (cursor : Cursor) : Prop :=
  ∀ token ∈ cursor.next?, allowed token

/-- White space and comments apart, the very next token is one of those that may come next. -/
theorem Cursor.Precedes.head
    {allowed : Token → Prop}
    {cursor : Cursor}
    (precedes : cursor.Precedes allowed)
    (blank : ∀ token, token.isTrivia = true → allowed token) :
    ∀ token ∈ cursor.rest.head?, allowed token := by
  intro token first
  rcases Cursor.isTrivia_or_next? first with trivial | next
  · exact blank token trivial
  · exact precedes token next

/-- A reading may stop anywhere. -/
def Anywhere (_ : Cursor) (_ : Failures) : Prop :=
  True

/-- A reading may stop where only certain tokens come next, whatever is remembered. -/
def Before (allowed : Token → Prop) (after : Cursor) (_ : Failures) : Prop :=
  after.Precedes allowed

namespace Grammar

section Following

variable {grammar : Grammar} {allowed : Token → Prop} {accepts : Token → Bool}
variable {first second preferred alternative item : Pattern}

/-- A pattern is what comes next in front of it. -/
theorem Begins.exists_next?
    {cursor after : Cursor}
    {trees : List Tree}
    (begins : grammar.Begins accepts first)
    (derived : grammar.Derives first cursor trees after) :
    ∃ token ∈ cursor.next?, accepts token = true := by
  obtain ⟨found, here, starts⟩ := begins cursor trees after derived
  refine ⟨found, ?_, starts⟩
  rw [derived.advances.next?, Option.mem_def.1 here, Option.some_or]
  exact rfl

theorem Begins.precedes
    {cursor after : Cursor}
    {trees : List Tree}
    (begins : grammar.Begins accepts first)
    (follows : ∀ token, accepts token = true → allowed token)
    (derived : grammar.Derives first cursor trees after) :
    cursor.Precedes allowed := by
  obtain ⟨found, here, starts⟩ := begins.exists_next? derived
  intro token next
  rw [Option.mem_def.1 here] at next
  cases next
  exact follows found starts

/-- Where only certain tokens may follow a pattern, only these come next in front of it. -/
def Passes (grammar : Grammar) (allowed : Token → Prop) (pattern : Pattern) : Prop :=
  ∀ cursor trees after, grammar.Derives pattern cursor trees after →
    after.Precedes allowed → cursor.Precedes allowed

theorem Begins.passes
    (begins : grammar.Begins accepts first)
    (follows : ∀ token, accepts token = true → allowed token) :
    grammar.Passes allowed first :=
  fun _ _ _ derived _ => begins.precedes follows derived

theorem passes_trivia : grammar.Passes allowed .trivia := by
  intro cursor trees after derived precedes token next
  rw [derived.advances.next?, firstSignificant?_eq_none (isTrivia_of_derives derived),
    Option.none_or] at next
  exact precedes token next

theorem Passes.optional (passes : grammar.Passes allowed item) :
    grammar.Passes allowed (.optional item) := by
  intro cursor trees after derived precedes
  cases derived with
  | preferred chosen => exact passes _ _ _ chosen precedes
  | alternative chosen =>
      cases chosen
      exact precedes

theorem Passes.many (passes : grammar.Passes allowed item) :
    grammar.Passes allowed (.many item) := by
  intro cursor trees after derived precedes
  generalize repeated : Pattern.many item = pattern at derived
  induction derived with
  | stop => exact precedes
  | further front _ _ backHypothesis =>
      cases repeated
      exact passes _ _ _ front (backHypothesis precedes rfl)
  | _ => cases repeated

end Following

/--
Where a pattern matches with few levels left and may stop there, it matches the
same tokens with many levels left, as alike trees.  Neither memory does harm.
-/
def Carries
    (grammar : Grammar)
    (few : Nat)
    (alike : List Tree → List Tree → Prop)
    (stop : Cursor → Failures → Prop)
    (pattern : Pattern) : Prop :=
  ∀ ⦃many : Nat⦄ ⦃cursor after : Cursor⦄ ⦃failures others later : Failures⦄ ⦃trees : List Tree⦄,
    few ≤ many → grammar.Harmless cursor failures → grammar.Harmless cursor others →
    pattern.read (grammar.readRule few) cursor failures = (some (trees, after), later) →
    stop after later →
    ∃ more last, pattern.read (grammar.readRule many) cursor others = (some (more, after), last) ∧
      alike trees more ∧ grammar.Harmless after last

variable {grammar : Grammar} {few : Nat} {first second preferred alternative item : Pattern}
variable {alike weaker : List Tree → List Tree → Prop}
variable {stop stopFirst stopItem : Cursor → Failures → Prop} {allowed : Token → Prop}
variable {cursor after : Cursor} {failures later : Failures} {trees : List Tree}

namespace Carries

/-- The reading with few levels leaves a harmless memory, too. -/
theorem harmless
    (carries : grammar.Carries few alike stop first)
    (harmless : grammar.Harmless cursor failures)
    (read : first.read (grammar.readRule few) cursor failures = (some (trees, after), later))
    (stopped : stop after later) :
    grammar.Harmless after later := by
  obtain ⟨more, last, again, _, harmlessLast⟩ :=
    carries (Nat.le_refl few) harmless harmless read stopped
  rw [read] at again
  cases again
  exact harmlessLast

theorem mono
    {stopToo : Cursor → Failures → Prop}
    (carries : grammar.Carries few alike stop first)
    (stricter : ∀ after later, stopToo after later → stop after later) :
    grammar.Carries few alike stopToo first :=
  fun _ _ _ _ _ _ _ le harmless harmlessToo read stopped =>
    carries le harmless harmlessToo read (stricter _ _ stopped)

theorem weaken
    (carries : grammar.Carries few alike stop first)
    (implies : ∀ trees others, alike trees others → weaker trees others) :
    grammar.Carries few weaker stop first := by
  intro many cursor after failures others later trees le harmless harmlessToo read stopped
  obtain ⟨more, last, readMany, same, harmlessLast⟩ :=
    carries le harmless harmlessToo read stopped
  exact ⟨more, last, readMany, implies _ _ same, harmlessLast⟩

end Carries

theorem carries_of_calls_eq_nil (callsNone : first.calls = []) :
    grammar.Carries few Alike stop first := by
  intro many cursor after failures others later trees le harmless harmlessToo read _
  rw [read_of_calls_eq_nil grammar callsNone, Prod.mk.injEq] at read
  rw [read_of_calls_eq_nil grammar callsNone, read.1]
  exact ⟨trees, others, rfl, .refl trees,
    harmlessToo.advance (derives_of_treesAt? read.1).advances⟩

/-- So are patterns whose rules are read as if there were no limit. -/
theorem carries_of_faithful
    (faithful : ∀ many, few ≤ many → ∀ called ∈ first.calls, grammar.Faithful many called) :
    grammar.Carries few Alike stop first := by
  intro many cursor after failures others later trees le harmless harmlessToo read _
  obtain ⟨between, readFew, _⟩ := exists_of_faithful (faithful few (Nat.le_refl few)) harmless
  obtain ⟨last, readMany, harmlessLast⟩ := exists_of_faithful (faithful many le) harmlessToo
  rw [read, Prod.mk.injEq] at readFew
  rw [← readFew.1] at readMany
  exact ⟨trees, last, readMany, .refl trees,
    harmlessLast.advance (derives_of_treesAt? readFew.1.symm).advances⟩

/-- A sequence is carried over if whatever its second part reads lets the first part stop. -/
theorem Carries.append
    (front : grammar.Carries few Alike stopFirst first)
    (back : grammar.Carries few Alike stop second)
    (link : ∀ {middle after between later trees},
      second.read (grammar.readRule few) middle between = (some (trees, after), later) →
        stop after later → stopFirst middle between) :
    grammar.Carries few Alike stop (first ++ second) := by
  intro many cursor after failures others later trees le harmless harmlessToo read stopped
  obtain ⟨leading, middle, between, trailing, readFirst, readSecond, rfl⟩ :=
    exists_of_read_append read
  have stoppedFirst := link readSecond stopped
  obtain ⟨leadingToo, betweenToo, readFirstToo, alikeFirst, harmlessMiddle⟩ :=
    front le harmless harmlessToo readFirst stoppedFirst
  obtain ⟨trailingToo, last, readSecondToo, alikeSecond, harmlessLast⟩ :=
    back le (front.harmless harmless readFirst stoppedFirst) harmlessMiddle readSecond stopped
  refine ⟨leadingToo ++ trailingToo, last, ?_, alikeFirst.append alikeSecond, harmlessLast⟩
  rw [read_append_of_some readFirstToo, readSecondToo]
  rfl

theorem Carries.assoc
    {third : Pattern}
    (carries : grammar.Carries few Alike stop (first ++ (second ++ third))) :
    grammar.Carries few Alike stop (first ++ second ++ third) := by
  intro many cursor after failures others later trees le harmless harmlessToo read stopped
  rw [read_append_assoc] at read ⊢
  exact carries le harmless harmlessToo read stopped

/-- Anything may follow a first part that may stop anywhere. -/
theorem Carries.andThen
    (front : grammar.Carries few Alike Anywhere first)
    (back : grammar.Carries few Alike stop second) :
    grammar.Carries few Alike stop (first ++ second) :=
  front.append back fun _ _ => trivial

theorem Carries.behind
    (callsNone : first.calls = [])
    (back : grammar.Carries few Alike stop second) :
    grammar.Carries few Alike stop (first ++ second) :=
  Carries.andThen (carries_of_calls_eq_nil callsNone) back

/-- A pattern in front of something that begins with tokens that may follow. -/
theorem Carries.before
    {accepts : Token → Bool}
    (front : grammar.Carries few Alike (Before allowed) first)
    (back : grammar.Carries few Alike stop second)
    (begins : grammar.Begins accepts second)
    (follows : ∀ token, accepts token = true → allowed token) :
    grammar.Carries few Alike stop (first ++ second) :=
  front.append back fun read _ =>
    begins.precedes follows (derives_of_read (derives_of_readRule few) second read)

/-- A pattern in front of something that may be empty. -/
theorem Carries.past
    (front : grammar.Carries few Alike (Before allowed) first)
    (back : grammar.Carries few Alike stop second)
    (passes : grammar.Passes allowed second)
    (follows : ∀ after later, stop after later → after.Precedes allowed) :
    grammar.Carries few Alike stop (first ++ second) :=
  front.append back fun read stopped =>
    passes _ _ _ (derives_of_read (derives_of_readRule few) second read) (follows _ _ stopped)

/-- White space and comments do not change what comes next. -/
theorem Carries.trivia
    (front : grammar.Carries few Alike (Before allowed) first) :
    grammar.Carries few Alike (Before allowed) (first ++ .trivia) :=
  front.past (carries_of_calls_eq_nil rfl) passes_trivia fun _ _ precedes => precedes

/-- A token behind a pattern is what comes next. -/
theorem Carries.token
    {accepts : Token → Bool}
    (front : grammar.Carries few Alike (Before allowed) first)
    (significant : ∀ token, accepts token = true → token.isTrivia = false)
    (follows : ∀ token, accepts token = true → allowed token) :
    grammar.Carries few Alike stop (first ++ .token accepts) :=
  front.before (carries_of_calls_eq_nil rfl)
    (begins_token fun token accepted => ⟨accepted, significant token accepted⟩) follows

/-- Where the first alternative matches with no number of levels, the second one is read. -/
theorem exists_of_barren_orElse
    {many : Nat}
    {others : Failures}
    (le : few ≤ many)
    (harmless : grammar.Harmless cursor failures)
    (harmlessToo : grammar.Harmless cursor others)
    (barren : ∀ many, few ≤ many → grammar.Barren many preferred cursor)
    (read : (preferred <|> alternative).read (grammar.readRule few) cursor failures =
      (some (trees, after), later)) :
    ∃ between betweenToo,
      grammar.Harmless cursor between ∧ grammar.Harmless cursor betweenToo ∧
      alternative.read (grammar.readRule few) cursor between = (some (trees, after), later) ∧
      (preferred <|> alternative).read (grammar.readRule many) cursor others =
        alternative.read (grammar.readRule many) cursor betweenToo := by
  obtain ⟨between, failed, harmlessBetween⟩ := barren few (Nat.le_refl few) failures harmless
  obtain ⟨betweenToo, failedToo, harmlessToo⟩ := barren many le others harmlessToo
  rw [read_orElse_of_none failed] at read
  exact ⟨between, betweenToo, harmlessBetween, harmlessToo, read, read_orElse_of_none failedToo⟩

/-- The second alternative is carried over where the first one matches with no number of levels. -/
theorem Carries.orElse_right
    (chosen : grammar.Carries few alike stop alternative)
    {many : Nat}
    {others : Failures}
    (le : few ≤ many)
    (harmless : grammar.Harmless cursor failures)
    (harmlessToo : grammar.Harmless cursor others)
    (barren : ∀ many, few ≤ many → grammar.Barren many preferred cursor)
    (read : (preferred <|> alternative).read (grammar.readRule few) cursor failures =
      (some (trees, after), later))
    (stopped : stop after later) :
    ∃ more last,
      (preferred <|> alternative).read (grammar.readRule many) cursor others =
        (some (more, after), last) ∧
      alike trees more ∧ grammar.Harmless after last := by
  obtain ⟨_, _, harmlessBetween, harmlessBetweenToo, readFew, sameMany⟩ :=
    exists_of_barren_orElse le harmless harmlessToo barren read
  rw [sameMany]
  exact chosen le harmlessBetween harmlessBetweenToo readFew stopped

/-- The first alternative is carried over where the second one cannot be read in its place. -/
theorem Carries.orElse_left
    (chosen : grammar.Carries few alike stop preferred)
    {many : Nat}
    {others : Failures}
    (le : few ≤ many)
    (harmless : grammar.Harmless cursor failures)
    (harmlessToo : grammar.Harmless cursor others)
    (refused : ∀ {between},
      preferred.read (grammar.readRule few) cursor failures = (none, between) →
        alternative.read (grammar.readRule few) cursor between ≠ (some (trees, after), later))
    (read : (preferred <|> alternative).read (grammar.readRule few) cursor failures =
      (some (trees, after), later))
    (stopped : stop after later) :
    ∃ more last,
      (preferred <|> alternative).read (grammar.readRule many) cursor others =
        (some (more, after), last) ∧
      alike trees more ∧ grammar.Harmless after last := by
  rcases front : preferred.read (grammar.readRule few) cursor failures with
    ⟨_ | found, between⟩
  · rw [read_orElse_of_none front] at read
    exact absurd read (refused front)
  · rw [read_orElse_of_some front] at read
    cases read
    obtain ⟨more, last, readMany, same, harmlessLast⟩ :=
      chosen le harmless harmlessToo front stopped
    exact ⟨more, last, read_orElse_of_some readMany, same, harmlessLast⟩

/-- A choice is carried over if whatever is passed over matches with no number of levels. -/
theorem Carries.orElse
    (chosen : grammar.Carries few alike stop preferred)
    (chosenToo : grammar.Carries few alike stop alternative)
    (apart : ∀ {cursor after failures between later trees},
      grammar.Harmless cursor failures →
        preferred.read (grammar.readRule few) cursor failures = (none, between) →
        alternative.read (grammar.readRule few) cursor between = (some (trees, after), later) →
        stop after later → ∀ many, few ≤ many → grammar.Barren many preferred cursor) :
    grammar.Carries few alike stop (preferred <|> alternative) := by
  intro many cursor after failures others later trees le harmless harmlessToo read stopped
  rcases front : preferred.read (grammar.readRule few) cursor failures with
    ⟨_ | found, between⟩
  · have rest := (read_orElse_of_none front).symm.trans read
    exact chosenToo.orElse_right le harmless harmlessToo (apart harmless front rest stopped) read
      stopped
  · rw [read_orElse_of_some front] at read
    cases read
    obtain ⟨more, last, readMany, same, harmlessLast⟩ :=
      chosen le harmless harmlessToo front stopped
    exact ⟨more, last, read_orElse_of_some readMany, same, harmlessLast⟩

/-- An alternative without rules is passed over with any number of levels. -/
theorem Carries.orElse_of_calls_eq_nil
    (callsNone : preferred.calls = [])
    (chosen : grammar.Carries few Alike stop alternative) :
    grammar.Carries few Alike stop (preferred <|> alternative) := by
  refine (carries_of_calls_eq_nil callsNone).orElse chosen ?_
  intro cursor after failures between later trees _ failed _ _ many _
  rw [read_of_calls_eq_nil grammar callsNone, Prod.mk.injEq] at failed
  exact barren_of_calls_eq_nil callsNone failed.1

/-- What may be left out is left out only where it matches with no number of levels. -/
theorem Carries.optional
    (carries : grammar.Carries few Alike stop item)
    (ends : ∀ {cursor failures later}, grammar.Harmless cursor failures →
      item.read (grammar.readRule few) cursor failures = (none, later) → stop cursor later →
        ∀ many, few ≤ many → grammar.Barren many item cursor) :
    grammar.Carries few Alike stop (.optional item) := by
  refine carries.orElse (carries_of_calls_eq_nil rfl) ?_
  intro cursor after failures between later trees harmless failed read stopped
  cases read
  exact ends harmless failed stopped

theorem read_absent_of_none
    {refused : Rule}
    {State : Type}
    {readRule : Rule → Pattern.Reader State Node}
    {state last : State}
    (failed : (Pattern.rule refused).read readRule cursor state = (none, last)) :
    (Pattern.absent refused).read readRule cursor state = (some ([], cursor), last) := by
  simp only [Pattern.read, readRule_eq_none_of_read failed]

/-- A rule that must not match here matches with no number of levels. -/
theorem Carries.absent
    {refused : Rule}
    (carries : grammar.Carries few Alike stop second)
    (refuses : ∀ {cursor after between later trees},
      second.read (grammar.readRule few) cursor between = (some (trees, after), later) →
        stop after later → ∀ many, few ≤ many → grammar.Barren many (.rule refused) cursor) :
    grammar.Carries few Alike stop (.absent refused ++ second) := by
  intro many cursor after failures others later trees le harmless harmlessToo read stopped
  obtain ⟨front, middle, between, back, absent, readSecond, rfl⟩ := exists_of_read_append read
  obtain ⟨rfl, rfl⟩ : front = [] ∧ middle = cursor := by
    rw [Pattern.read_absent, Prod.mk.injEq, Option.ite_none_right_eq_some, Option.some.injEq,
      Prod.mk.injEq] at absent
    exact ⟨absent.1.2.1.symm, absent.1.2.2.symm⟩
  have barren := refuses readSecond stopped
  obtain ⟨noted, failed, harmlessNoted⟩ := barren few (Nat.le_refl few) failures harmless
  rw [read_absent_of_none failed] at absent
  cases absent
  obtain ⟨notedToo, failedToo, harmlessNotedToo⟩ := barren many le others harmlessToo
  obtain ⟨more, last, readMany, alike, harmlessLast⟩ :=
    carries le harmlessNoted harmlessNotedToo readSecond stopped
  refine ⟨more, last, ?_, alike, harmlessLast⟩
  rw [read_append_of_some (read_absent_of_none failedToo), readMany]
  rfl

/-- Repetition reads a first item, or nothing at all. -/
theorem read_many_cases
    (read : (Pattern.many item).read (grammar.readRule few) cursor failures =
      (some (trees, after), later)) :
    (∃ front middle between,
        item.read (grammar.readRule few) cursor failures = (some (front, middle), between)) ∨
      (after = cursor ∧ item.read (grammar.readRule few) cursor failures = (none, later)) := by
  simp only [Pattern.read] at read
  rcases front : item.read (grammar.readRule few) cursor failures with
    ⟨_ | ⟨front, middle⟩, between⟩
  · unfold Pattern.readMany at read
    rw [front] at read
    cases read
    exact .inr ⟨rfl, rfl⟩
  · exact .inl ⟨_, middle, between, rfl⟩

/-- Repetition is carried over item by item. -/
theorem Carries.readMany
    (carries : grammar.Carries few Alike stopItem item)
    (consumes : item.consumes = true)
    (further : ∀ {cursor after failures later trees},
      item.read (grammar.readRule few) cursor failures = (some (trees, after), later) →
        stopItem cursor failures)
    (last : ∀ {cursor failures later},
      item.read (grammar.readRule few) cursor failures = (none, later) → stop cursor later →
        stopItem cursor failures)
    (ends : ∀ {cursor failures later}, grammar.Harmless cursor failures →
      item.read (grammar.readRule few) cursor failures = (none, later) → stop cursor later →
        ∀ many, few ≤ many → grammar.Barren many item cursor)
    (limit : List Token)
    {many : Nat}
    {others : Failures}
    (le : few ≤ many)
    (enough : cursor.upcoming.length ≤ limit.length)
    (harmless : grammar.Harmless cursor failures)
    (harmlessToo : grammar.Harmless cursor others)
    (read : Pattern.readMany (item.read (grammar.readRule few)) limit cursor failures =
      ((trees, after), later))
    (stopped : stop after later) :
    ∃ more final,
      Pattern.readMany (item.read (grammar.readRule many)) limit cursor others =
        ((more, after), final) ∧
      Alike trees more ∧ grammar.Harmless after final := by
  -- Items take tokens, so the limit is never reached.
  induction limit generalizing cursor failures others trees with
  | nil =>
      unfold Pattern.readMany at read ⊢
      rcases front : item.read (grammar.readRule few) cursor failures with
        ⟨_ | ⟨leading, middle⟩, between⟩
      · rw [front] at read
        cases read
        obtain ⟨final, failed, harmlessFinal⟩ :=
          ends harmless front stopped many le others harmlessToo
        rw [failed]
        exact ⟨[], final, rfl, .refl [], harmlessFinal⟩
      · have derived := derives_of_read (derives_of_readRule few) item front
        have shorter := derived.upcoming_lt consumes
        rw [List.length_nil] at enough
        omega
  | cons token limit inductionHypothesis =>
      unfold Pattern.readMany at read ⊢
      rcases front : item.read (grammar.readRule few) cursor failures with
        ⟨_ | ⟨leading, middle⟩, between⟩
      · rw [front] at read
        cases read
        obtain ⟨final, failed, harmlessFinal⟩ :=
          ends harmless front stopped many le others harmlessToo
        rw [failed]
        exact ⟨[], final, rfl, .refl [], harmlessFinal⟩
      · rw [front] at read
        rcases back : Pattern.readMany (item.read (grammar.readRule few)) limit middle between with
          ⟨⟨trailing, behind⟩, final⟩
        simp only [back] at read
        cases read
        have derived := derives_of_read (derives_of_readRule few) item front
        have shorter := derived.upcoming_lt consumes
        have stoppedItem : stopItem middle between := by
          unfold Pattern.readMany at back
          rcases next : item.read (grammar.readRule few) middle between with ⟨_ | found, nextLater⟩
          · rw [next] at back
            cases back
            exact last next stopped
          · exact further next
        obtain ⟨leadingToo, betweenToo, frontToo, alikeFront, harmlessMiddle⟩ :=
          carries le harmless harmlessToo front stoppedItem
        rw [List.length_cons] at enough
        obtain ⟨trailingToo, finalToo, backToo, alikeBack, harmlessFinal⟩ :=
          inductionHypothesis (by omega) (carries.harmless harmless front stoppedItem)
            harmlessMiddle back
        rw [frontToo]
        simp only [backToo]
        exact ⟨_, finalToo, rfl, alikeFront.append alikeBack, harmlessFinal⟩

/-- Repetition is carried over if items may stop in front of each other and at the end. -/
theorem Carries.many
    (carries : grammar.Carries few Alike stopItem item)
    (consumes : item.consumes = true)
    (further : ∀ {cursor after failures later trees},
      item.read (grammar.readRule few) cursor failures = (some (trees, after), later) →
        stopItem cursor failures)
    (last : ∀ {cursor failures later},
      item.read (grammar.readRule few) cursor failures = (none, later) → stop cursor later →
        stopItem cursor failures)
    (ends : ∀ {cursor failures later}, grammar.Harmless cursor failures →
      item.read (grammar.readRule few) cursor failures = (none, later) → stop cursor later →
        ∀ many, few ≤ many → grammar.Barren many item cursor) :
    grammar.Carries few Alike stop (.many item) := by
  intro many cursor after failures others later trees le harmless harmlessToo read stopped
  simp only [Pattern.read, Prod.mk.injEq, Option.some.injEq] at read ⊢
  obtain ⟨more, final, readMore, alike, harmlessFinal⟩ :=
    carries.readMany consumes further last ends cursor.rest le (upcoming_length_le cursor) harmless
      harmlessToo (Prod.ext read.1 read.2) stopped
  rw [readMore]
  exact ⟨more, final, ⟨rfl, rfl⟩, alike, harmlessFinal⟩

/-- A rule is carried over if its pattern is, with one level less. -/
theorem carries_rule
    {rule : Rule}
    (body : ∀ below, few = below + 1 →
      grammar.Carries below rule.Alike stop (grammar.pattern rule)) :
    grammar.Carries few Alike stop (.rule rule) := by
  intro many cursor after failures others later trees le harmless harmlessToo read stopped
  rw [Pattern.read_rule] at read
  rcases found : grammar.readRule few rule cursor failures with ⟨_ | ⟨node, behind⟩, last⟩
  · rw [found] at read
    cases read
  · rw [found] at read
    cases read
    obtain ⟨below, children, rfl, _, readBody, rfl⟩ := exists_of_readRule found
    have carries := body below rfl
    -- With levels enough the rule matches, so it is not remembered as a failure.
    have hope : ¬ grammar.Hopeless rule cursor := by
      intro hopeless
      obtain ⟨enough, limit⟩ : ∃ levels, ∀ more, levels ≤ more → _ :=
        exists_levels (grammar.pattern rule) cursor
      obtain ⟨more, last, readEnough, _⟩ := carries (Nat.le_max_left below enough) harmless
        (harmless_empty cursor) readBody stopped
      have failed := hopeless.1
      rw [nodeAt?_eq, ← limit _ (Nat.le_max_right below enough), readEnough] at failed
      cases failed
    cases many with
    | zero => exact absurd le (Nat.not_succ_le_zero below)
    | succ manyBelow =>
        obtain ⟨more, final, readMany, same, harmlessFinal⟩ :=
          carries (Nat.le_of_succ_le_succ le) harmless harmlessToo readBody stopped
        refine ⟨[(rule.build more).toTree], final, ?_, same.toTree, harmlessFinal⟩
        rw [Pattern.read_rule, readRule_of_some (harmlessToo.contains_eq_false hope) readMany]
        rfl

section Unmocked

variable (unmocked : grammar.mocked = [])
include unmocked

theorem carries_called
    {rule : Rule}
    (body : ∀ below, few = below + 1 → grammar.Carries below Alike stop rule.pattern) :
    grammar.Carries few Alike stop (.rule rule) := by
  refine carries_rule fun below isBelow => ?_
  rw [pattern_eq unmocked]
  exact (body below isBelow).weaken fun _ _ => Alike.build

/-- A rule that calls no rules needs a single level. -/
theorem carries_of_calls_pattern_eq_nil
    {rule : Rule}
    (callsNone : rule.pattern.calls = []) :
    grammar.Carries few Alike stop (.rule rule) :=
  carries_called unmocked fun _ _ => carries_of_calls_eq_nil callsNone

/-- With a level left, a pattern is carried over if the rules in it call no rules. -/
theorem carries_of_quiet
    (quiet : ∀ called ∈ first.calls,
      called.pattern.calls = [] ∧ called ≠ .somethingContainingParentheses) :
    grammar.Carries (few + 1) Alike stop first := by
  refine carries_of_faithful fun many le called mentioned => ?_
  obtain ⟨callsNone, noCall⟩ := quiet called mentioned
  obtain ⟨levels, rfl⟩ : ∃ levels, many = levels + 1 := ⟨many - 1, by omega⟩
  exact faithful_of_calls_eq_nil unmocked noCall callsNone levels

end Unmocked
end Grammar
end PreprocessorSyntax
