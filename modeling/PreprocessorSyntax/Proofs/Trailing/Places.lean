import PreprocessorSyntax.Proofs.Grammar.Leaves
import PreprocessorSyntax.Proofs.Grammar.Spacing
import PreprocessorSyntax.Proofs.Line.Isolation

/-!
# White space and comments behind a line

White space and comments that are added behind a directive line are read where
the line ends, and nowhere else.  The line and the longer line are read side by
side.  As long as something else is left of the line, both readings are the
same.  Where white space has been skipped and nothing is left, both are over,
and only the longer one has read what was added.

Here are the places that belong together, and what single tokens, white space
and the ends of lines do to them.
-/

namespace PreprocessorSyntax
namespace Grammar
namespace Trailing

/-- The same was read, up to the same place. -/
def Here (line blanks : List Token) (found matching : List Tree × Cursor) : Prop :=
  Reached line found.2 ∧ matching = (found.1, ⟨found.2.position, found.2.rest ++ blanks⟩)

/-- Something other than white space and comments comes next. -/
def Faces (cursor : Cursor) : Prop :=
  ∃ token ∈ cursor.rest.head?, token.isTrivia = false

/-- Both lines have been read to their ends. -/
def Over (line blanks : List Token) (cursor place : Cursor) : Prop :=
  cursor = ⟨line.length, []⟩ ∧ place = ⟨line.length + blanks.length, []⟩

/-- White space has been skipped: the same token comes next, or both lines are over. -/
def Settled (line blanks : List Token) (cursor place : Cursor) : Prop :=
  Here line blanks ([], cursor) ([], place) ∧ Faces cursor ∨ Over line blanks cursor place

/-- Some tokens were added to trees, with no tokens behind them. -/
def Inserted (blanks : List Token) (trees others : List Tree) : Prop :=
  ∃ front back, trees = front ++ back ∧ Tree.tokensOf back = [] ∧
    others = front ++ blanks.map .leaf ++ back

/-- Both lines are over, and if they were not before, the added tokens have been read. -/
def Ended (line blanks : List Token) (found matching : List Tree × Cursor) : Prop :=
  Over line blanks found.2 matching.2 ∧
    (matching.1 = found.1 ∨ Inserted blanks found.1 matching.1)

/-- The same is known of the places in both lines behind white space and comments. -/
def Remembers (line blanks : List Token) (failures others : Failures) : Prop :=
  ∀ rule cursor place, Settled line blanks cursor place →
    failures.contains rule cursor.position = others.contains rule place.position

variable {grammar : Grammar} {line blanks : List Token}

section Places

variable {found matching : List Tree × Cursor} {cursor place last otherLast : Cursor}
variable {trees others more further : List Tree}

theorem Here.forget (here : Here line blanks found matching) :
    Here line blanks ([], found.2) ([], matching.2) := by
  obtain ⟨reached, rfl⟩ := here
  exact ⟨reached, rfl⟩

theorem Here.join
    (first : Here line blanks (trees, cursor) (others, place))
    (second : Here line blanks (more, last) (further, otherLast)) :
    Here line blanks (trees ++ more, last) (others ++ further, otherLast) := by
  obtain ⟨_, equal⟩ := first
  obtain ⟨reached, again⟩ := second
  cases equal
  cases again
  exact ⟨reached, rfl⟩

/-- A rule makes the same node of the same trees. -/
theorem Here.build
    (here : Here line blanks (trees, last) (others, otherLast))
    (rule : Rule) :
    Here line blanks ([(rule.build trees).toTree], last)
      ([(rule.build others).toTree], otherLast) := by
  obtain ⟨reached, equal⟩ := here
  cases equal
  exact ⟨reached, rfl⟩

/-- Behind the end of a line there is nothing. -/
theorem eq_of_advances
    {tokens : List Token}
    {position : Nat}
    (advances : Cursor.Advances ⟨position, []⟩ tokens last) :
    tokens = [] ∧ last = ⟨position, []⟩ := by
  obtain ⟨nothing, left⟩ := List.append_eq_nil_iff.1 advances.rest.symm
  have same := advances.position
  rw [nothing, List.length_nil, Nat.add_zero] at same
  exact ⟨nothing, by cases last; simp_all⟩

theorem Ended.forget (ended : Ended line blanks found matching) :
    Ended line blanks ([], found.2) ([], matching.2) :=
  ⟨ended.1, .inl rfl⟩

/-- The longer line may be over where the line is over. -/
theorem Here.ended
    (first : Here line blanks (trees, cursor) (others, place))
    (second : Ended line blanks (more, last) (further, otherLast)) :
    Ended line blanks (trees ++ more, last) (others ++ further, otherLast) := by
  obtain ⟨_, equal⟩ := first
  cases equal
  refine ⟨second.1, second.2.imp ?_ ?_⟩
  · intro (same : further = more)
    rw [same]
  · rintro ⟨front, back, equal, nothing, added⟩
    refine ⟨trees ++ front, back, ?_, nothing, ?_⟩
    · rw [show more = _ from equal, List.append_assoc]
    · rw [show further = _ from added]
      simp

section Added

variable (added : blanks ≠ [])
include added

/-- The added tokens are left wherever both lines are the same. -/
theorem Over.not_here
    {tokens : List Token}
    (past : Over line blanks cursor place)
    (advances : place.Advances tokens otherLast) :
    ¬ Here line blanks (more, last) (further, otherLast) := by
  rintro ⟨reached, equal⟩
  cases equal
  obtain ⟨_, rfl⟩ := past
  have longer := List.length_pos_iff.2 added
  have behind := advances.position
  have before := reached.position_add
  simp only at behind before
  omega

/-- Once both lines are over, nothing more is added. -/
theorem Ended.join
    (first : Ended line blanks (trees, cursor) (others, place))
    (advances : cursor.Advances (Tree.tokensOf more) last)
    (otherAdvances : place.Advances (Tree.tokensOf further) otherLast)
    (second : Ended line blanks (more, last) (further, otherLast)) :
    Ended line blanks (trees ++ more, last) (others ++ further, otherLast) := by
  obtain ⟨⟨rfl, rfl⟩, read⟩ := first
  have nothing := (eq_of_advances advances).1
  have nothingToo := (eq_of_advances otherAdvances).1
  have same : further = more := by
    rcases second.2 with same | ⟨front, back, _, _, equal⟩
    · exact same
    · rw [show further = _ from equal] at nothingToo
      simp [added] at nothingToo
  subst same
  refine ⟨second.1, read.imp ?_ ?_⟩
  · intro (same : others = trees)
    rw [same]
  · rintro ⟨front, back, equal, noTokens, whole⟩
    refine ⟨front, back ++ further, ?_, ?_, ?_⟩
    · rw [show trees = _ from equal, List.append_assoc]
    · rw [Tree.tokensOf_append, noTokens, nothing, List.append_nil]
    · rw [show others = _ from whole, List.append_assoc]

/-- Places behind white space belong together one by one. -/
theorem Settled.position_iff
    {here there : Cursor}
    (settled : Settled line blanks cursor place)
    (other : Settled line blanks here there) :
    cursor.position = here.position ↔ place.position = there.position := by
  have longer := List.length_pos_iff.2 added
  have before {cursor place : Cursor} (settled : Settled line blanks cursor place) :
      (cursor.position < line.length ∧ place.position = cursor.position) ∨
        (cursor.position = line.length ∧
          place.position = line.length + blanks.length) := by
    rcases settled with ⟨⟨reached, equal⟩, token, first, _⟩ | ⟨rfl, rfl⟩
    · cases equal
      have whole := reached.position_add
      have positive : 0 < cursor.rest.length :=
        List.length_pos_iff.2 fun nothing => by simp [nothing] at first
      simp only at whole
      exact .inl ⟨by omega, rfl⟩
    · exact .inr ⟨rfl, rfl⟩
  have first := before settled
  have second := before other
  omega

theorem Remembers.insert
    {failures others : Failures}
    (remembers : Remembers line blanks failures others)
    (settled : Settled line blanks cursor place)
    (rule : Rule) :
    Remembers line blanks (failures.insert rule cursor.position)
      (others.insert rule place.position) := by
  intro asked here there asks
  rw [Failures.contains_insert, Failures.contains_insert, remembers asked here there asks]
  simp only [settled.position_iff added asks]

end Added
end Places

/-- What may stand in angle brackets. -/
def inBrackets (token : Token) : Bool :=
  !token.isPunctuator .greater && !token.isLineEnd

theorem inBrackets_of_ends {token : Token} (ends : token.kind = .endOfInput) :
    inBrackets token = false := by
  simp [inBrackets, Token.isLineEnd, TokenKind.isLineEnd, ends]

/-- A header name is read up to the first token that may not stand in angle brackets. -/
theorem treesAt?_includeBodyBracketed (position : Nat) (opening : Token) (rest : List Token) :
    grammar.treesAt? .includeBodyBracketed ⟨position, opening :: rest⟩ =
      if opening.isPunctuator .less = true ∧ rest.takeWhile inBrackets ≠ [] then
        match rest.dropWhile inBrackets with
        | [] => none
        | closing :: behind =>
          if closing.isPunctuator .greater then
            some ((opening :: (rest.takeWhile inBrackets ++ [closing])).map .leaf,
              ⟨position + (rest.takeWhile inBrackets).length + 2, behind⟩)
          else none
      else none := by
  have reads (symbol : Punctuator) (position : Nat) (token : Token) (rest : List Token) :
      grammar.treesAt? (.symbol symbol) ⟨position, token :: rest⟩ =
        if token.isPunctuator symbol then some ([.leaf token], ⟨position + 1, rest⟩) else none := by
    rw [Pattern.symbol, treesAt?_token_cons]
    by_cases ends : token.kind = .endOfInput
    · simp [Token.isPunctuator, ends]
    · rw [if_neg ends]
  have run : grammar.treesAt? (.atLeastOnce .bracketed) ⟨position + 1, rest⟩ = _ :=
    treesAt?_atLeastOnce_token (fun _ => inBrackets_of_ends) (position + 1) rest
  rw [Pattern.includeBodyBracketed, treesAt?_append, treesAt?_append, reads]
  by_cases opens : opening.isPunctuator .less = true
  · rw [if_pos opens, Option.bind_some, run]
    by_cases nothing : rest.takeWhile inBrackets = []
    · simp [nothing]
    · simp only [if_neg nothing, opens, Option.map_some, Option.bind_some]
      cases left : rest.dropWhile inBrackets with
      | nil => simp [Pattern.symbol, treesAt?_token_nil, nothing]
      | cons closing behind =>
          simp only [reads]
          split <;> simp [*, Nat.add_assoc, Nat.add_comm 1]
  · simp [opens]

section Steps

variable {cursor place : Cursor}

/-- White space leads to a token, or to the ends of both lines. -/
theorem Here.skip
    (trivial : ∀ token ∈ blanks, token.isTrivia = true)
    (here : Here line blanks ([], cursor) ([], place)) :
    Here line blanks (cursor.trivia.1.map .leaf, cursor.trivia.2)
        (place.trivia.1.map .leaf, place.trivia.2) ∧ Faces cursor.trivia.2 ∨
      Ended line blanks (cursor.trivia.1.map .leaf, cursor.trivia.2)
        (place.trivia.1.map .leaf, place.trivia.2) := by
  obtain ⟨reached, equal⟩ := here
  cases equal
  obtain ⟨position, rest⟩ := cursor
  obtain ⟨skipped, left, rfl, blank, significant⟩ := exists_significant rest
  have whole := reached.position_add
  have later := reached.advances (Cursor.advances_trivia _)
  rw [trivia_append_significant position blank significant] at later ⊢
  cases left with
  | nil =>
      have all : ∀ token ∈ skipped ++ blanks, token.isTrivia = true :=
        List.forall_mem_append.2 ⟨blank, trivial⟩
      have skips := trivia_append_significant position all significant_nil
      simp only [List.append_nil] at skips whole ⊢
      rw [skips]
      refine .inr ⟨⟨?_, ?_⟩, .inr ⟨skipped.map .leaf, [], ?_, rfl, ?_⟩⟩
      · simp [whole]
      · simp [← whole, Nat.add_assoc]
      · simp
      · simp
  | cons token left =>
      have notTrivia := significant token rfl
      have significantToo : Significant (token :: (left ++ blanks)) :=
        significant_cons notTrivia _
      simp only [List.append_assoc, List.cons_append]
      rw [trivia_append_significant position blank significantToo]
      exact .inl ⟨⟨later, rfl⟩, token, rfl, notTrivia⟩

theorem Over.skip (past : Over line blanks cursor place) :
    Ended line blanks (cursor.trivia.1.map .leaf, cursor.trivia.2)
      (place.trivia.1.map .leaf, place.trivia.2) := by
  obtain ⟨rfl, rfl⟩ := past
  exact ⟨⟨rfl, rfl⟩, .inl rfl⟩

/-- Behind white space, both lines go on alike. -/
theorem Settled.peekKind_eq (settled : Settled line blanks cursor place) :
    cursor.peekKind = place.peekKind := by
  rcases settled with ⟨⟨_, equal⟩, token, first, _⟩ | ⟨rfl, rfl⟩
  · cases equal
    obtain ⟨position, _ | ⟨next, rest⟩⟩ := cursor
    · cases first
    · rfl
  · rfl

/-- Behind a token, a look ahead sees the same unless it tells white space from the end. -/
theorem Here.ahead
    (trivial : ∀ token ∈ blanks, token.isTrivia = true)
    (here : Here line blanks ([], cursor) ([], place))
    {accepts : TokenKind → Bool}
    (blind : ∀ kind, kind.isTrivia = true → accepts kind = accepts .endOfInput) :
    Option.Rel (Here line blanks) (grammar.treesAt? (.ahead accepts) cursor)
      (grammar.treesAt? (.ahead accepts) place) := by
  have same : accepts cursor.peekKind = accepts place.peekKind := by
    obtain ⟨_, equal⟩ := here
    cases equal
    obtain ⟨position, _ | ⟨token, rest⟩⟩ := cursor
    · cases blanks with
      | nil => rfl
      | cons blank blanks =>
          have isTrivia := trivial blank List.mem_cons_self
          have kind : (Cursor.mk position (blank :: blanks)).peekKind = blank.kind :=
            peekKind_cons (readable_of_isTrivia isTrivia) blanks
          rw [List.nil_append, kind, blind _ isTrivia]
          rfl
    · rfl
  rw [treesAt?_ahead, treesAt?_ahead, same]
  split
  next => exact .some here
  next => exact .none

section InLine

variable (inLine : InLine line)
include inLine

/-- The same token is read in both lines. -/
theorem Here.read
    {token : Token}
    {rest : List Token}
    {position : Nat}
    (reached : Reached line ⟨position, token :: rest⟩)
    (accepts : Token → Bool) :
    Option.Rel (Here line blanks) (grammar.treesAt? (.token accepts) ⟨position, token :: rest⟩)
      (grammar.treesAt? (.token accepts) ⟨position, token :: rest ++ blanks⟩) := by
  have readable := (reached.inLine inLine).readable token List.mem_cons_self
  rw [List.cons_append, treesAt?_token_cons, treesAt?_token_cons, if_neg readable, if_neg readable]
  split
  next =>
    have advances : Cursor.Advances ⟨position, token :: rest⟩ [token] ⟨position + 1, rest⟩ :=
      ⟨rfl, rfl, by simpa using readable⟩
    exact .some ⟨reached.advances advances, rfl⟩
  next => exact .none

/-- Behind white space, the same token is read in both lines, or none. -/
theorem Settled.read (settled : Settled line blanks cursor place) (accepts : Token → Bool) :
    Option.Rel (Here line blanks) (grammar.treesAt? (.token accepts) cursor)
      (grammar.treesAt? (.token accepts) place) := by
  rcases settled with ⟨⟨reached, equal⟩, token, first, _⟩ | ⟨rfl, rfl⟩
  · cases equal
    obtain ⟨position, _ | ⟨next, rest⟩⟩ := cursor
    · cases first
    · exact Here.read inLine reached accepts
  · exact .none

/-- A test that refuses white space and comments does not read what was added. -/
theorem Here.read_of_refuses
    (trivial : ∀ token ∈ blanks, token.isTrivia = true)
    (here : Here line blanks ([], cursor) ([], place))
    {accepts : Token → Bool}
    (refuses : ∀ token, accepts token = true → token.isTrivia = false) :
    Option.Rel (Here line blanks) (grammar.treesAt? (.token accepts) cursor)
      (grammar.treesAt? (.token accepts) place) := by
  obtain ⟨reached, equal⟩ := here
  cases equal
  obtain ⟨position, _ | ⟨token, rest⟩⟩ := cursor
  · cases blanks with
    | nil => exact .none
    | cons blank blanks =>
        have refused : accepts blank = false := by
          rw [Bool.eq_false_iff]
          intro accepted
          have isTrivia := trivial blank List.mem_cons_self
          rw [refuses blank accepted] at isTrivia
          cases isTrivia
        rw [List.nil_append, treesAt?_token_cons, refused]
        split <;> exact .none
  · exact Here.read inLine reached accepts

/-- Both lines are read to their ends. -/
theorem Here.restOfLine
    (trivial : ∀ token ∈ blanks, token.isTrivia = true)
    (here : Here line blanks ([], cursor) ([], place)) :
    Option.Rel (Ended line blanks) (grammar.treesAt? .restOfLine cursor)
      (grammar.treesAt? .restOfLine place) := by
  obtain ⟨reached, equal⟩ := here
  cases equal
  obtain ⟨position, rest⟩ := cursor
  have whole := reached.position_add
  have inLineRest := reached.inLine inLine
  have inLineBlanks : InLine blanks :=
    fun token present => isLineEnd_eq_false_of_isTrivia (trivial token present)
  have inLineBoth : InLine (rest ++ blanks) := InLine.append_iff.2 ⟨inLineRest, inLineBlanks⟩
  have taken {tokens : List Token} (inLine : InLine tokens) :
      firstLine tokens = tokens ∧ behindFirstLine tokens = [] := by
    have front := firstLine_append inLine []
    have behind := behindFirstLine_append inLine []
    rw [List.append_nil] at front behind
    exact ⟨front.trans (List.append_nil tokens), behind⟩
  rw [treesAt?_restOfLine, treesAt?_restOfLine]
  simp only at whole inLineRest ⊢
  rw [(taken inLineRest).1, (taken inLineRest).2, (taken inLineBoth).1, (taken inLineBoth).2]
  refine .some ⟨⟨?_, ?_⟩, .inr ⟨rest.map .leaf, [], ?_, rfl, ?_⟩⟩
  · simp [whole]
  · simp [← whole, Nat.add_assoc]
  · simp
  · simp

/-- The end of a line is read where nothing else is left. -/
theorem Settled.endOfLine (settled : Settled line blanks cursor place) :
    Option.Rel (Ended line blanks) (grammar.treesAt? (.ahead TokenKind.isLineEnd) cursor)
      (grammar.treesAt? (.ahead TokenKind.isLineEnd) place) := by
  have same := settled.peekKind_eq
  rw [treesAt?_ahead, treesAt?_ahead, ← same]
  rcases settled with ⟨⟨reached, equal⟩, token, first, _⟩ | past
  · cases equal
    obtain ⟨position, _ | ⟨next, rest⟩⟩ := cursor
    · cases first
    · have inLineRest := reached.inLine inLine
      have kind : (Cursor.mk position (next :: rest)).peekKind = next.kind :=
        peekKind_cons (inLineRest.readable next List.mem_cons_self) rest
      have notEnd : next.kind.isLineEnd = false := inLineRest next List.mem_cons_self
      rw [kind, notEnd]
      exact .none
  · obtain ⟨rfl, rfl⟩ := past
    exact .some ⟨⟨rfl, rfl⟩, .inl rfl⟩

/-- What was added has no closing angle bracket. -/
theorem Settled.bracketed
    (trivial : ∀ token ∈ blanks, token.isTrivia = true)
    (settled : Settled line blanks cursor place) :
    Option.Rel (Here line blanks) (grammar.treesAt? .includeBodyBracketed cursor)
      (grammar.treesAt? .includeBodyBracketed place) := by
  rcases settled with ⟨⟨reached, equal⟩, token, first, _⟩ | ⟨rfl, rfl⟩
  · cases equal
    obtain ⟨position, _ | ⟨opening, rest⟩⟩ := cursor
    · cases first
    · have fits : ∀ token ∈ blanks, inBrackets token = true := by
        intro token present
        have isTrivia := trivial token present
        simp [inBrackets, Token.isPunctuator_of_isTrivia isTrivia,
          isLineEnd_eq_false_of_isTrivia isTrivia]
      rw [List.cons_append, treesAt?_includeBodyBracketed, treesAt?_includeBodyBracketed,
        List.takeWhile_append, List.dropWhile_append]
      cases left : rest.dropWhile inBrackets with
      | nil =>
          have nothingBehind : (blanks ++ []).dropWhile inBrackets = [] :=
            List.dropWhile_append_of_pos fits
          rw [List.append_nil] at nothingBehind
          simp [nothingBehind]
      | cons closing behind =>
          have whole : rest.takeWhile inBrackets ++ closing :: behind = rest := by
            rw [← left, List.takeWhile_append_dropWhile]
          have shorter : (rest.takeWhile inBrackets).length ≠ rest.length := by
            have lengths := congrArg List.length whole
            rw [List.length_append, List.length_cons] at lengths
            omega
          have readable := (reached.inLine inLine).readable
          have advances : Cursor.Advances ⟨position, opening :: rest⟩
              (opening :: (rest.takeWhile inBrackets ++ [closing]))
              ⟨position + (rest.takeWhile inBrackets).length + 2, behind⟩ := by
            refine ⟨?_, ?_, fun token present => readable token ?_⟩
            · simp [whole]
            · simp [Nat.add_assoc]
            · rw [← whole]
              simp only [List.mem_cons, List.mem_append, List.not_mem_nil, or_false] at present ⊢
              rcases present with isOpening | inside | isClosing
              · exact .inl isOpening
              · exact .inr (.inl inside)
              · exact .inr (.inr (.inl isClosing))
          rw [if_neg shorter]
          simp only [List.isEmpty_cons, List.cons_append, Bool.false_eq_true, if_false]
          by_cases opens : opening.isPunctuator .less = true ∧ rest.takeWhile inBrackets ≠ []
          · rw [if_pos opens, if_pos opens]
            split
            next => exact .some ⟨reached.advances advances, rfl⟩
            next => exact .none
          · rw [if_neg opens, if_neg opens]
            exact .none
  · exact .none

end InLine
end Steps
end Trailing
end Grammar
end PreprocessorSyntax
