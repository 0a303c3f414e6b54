import PreprocessorSyntax.Proofs.Lexer.Spelling

/-!
# What a token depends on

How far a token goes depends on what stands behind it, but not on all of it.
Where the text behind a token is replaced by one that goes on in the same way up
to a space or up to its end, the token stays as it is.  Only a quote that is not
closed looks further: it must not be closed by the other text either.
-/

namespace PreprocessorSyntax

/-- The second text goes on like the first one until it has a space or ends. -/
structure Resumes (back later : List Char) : Prop where
  shared : ∃ common rest other, back = common ++ rest ∧ later = common ++ other ∧
    ∀ c ∈ other.head?, c = ' '
  unclosed : ∀ quote, isQuote quote = true →
    literalTail? quote back = none → literalTail? quote later = none

variable {front back later rest : List Char} {c : Char} {kind : TokenKind} {length : Nat}

namespace Resumes

variable (resumes : Resumes back later)
include resumes

/-- What has no space in it comes up only where it was before. -/
theorem isPrefix
    {mark : List Char}
    (spaceless : ' ' ∉ mark)
    (here : mark <+: front ++ later) :
    mark <+: front ++ back := by
  obtain ⟨common, rest, other, rfl, rfl, space⟩ := resumes.shared
  obtain ⟨behind, equal⟩ := here
  rw [← List.append_assoc] at equal ⊢
  rcases List.append_eq_append_iff.1 equal with ⟨tail, whole, _⟩ | ⟨tail, whole, others⟩
  · exact ⟨tail ++ rest, by rw [whole, List.append_assoc]⟩
  · cases tail with
    | nil => exact ⟨rest, by rw [whole, List.append_nil]⟩
    | cons c tail =>
        rw [others] at space
        cases space c rfl
        exact absurd (by rw [whole]; simp) spaceless

theorem head? : ∀ c ∈ later.head?, c = ' ' ∨ c ∈ back.head? := by
  intro c first
  by_cases space : c = ' '
  · exact .inl space
  · obtain ⟨tail, equal⟩ := List.head?_eq_some_iff.1 first
    have mark : [c] <+: [] ++ later := ⟨tail, equal.symm⟩
    obtain ⟨behind, same⟩ := resumes.isPrefix (by simpa using Ne.symm space) mark
    exact .inr (by rw [← List.nil_append back, ← same]; rfl)

end Resumes

/-- The marks of white space and comments that are more than one character. -/
def triviaMarks : List (List Char) :=
  [['\\', '\n'], ['\\', '\r', '\n'], ['/', '/'], ['/', '*']]

/-- A text starts neither with white space nor with a comment nor with a line feed. -/
structure Visible (c : Char) (rest : List Char) : Prop where
  dark : isBlank c = false
  noFeed : c ≠ '\n'
  unmarked : ∀ mark ∈ triviaMarks, ¬ mark <+: c :: rest

theorem blankLength_eq_zero_iff :
    blankLength (c :: rest) = 0 ↔
      isBlank c = false ∧ ¬ ['\\', '\n'] <+: c :: rest ∧ ¬ ['\\', '\r', '\n'] <+: c :: rest := by
  have backslash : isBlank '\\' = false := by decide
  generalize whole : c :: rest = text
  fun_cases blankLength text with
  | case1 => simp
  | case2 => simp
  | case3 d tail _ _ blank =>
      obtain ⟨rfl, rfl⟩ := List.cons.inj whole
      simp [blank]
  | case4 d tail noSplice noReturn dark =>
      obtain ⟨rfl, rfl⟩ := List.cons.inj whole
      have unmarked : ¬ ['\\', '\n'] <+: c :: rest ∧ ¬ ['\\', '\r', '\n'] <+: c :: rest := by
        refine ⟨?_, ?_⟩ <;> rintro ⟨tail, equal⟩ <;> cases equal
        · exact noSplice tail rfl rfl
        · exact noReturn tail rfl rfl
      simp only [dark, unmarked, not_false_eq_true, and_self]
  | case5 => cases whole

/-- What the lexer looks for where neither white space nor a comment starts. -/
theorem munch_of_visible (visible : Visible c rest) :
    munch (c :: rest) =
      match literalOpening? (c :: rest) with
      | some (encoding, quote, tail) => some (literalToken encoding quote tail)
      | none =>
        if isIdentifierStart c then
          some (.identifier, ((c :: rest).takeWhile isIdentifierPart).length)
        else if c.isDigit || c == '.' && rest.head?.any Char.isDigit then
          some (.number, numberTail rest + 1)
        else some (punctuatorToken (c :: rest)) := by
  have noBlanks : blankLength (c :: rest) = 0 :=
    blankLength_eq_zero_iff.2 ⟨visible.dark, visible.unmarked _ (by simp [triviaMarks]),
      visible.unmarked _ (by simp [triviaMarks])⟩
  have noLine : ['/', '/'].isPrefixOf (c :: rest) = false := by
    rw [Bool.eq_false_iff, Ne, List.isPrefixOf_iff_prefix]
    exact visible.unmarked _ (by simp [triviaMarks])
  have noBlock : ['/', '*'].isPrefixOf (c :: rest) = false := by
    rw [Bool.eq_false_iff, Ne, List.isPrefixOf_iff_prefix]
    exact visible.unmarked _ (by simp [triviaMarks])
  rw [munch]
  cases literalOpening? (c :: rest) <;>
    simp only [noBlanks, visible.noFeed, noLine, noBlock, Nat.lt_irrefl, if_false,
      Bool.false_eq_true]

/-- A content token shows at the front of a text. -/
theorem visible_of_munch
    (munched : munch (c :: rest) = some (kind, length))
    (notTrivia : kind.isTrivia = false)
    (inLine : kind.isLineEnd = false) :
    Visible c rest := by
  unfold munch at munched
  simp only at munched
  split at munched
  next =>
    cases munched
    cases notTrivia
  next noBlanks =>
  split at munched
  next =>
    cases munched
    cases inLine
  next noFeed =>
  split at munched
  next =>
    cases munched
    cases notTrivia
  next noLine =>
  split at munched
  next =>
    obtain ⟨tail, _, equal⟩ := Option.map_eq_some_iff.1 munched
    cases equal
    cases notTrivia
  next noBlock =>
    rw [Nat.pos_iff_ne_zero, Decidable.not_not, blankLength_eq_zero_iff] at noBlanks
    rw [List.isPrefixOf_iff_prefix] at noLine noBlock
    refine ⟨noBlanks.1, noFeed, ?_⟩
    simp [triviaMarks, noBlanks.2, noLine, noBlock]

theorem Visible.resumes
    {tail : List Char}
    (visible : Visible c (tail ++ back))
    (resumes : Resumes back later) :
    Visible c (tail ++ later) where
  dark := visible.dark
  noFeed := visible.noFeed
  unmarked mark listed here := by
    have spaceless : ' ' ∉ mark := by
      have checked : ∀ mark ∈ triviaMarks, ' ' ∉ mark := by decide
      exact checked mark listed
    rw [← List.cons_append] at here
    exact visible.unmarked mark listed (resumes.isPrefix spaceless here)

/-- An opening quote with its prefix is found whatever stands behind it. -/
theorem literalOpening?_append
    {quote : Char}
    (isOne : isQuote quote = true)
    (encoding : EncodingPrefix)
    (rest : List Char) :
    literalOpening? (encoding.spelling.toList ++ quote :: rest) = some (encoding, quote, rest) := by
  rcases isQuote_iff.1 isOne with rfl | rfl <;> cases encoding <;> rfl

/-- Where no literal was opened, none is opened now. -/
theorem Resumes.literalOpening?_eq_none
    (resumes : Resumes back later)
    (unopened : literalOpening? (front ++ back) = none) :
    literalOpening? (front ++ later) = none := by
  cases opening : literalOpening? (front ++ later) with
  | none => rfl
  | some found =>
      obtain ⟨encoding, quote, rest⟩ := found
      obtain ⟨equal, quotes⟩ := eq_of_literalOpening? opening
      have isOne : isQuote quote = true := isQuote_iff.2 quotes
      have mark : encoding.spelling.toList ++ [quote] <+: front ++ later :=
        ⟨rest, by rw [equal]; simp⟩
      have spaceless : ' ' ∉ encoding.spelling.toList ++ [quote] := by
        rcases quotes with rfl | rfl <;> cases encoding <;> decide
      obtain ⟨tail, whole⟩ := resumes.isPrefix spaceless mark
      rw [← whole, List.append_assoc, List.singleton_append,
        literalOpening?_append isOne] at unopened
      cases unopened

theorem literalTail?_quote (quote : Char) (rest : List Char) :
    literalTail? quote (quote :: rest) = some 1 := by
  cases rest <;> simp [literalTail?]

/-- A literal ends with its closing quote whatever stands behind it. -/
theorem literalTail?_take_append
    {quote : Char}
    {tail : Nat}
    (closed : literalTail? quote rest = some tail)
    (later : List Char) :
    0 < tail ∧ literalTail? quote (rest.take tail ++ later) = some tail := by
  fun_induction literalTail? quote rest generalizing tail with
  | case1 => cases closed
  | case2 =>
      cases closed
      exact ⟨Nat.one_pos, literalTail?_quote quote later⟩
  | case3 => cases closed
  | case4 d rest =>
      cases closed
      exact ⟨Nat.one_pos, literalTail?_quote quote later⟩
  | case5 => cases closed
  | case6 c d rest notQuote notFeed escape inductionHypothesis =>
      obtain ⟨behind, found, rfl⟩ := Option.map_eq_some_iff.1 closed
      refine ⟨Nat.succ_pos _, ?_⟩
      rw [List.take_succ_cons, List.take_succ_cons, List.cons_append, List.cons_append,
        literalTail?, if_neg notQuote, if_neg notFeed, if_pos escape,
        (inductionHypothesis found).2]
      rfl
  | case7 c d rest notQuote notFeed noEscape inductionHypothesis =>
      obtain ⟨behind, found, rfl⟩ := Option.map_eq_some_iff.1 closed
      obtain ⟨positive, again⟩ := inductionHypothesis found
      obtain ⟨fewer, rfl⟩ := Nat.exists_eq_add_of_lt positive
      rw [Nat.zero_add] at again ⊢
      refine ⟨Nat.succ_pos _, ?_⟩
      rw [List.take_succ_cons, List.cons_append] at again
      rw [List.take_succ_cons, List.take_succ_cons, List.cons_append, List.cons_append,
        literalTail?, if_neg notQuote, if_neg notFeed, if_neg noEscape, again]
      rfl

/-- Whether the first character of a number belongs together with the next one. -/
def joinsNext (c : Char) (rest : List Char) : Bool :=
  rest.head?.any fun d => isExponentLetter c && (d == '+' || d == '-') || c == '\'' && d.isAlphanum

theorem numberTail_cons (c : Char) (rest : List Char) :
    numberTail (c :: rest) =
      if joinsNext c rest then numberTail (rest.drop 1) + 2
      else if isIdentifierPart c || c == '.' then numberTail rest + 1
      else 0 := by
  cases rest with
  | nil => simp [numberTail, joinsNext]
  | cons d rest => simp [numberTail, joinsNext]

theorem numberTail_eq_zero_iff :
    numberTail (c :: rest) = 0 ↔
      joinsNext c rest = false ∧ (isIdentifierPart c || c == '.') = false := by
  rw [numberTail_cons]
  split <;> simp_all

/-- A character joins the next one only if it did so before. -/
theorem Resumes.joinsNext
    (resumes : Resumes back later)
    (joins : joinsNext c later = true) :
    PreprocessorSyntax.joinsNext c back = true := by
  cases later with
  | nil => cases joins
  | cons d later =>
      rcases resumes.head? d rfl with rfl | here
      · simp [PreprocessorSyntax.joinsNext] at joins
      · obtain ⟨tail, rfl⟩ := List.head?_eq_some_iff.1 here
        exact joins

/-- Where a number ended it ends now. -/
theorem Resumes.numberTail_eq_zero
    (resumes : Resumes back later)
    (ended : numberTail back = 0) :
    numberTail later = 0 := by
  cases later with
  | nil => rfl
  | cons c later =>
      rw [numberTail_eq_zero_iff]
      by_cases space : c = ' '
      · subst space
        cases later <;> exact ⟨rfl, rfl⟩
      have here := (resumes.head? c rfl).resolve_left space
      obtain ⟨tail, rfl⟩ := List.head?_eq_some_iff.1 here
      obtain ⟨apart, noPart⟩ := numberTail_eq_zero_iff.1 ended
      refine ⟨?_, noPart⟩
      cases later with
      | nil => rfl
      | cons d later =>
          by_cases spaceBehind : d = ' '
          · simp [PreprocessorSyntax.joinsNext, spaceBehind]
          · have mark : [c, d] <+: [] ++ c :: d :: later := ⟨later, rfl⟩
            have spaceless : ' ' ∉ [c, d] := by simp [Ne.symm space, Ne.symm spaceBehind]
            obtain ⟨behind, equal⟩ := resumes.isPrefix spaceless mark
            obtain ⟨-, rfl⟩ := List.cons.inj equal
            exact apart

/-- A number goes as far as it went before. -/
theorem Resumes.numberTail_append
    (resumes : Resumes back later)
    (body : List Char)
    (whole : numberTail (body ++ back) = body.length) :
    numberTail (body ++ later) = body.length := by
  match body with
  | [] => exact resumes.numberTail_eq_zero whole
  | [c] =>
      rw [List.singleton_append, numberTail_cons, List.length_singleton] at whole ⊢
      split at whole
      next => omega
      next apart =>
      split at whole
      next part =>
        have apartLater : ¬ PreprocessorSyntax.joinsNext c later = true :=
          fun joins => apart (resumes.joinsNext joins)
        rw [if_neg apartLater, if_pos part, resumes.numberTail_eq_zero (by omega)]
      next => omega
  | c :: d :: body =>
      have same (tail : List Char) :
          PreprocessorSyntax.joinsNext c (d :: body ++ tail) =
            PreprocessorSyntax.joinsNext c [d] := rfl
      rw [List.cons_append, numberTail_cons, same, List.length_cons] at whole ⊢
      split at whole
      next joins =>
        have rest := numberTail_append resumes body (by simpa using whole)
        rw [if_pos joins]
        simpa using rest
      next apart =>
      split at whole
      next part =>
        have rest := numberTail_append resumes (d :: body) (by simpa using whole)
        rw [if_neg apart, if_pos part, rest]
      next => omega
termination_by body.length

/-- Where no punctuator comes up that was not there, the longest one stays the longest. -/
theorem Resumes.punctuatorToken_append
    (resumes : Resumes back later)
    (found : punctuatorToken (front ++ back) = (kind, front.length)) :
    punctuatorToken (front ++ later) = (kind, front.length) := by
  have spaceless : ∀ entry ∈ punctuatorTable, ' ' ∉ entry.1 := by decide
  have fewer : ∀ entry ∈ punctuatorTable, entry.1.isPrefixOf (front ++ back) = false →
      entry.1.isPrefixOf (front ++ later) = false := by
    intro entry listed
    rw [Bool.eq_false_iff, Bool.eq_false_iff, Ne, Ne, List.isPrefixOf_iff_prefix,
      List.isPrefixOf_iff_prefix]
    exact fun absent here => absent (resumes.isPrefix (spaceless entry listed) here)
  unfold punctuatorToken at found ⊢
  split at found
  next spelling symbol search =>
    obtain ⟨rfl, length⟩ := Prod.mk.inj found
    obtain ⟨here, before, behind, table, notBefore⟩ := List.find?_eq_some_iff_append.1 search
    have isFront : spelling = front := by
      have stands := List.isPrefixOf_iff_prefix.1 here
      have inFront := List.prefix_of_prefix_length_le stands (List.prefix_append front back)
        (Nat.le_of_eq length)
      exact inFront.eq_of_length length
    have searchLater : punctuatorTable.find? (fun entry => entry.1.isPrefixOf (front ++ later)) =
        some (spelling, symbol) := by
      rw [List.find?_eq_some_iff_append]
      refine ⟨?_, before, behind, table, ?_⟩
      · rw [isFront, List.isPrefixOf_iff_prefix]
        exact List.prefix_append _ _
      · intro entry listed
        have present : entry ∈ punctuatorTable := by
          rw [table]
          exact List.mem_append_left _ listed
        simpa using fewer entry present (by simpa using notBefore entry listed)
    rw [searchLater]
    simp [length]
  next search =>
    have searchLater :
        punctuatorTable.find? (fun entry => entry.1.isPrefixOf (front ++ later)) = none := by
      rw [List.find?_eq_none] at search ⊢
      intro entry listed
      have absent := fewer entry listed (Bool.eq_false_iff.2 (search entry listed))
      exact Bool.eq_false_iff.1 absent
    rw [searchLater]
    exact found

/-- A literal, or an opening quote alone, stays what it was. -/
theorem Resumes.literalToken_append
    (resumes : Resumes back later)
    {encoding : EncodingPrefix}
    {quote : Char}
    (opening : literalOpening? (front ++ back) = some (encoding, quote, rest))
    (found : literalToken encoding quote rest = (kind, front.length)) :
    ∃ other, literalOpening? (front ++ later) = some (encoding, quote, other) ∧
      literalToken encoding quote other = (kind, front.length) := by
  obtain ⟨equal, quotes⟩ := eq_of_literalOpening? opening
  have isOne : isQuote quote = true := isQuote_iff.2 quotes
  have letters : encoding.spelling.toList.length = encoding.spelling.length :=
    String.length_toList
  unfold literalToken at found ⊢
  split at found
  next unclosed =>
    obtain ⟨rfl, length⟩ := Prod.mk.inj found
    have regrouped : front ++ back = encoding.spelling.toList ++ [quote] ++ rest := by simp [equal]
    obtain ⟨rfl, rfl⟩ := List.append_inj regrouped (by simp [letters, ← length])
    refine ⟨later, ?_, ?_⟩
    · rw [List.append_assoc, List.singleton_append, literalOpening?_append isOne]
    · simp only [resumes.unclosed quote isOne unclosed, length]
  next tail closed =>
    obtain ⟨rfl, length⟩ := Prod.mk.inj found
    have isFront : front = encoding.spelling.toList ++ quote :: rest.take tail := by
      have taken := congrArg (List.take front.length) equal
      rwa [List.take_left, ← length, ← letters, Nat.add_assoc, List.take_length_add_append,
        Nat.add_comm 1, List.take_succ_cons] at taken
    refine ⟨rest.take tail ++ later, ?_, ?_⟩
    · rw [isFront, List.append_assoc, List.cons_append, literalOpening?_append isOne]
    · simp only [(literalTail?_take_append closed later).2, length]

/-- A run of characters ends where it ended before if nothing that continues it comes up. -/
theorem length_takeWhile_append
    {accepts : Char → Bool}
    (run : ((front ++ back).takeWhile accepts).length = front.length)
    (stops : ∀ c ∈ later.head?, accepts c = true → c ∈ back.head?) :
    ((front ++ later).takeWhile accepts).length = front.length := by
  have isFront : (front ++ back).takeWhile accepts = front :=
    (List.prefix_of_prefix_length_le (List.takeWhile_prefix accepts) (List.prefix_append front back)
      (Nat.le_of_eq run)).eq_of_length run
  have inside : ∀ c ∈ front, accepts c = true := by
    rw [← isFront]
    exact List.all_eq_true.1 List.all_takeWhile
  rw [List.takeWhile_append_of_pos inside] at isFront ⊢
  have stopped : back.takeWhile accepts = [] := by simpa using isFront
  cases later with
  | nil => simp
  | cons c later =>
      have refused : ¬ accepts c = true := by
        intro accepted
        obtain ⟨tail, rfl⟩ := List.head?_eq_some_iff.1 (stops c rfl accepted)
        simp [accepted] at stopped
      rw [List.takeWhile_cons_of_neg refused, List.append_nil]

/-- So does a run of characters without spaces. -/
theorem Resumes.takeWhile_append
    (resumes : Resumes back later)
    {accepts : Char → Bool}
    (noSpace : accepts ' ' = false)
    (run : ((front ++ back).takeWhile accepts).length = front.length) :
    ((front ++ later).takeWhile accepts).length = front.length := by
  refine length_takeWhile_append run fun c first accepted => (resumes.head? c first).resolve_left ?_
  rintro rfl
  rw [noSpace] at accepted
  cases accepted

/-- A digit comes next only if it did so before. -/
theorem Resumes.any_isDigit
    (resumes : Resumes back later)
    (tail : List Char)
    (digit : (tail ++ later).head?.any Char.isDigit = true) :
    (tail ++ back).head?.any Char.isDigit = true := by
  cases tail with
  | cons d tail => exact digit
  | nil =>
      cases later with
      | nil => cases digit
      | cons d later =>
          rcases resumes.head? d rfl with rfl | here
          · cases digit
          · obtain ⟨behind, rfl⟩ := List.head?_eq_some_iff.1 here
            exact digit

/-- A number that starts with a dot goes on with a digit of its own. -/
theorem startsNumber_append
    {tail : List Char}
    (starts : (c.isDigit || c == '.' && (tail ++ back).head?.any Char.isDigit) = true)
    (whole : numberTail (tail ++ back) = tail.length)
    (later : List Char) :
    (c.isDigit || c == '.' && (tail ++ later).head?.any Char.isDigit) = true := by
  cases tail with
  | cons d tail => exact starts
  | nil =>
      have noDigit : back.head?.any Char.isDigit = false := by
        cases back with
        | nil => rfl
        | cons d back =>
            have noPart := (numberTail_eq_zero_iff.1 whole).2
            simp only [isIdentifierPart, Char.isAlphanum, Bool.or_eq_false_iff] at noPart
            exact noPart.1.1.1.2
      rw [List.nil_append, noDigit, Bool.and_false, Bool.or_false] at starts
      rw [starts, Bool.true_or]

/-- A content token is the same in front of any text that goes on as the one before. -/
theorem munch_of_resumes
    (munched : munch (front ++ back) = some (kind, front.length))
    (notTrivia : kind.isTrivia = false)
    (inLine : kind.isLineEnd = false)
    (resumes : Resumes back later) :
    munch (front ++ later) = some (kind, front.length) := by
  cases front with
  | nil =>
      -- Only the end of the input has no characters.
      cases back with
      | nil =>
          cases munched
          cases inLine
      | cons c back => exact absurd (munch_length_pos munched) (Nat.lt_irrefl 0)
  | cons c tail =>
      have visible : Visible c (tail ++ back) := visible_of_munch munched notTrivia inLine
      rw [List.cons_append, munch_of_visible visible] at munched
      rw [List.cons_append, munch_of_visible (visible.resumes resumes)]
      split at munched
      next encoding quote rest opening =>
        obtain ⟨other, opens, same⟩ :=
          resumes.literalToken_append opening (Option.some.inj munched)
        rw [List.cons_append] at opens
        rw [opens]
        exact congrArg some same
      next unopened =>
        rw [← List.cons_append, resumes.literalOpening?_eq_none unopened]
        simp only
        split at munched
        next start =>
          obtain ⟨rfl, run⟩ := Prod.mk.inj (Option.some.inj munched)
          rw [if_pos start, resumes.takeWhile_append (by decide) run]
        next noName =>
          rw [if_neg noName]
          split at munched
          next digits =>
            obtain ⟨rfl, whole⟩ := Prod.mk.inj (Option.some.inj munched)
            have body : numberTail (tail ++ back) = tail.length := Nat.succ.inj whole
            rw [if_pos (startsNumber_append digits body later), resumes.numberTail_append tail body]
            rfl
          next noNumber =>
            have noNumberLater :
                ¬ (c.isDigit || c == '.' && (tail ++ later).head?.any Char.isDigit) = true := by
              intro digits
              apply noNumber
              simp only [Bool.or_eq_true, Bool.and_eq_true] at digits ⊢
              exact digits.imp_right fun dot => ⟨dot.1, resumes.any_isDigit tail dot.2⟩
            rw [if_neg noNumberLater,
              resumes.punctuatorToken_append (Option.some.inj munched)]

end PreprocessorSyntax
