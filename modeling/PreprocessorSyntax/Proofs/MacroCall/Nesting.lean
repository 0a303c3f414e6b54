import Mathlib.Data.List.DropRight
import PreprocessorSyntax.Proofs.Line.Content

/-!
# Parentheses and commas

What a macro call consists of is told by counting: how many parentheses are open
behind each token says whether they balance and which commas stand outside all
inner parentheses.  A run of tokens that is balanced and has no such comma can be
put in front of any other tokens without a change to what is counted there.
-/

namespace PreprocessorSyntax

/-- Whether a token is part of a run without parentheses. -/
def Token.isPlain (token : Token) : Bool :=
  token.isContent && !token.isAnyPunctuator [.comma, .leftParen, .rightParen]

namespace Token

variable {token : Token}

theorem isPlain_leftParen (isOpening : token.isPunctuator .leftParen = true) :
    token.isPlain = false := by
  simp [isPlain, isAnyPunctuator, isOpening]

theorem isPlain_rightParen (isClosing : token.isPunctuator .rightParen = true) :
    token.isPlain = false := by
  simp [isPlain, isAnyPunctuator, isClosing]

theorem isPlain_comma (isComma : token.isPunctuator .comma = true) : token.isPlain = false := by
  simp [isPlain, isAnyPunctuator, isComma]

theorem isPlain_of_isTrivia (trivial : token.isTrivia = true) : token.isPlain = false := by
  simp [isPlain, isContent, trivial]

theorem isContent_of_isPlain (plain : token.isPlain = true) : token.isContent = true :=
  (Bool.and_eq_true_iff.1 plain).1

theorem isTrivia_of_isPlain (plain : token.isPlain = true) : token.isTrivia = false := by
  rw [Bool.eq_false_iff]
  intro trivial
  rw [isPlain_of_isTrivia trivial] at plain
  cases plain

/-- Content that is not plain is a comma or a parenthesis. -/
theorem isSymbol_of_isPlain_eq_false
    (isContent : token.isContent = true)
    (notPlain : token.isPlain = false) :
    token.isPunctuator .comma = true ∨ token.isPunctuator .leftParen = true ∨
      token.isPunctuator .rightParen = true := by
  have isSymbol : token.isAnyPunctuator [.comma, .leftParen, .rightParen] = true := by
    simpa [isPlain, isContent] using notPlain
  simpa [isAnyPunctuator] using isSymbol

end Token

/-- How many parentheses are open behind a token. -/
def depthBehind (depth : Nat) (token : Token) : Nat :=
  if token.isPunctuator .leftParen then depth + 1
  else if token.isPunctuator .rightParen then depth - 1
  else depth

/--
Whether the parentheses among some tokens close those that are open and balance
apart from that: none closes without one being open, and none is left open.
-/
def balancedFrom : Nat → List Token → Bool
  | depth, [] => depth == 0
  | depth, token :: tokens =>
    (depth != 0 || !token.isPunctuator .rightParen) &&
      balancedFrom (depthBehind depth token) tokens

/--
The tokens in front of the first comma outside all parentheses, and every such
comma with the tokens behind it up to the next one.
-/
def splitAtCommas : Nat → List Token → List Token × List (Token × List Token)
  | _, [] => ([], [])
  | depth, token :: tokens =>
    let (front, further) := splitAtCommas (depthBehind depth token) tokens
    if depth == 0 && token.isPunctuator .comma then ([], (token, front) :: further)
    else (token :: front, further)

/-- Some tokens without the white space and comments around them. -/
def trimmed (tokens : List Token) : List Token :=
  (tokens.dropWhile Token.isTrivia).rdropWhile Token.isTrivia

/-- The commas outside all parentheses. -/
def topLevelCommas (region : List Token) : List Token :=
  (splitAtCommas 0 region).2.map Prod.fst

/-- What stands between these commas, apart from white space and comments. -/
def argumentTexts (region : List Token) : List (List Token) :=
  (((splitAtCommas 0 region).1 :: (splitAtCommas 0 region).2.map Prod.snd).map trimmed).filter
    (!·.isEmpty)

variable {token left right : Token} {tokens inner front behind rest blanks core : List Token}
variable {depth level : Nat}

theorem depthBehind_leftParen (isLeft : token.isPunctuator .leftParen = true) (depth : Nat) :
    depthBehind depth token = depth + 1 := by
  rw [depthBehind, if_pos isLeft]

theorem depthBehind_rightParen (isRight : token.isPunctuator .rightParen = true) (depth : Nat) :
    depthBehind (depth + 1) token = depth := by
  rw [depthBehind, Token.isPunctuator_eq_false isRight (by decide), if_pos isRight]
  rfl

theorem depthBehind_other
    (noLeft : token.isPunctuator .leftParen = false)
    (noRight : token.isPunctuator .rightParen = false)
    (depth : Nat) :
    depthBehind depth token = depth := by
  simp [depthBehind, noLeft, noRight]

/-- More open parentheses stay open behind a token that closes none of them. -/
theorem depthBehind_add
    (closes : (depth != 0 || !token.isPunctuator .rightParen) = true)
    (level : Nat) :
    depthBehind (level + depth) token = level + depthBehind depth token := by
  cases isLeft : token.isPunctuator .leftParen with
  | true => rw [depthBehind_leftParen isLeft, depthBehind_leftParen isLeft, Nat.add_assoc]
  | false =>
      cases isRight : token.isPunctuator .rightParen with
      | false => rw [depthBehind_other isLeft isRight, depthBehind_other isLeft isRight]
      | true =>
          obtain ⟨before, rfl⟩ : ∃ before, depth = before + 1 := by
            apply Nat.exists_eq_add_one_of_ne_zero
            simpa [isRight] using closes
          rw [← Nat.add_assoc, depthBehind_rightParen isRight, depthBehind_rightParen isRight]

theorem balancedFrom_comma (isComma : token.isPunctuator .comma = true) :
    balancedFrom 0 (token :: rest) = balancedFrom 0 rest := by
  rw [balancedFrom, depthBehind_other (Token.isPunctuator_eq_false isComma (by decide))
    (Token.isPunctuator_eq_false isComma (by decide)),
    Token.isPunctuator_eq_false isComma (by decide)]
  rfl

/-- What closes some parentheses and balances leaves those that are open besides. -/
theorem balancedFrom_append
    (balanced : balancedFrom depth front = true)
    (level : Nat)
    (rest : List Token) :
    balancedFrom (level + depth) (front ++ rest) = balancedFrom level rest := by
  induction front generalizing depth with
  | nil =>
      rw [beq_iff_eq.1 balanced]
      rfl
  | cons token front inductionHypothesis =>
      obtain ⟨closes, balanced⟩ := Bool.and_eq_true_iff.1 balanced
      have here : (level + depth != 0 || !token.isPunctuator .rightParen) = true := by
        cases isRight : token.isPunctuator .rightParen with
        | false => simp
        | true => simp_all
      rw [List.cons_append, balancedFrom, here, Bool.true_and, depthBehind_add closes,
        inductionHypothesis balanced]

/-- Inside of parentheses there are no commas to split at. -/
theorem splitAtCommas_append
    (balanced : balancedFrom depth front = true)
    (level : Nat)
    (rest : List Token) :
    splitAtCommas (level + 1 + depth) (front ++ rest) =
      (front ++ (splitAtCommas (level + 1) rest).1, (splitAtCommas (level + 1) rest).2) := by
  induction front generalizing depth with
  | nil =>
      rw [beq_iff_eq.1 balanced]
      rfl
  | cons token front inductionHypothesis =>
      obtain ⟨closes, balanced⟩ := Bool.and_eq_true_iff.1 balanced
      have inside : (level + 1 + depth == 0) = false := by
        rw [beq_eq_false_iff_ne]
        omega
      rw [List.cons_append, splitAtCommas, depthBehind_add closes, inductionHypothesis balanced,
        inside]
      rfl

/-- An open parenthesis is closed by the first one that leaves a balanced run in front of it. -/
theorem exists_closing (balanced : balancedFrom (depth + 1) tokens = true) :
    ∃ inner right behind, tokens = inner ++ right :: behind ∧
      balancedFrom 0 inner = true ∧ right.isPunctuator .rightParen = true ∧
      balancedFrom depth behind = true := by
  induction size : tokens.length using Nat.strongRecOn generalizing depth tokens with
  | ind length inductionHypothesis =>
      cases tokens with
      | nil => cases balanced
      | cons token tokens =>
          rw [List.length_cons] at size
          have balancedBehind := (Bool.and_eq_true_iff.1 balanced).2
          cases isLeft : token.isPunctuator .leftParen with
          | true =>
              rw [depthBehind_leftParen isLeft] at balancedBehind
              obtain ⟨first, close, behind, rfl, balancedFirst, isClose, balancedBehind⟩ :=
                inductionHypothesis _ (by omega) balancedBehind rfl
              obtain ⟨second, right, behind, rfl, balancedSecond, isRight, balancedBehind⟩ :=
                inductionHypothesis _ (by simp at size; omega) balancedBehind rfl
              refine ⟨token :: (first ++ close :: second), right, behind, by simp, ?_, isRight,
                balancedBehind⟩
              have opened : balancedFrom 1 (first ++ close :: second) =
                  balancedFrom 1 (close :: second) :=
                balancedFrom_append balancedFirst 1 _
              rw [balancedFrom, depthBehind_leftParen isLeft, opened, balancedFrom,
                depthBehind_rightParen isClose, balancedSecond,
                Token.isPunctuator_eq_false isLeft (by decide)]
              rfl
          | false =>
              cases isRight : token.isPunctuator .rightParen with
              | true =>
                  rw [depthBehind_rightParen isRight] at balancedBehind
                  exact ⟨[], token, tokens, rfl, rfl, isRight, balancedBehind⟩
              | false =>
                  rw [depthBehind_other isLeft isRight] at balancedBehind
                  obtain ⟨inner, right, behind, rfl, balancedInner, isClose, balancedBehind⟩ :=
                    inductionHypothesis _ (by omega) balancedBehind rfl
                  refine ⟨token :: inner, right, behind, rfl, ?_, isClose, balancedBehind⟩
                  rw [balancedFrom, depthBehind_other isLeft isRight, balancedInner, isRight]
                  rfl

/-- Tokens with balanced parentheses and without a comma outside of them. -/
structure IsRun (run : List Token) : Prop where
  balanced : balancedFrom 0 run = true
  split : ∀ rest, splitAtCommas 0 (run ++ rest) =
    (run ++ (splitAtCommas 0 rest).1, (splitAtCommas 0 rest).2)

namespace IsRun

theorem nil : IsRun [] := ⟨rfl, fun _ => rfl⟩

theorem append (first : IsRun front) (second : IsRun behind) : IsRun (front ++ behind) where
  balanced := (balancedFrom_append first.balanced 0 behind).trans second.balanced
  split rest := by rw [List.append_assoc, first.split, second.split, List.append_assoc]

theorem single
    (noComma : token.isPunctuator .comma = false)
    (noLeft : token.isPunctuator .leftParen = false)
    (noRight : token.isPunctuator .rightParen = false) :
    IsRun [token] where
  balanced := by
    rw [balancedFrom, depthBehind_other noLeft noRight, noRight]
    rfl
  split rest := by
    rw [List.singleton_append, splitAtCommas, depthBehind_other noLeft noRight, noComma,
      Bool.and_false]
    rfl

/-- White space and comments neither open nor close anything. -/
theorem of_isTrivia (trivial : ∀ token ∈ blanks, token.isTrivia = true) : IsRun blanks := by
  induction blanks with
  | nil => exact nil
  | cons blank blanks inductionHypothesis =>
      obtain ⟨blankTrivial, others⟩ := List.forall_mem_cons.1 trivial
      have noSymbol := Token.isPunctuator_of_isTrivia blankTrivial
      exact (single (noSymbol _) (noSymbol _) (noSymbol _)).append (inductionHypothesis others)

theorem of_isPlain (plain : token.isPlain = true) : IsRun [token] := by
  have noSymbol : token.isAnyPunctuator [.comma, .leftParen, .rightParen] = false := by
    simpa using (Bool.and_eq_true_iff.1 plain).2
  simp only [Token.isAnyPunctuator, List.any_cons, List.any_nil, Bool.or_false,
    Bool.or_eq_false_iff] at noSymbol
  exact single noSymbol.1 noSymbol.2.1 noSymbol.2.2

/-- Whatever stands in parentheses counts as one thing. -/
theorem group
    (isLeft : left.isPunctuator .leftParen = true)
    (balanced : balancedFrom 0 inner = true)
    (isRight : right.isPunctuator .rightParen = true) :
    IsRun (left :: (inner ++ [right])) where
  balanced := by
    have opened : balancedFrom 1 (inner ++ [right]) = balancedFrom 1 [right] :=
      balancedFrom_append balanced 1 [right]
    rw [balancedFrom, depthBehind_leftParen isLeft, opened, balancedFrom,
      depthBehind_rightParen isRight, Token.isPunctuator_eq_false isLeft (by decide)]
    rfl
  split rest := by
    have opened : splitAtCommas 1 (inner ++ right :: rest) =
        (inner ++ (splitAtCommas 1 (right :: rest)).1, (splitAtCommas 1 (right :: rest)).2) :=
      splitAtCommas_append balanced 0 _
    have closed : splitAtCommas 1 (right :: rest) =
        (right :: (splitAtCommas 0 rest).1, (splitAtCommas 0 rest).2) := by
      rw [splitAtCommas, depthBehind_rightParen isRight]
      rfl
    have whole : left :: (inner ++ [right]) ++ rest = left :: (inner ++ right :: rest) := by simp
    rw [whole, splitAtCommas, depthBehind_leftParen isLeft, opened, closed,
      Token.isPunctuator_eq_false isLeft (by decide), Bool.and_false]
    simp

end IsRun

/-- No argument goes on with some tokens: there are none, or they start with a comma. -/
def EndsRun (tokens : List Token) : Prop :=
  ∀ token ∈ tokens.head?, token.isPunctuator .comma = true

theorem significant_of_endsRun (ends : EndsRun tokens) : Significant tokens :=
  fun token first => Token.isTrivia_of_isPunctuator (ends token first)

theorem exists_cons_of_not_endsRun (continues : ¬EndsRun tokens) :
    ∃ token behind, tokens = token :: behind ∧ token.isPunctuator .comma = false := by
  cases tokens with
  | nil => exact absurd (by simp [EndsRun]) continues
  | cons token behind =>
      refine ⟨token, behind, rfl, Bool.eq_false_iff.2 fun isComma => continues ?_⟩
      rintro _ ⟨⟩
      exact isComma

theorem dropWhile_of_significant (significant : Significant tokens) :
    tokens.dropWhile Token.isTrivia = tokens := by
  cases tokens with
  | nil => rfl
  | cons token tokens => simp [significant token rfl]

/-- Only what is around some tokens is taken away from them. -/
theorem trimmed_append
    (trivial : ∀ token ∈ front, token.isTrivia = true)
    (significant : Significant core)
    (significantToo : Significant core.reverse)
    (trivialToo : ∀ token ∈ blanks, token.isTrivia = true) :
    trimmed (front ++ (core ++ blanks)) = core := by
  have reversed : ∀ token ∈ blanks.reverse, token.isTrivia = true := by simpa using trivialToo
  rw [trimmed, List.dropWhile_append_of_pos trivial]
  cases core with
  | nil =>
      have nothing : blanks.dropWhile Token.isTrivia = [] := List.dropWhile_eq_nil_iff.2 trivialToo
      rw [List.nil_append, nothing]
      rfl
  | cons token core =>
      have started : Significant (token :: core ++ blanks) := significant
      rw [dropWhile_of_significant started, List.rdropWhile, List.reverse_append,
        List.dropWhile_append_of_pos reversed, dropWhile_of_significant significantToo,
        List.reverse_reverse]

section Arguments

variable (trivial : ∀ token ∈ front, token.isTrivia = true)
variable (run : IsRun core)
variable (trivialToo : ∀ token ∈ blanks, token.isTrivia = true)
include trivial run trivialToo

theorem splitAtCommas_run (rest : List Token) :
    splitAtCommas 0 (front ++ (core ++ (blanks ++ rest))) =
      (front ++ (core ++ (blanks ++ (splitAtCommas 0 rest).1)), (splitAtCommas 0 rest).2) := by
  rw [(IsRun.of_isTrivia trivial).split, run.split, (IsRun.of_isTrivia trivialToo).split]

theorem topLevelCommas_run (rest : List Token) :
    topLevelCommas (front ++ (core ++ (blanks ++ rest))) = topLevelCommas rest := by
  rw [topLevelCommas, splitAtCommas_run trivial run trivialToo, topLevelCommas]

/-- A run is one argument if there is anything in it. -/
theorem argumentTexts_run
    (significant : Significant core)
    (significantToo : Significant core.reverse)
    (ends : EndsRun rest) :
    argumentTexts (front ++ (core ++ (blanks ++ rest))) =
      [core].filter (!·.isEmpty) ++ argumentTexts rest := by
  have nothing : (splitAtCommas 0 rest).1 = [] := by
    cases rest with
    | nil => rfl
    | cons comma rest => simp [splitAtCommas, ends comma rfl]
  have empty : trimmed [] = [] := rfl
  rw [argumentTexts, argumentTexts, splitAtCommas_run trivial run trivialToo, nothing,
    List.append_nil, List.map_cons, List.map_cons,
    trimmed_append trivial significant significantToo trivialToo, empty,
    ← List.singleton_append, List.filter_append]
  rfl

end Arguments

theorem topLevelCommas_comma (isComma : token.isPunctuator .comma = true) :
    topLevelCommas (token :: rest) = token :: topLevelCommas rest := by
  rw [topLevelCommas, splitAtCommas, depthBehind_other (Token.isPunctuator_eq_false isComma (by decide))
    (Token.isPunctuator_eq_false isComma (by decide)), isComma]
  rfl

/-- There is nothing in front of a comma. -/
theorem argumentTexts_comma (isComma : token.isPunctuator .comma = true) :
    argumentTexts (token :: rest) = argumentTexts rest := by
  have split : splitAtCommas 0 (token :: rest) =
      ([], (token, (splitAtCommas 0 rest).1) :: (splitAtCommas 0 rest).2) := by
    rw [splitAtCommas, depthBehind_other (Token.isPunctuator_eq_false isComma (by decide))
      (Token.isPunctuator_eq_false isComma (by decide)), isComma]
    rfl
  rw [argumentTexts, split]
  rfl

end PreprocessorSyntax
