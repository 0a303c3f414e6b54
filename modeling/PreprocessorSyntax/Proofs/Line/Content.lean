import PreprocessorSyntax.Proofs.Grammar.Coverage
import PreprocessorSyntax.Proofs.Grammar.Reading

/-!
# What a line says

A directive line is a list of tokens with at most one line feed, behind which
only white space and comments stand.  Its content tokens are what a directive
can depend on.  Skipping white space and comments leads either to the next
content token or, if there is none left, to the end of the line, and there the
parse of a whole line may end.
-/

namespace PreprocessorSyntax

/--
Whether nothing but white space and comments stands between the first line feed
and the end of the input.
-/
def isOneLine (tokens : List Token) : Bool :=
  ((Cursor.ofTokens tokens).upcoming.dropWhile fun token =>
    token.kind != .newline).tail.all Token.isTrivia

/-- The tokens in front of the end of the input that are neither trivia nor line feeds. -/
def contentTokens (tokens : List Token) : List Token :=
  (Cursor.ofTokens tokens).upcoming.filter Token.isContent

variable {tokens front back blanks rest : List Token} {token : Token}

theorem upcoming_append (readable : ∀ token ∈ front, token.kind ≠ .endOfInput) :
    (Cursor.ofTokens (front ++ back)).upcoming = front ++ (Cursor.ofTokens back).upcoming := by
  unfold Cursor.upcoming Cursor.ofTokens
  exact List.takeWhile_append_of_pos (by simpa using readable)

theorem upcoming_cons (readable : token.kind ≠ .endOfInput) :
    (Cursor.ofTokens (token :: rest)).upcoming = token :: (Cursor.ofTokens rest).upcoming := by
  simp [Cursor.upcoming, Cursor.ofTokens, readable]

/-- Whatever stands at the back of one line is one line. -/
theorem isOneLine_of_append
    (readable : ∀ token ∈ front, token.kind ≠ .endOfInput)
    (oneLine : isOneLine (front ++ back) = true) :
    isOneLine back = true := by
  rw [isOneLine, upcoming_append readable] at oneLine
  clear readable
  unfold isOneLine
  generalize (Cursor.ofTokens back).upcoming = later at oneLine ⊢
  induction front with
  | nil => exact oneLine
  | cons token front inductionHypothesis =>
      by_cases feed : token.kind = .newline
      · rw [List.cons_append, List.dropWhile_cons_of_neg (by simp [feed]), List.tail_cons,
          List.all_append, Bool.and_eq_true] at oneLine
        rw [List.all_eq_true]
        intro found present
        have dropped := List.mem_of_mem_tail present
        exact List.all_eq_true.1 oneLine.2 found ((List.dropWhile_sublist _).mem dropped)
      · rw [List.cons_append, List.dropWhile_cons_of_pos (by simpa using feed)] at oneLine
        exact inductionHypothesis oneLine

/-- Tokens that end no line can be put in front of a line. -/
theorem isOneLine_append
    {front back : List Token}
    (readable : ∀ token ∈ front, token.kind ≠ .endOfInput)
    (noFeed : ∀ token ∈ front, token.kind ≠ .newline) :
    isOneLine (front ++ back) = isOneLine back := by
  rw [isOneLine, isOneLine, upcoming_append readable,
    List.dropWhile_append_of_pos (by simpa using noFeed)]

theorem isOneLine_trivia (cursor : Cursor) :
    isOneLine cursor.rest = isOneLine cursor.trivia.2.rest := by
  have noFeed : ∀ token ∈ cursor.trivia.1, token.kind ≠ .newline := by
    intro token skipped isFeed
    have trivial := Cursor.isTrivia_of_mem_trivia skipped
    simp [Token.isTrivia, isFeed, TokenKind.isTrivia] at trivial
  have skip : isOneLine (cursor.trivia.1 ++ cursor.trivia.2.rest) = _ :=
    isOneLine_append cursor.advances_trivia.readable noFeed
  rwa [Cursor.trivia_append] at skip

theorem isContent_eq_false_of_isTrivia (trivial : token.isTrivia = true) :
    token.isContent = false := by
  simp [Token.isContent, trivial]

theorem readable_of_isTrivia (trivial : token.isTrivia = true) : token.kind ≠ .endOfInput := by
  intro ends
  simp [Token.isTrivia, ends, TokenKind.isTrivia] at trivial

theorem readable_of_isContent (content : token.isContent = true) : token.kind ≠ .endOfInput := by
  intro ends
  simp [Token.isContent, Token.isLineEnd, ends, TokenKind.isLineEnd] at content

theorem contentTokens_cons (content : token.isContent = true) :
    contentTokens (token :: rest) = token :: contentTokens rest := by
  rw [contentTokens, upcoming_cons (readable_of_isContent content), List.filter_cons_of_pos content]
  rfl

theorem filter_isContent_eq_nil (trivial : ∀ token ∈ blanks, token.isTrivia = true) :
    blanks.filter Token.isContent = [] := by
  rw [List.filter_eq_nil_iff]
  intro token present
  simp [isContent_eq_false_of_isTrivia (trivial token present)]

/-- White space and comments say nothing. -/
theorem contentTokens_append (trivial : ∀ token ∈ blanks, token.isTrivia = true) :
    contentTokens (blanks ++ rest) = contentTokens rest := by
  have silent := filter_isContent_eq_nil trivial
  have readable (token : Token) (present : token ∈ blanks) :=
    readable_of_isTrivia (trivial token present)
  rw [contentTokens, upcoming_append readable, List.filter_append, silent, List.nil_append]
  rfl

theorem significant_dropWhile (tokens : List Token) :
    Significant (tokens.dropWhile Token.isTrivia) := by
  intro token first
  have stopped := List.head?_dropWhile_not Token.isTrivia tokens
  rw [Option.mem_def] at first
  simpa [first] using stopped

/-- White space and comments come first, and then some other token. -/
theorem exists_significant (tokens : List Token) :
    ∃ blanks rest, tokens = blanks ++ rest ∧ (∀ token ∈ blanks, token.isTrivia = true) ∧
      Significant rest := by
  exact ⟨tokens.takeWhile Token.isTrivia, tokens.dropWhile Token.isTrivia,
    List.takeWhile_append_dropWhile.symm,
    fun _ present => List.all_eq_true.1 List.all_takeWhile _ present,
    significant_dropWhile tokens⟩

/--
Where white space and comments have been skipped on one line, either the next
content token stands or the line ends and has no more content.
-/
theorem content_or_lineEnd
    (significant : Significant rest)
    (oneLine : isOneLine rest = true) :
    (∃ token behind, rest = token :: behind ∧ token.isContent = true ∧
        contentTokens rest = token :: contentTokens behind) ∨
      ((∀ token ∈ rest.head?, token.isLineEnd = true) ∧ contentTokens rest = []) := by
  rcases rest with _ | ⟨token, behind⟩
  · exact .inr ⟨by simp, rfl⟩
  have notTrivia : token.isTrivia = false := significant token rfl
  cases ends : token.isLineEnd with
  | false =>
      have content : token.isContent = true := by simp [Token.isContent, notTrivia, ends]
      exact .inl ⟨token, behind, rfl, content, contentTokens_cons content⟩
  | true =>
      refine .inr ⟨by rintro found ⟨⟩; exact ends, ?_⟩
      have silent : token.isContent = false := by simp [Token.isContent, ends]
      by_cases last : token.kind = .endOfInput
      · simp [contentTokens, Cursor.upcoming, Cursor.ofTokens, last]
      · have feed : token.kind = .newline := by
          cases kind : token.kind <;> simp_all [Token.isLineEnd, TokenKind.isLineEnd]
        rw [isOneLine, upcoming_cons last, List.dropWhile_cons_of_neg (by simp [feed]),
          List.tail_cons] at oneLine
        rw [contentTokens, upcoming_cons last, List.filter_cons, silent]
        simp only [Bool.false_eq_true, if_false, List.filter_eq_nil_iff]
        intro later present
        simp [isContent_eq_false_of_isTrivia (List.all_eq_true.1 oneLine later present)]

/-- The first content token of one line, and what stands behind it. -/
theorem exists_rest_of_contentTokens
    {content : List Token}
    (significant : Significant tokens)
    (oneLine : isOneLine tokens = true)
    (contents : contentTokens tokens = token :: content) :
    ∃ blanks rest, tokens = token :: (blanks ++ rest) ∧
      (∀ token ∈ blanks, token.isTrivia = true) ∧ Significant rest ∧ isOneLine rest = true ∧
      contentTokens rest = content := by
  rcases content_or_lineEnd significant oneLine with
    ⟨first, behind, rfl, isContent, further⟩ | ⟨_, nothing⟩
  · rw [further, List.cons.injEq] at contents
    obtain ⟨rfl, contents⟩ := contents
    obtain ⟨blanks, rest, rfl, trivial, significantRest⟩ := exists_significant behind
    rw [contentTokens_append trivial] at contents
    refine ⟨blanks, rest, rfl, trivial, significantRest, ?_, contents⟩
    have readable : ∀ token ∈ first :: blanks, token.kind ≠ .endOfInput :=
      List.forall_mem_cons.2 ⟨readable_of_isContent isContent,
        fun token skipped => readable_of_isTrivia (trivial token skipped)⟩
    exact isOneLine_of_append readable oneLine
  · rw [nothing] at contents
    cases contents

/-- The end of a line is neither white space nor a comment. -/
theorem isTrivia_eq_false_of_isLineEnd (ends : token.isLineEnd = true) :
    token.isTrivia = false := by
  cases kind : token.kind <;>
    simp_all [Token.isLineEnd, TokenKind.isLineEnd, Token.isTrivia, TokenKind.isTrivia]

/-- Where white space and comments have been skipped, there are none at the end of the line. -/
theorem Significant.append_ends
    (significant : Significant tokens)
    (ends : ∀ token ∈ rest.head?, token.isLineEnd = true) :
    Significant (tokens ++ rest) := by
  cases tokens with
  | nil => exact fun token first => isTrivia_eq_false_of_isLineEnd (ends token first)
  | cons token tokens => exact significant

/-- No line ends among some tokens. -/
def InLine (tokens : List Token) : Prop :=
  ∀ token ∈ tokens, token.isLineEnd = false

namespace InLine

theorem append_iff : InLine (front ++ back) ↔ InLine front ∧ InLine back :=
  List.forall_mem_append

theorem cons_iff : InLine (token :: tokens) ↔ token.isLineEnd = false ∧ InLine tokens :=
  List.forall_mem_cons

/-- The end of the input is not in a line. -/
theorem readable (inLine : InLine tokens) : ∀ token ∈ tokens, token.kind ≠ .endOfInput := by
  intro token present last
  have notEnd := inLine token present
  simp [Token.isLineEnd, last, TokenKind.isLineEnd] at notEnd

/-- A line ends where its tokens do. -/
theorem upcoming_eq (inLine : InLine tokens) : (Cursor.ofTokens tokens).upcoming = tokens := by
  have whole : (Cursor.ofTokens (tokens ++ [])).upcoming = tokens ++ [] :=
    upcoming_append inLine.readable
  simpa using whole

theorem noFeed (inLine : InLine tokens) : ∀ token ∈ tokens, token.kind ≠ .newline := by
  intro token present isFeed
  have notEnd := inLine token present
  simp [Token.isLineEnd, isFeed, TokenKind.isLineEnd] at notEnd

/-- What is first in a line is content where white space and comments have been skipped. -/
theorem isContent
    (inLine : InLine (token :: tokens))
    (significant : Significant (token :: tokens)) :
    token.isContent = true := by
  rw [Token.isContent, significant token rfl, inLine token List.mem_cons_self]
  rfl

/-- In a line, content is what is neither white space nor a comment. -/
theorem filter_not_isTrivia (inLine : InLine tokens) :
    (tokens.filter fun token => !token.isTrivia) = tokens.filter Token.isContent := by
  refine List.filter_congr fun token present => ?_
  rw [Token.isContent, inLine token present, Bool.not_false, Bool.and_true]

/-- What is no content in a line is white space or a comment. -/
theorem isTrivia
    (inLine : InLine tokens)
    (present : token ∈ tokens)
    (noContent : token.isContent = false) :
    token.isTrivia = true := by
  simpa [Token.isContent, inLine token present] using noContent

/-- Without content there are only white space and comments. -/
theorem isTrivia_of_filter_eq_nil
    (inLine : InLine tokens)
    (nothing : tokens.filter Token.isContent = []) :
    ∀ token ∈ tokens, token.isTrivia = true := by
  intro token present
  have noContent := List.filter_eq_nil_iff.1 nothing token present
  exact inLine.isTrivia present (by simpa using noContent)

/-- White space and comments stand in front of the first content token. -/
theorem exists_of_filter_eq_cons
    {content : List Token}
    (inLine : InLine tokens)
    (contents : tokens.filter Token.isContent = token :: content) :
    ∃ blanks behind, tokens = blanks ++ token :: behind ∧
      (∀ skipped ∈ blanks, skipped.isTrivia = true) ∧ InLine behind ∧
      behind.filter Token.isContent = content := by
  obtain ⟨blanks, behind, rfl, skipped, _, more⟩ := List.filter_eq_cons_iff.1 contents
  obtain ⟨inLineBlanks, inLineBehind⟩ := append_iff.1 inLine
  refine ⟨blanks, behind, rfl, ?_, (cons_iff.1 inLineBehind).2, more⟩
  intro token present
  exact inLineBlanks.isTrivia present (by simpa using skipped token present)

end InLine

namespace Grammar

/-- A place in a line. -/
def Reached (line : List Token) (cursor : Cursor) : Prop :=
  ∃ front, (Cursor.ofTokens line).Advances front cursor

/-- Reading goes on in the same line. -/
theorem Reached.advances
    {line tokens : List Token}
    {cursor after : Cursor}
    (reached : Reached line cursor)
    (advances : cursor.Advances tokens after) :
    Reached line after := by
  obtain ⟨front, early⟩ := reached
  exact ⟨front ++ tokens, early.append advances⟩

/-- Where a place is in a line and what is left there add up to the line. -/
theorem Reached.position_add
    {line : List Token}
    {cursor : Cursor}
    (reached : Reached line cursor) :
    cursor.position + cursor.rest.length = line.length := by
  obtain ⟨front, early⟩ := reached
  have lengths := congrArg List.length early.rest
  have position := early.position
  simp only [Cursor.ofTokens, List.length_append] at lengths position
  omega

/-- What is left of a line is in the line. -/
theorem Reached.inLine
    {line : List Token}
    {cursor : Cursor}
    (inLine : InLine line)
    (reached : Reached line cursor) :
    InLine cursor.rest := by
  obtain ⟨front, early⟩ := reached
  have whole : InLine (front ++ cursor.rest) := early.rest ▸ inLine
  exact (InLine.append_iff.1 whole).2

/-- Where a place is in a line tells what is left there. -/
theorem Reached.rest_eq
    {line : List Token}
    {cursor place : Cursor}
    (reached : Reached line cursor)
    (otherReached : Reached line place)
    (position : cursor.position = place.position) :
    cursor.rest = place.rest := by
  obtain ⟨front, early⟩ := reached
  obtain ⟨otherFront, otherEarly⟩ := otherReached
  rw [early.position, otherEarly.position] at position
  have parts : front ++ cursor.rest = otherFront ++ place.rest :=
    early.rest.symm.trans otherEarly.rest
  exact (List.append_inj parts (by omega)).2

/-- In front of the same content behind white space, a line has only one place. -/
theorem Reached.unique
    {line : List Token}
    (inLine : InLine line)
    {cursor place : Cursor}
    (reached : Reached line cursor)
    (otherReached : Reached line place)
    (significant : Significant cursor.rest)
    (otherSignificant : Significant place.rest)
    (content : cursor.rest.filter Token.isContent = place.rest.filter Token.isContent) :
    cursor = place := by
  -- whichever place comes first, only white space could stand between the two
  have ordered {cursor place : Cursor} {more : List Token}
      (significant : Significant cursor.rest)
      (inLine : InLine cursor.rest)
      (between : cursor.rest = more ++ place.rest)
      (content : cursor.rest.filter Token.isContent = place.rest.filter Token.isContent) :
      more = [] := by
    cases more with
    | nil => rfl
    | cons token more =>
        rw [between] at inLine significant
        have isContent := inLine.isContent significant
        have lengths := congrArg List.length content
        rw [between, List.cons_append, List.filter_cons_of_pos isContent, List.length_cons,
          List.filter_append, List.length_append] at lengths
        omega
  have inLineHere := reached.inLine inLine
  have inLineThere := otherReached.inLine inLine
  obtain ⟨front, early⟩ := reached
  obtain ⟨otherFront, otherEarly⟩ := otherReached
  have parts : front ++ cursor.rest = otherFront ++ place.rest :=
    early.rest.symm.trans otherEarly.rest
  have same : front = otherFront ∧ cursor.rest = place.rest := by
    rcases List.append_eq_append_iff.1 parts with ⟨more, rfl, between⟩ | ⟨more, rfl, between⟩
    · cases ordered significant inLineHere between content
      simpa using between
    · cases ordered otherSignificant inLineThere between content.symm
      simpa using between.symm
  have position : cursor.position = place.position := by
    rw [early.position, otherEarly.position, same.1]
  cases cursor
  cases place
  simp_all

/-- Where only white space and comments are left, the input ends behind them. -/
theorem atEnd_trivia
    {cursor : Cursor}
    (trivial : cursor.upcoming.all Token.isTrivia = true) :
    cursor.trivia.2.atEnd = true := by
  have skipped := cursor.advances_trivia.upcoming_eq
  cases read : cursor.trivia.2.bump? with
  | none => simp [Cursor.atEnd, Cursor.peek?_eq_map_bump?, read]
  | some found =>
      obtain ⟨token, after⟩ := found
      have stands := Cursor.rest_of_bump? read
      have further := (Cursor.advances_of_bump? read).upcoming_eq
      have present : token ∈ cursor.upcoming := by simp [skipped, further]
      have stopped := List.head?_dropWhile_not Token.isTrivia cursor.rest
      have head : (cursor.rest.dropWhile Token.isTrivia).head? = some token := by
        change cursor.trivia.2.rest.head? = some token
        rw [stands, List.head?_cons]
      simp [head, List.all_eq_true.1 trivial token present] at stopped

/-- The next token is looked at unless the input ends there. -/
theorem peekKind_cons
    {token : Token}
    (readable : token.kind ≠ .endOfInput)
    (rest : List Token) :
    (Cursor.ofTokens (token :: rest)).peekKind = token.kind := by
  simp [Cursor.ofTokens, Cursor.peekKind, Cursor.peek?, readable]

/-- Where a line ends, its end is looked at. -/
theorem isLineEnd_peekKind (ends : ∀ token ∈ rest.head?, token.isLineEnd = true) :
    (Cursor.ofTokens rest).peekKind.isLineEnd = true := by
  cases rest with
  | nil => rfl
  | cons token rest =>
      by_cases last : token.kind = .endOfInput
      · simp [Cursor.ofTokens, Cursor.peekKind, Cursor.peek?, last, TokenKind.isLineEnd]
      · rw [peekKind_cons last]
        exact ends token rfl

/-- Where a line ends that is the only one, the input may end. -/
theorem isSome_closing?
    {cursor : Cursor}
    (ends : cursor.atLineEnd = true)
    (oneLine : isOneLine cursor.rest = true) :
    (closing? cursor).isSome = true := by
  have nothing : cursor.trivia = ([], cursor) := by
    obtain ⟨position, rest⟩ := cursor
    cases rest with
    | nil => rfl
    | cons token rest =>
        have notTrivia : token.isTrivia = false := by
          cases kind : token.kind <;>
            simp_all [Cursor.atLineEnd, Cursor.peekKind, Cursor.peek?, TokenKind.isLineEnd,
              Token.isTrivia, TokenKind.isTrivia]
        simp [Cursor.trivia, notTrivia]
  unfold closing?
  rw [nothing]
  simp only
  cases read : cursor.bump? with
  | none => rfl
  | some found =>
      obtain ⟨token, last⟩ := found
      have feed : token.kind = .newline := by
        have readable := (Cursor.advances_of_bump? read).readable token List.mem_cons_self
        rw [Cursor.atLineEnd, Cursor.peekKind, Cursor.peek?_eq_map_bump?, read] at ends
        cases kind : token.kind <;> simp_all [TokenKind.isLineEnd]
      rw [Cursor.rest_of_bump? read, isOneLine, upcoming_cons (by simp [feed]),
        List.dropWhile_cons_of_neg (by simp [feed]), List.tail_cons] at oneLine
      have finished : last.trivia.2.atEnd = true := atEnd_trivia oneLine
      simp [feed, finished]

/-- Where the input may end, at most one line feed is left. -/
theorem isOneLine_of_closing?
    {cursor : Cursor}
    {trailing : List Token}
    (closed : closing? cursor = some trailing) :
    isOneLine cursor.rest = true := by
  rw [isOneLine_trivia]
  unfold closing? at closed
  simp only at closed
  split at closed
  next stuck =>
      have nothing : (Cursor.ofTokens cursor.trivia.2.rest).upcoming = [] :=
        (Cursor.upcoming_of_bump?_eq_none stuck : cursor.trivia.2.upcoming = [])
      rw [isOneLine, nothing]
      rfl
  next feed last found =>
      rw [Option.ite_none_right_eq_some, Option.ite_none_right_eq_some] at closed
      obtain ⟨isFeed, ends, _⟩ := closed
      have readable := (Cursor.advances_of_bump? found).readable feed List.mem_cons_self
      have stuck : last.trivia.2.bump? = none := by
        simpa [Cursor.atEnd, Cursor.peek?_eq_map_bump?] using ends
      have blanks : (Cursor.ofTokens last.rest).upcoming = last.trivia.1 ++ [] := by
        rw [← Cursor.upcoming_of_bump?_eq_none stuck]
        exact last.advances_trivia.upcoming_eq
      rw [Cursor.rest_of_bump? found, isOneLine, upcoming_cons readable,
        List.dropWhile_cons_of_neg (by simp [isFeed]), List.tail_cons, blanks, List.append_nil]
      exact List.all_eq_true.2 fun _ => Cursor.isTrivia_of_mem_trivia

end Grammar
end PreprocessorSyntax
