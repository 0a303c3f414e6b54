import Mathlib.Logic.Function.Iterate
import PreprocessorSyntax.Proofs.Lexer.Locations
import PreprocessorSyntax.Proofs.Lexer.Spelling

/-!
# Calling a lexer again and again

A lexer answers as often as it is asked.  `ReadsIn` says where in a source it
stands, and every call keeps that.  A call goes forward until the end of the
source is reached, and from then on nothing changes.  The only call that fails is
one that finds a comment that is never closed; it goes to the end itself, so no
call behind it fails again.
-/

namespace PreprocessorSyntax

variable {source : String} {text : List Char} {lexer after : Lexer}

theorem blockCommentTail?_eq_none_iff :
    blockCommentTail? text = none ↔ ¬ ['*', '/'] <:+: text := by
  fun_induction blockCommentTail? text with
  | case1 rest => simpa using (List.prefix_append ['*', '/'] rest).isInfix
  | case2 c rest notEnd inductionHypothesis =>
      have notHere : ¬ ['*', '/'] <+: c :: rest := by
        rintro ⟨tail, equal⟩
        cases equal
        exact notEnd tail rfl rfl
      rw [Option.map_eq_none_iff, inductionHypothesis, List.infix_cons_iff]
      simp [notHere]
  | case3 => simp

/-- Nothing is found only where a comment starts that is never closed. -/
theorem munch_eq_none_iff :
    munch text = none ↔ ∃ body, text = '/' :: '*' :: body ∧ ¬ ['*', '/'] <:+: body := by
  constructor
  · intro nothing
    by_cases opening : ∃ body, text = '/' :: '*' :: body
    · obtain ⟨body, rfl⟩ := opening
      rw [munch_slash_star, Option.map_eq_none_iff, blockCommentTail?_eq_none_iff] at nothing
      exact ⟨body, rfl, nothing⟩
    · have notOpen : ['/', '*'].isPrefixOf text = false := by
        rw [Bool.eq_false_iff, Ne, List.isPrefixOf_iff_prefix]
        rintro ⟨body, rfl⟩
        exact opening ⟨body, rfl⟩
      unfold munch at nothing
      simp only [notOpen, Bool.false_eq_true, if_false] at nothing
      repeat' split at nothing
      all_goals cases nothing
  · rintro ⟨body, rfl, unclosed⟩
    rw [munch_slash_star, blockCommentTail?_eq_none_iff.2 unclosed]
    rfl

/-- A comment starts behind a number of bytes of a source and is never closed. -/
def OpensComment (source : String) (offset : Nat) : Prop :=
  ∃ front body : String, source = front ++ "/*" ++ body ∧ front.utf8ByteSize = offset ∧
    ¬ ['*', '/'] <:+: body.toList

namespace Lexer

/-- At the end of a text nothing changes any more. -/
theorem next_of_nil (ended : lexer.rest = []) :
    lexer.next = (.ok ⟨.endOfInput, "", lexer.location⟩, lexer) := by
  obtain ⟨rest, location⟩ := lexer
  subst ended
  rfl

theorem next_eq_error
    {fault : UnterminatedComment}
    (failed : lexer.next = (.error fault, after)) :
    munch lexer.rest = none ∧ fault.location = lexer.location ∧
      after = lexer.skip lexer.rest.length := by
  unfold next at failed
  split at failed
  next nothing =>
    cases failed
    exact ⟨nothing, rfl, rfl⟩
  next => cases failed

/-- Every call steps over some characters. -/
theorem exists_skip (lexer : Lexer) : ∃ length, lexer.next.2 = lexer.skip length := by
  unfold next
  split
  next => exact ⟨_, rfl⟩
  next => exact ⟨_, rfl⟩

/-- A call that does not give the end of the input goes forward. -/
theorem offset_lt_of_next
    {answer : Except UnterminatedComment Token}
    (read : lexer.next = (answer, after))
    (continues : ∀ token, answer = .ok token → token.kind ≠ .endOfInput) :
    lexer.location.offset < after.location.offset := by
  cases answer with
  | ok token =>
      have shorter := next_rest_length_lt read (continues token rfl)
      obtain ⟨length, _, _, _, rfl⟩ := next_eq_ok read
      exact offset_lt_offset_skip shorter
  | error fault =>
      obtain ⟨nothing, _, rfl⟩ := next_eq_error read
      obtain ⟨body, opening, _⟩ := munch_eq_none_iff.1 nothing
      exact offset_lt_offset_skip (by simp [skip, opening])

/-- What a lexer has still to read is the end of a source, and its offset says where it starts. -/
def ReadsIn (source : String) (lexer : Lexer) : Prop :=
  ∃ front, source.toList = front ++ lexer.rest ∧
    lexer.location.offset = (String.ofList front).utf8ByteSize

theorem readsIn_ofString (source : String) (file : FileId) (line : UInt32) :
    ReadsIn source (ofString source file line) :=
  ⟨[], rfl, rfl⟩

namespace ReadsIn

theorem skip (reads : ReadsIn source lexer) (length : Nat) :
    ReadsIn source (lexer.skip length) := by
  obtain ⟨front, equal, offset⟩ := reads
  refine ⟨front ++ lexer.rest.take length, ?_, ?_⟩
  · rw [Lexer.skip, List.append_assoc, List.take_append_drop, equal]
  · rw [Lexer.skip, Location.offset_advance, offset, String.ofList_append,
      String.utf8ByteSize_append]

theorem next (reads : ReadsIn source lexer) : ReadsIn source lexer.next.2 := by
  obtain ⟨length, equal⟩ := lexer.exists_skip
  rw [equal]
  exact reads.skip length

theorem offset_eq_of_nil (reads : ReadsIn source lexer) (ended : lexer.rest = []) :
    lexer.location.offset = source.utf8ByteSize := by
  obtain ⟨front, equal, offset⟩ := reads
  rw [ended, List.append_nil] at equal
  rw [offset, ← equal, String.ofList_toList]

/-- The text behind an offset is the text that is left. -/
theorem rest_eq
    {front back : List Char}
    (reads : ReadsIn source lexer)
    (whole : source.toList = front ++ back)
    (size : (String.ofList front).utf8ByteSize = lexer.location.offset) :
    lexer.rest = back := by
  obtain ⟨before, equal, offset⟩ := reads
  have nothingLeft {front more : List Char}
      (size : (String.ofList (front ++ more)).utf8ByteSize = (String.ofList front).utf8ByteSize) :
      more = [] := by
    rw [String.ofList_append, String.utf8ByteSize_append, Nat.add_eq_left,
      String.utf8ByteSize_eq_zero_iff, String.ofList_eq_empty_iff] at size
    exact size
  rcases List.append_eq_append_iff.1 (equal.symm.trans whole) with
    ⟨more, rfl, rest⟩ | ⟨more, rfl, rest⟩
  · rw [nothingLeft (size.trans offset)] at rest
    exact rest
  · rw [nothingLeft (offset.symm.trans size.symm)] at rest
    exact rest.symm

/-- A comment that is never closed starts here exactly if the lexer finds nothing. -/
theorem opensComment_iff (reads : ReadsIn source lexer) :
    OpensComment source lexer.location.offset ↔ munch lexer.rest = none := by
  rw [munch_eq_none_iff]
  constructor
  · rintro ⟨front, body, whole, size, unclosed⟩
    refine ⟨body.toList, reads.rest_eq ?_ ((congrArg _ front.ofList_toList).trans size), unclosed⟩
    rw [whole, String.toList_append, String.toList_append, List.append_assoc]
    rfl
  · rintro ⟨body, opening, unclosed⟩
    obtain ⟨front, equal, offset⟩ := reads
    refine ⟨String.ofList front, String.ofList body, ?_, offset.symm, ?_⟩
    · apply String.toList_injective
      rw [equal, opening, String.toList_append, String.toList_append, String.toList_ofList,
        String.toList_ofList, List.append_assoc]
      simp
    · rwa [String.toList_ofList]

end ReadsIn

/-- A lexer after a number of calls. -/
def afterCalls (lexer : Lexer) (calls : Nat) : Lexer :=
  (fun lexer => lexer.next.2)^[calls] lexer

/-- The answer to a call that comes after a number of others. -/
def answer (lexer : Lexer) (calls : Nat) : Except UnterminatedComment Token :=
  (lexer.afterCalls calls).next.1

theorem afterCalls_succ (lexer : Lexer) (calls : Nat) :
    lexer.afterCalls (calls + 1) = (lexer.afterCalls calls).next.2 :=
  Function.iterate_succ_apply' _ _ _

theorem next_afterCalls (lexer : Lexer) (calls : Nat) :
    (lexer.afterCalls calls).next = (lexer.answer calls, lexer.afterCalls (calls + 1)) := by
  rw [afterCalls_succ]
  rfl

theorem answer_succ (lexer : Lexer) (calls : Nat) :
    lexer.answer (calls + 1) = lexer.next.2.answer calls := by
  rw [answer, afterCalls, Function.iterate_succ_apply]
  rfl

theorem ReadsIn.afterCalls (reads : ReadsIn source lexer) (calls : Nat) :
    ReadsIn source (lexer.afterCalls calls) := by
  induction calls with
  | zero => exact reads
  | succ calls inductionHypothesis =>
      rw [afterCalls_succ]
      exact inductionHypothesis.next

/-- Once the text is used up, it is used up for good. -/
theorem afterCalls_of_nil
    {calls later : Nat}
    (ended : (lexer.afterCalls calls).rest = [])
    (notEarlier : calls ≤ later) :
    lexer.afterCalls later = lexer.afterCalls calls := by
  obtain ⟨more, rfl⟩ := Nat.exists_eq_add_of_le' notEarlier
  have fixed : (lexer.afterCalls calls).next.2 = lexer.afterCalls calls := by
    rw [next_of_nil ended]
  rw [afterCalls, Function.iterate_add_apply]
  exact Function.iterate_fixed fixed more

/-- Then every answer is the end of the input. -/
theorem answer_of_nil
    {calls later : Nat}
    (ended : (lexer.afterCalls calls).rest = [])
    (notEarlier : calls ≤ later) :
    ∃ ending, lexer.answer later = .ok ending ∧ ending.kind = .endOfInput := by
  rw [answer, afterCalls_of_nil ended notEarlier, next_of_nil ended]
  exact ⟨_, rfl, rfl⟩

/-- A call that gives the end of the input changes nothing. -/
theorem rest_eq_nil_of_answer
    {calls : Nat}
    {token : Token}
    (answered : lexer.answer calls = .ok token)
    (ends : token.kind = .endOfInput) :
    (lexer.afterCalls calls).rest = [] := by
  have read := lexer.next_afterCalls calls
  rw [answered] at read
  exact (rest_eq_nil_of_endOfInput read ends).1

/-- A call that fails uses up the text. -/
theorem rest_eq_nil_of_error
    {calls : Nat}
    {fault : UnterminatedComment}
    (failed : lexer.answer calls = .error fault) :
    (lexer.afterCalls (calls + 1)).rest = [] := by
  have read := lexer.next_afterCalls calls
  rw [failed] at read
  rw [(next_eq_error read).2.2, skip, List.drop_length]

/-- A call that fails begins at a comment that is never closed. -/
theorem ReadsIn.opensComment_of_error
    {calls : Nat}
    {fault : UnterminatedComment}
    (reads : ReadsIn source lexer)
    (failed : lexer.answer calls = .error fault) :
    fault.location = (lexer.afterCalls calls).location ∧
      OpensComment source (lexer.afterCalls calls).location.offset := by
  have read := lexer.next_afterCalls calls
  rw [failed] at read
  obtain ⟨nothing, location, _⟩ := next_eq_error read
  exact ⟨location, (reads.afterCalls calls).opensComment_iff.2 nothing⟩

/-- Behind a failure no call fails again. -/
theorem not_lt_of_error
    {first second : Nat}
    {fault other : UnterminatedComment}
    (failed : lexer.answer first = .error fault)
    (failedToo : lexer.answer second = .error other) :
    ¬ first < second := by
  intro later
  obtain ⟨ending, answered, _⟩ := answer_of_nil (rest_eq_nil_of_error failed) later
  rw [failedToo] at answered
  cases answered

/--
The answers to the first calls are tokens, and the answer to the next one ends
the stream: it is the end of the input or a failure.
-/
structure Answers
    (lexer : Lexer)
    (tokens : List Token)
    (last : Except UnterminatedComment Token) : Prop where
  first : (List.range tokens.length).map lexer.answer = tokens.map .ok
  continues : ∀ token ∈ tokens, token.kind ≠ .endOfInput
  next : lexer.answer tokens.length = last
  ends : ∀ ending, last = .ok ending → ending.kind = .endOfInput

/-- Reading all tokens comes to an end, with the answers to as many calls. -/
theorem exists_answers (lexer : Lexer) :
    ∃ tokens last, lexer.Answers tokens last ∧
      lexer.tokens = last.map fun ending => tokens ++ [ending] := by
  fun_induction Lexer.tokens lexer with
  | case1 lexer fault after failed =>
      exact ⟨[], .error fault, ⟨rfl, by simp, congrArg Prod.fst failed, by simp⟩, rfl⟩
  | case2 lexer token after read ends =>
      refine ⟨[], .ok token, ⟨rfl, by simp, congrArg Prod.fst read, ?_⟩, rfl⟩
      rintro _ ⟨⟩
      exact ends
  | case3 lexer token after read continues inductionHypothesis =>
      obtain ⟨tokens, last, ⟨first, goesOn, next, ends⟩, equal⟩ := inductionHypothesis
      have later (calls : Nat) : lexer.answer (calls + 1) = after.answer calls := by
        rw [answer_succ, read]
      have here : lexer.answer 0 = .ok token := congrArg Prod.fst read
      refine ⟨token :: tokens, last, ⟨?_, ?_, ?_, ends⟩, ?_⟩
      · rw [List.length_cons, List.range_succ_eq_map, List.map_cons, List.map_map, here,
          List.map_cons, ← first]
        exact congrArg _ (List.map_congr_left fun calls _ => later calls)
      · exact List.forall_mem_cons.2 ⟨continues, goesOn⟩
      · rw [List.length_cons, later, next]
      · rw [equal]
        cases last <;> rfl

/-- A failure ends the stream, wherever it comes. -/
theorem Answers.eq_of_error
    {tokens : List Token}
    {last : Except UnterminatedComment Token}
    {calls : Nat}
    {fault : UnterminatedComment}
    (answers : lexer.Answers tokens last)
    (failed : lexer.answer calls = .error fault) :
    last = .error fault := by
  rcases Nat.lt_or_ge calls tokens.length with earlier | notEarlier
  · have present : lexer.answer calls ∈ tokens.map .ok := by
      rw [← answers.first]
      exact List.mem_map_of_mem (List.mem_range.2 earlier)
    obtain ⟨token, _, equal⟩ := List.mem_map.1 present
    rw [failed] at equal
    cases equal
  · cases last with
    | ok ending =>
        have ended := rest_eq_nil_of_answer answers.next (answers.ends ending rfl)
        obtain ⟨again, answered, _⟩ := answer_of_nil ended notEarlier
        rw [failed] at answered
        cases answered
    | error other =>
        have notLater := not_lt_of_error answers.next failed
        have same : calls = tokens.length := by omega
        rw [← answers.next, ← same, failed]

end Lexer

/--
However often a lexer is called, it goes forward until the source is used up,
and it fails at most once.  A call that gives a token or fails takes some of the
source; the end of the input is only given at the end of the source, and changes
nothing.  A failure is located at the start of a comment that is never closed,
which is where its call began, and all later calls give the end of the input.
Reading all tokens gives the answers up to the end of the input or the failure,
and fails exactly if some call begins at a comment that is never closed.
-/
theorem calls_of_lexer (source : String) (file : FileId) (line : UInt32) :
    let lexer := Lexer.ofString source file line
    let offset := fun calls => (lexer.afterCalls calls).location.offset
    (∀ calls token, lexer.answer calls = .ok token → token.kind ≠ .endOfInput →
      offset calls < offset (calls + 1)) ∧
    (∀ calls token, lexer.answer calls = .ok token → token.kind = .endOfInput →
      offset calls = source.utf8ByteSize ∧
        lexer.afterCalls (calls + 1) = lexer.afterCalls calls) ∧
    (∀ calls fault, lexer.answer calls = .error fault →
      offset calls < offset (calls + 1) ∧
        fault.location = (lexer.afterCalls calls).location ∧
        OpensComment source (offset calls) ∧
        ∀ later, calls < later → offset later = source.utf8ByteSize ∧
          ∃ ending, lexer.answer later = .ok ending ∧ ending.kind = .endOfInput) ∧
    (∀ first second fault other, lexer.answer first = .error fault →
      lexer.answer second = .error other → first = second) ∧
    (∃ tokens last, lexer.Answers tokens last ∧
      tokenize source file line = last.map fun ending => tokens ++ [ending]) ∧
    ((∃ fault, tokenize source file line = .error fault) ↔
      ∃ calls, OpensComment source (offset calls)) := by
  intro lexer offset
  have reads : lexer.ReadsIn source := Lexer.readsIn_ofString source file line
  have further {calls : Nat} (continues : ∀ token, lexer.answer calls = .ok token →
      token.kind ≠ .endOfInput) : offset calls < offset (calls + 1) :=
    Lexer.offset_lt_of_next (lexer.next_afterCalls calls) continues
  obtain ⟨tokens, last, answers, lexed⟩ := lexer.exists_answers
  refine ⟨?_, ?_, ?_, ?_, ⟨tokens, last, answers, lexed⟩, ?_⟩
  · intro calls token answered continues
    refine further fun other same => ?_
    cases answered.symm.trans same
    exact continues
  · intro calls token answered ends
    have ended := Lexer.rest_eq_nil_of_answer answered ends
    exact ⟨(reads.afterCalls calls).offset_eq_of_nil ended,
      Lexer.afterCalls_of_nil ended (Nat.le_succ calls)⟩
  · intro calls fault failed
    obtain ⟨location, comment⟩ := reads.opensComment_of_error failed
    have forward : offset calls < offset (calls + 1) := by
      refine further fun token answered => ?_
      rw [failed] at answered
      cases answered
    have ended := Lexer.rest_eq_nil_of_error failed
    refine ⟨forward, location, comment, fun later behind => ⟨?_, ?_⟩⟩
    · apply (reads.afterCalls later).offset_eq_of_nil
      rw [Lexer.afterCalls_of_nil ended behind, ended]
    · exact Lexer.answer_of_nil ended behind
  · intro first second fault other failed failedToo
    have notEarlier := Lexer.not_lt_of_error failed failedToo
    have notLater := Lexer.not_lt_of_error failedToo failed
    omega
  · have fails : (∃ fault, tokenize source file line = .error fault) ↔
        ∃ fault, last = .error fault := by
      rw [tokenize, lexed]
      cases last <;> simp [Except.map]
    rw [fails]
    constructor
    · rintro ⟨fault, rfl⟩
      exact ⟨tokens.length, (reads.opensComment_of_error answers.next).2⟩
    · rintro ⟨calls, comment⟩
      have nothing := (reads.afterCalls calls).opensComment_iff.1 comment
      have failed : lexer.answer calls = .error ⟨(lexer.afterCalls calls).location⟩ := by
        rw [Lexer.answer, Lexer.next, nothing]
      exact ⟨_, answers.eq_of_error failed⟩

/-- The star that opens a comment does not close it. -/
example :
    let lexer := Lexer.ofString "a/*/" 0 1
    lexer.answer 0 = .ok ⟨.identifier, "a", ⟨0, 1, 1, 0⟩⟩ ∧
      lexer.answer 1 = .error ⟨⟨0, 1, 2, 1⟩⟩ ∧
      lexer.answer 2 = .ok ⟨.endOfInput, "", ⟨0, 1, 5, 4⟩⟩ := by
  decide +kernel

end PreprocessorSyntax
