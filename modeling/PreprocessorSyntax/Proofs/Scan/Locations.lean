import PreprocessorSyntax.Proofs.Lexer.Locations
import PreprocessorSyntax.Proofs.LogicalLine.Segments
import PreprocessorSyntax.Proofs.Scan.Prefilter

/-!
# Where scanned directives stand

A scan reads every logical line as a text of its own that starts on the first
physical line of its segment.  The line feeds of splices are not there to be
counted any more, so a token gets the number of its physical line less the
number of splices in front of it in its segment.
-/

namespace PreprocessorSyntax
namespace LogicalLine

variable {region : Region} {file : FileId} {text : List Char} {line : UInt32}
  {earlier others : List Segment} {segment : Segment} {passed : List Piece}

/-- The place in the source behind some segments and some pieces of the next one. -/
def placeBehind (file : FileId) (earlier : List Segment) (passed : List Piece) : Location :=
  (Location.start file 1).advance
    (earlier.flatMap Segment.source ++ passed.flatMap Piece.source)

theorem line_placeBehind
    (file : FileId)
    (earlier : List Segment)
    (passed : List Piece) :
    (placeBehind file earlier passed).line =
      ((Location.start file
          (1 + UInt32.ofNat ((earlier.flatMap Segment.source).count '\n'))).advance
            (passed.flatMap Piece.text)).line +
        UInt32.ofNat (passed.countP Piece.isSplice) := by
  rw [placeBehind, Location.line_advance, Location.line_advance, List.count_append,
    Piece.count_flatMap_source, UInt32.ofNat_add, UInt32.ofNat_add]
  simp only [Location.start, UInt32.add_assoc]

/-- A segment starts in the first column. -/
theorem column_placeBehind_nil
    (cut : segments region text = earlier ++ segment :: others) :
    (placeBehind file earlier []).column = 1 := by
  rcases List.eq_nil_or_concat earlier with rfl | ⟨front, last, rfl⟩
  · rfl
  · have ended : last ∈ (segments region text).dropLast := by
      rw [cut, List.dropLast_append_cons]
      simp
    obtain ⟨body, equal⟩ := exists_source_of_mem_dropLast ended
    rw [placeBehind, Location.advance_start]
    simp [equal, ← List.append_assoc]

/-- Where nothing is spliced, columns are those of the logical line. -/
theorem column_placeBehind
    (cut : segments region text = earlier ++ segment :: others)
    (unspliced : passed.countP Piece.isSplice = 0) :
    (placeBehind file earlier passed).column =
      ((Location.start file line).advance (passed.flatMap Piece.text)).column := by
  have start : (placeBehind file earlier []).column = (Location.start file line).column :=
    column_placeBehind_nil cut
  rw [placeBehind, Location.advance_append, Piece.flatMap_source_eq_flatMap_text unspliced]
  apply Location.column_advance_congr
  rwa [placeBehind, List.flatMap_nil, List.append_nil] at start

/-- A token of a logical line starts with a character that the segment keeps. -/
theorem exists_passed_of_tokenize
    {front back : List Token}
    {token : Token}
    (lexed : tokenize (String.ofList segment.text) file line = .ok (front ++ token :: back))
    (notEnd : token.kind ≠ .endOfInput) :
    ∃ passed c rest, segment.pieces = passed ++ .kept c :: rest ∧
      token.text.toList.head? = some c ∧
      String.ofList (passed.flatMap Piece.text) = String.join (front.map Token.text) ∧
      token.location = (Location.start file line).advance (passed.flatMap Piece.text) := by
  have yields := Lexer.yields_of_tokens _ lexed
  have spelled := yields.join_text
  have stands : token.location = _ := yields.location_eq
  have isSomething := yields.text_ne_empty (List.mem_append_right _ List.mem_cons_self) notEnd
  have whole : segment.text = (String.join (front.map Token.text)).toList ++
      (token.text.toList ++ (String.join (back.map Token.text)).toList) := by
    have characters := congrArg String.toList spelled
    simpa [Lexer.ofString] using characters.symm
  cases characters : token.text.toList with
  | nil => exact absurd (String.toList_eq_nil_iff.1 characters) isSomething
  | cons c behind =>
      rw [characters, List.cons_append] at whole
      obtain ⟨passed, rest, equal, passes⟩ := Piece.exists_of_flatMap_text whole
      refine ⟨passed, c, rest, equal, rfl, ?_, ?_⟩
      · rw [passes, String.ofList_toList]
      · rw [passes]
        exact stands

end LogicalLine

/-- A line of nothing but white space and comments does not look like a directive. -/
theorem looksLikeDirective_of_forall_isTrivia
    {lexer : Lexer}
    {tokens : List Token}
    (yields : lexer.Yields tokens)
    (hidden : FeedsBehindSlash lexer.rest)
    (empty : ∀ token ∈ tokens, token.kind ≠ .endOfInput → token.isTrivia = true) :
    looksLikeDirective (String.ofList lexer.rest) = false := by
  induction yields with
  | last read ends =>
      rw [(Lexer.rest_eq_nil_of_endOfInput read ends).1]
      rfl
  | @step lexer after token tokens read continues rest inductionHypothesis =>
      rw [List.forall_mem_cons] at empty
      obtain ⟨length, munched, _, _, rfl⟩ := Lexer.next_eq_ok read
      have trivial := empty.1 continues
      rw [Token.isTrivia] at trivial
      cases kind : token.kind with
      | whitespace =>
          rw [kind] at munched
          obtain ⟨looks, hiddenLater⟩ := looksLikeDirective_whitespace hidden munched
          rw [looks]
          exact inductionHypothesis hiddenLater empty.2
      | comment style =>
          rw [kind] at munched
          obtain ⟨tail, equal⟩ := (munches_of_munch munched).fronts
          rw [equal]
          exact looksLikeDirective_slash tail
      | _ => simp [kind, TokenKind.isTrivia] at trivial

/-- What is found on a line is its tree, located at the first significant token. -/
theorem exists_of_scanLine
    {grammar : Grammar}
    {file : FileId}
    {source : String}
    {line : LogicalLine}
    (present : line ∈ logicalLines source)
    {entry : ScannedDirective}
    (scanned : scanLine grammar file line = .ok (some entry)) :
    ∃ content ending first, tokenize line.text file line.line = .ok (content ++ [ending]) ∧
      entry.node.tokens = content ∧ (∀ token ∈ content, token.kind ≠ .endOfInput) ∧
      entry.node.text = line.text ∧ entry.node.significantTokens.head? = some first ∧
      entry.location = first.location := by
  unfold scanLine at scanned
  split at scanned
  next looks =>
    split at scanned
    next => cases scanned
    next tokens lexed =>
      split at scanned
      next => cases scanned
      next node accepted =>
        split at scanned
        next => cases scanned
        next directive _ =>
          cases scanned
          obtain ⟨content, ending, rfl, ends, before, spelled⟩ := tokenize_eq_ok lexed
          have leaves : node.tokens = content := by
            rw [(Grammar.tokens_of_parseTokens accepted).2, Cursor.upcoming_ofTokens before ends]
          have text : node.text = line.text := by rw [Node.text, leaves, spelled]
          cases first : node.significantTokens.head? with
          | some token => exact ⟨content, ending, token, lexed, leaves, before, text, rfl, rfl⟩
          | none =>
              rw [List.head?_eq_none_iff, Node.significantTokens, leaves,
                List.filter_eq_nil_iff] at first
              have dark := looksLikeDirective_of_forall_isTrivia (Lexer.yields_of_tokens _ lexed)
                (feedsBehindSlash_of_mem_logicalLines present) (by
                  intro token listed notEnd
                  rcases List.mem_append.1 listed with inLine | isEnding
                  · simpa using first token inLine
                  · rw [List.mem_singleton.1 isEnding] at notEnd
                    exact absurd ends notEnd)
              simp [Lexer.ofString, looks] at dark
  next => cases scanned

/-- What a scan finds, it finds on one of the lines. -/
theorem exists_scanLine_of_mem
    {grammar : Grammar}
    {file : FileId}
    {lines : List LogicalLine}
    {found : List ScannedDirective}
    (scanned : scanLines grammar file lines = .ok found)
    {entry : ScannedDirective}
    (listed : entry ∈ found) :
    ∃ line ∈ lines, scanLine grammar file line = .ok (some entry) := by
  induction lines generalizing found with
  | nil =>
      cases scanned
      simp at listed
  | cons line lines inductionHypothesis =>
      unfold scanLines at scanned
      split at scanned
      next => cases scanned
      next here one =>
        cases rest : scanLines grammar file lines with
        | error fault => simp [rest, Except.map] at scanned
        | ok later =>
            rw [rest] at scanned
            cases scanned
            rcases List.mem_append.1 listed with isHere | isLater
            · rw [Option.mem_toList] at isHere
              exact ⟨line, List.mem_cons_self, by rw [one, isHere]⟩
            · obtain ⟨other, present, found⟩ := inductionHypothesis rest isLater
              exact ⟨other, List.mem_cons_of_mem line present, found⟩

namespace ScannedDirective

open LogicalLine in
/--
A directive comes from one segment of its source.  It is located at its first
significant token, and each of its tokens starts with a character of the source
that the segment keeps.  The number of the physical line is the line of the
token plus the number of splices in front of it in the segment; if there are
none, the column is that of the token, too.
-/
structure ComesFrom (entry : ScannedDirective) (source : String) (file : FileId)
    (earlier : List Segment) (segment : Segment) : Prop where
  cut : ∃ others, segments .code source.toList = earlier ++ segment :: others
  text : entry.node.text = String.ofList segment.text
  location : ∃ first, entry.node.significantTokens.head? = some first ∧
    entry.location = first.location
  tokens : ∀ front token back, entry.node.tokens = front ++ token :: back →
    ∃ passed c rest, segment.pieces = passed ++ .kept c :: rest ∧
      String.ofList (passed.flatMap Piece.text) = String.join (front.map Token.text) ∧
      token.text.toList.head? = some c ∧
      earlier.flatMap Segment.source ++ passed.flatMap Piece.source ++ [c] <+: source.toList ∧
      let place := placeBehind file earlier passed
      place.line = token.location.line + UInt32.ofNat (passed.countP Piece.isSplice) ∧
        (passed.countP Piece.isSplice = 0 → place.column = token.location.column)

end ScannedDirective

/--
What a scan finds stands where it says, as far as no splice stands in front of
it: every directive comes from a segment of the source, and its tokens are on
their physical lines exactly if the segment has no splices in front of them.
-/
theorem places_of_scanSource
    {grammar : Grammar}
    {source : String}
    {file : FileId}
    {found : List ScannedDirective}
    (scanned : scanSource grammar source file = .ok found) :
    ∀ entry ∈ found, ∃ earlier segment, entry.ComesFrom source file earlier segment := by
  intro entry listed
  obtain ⟨line, present, isFound⟩ := exists_scanLine_of_mem scanned listed
  obtain ⟨content, ending, first, lexed, leaves, notEnds, text, head, located⟩ :=
    exists_of_scanLine present isFound
  rw [logicalLines_eq_linesOf] at present
  obtain ⟨earlier, segment, others, cut, rfl⟩ := LogicalLine.exists_of_mem_linesOf present
  refine ⟨earlier, segment, ⟨others, cut⟩, text, ⟨first, head, located⟩, ?_⟩
  intro front token back isToken
  have inLine : token ∈ content := by
    rw [← leaves, isToken]
    exact List.mem_append_right _ List.mem_cons_self
  rw [← leaves, isToken, List.append_assoc, List.cons_append] at lexed
  obtain ⟨passed, c, rest, pieces, starts, passes, stands⟩ :=
    LogicalLine.exists_passed_of_tokenize lexed (notEnds token inLine)
  have whole := LogicalLine.flatMap_source_segments .code source.toList
  refine ⟨passed, c, rest, pieces, passes, starts, ?_, ?_, ?_⟩
  · rw [← whole, cut, List.flatMap_append, List.flatMap_cons, LogicalLine.Segment.source, pieces]
    simp [LogicalLine.Piece.source]
  · rw [LogicalLine.line_placeBehind, stands]
  · intro unspliced
    rw [LogicalLine.column_placeBehind cut unspliced, stands]

/-- A definition over three physical lines, behind a comment over two. -/
theorem places_of_scanSource_three_lines :
    let source := "/* a\nb */\r\n#define A \\\n  1 \\\r\n  2\n"
    ∃ found, scanSource .standard source 0 = .ok found ∧
      found.map (fun entry => entry.location.lineColumn) = ["3:1"] ∧
      ∀ entry ∈ found, ∃ earlier segment, entry.ComesFrom source 0 earlier segment := by
  intro source
  have read : (scanSource .standard source 0).toOption.map
      (·.map fun entry => entry.location.lineColumn) = some ["3:1"] := by
    decide +kernel
  cases scanned : scanSource .standard source 0 with
  | error fault => simp [scanned, Except.toOption] at read
  | ok found =>
      rw [scanned] at read
      exact ⟨found, rfl, Option.some.inj read, places_of_scanSource scanned⟩

/-- A number sign on the second line of a source is found on the first one. -/
theorem scanSource_behind_splice :
    let source := "\\\n#define A 1\n"
    let place := (Location.start 0 1).advance ['\\', '\n']
    ['\\', '\n'] ++ ['#'] <+: source.toList ∧ place.lineColumn = "2:1" ∧
      (scanSource .standard source 0).toOption.map (·.map fun entry =>
          (entry.location.lineColumn,
            entry.node.significantTokens.map fun token => (token.text, token.location.line))) =
        some [("1:1", [("#", 1), ("define", 1), ("A", 1), ("1", 1)])] := by
  decide +kernel

end PreprocessorSyntax
