import Mathlib.Data.List.DropRight
import PreprocessorSyntax.Proofs.Lexer.Stream

/-!
# Where tokens stand

The location of a token is found by moving over the tokens in front of it, and
moving over a text has a closed form: line feeds are counted, the column is that
of the text behind the last of them, and the offset is the length in bytes.  So
the locations of a token stream say where in the text each token is cut out.

Lines and columns have 32 bits, so a count is added to them in the arithmetic of
such numbers.  As long as the sum has 32 bits, it is the sum of natural numbers.
-/

namespace PreprocessorSyntax

namespace Location

/-- The location behind a text that starts at the start of a line. -/
theorem advance_start (file : FileId) (line : UInt32) (text : List Char) :
    (start file line).advance text =
      { file
        line := line + UInt32.ofNat (text.count '\n')
        column := 1 + UInt32.ofNat (text.rtakeWhile (· != '\n')).length
        offset := (String.ofList text).utf8ByteSize } := by
  induction text using List.reverseRecOn with
  | nil => simp [start]
  | append_singleton text c inductionHypothesis =>
      have single : (String.ofList [c]).utf8ByteSize = c.utf8Size := by
        rw [← String.singleton_eq_ofList, String.utf8ByteSize_singleton]
      rw [advance_append, inductionHypothesis, List.rtakeWhile_concat, String.ofList_append,
        String.utf8ByteSize_append, single, List.count_append]
      by_cases feed : c = '\n'
      · simp [step, feed, UInt32.ofNat_add, UInt32.add_assoc]
      · simp [step, feed, UInt32.ofNat_add, UInt32.add_assoc]

/-- The line only depends on the line feeds passed. -/
theorem line_advance (location : Location) (text : List Char) :
    (location.advance text).line = location.line + UInt32.ofNat (text.count '\n') := by
  induction text generalizing location with
  | nil => simp
  | cons c text inductionHypothesis =>
      rw [advance_cons, inductionHypothesis, List.count_cons, step]
      split
      next feed =>
        simp [feed, UInt32.ofNat_add, UInt32.add_assoc, UInt32.add_comm 1]
      next other => simp [other]

/-- The offset grows by the bytes passed. -/
theorem offset_advance (location : Location) (text : List Char) :
    (location.advance text).offset = location.offset + (String.ofList text).utf8ByteSize := by
  induction text generalizing location with
  | nil => rfl
  | cons c text inductionHypothesis =>
      have single : (String.ofList [c]).utf8ByteSize = c.utf8Size := by
        rw [← String.singleton_eq_ofList, String.utf8ByteSize_singleton]
      have step : (location.step c).offset = location.offset + c.utf8Size := by
        unfold Location.step
        split <;> rfl
      rw [advance_cons, inductionHypothesis, ← List.singleton_append, String.ofList_append,
        String.utf8ByteSize_append, single, step, Nat.add_assoc]

/-- The column only depends on the column before and on the text passed. -/
theorem column_advance_congr
    {first second : Location}
    (same : first.column = second.column)
    (text : List Char) :
    (first.advance text).column = (second.advance text).column := by
  induction text generalizing first second with
  | nil => exact same
  | cons c text inductionHypothesis =>
      apply inductionHypothesis
      unfold step
      split <;> simp [same]

end Location

/-- A lexer that has less to read has stepped over some characters. -/
theorem Lexer.take_ne_nil
    {lexer : Lexer}
    {length : Nat}
    (shorter : (lexer.skip length).rest.length < lexer.rest.length) :
    lexer.rest.take length ≠ [] := by
  intro empty
  have whole := congrArg List.length (List.take_append_drop length lexer.rest)
  rw [empty, List.nil_append] at whole
  exact absurd whole (Nat.ne_of_lt shorter)

/-- These characters are bytes that it leaves behind. -/
theorem Lexer.offset_lt_offset_skip
    {lexer : Lexer}
    {length : Nat}
    (shorter : (lexer.skip length).rest.length < lexer.rest.length) :
    lexer.location.offset < (lexer.skip length).location.offset := by
  have taken := mt String.ofList_eq_empty_iff.1 (take_ne_nil shorter)
  rw [skip, Location.offset_advance]
  have bytes := Nat.pos_of_ne_zero (mt String.utf8ByteSize_eq_zero_iff.1 taken)
  omega

namespace Lexer.Yields

variable {lexer : Lexer} {tokens before after : List Token} {token : Token}

/-- A token stands behind the tokens in front of it. -/
theorem location_eq (yields : lexer.Yields (before ++ token :: after)) :
    token.location = lexer.location.advance (String.join (before.map Token.text)).toList := by
  induction before generalizing lexer with
  | nil =>
      rw [List.nil_append] at yields
      cases yields with
      | last read _ => exact (next_eq_ok read).choose_spec.2.2.1
      | step read _ _ => exact (next_eq_ok read).choose_spec.2.2.1
  | cons first before inductionHypothesis =>
      generalize whole : first :: before ++ token :: after = tokens at yields
      cases yields with
      | last => simp at whole
      | step read _ rest =>
          obtain ⟨rfl, rfl⟩ := List.cons.inj whole
          obtain ⟨length, _, text, _, rfl⟩ := next_eq_ok read
          rw [inductionHypothesis rest, List.map_cons, String.join_cons, String.toList_append,
            Location.advance_append, text, String.toList_ofList]
          rfl

/-- Only the end of the input is spelled without characters. -/
theorem text_ne_empty
    (yields : lexer.Yields tokens)
    (present : token ∈ tokens)
    (notEnd : token.kind ≠ .endOfInput) :
    token.text ≠ "" := by
  obtain ⟨before, after, read⟩ := yields.exists_next_of_mem present
  have shorter := next_rest_length_lt read notEnd
  obtain ⟨length, _, text, _, rfl⟩ := next_eq_ok read
  rw [text]
  exact mt String.ofList_eq_empty_iff.1 (take_ne_nil shorter)

end Lexer.Yields

/-- The bytes of a text between two others. -/
theorem extract_toByteArray (front text back : String) :
    (front ++ text ++ back).toByteArray.extract front.utf8ByteSize
        (front.utf8ByteSize + text.utf8ByteSize) =
      text.toByteArray := by
  have behind := ByteArray.extract_append_size_add' (i := 0) (j := text.utf8ByteSize)
    (b := (text ++ back).toByteArray) front.size_toByteArray.symm
  rw [Nat.add_zero] at behind
  rw [String.append_assoc, String.toByteArray_append, behind, String.toByteArray_append,
    ByteArray.extract_append_eq_left text.size_toByteArray.symm]

/--
Lexing is lossless, and locations are right.  The texts of the tokens make up
the source; the end of the input is the last token and the only one without
text.  A token is located by the bytes and the line feeds in front of it and by
the characters between it and the last line feed, where lines and columns are the
exact numbers if these have 32 bits.  It starts and ends between two characters of
the source, and the bytes in between are its text.
-/
theorem locations_of_tokenize
    {source : String}
    {file : FileId}
    {line : UInt32}
    {tokens : List Token}
    (lexed : tokenize source file line = .ok tokens) :
    String.join (tokens.map Token.text) = source ∧
      (∃ content ending, tokens = content ++ [ending] ∧ ending.kind = .endOfInput ∧
        ending.text = "" ∧ ∀ token ∈ content, token.kind ≠ .endOfInput ∧ token.text ≠ "") ∧
      ∀ before token after, tokens = before ++ token :: after →
        let passed := String.join (before.map Token.text)
        token.location =
            { file
              line := line + UInt32.ofNat (passed.toList.count '\n')
              column := 1 + UInt32.ofNat (passed.toList.rtakeWhile (· != '\n')).length
              offset := passed.utf8ByteSize } ∧
          (line.toNat + passed.toList.count '\n' < UInt32.size →
            token.location.line.toNat = line.toNat + passed.toList.count '\n') ∧
          (1 + (passed.toList.rtakeWhile (· != '\n')).length < UInt32.size →
            token.location.column.toNat =
              1 + (passed.toList.rtakeWhile (· != '\n')).length) ∧
          String.Pos.Raw.IsValid source ⟨token.location.offset⟩ ∧
          String.Pos.Raw.IsValid source ⟨token.endOffset⟩ ∧
          source.toByteArray.extract token.location.offset token.endOffset =
            token.text.toByteArray := by
  have yields := Lexer.yields_of_tokens _ lexed
  have spelled : String.join (tokens.map Token.text) = source := by
    simpa [Lexer.ofString] using yields.join_text
  refine ⟨spelled, ?_, ?_⟩
  · obtain ⟨content, ending, equal, ends, text, before⟩ := yields.eq_append_endOfInput
    refine ⟨content, ending, equal, ends, text, fun token present => ⟨before token present, ?_⟩⟩
    refine yields.text_ne_empty ?_ (before token present)
    rw [equal]
    exact List.mem_append_left _ present
  · rintro before token after rfl
    intro passed
    have stands : token.location = _ := yields.location_eq
    rw [Lexer.ofString, Location.advance_start, String.ofList_toList] at stands
    have whole : passed ++ token.text ++ String.join (after.map Token.text) = source := by
      rw [← spelled, List.map_append, String.join_append, List.map_cons, String.join_cons,
        String.append_assoc]
    have offset : token.location.offset = passed.utf8ByteSize := by rw [stands]
    have ending : token.endOffset = (passed ++ token.text).utf8ByteSize := by
      rw [Token.endOffset, offset, String.utf8ByteSize_append]
    refine ⟨stands, fun fits => ?_, fun fits => ?_, ?_, ?_, ?_⟩
    · rw [stands]
      exact toNat_add_ofNat fits
    · rw [stands]
      exact toNat_add_ofNat fits
    · rw [offset, ← whole, String.append_assoc]
      exact String.Pos.Raw.isValid_rawEndPos.append_right _
    · rw [ending, ← whole]
      exact String.Pos.Raw.isValid_rawEndPos.append_right _
    · rw [offset, ending, ← whole, String.utf8ByteSize_append]
      exact extract_toByteArray _ _ _

/-- An escape in front of a wide character, a splice with a carriage return, a comment. -/
theorem locations_of_tokenize_wide_escape :
    let source := "'\\é'\\\r\n/*\n*/é"
    let before : List Token :=
      [⟨.character .none, "'\\é'", ⟨3, 7, 1, 0⟩⟩, ⟨.whitespace, "\\\r\n", ⟨3, 7, 5, 5⟩⟩,
       ⟨.comment .block, "/*\n*/", ⟨3, 8, 1, 8⟩⟩]
    let name : Token := ⟨.identifier, "é", ⟨3, 9, 3, 13⟩⟩
    let ending : Token := ⟨.endOfInput, "", ⟨3, 9, 4, 15⟩⟩
    tokenize source 3 7 = .ok (before ++ [name, ending]) ∧
      (String.join (before.map Token.text)).toList.rtakeWhile (· != '\n') = ['*', '/'] ∧
      name.location.line.toNat = 7 + 2 ∧ name.location.column.toNat = 1 + 2 ∧
      String.Pos.Raw.IsValid source ⟨13⟩ ∧ String.Pos.Raw.IsValid source ⟨15⟩ ∧
      source.toByteArray.extract 13 15 = "é".toByteArray := by
  intro source before name ending
  have lexed : tokenize source 3 7 = .ok (before ++ [name, ending]) := by decide +kernel
  obtain ⟨_, _, places⟩ := locations_of_tokenize lexed
  obtain ⟨_, lines, columns, starts, ends, bytes⟩ := places before name [ending] rfl
  have counted : (String.join (before.map Token.text)).toList.count '\n' = 2 := by decide +kernel
  have stands : (String.join (before.map Token.text)).toList.rtakeWhile (· != '\n') =
      ['*', '/'] := by
    decide +kernel
  rw [counted] at lines
  rw [stands] at columns
  exact ⟨lexed, stands, lines (by decide), columns (by decide), starts, ends, bytes⟩

end PreprocessorSyntax
