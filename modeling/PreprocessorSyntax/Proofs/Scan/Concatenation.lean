import PreprocessorSyntax.Proofs.Directive.Relocation
import PreprocessorSyntax.Proofs.Lexer.Stream
import PreprocessorSyntax.Proofs.LogicalLine.Boundaries
import PreprocessorSyntax.Scan

/-!
# Scanning a source in parts

A scan treats each logical line by itself, and all that a line knows of the rest
of the source is its number.  So a source that is cut between two logical lines
can be scanned in parts; what the second part holds only has to be moved down by
the line feeds of the first one.
-/

namespace PreprocessorSyntax

namespace Location

/-- A location some lines further down. -/
def moveDown (lines : Nat) (location : Location) : Location :=
  { location with line := location.line + UInt32.ofNat lines }

variable {lines : Nat}

@[simp] theorem offset_moveDown (location : Location) :
    (location.moveDown lines).offset = location.offset := rfl

theorem start_add (file : FileId) (line : UInt32) :
    start file (line + UInt32.ofNat lines) = (start file line).moveDown lines := rfl

theorem step_moveDown (location : Location) (c : Char) :
    (location.moveDown lines).step c = (location.step c).moveDown lines := by
  unfold step
  split
  next => simp [moveDown, UInt32.add_assoc, UInt32.add_comm 1]
  next => rfl

theorem advance_moveDown (location : Location) (text : List Char) :
    (location.moveDown lines).advance text = (location.advance text).moveDown lines := by
  induction text generalizing location with
  | nil => rfl
  | cons c text inductionHypothesis =>
      rw [advance_cons, step_moveDown, inductionHypothesis, advance_cons]

end Location

namespace Lexer

/-- A lexer in front of the same text some lines further down. -/
def moveDown (lines : Nat) (lexer : Lexer) : Lexer :=
  { lexer with location := lexer.location.moveDown lines }

variable {lines : Nat} {lexer after : Lexer}

theorem next_moveDown
    {token : Token}
    (read : lexer.next = (.ok token, after)) :
    (lexer.moveDown lines).next =
      (.ok (token.relocate (Location.moveDown lines)), after.moveDown lines) := by
  unfold next at read ⊢
  have same : (lexer.moveDown lines).rest = lexer.rest := rfl
  rw [same]
  split at read
  next => cases read
  next kind length munched =>
    cases read
    simp [moveDown, skip, Token.relocate, Location.advance_moveDown]

/-- Further down the same tokens are read. -/
theorem Yields.moveDown
    {tokens : List Token}
    (yields : lexer.Yields tokens)
    (lines : Nat) :
    (lexer.moveDown lines).Yields
      (tokens.map (Token.relocate (Location.moveDown lines))) := by
  induction yields with
  | last read ends => exact .last (next_moveDown read) ends
  | step read continues _ inductionHypothesis =>
      exact .step (next_moveDown read) continues inductionHypothesis

end Lexer

theorem tokenize_add
    {source : String}
    {file : FileId}
    {line : UInt32}
    {tokens : List Token}
    (lexed : tokenize source file line = .ok tokens)
    (lines : Nat) :
    tokenize source file (line + UInt32.ofNat lines) =
      .ok (tokens.map (Token.relocate (Location.moveDown lines))) :=
  Lexer.tokens_of_yields ((Lexer.yields_of_tokens _ lexed).moveDown lines)

/-- What a scan found, at another place. -/
def ScannedDirective.relocate (move : Location → Location) (entry : ScannedDirective) :
    ScannedDirective :=
  { location := move entry.location
    node := entry.node.relocate move
    directive := entry.directive.relocate move }

theorem scanLine_moveDown
    {grammar : Grammar}
    {file : FileId}
    {line : LogicalLine}
    {found : Option ScannedDirective}
    (scanned : scanLine grammar file line = .ok found)
    (lines : Nat) :
    scanLine grammar file (line.moveDown lines) =
      .ok (found.map (ScannedDirective.relocate (Location.moveDown lines))) := by
  unfold scanLine at scanned ⊢
  have sameText : (line.moveDown lines).text = line.text := rfl
  have sameLine : (line.moveDown lines).line = line.line + UInt32.ofNat lines := rfl
  rw [sameText, sameLine]
  split at scanned
  next looks =>
    rw [if_pos looks]
    split at scanned
    next => cases scanned
    next tokens lexed =>
      simp only [tokenize_add lexed, Grammar.parseTokens_relocate]
      split at scanned
      next refused =>
        cases scanned
        rw [refused]
        rfl
      next node accepted =>
        split at scanned
        next => cases scanned
        next directive means =>
          cases scanned
          rw [accepted]
          simp only [Option.map_some, Directive.ofNode_relocate Location.offset_moveDown means,
            Node.significantTokens_relocate, List.head?_map, Location.start_add]
          cases node.significantTokens.head? <;> rfl
  next dark =>
    cases scanned
    rw [if_neg dark]
    rfl

theorem scanLines_moveDown
    {grammar : Grammar}
    {file : FileId}
    {all : List LogicalLine}
    {found : List ScannedDirective}
    (scanned : scanLines grammar file all = .ok found)
    (lines : Nat) :
    scanLines grammar file (all.map (LogicalLine.moveDown lines)) =
      .ok (found.map (ScannedDirective.relocate (Location.moveDown lines))) := by
  induction all generalizing found with
  | nil =>
      cases scanned
      rfl
  | cons line all inductionHypothesis =>
      rw [scanLines] at scanned
      rw [List.map_cons, scanLines]
      split at scanned
      next => cases scanned
      next here one =>
        rw [scanLine_moveDown one lines]
        cases rest : scanLines grammar file all with
        | error fault => simp [rest, Except.map] at scanned
        | ok later =>
            rw [rest] at scanned
            cases scanned
            simp [inductionHypothesis rest, Except.map, Option.toList_map]

theorem scanLines_append
    {grammar : Grammar}
    {file : FileId}
    {first second : List LogicalLine}
    {found more : List ScannedDirective}
    (scanned : scanLines grammar file first = .ok found)
    (further : scanLines grammar file second = .ok more) :
    scanLines grammar file (first ++ second) = .ok (found ++ more) := by
  induction first generalizing found with
  | nil =>
      cases scanned
      exact further
  | cons line first inductionHypothesis =>
      rw [scanLines] at scanned
      rw [List.cons_append, scanLines]
      split at scanned
      next => cases scanned
      next here one =>
        cases rest : scanLines grammar file first with
        | error fault => simp [rest, Except.map] at scanned
        | ok later =>
            rw [rest] at scanned
            cases scanned
            simp [inductionHypothesis rest, Except.map]

/--
Where a letter put behind a source is a line of its own, on the line that the
line feeds lead to, the source can be continued: the lines of the whole are those
of both parts, and so is what a scan finds.  Whatever comes from the second part
is further down by the line feeds of the first one, and nothing else changes.
-/
theorem scanSource_append
    {front : String}
    {number : UInt32}
    (boundary : logicalLines (front ++ "x") = logicalLines front ++ [⟨"x", number⟩])
    (counted : number.toNat = 1 + front.toList.count '\n')
    (back : String) :
    let lines := front.toList.count '\n'
    logicalLines (front ++ back) =
        logicalLines front ++ (logicalLines back).map (LogicalLine.moveDown lines) ∧
      ∀ grammar file found more,
        scanSource grammar front file = .ok found →
        scanSource grammar back file = .ok more →
        scanSource grammar (front ++ back) file =
          .ok (found ++ more.map (ScannedDirective.relocate (Location.moveDown lines))) := by
  intro lines
  obtain ⟨init, blank⟩ := exists_segments_of_logicalLines boundary counted
  have parts := logicalLines_append blank back
  refine ⟨parts, fun grammar file found more scanned further => ?_⟩
  rw [scanSource, parts]
  exact scanLines_append scanned (scanLines_moveDown further lines)

/-- A splice, a comment over two lines and a carriage return in front of the boundary. -/
theorem scanSource_append_comment :
    let front := "#define A \\\n \"b\\\\\" /* c\nd */\r\n"
    let back := " #include <e>\n#if A /*\n*/"
    logicalLines (front ++ "x") = logicalLines front ++ [⟨"x", 4⟩] ∧
      (4 : UInt32).toNat = 1 + front.toList.count '\n' ∧
      ∃ found more, scanSource .standard front 2 = .ok found ∧
        scanSource .standard back 2 = .ok more ∧ more.length = 2 ∧
        logicalLines (front ++ back) =
          logicalLines front ++ (logicalLines back).map (LogicalLine.moveDown 3) ∧
        scanSource .standard (front ++ back) 2 =
          .ok (found ++ more.map (ScannedDirective.relocate (Location.moveDown 3))) := by
  intro front back
  have boundary : logicalLines (front ++ "x") = logicalLines front ++ [⟨"x", 4⟩] := by
    decide +kernel
  have count : front.toList.count '\n' = 3 := by decide +kernel
  have counted : (4 : UInt32).toNat = 1 + front.toList.count '\n' := by rw [count]; rfl
  have read : (scanSource .standard front 2).isOk = true ∧
      (scanSource .standard back 2).toOption.map List.length = some 2 := by
    decide +kernel
  obtain ⟨lines, entries⟩ := scanSource_append boundary counted back
  rw [count] at lines entries
  cases scanned : scanSource .standard front 2 with
  | error fault => simp [scanned, Except.isOk, Except.toBool] at read
  | ok found =>
      cases further : scanSource .standard back 2 with
      | error fault => simp [further, Except.toOption] at read
      | ok more =>
          rw [further] at read
          exact ⟨boundary, counted, found, more, rfl, rfl, Option.some.inj read.2, lines,
            entries .standard 2 found more scanned further⟩

end PreprocessorSyntax
