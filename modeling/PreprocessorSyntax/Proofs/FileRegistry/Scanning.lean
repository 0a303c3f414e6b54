import PreprocessorSyntax.Proofs.Directive.Provenance
import PreprocessorSyntax.Proofs.FileRegistry.Registration
import PreprocessorSyntax.Proofs.Scan.Locations

/-!
# Scanning registered files

Every location in what a scan returns is in the scanned file, that of a fault as
well as those of the tokens in the trees and in the directives.  So a scan of a
file that could be read speaks of one file only, the one with the number that the
registry has for its path.
-/

namespace PreprocessorSyntax

theorem Location.file_advance (location : Location) (text : List Char) :
    (location.advance text).file = location.file := by
  induction text generalizing location with
  | nil => rfl
  | cons c text inductionHypothesis =>
      rw [advance_cons, inductionHypothesis, step]
      split <;> rfl

/-- All tokens of a text are in its file. -/
theorem file_of_mem_tokenize
    {source : String}
    {file : FileId}
    {line : UInt32}
    {tokens : List Token}
    {token : Token}
    (lexed : tokenize source file line = .ok tokens)
    (present : token ∈ tokens) :
    token.location.file = file := by
  have yields := Lexer.yields_of_tokens _ lexed
  obtain ⟨before, after, rfl⟩ := List.append_of_mem present
  rw [yields.location_eq, Location.file_advance]
  rfl

theorem file_of_unterminated
    {lexer : Lexer}
    {fault : UnterminatedComment}
    (failed : lexer.tokens = .error fault) :
    fault.location.file = lexer.location.file := by
  fun_induction Lexer.tokens lexer with
  | case1 lexer found after read =>
      cases failed
      unfold Lexer.next at read
      split at read <;> cases read
      rfl
  | case2 => cases failed
  | case3 lexer token after read _ inductionHypothesis =>
      obtain ⟨length, _, _, _, rfl⟩ := Lexer.next_eq_ok read
      cases rest : (lexer.skip length).tokens with
      | ok tokens =>
          rw [rest] at failed
          cases failed
      | error found =>
          rw [rest] at failed
          cases failed
          rw [inductionHypothesis rest, Lexer.skip, Location.file_advance]

/-- The locations in an entry: its own, and those of all tokens in its tree and its directive. -/
def ScannedDirective.locations (scanned : ScannedDirective) : List Location :=
  scanned.location :: (scanned.node.tokens ++ scanned.directive.tokens).map Token.location

/-- The locations in what a scan returns. -/
def scannedLocations : Except Fault (List ScannedDirective) → List Location
  | .ok found => found.flatMap ScannedDirective.locations
  | .error fault => fault.location?.toList

variable {grammar : Grammar} {file : FileId} {location : Location}

/-- What is read from tokens of one file speaks of this file only. -/
theorem file_of_drawn
    {node : Node}
    (formed : grammar.Formed node)
    (notReplacement : node.rule ≠ .replacementList)
    (inFile : ∀ token ∈ node.tokens, token.location.file = file) :
    (∀ directive, Directive.ofNode node = .ok directive →
        ∀ token ∈ directive.tokens, token.location.file = file) ∧
      ∀ fault, Directive.ofNode node = .error fault →
        ∀ location ∈ fault.location?, location.file = file := by
  have drawn := formed.drawn_ofNode notReplacement
  constructor
  · intro directive means token kept
    rw [means] at drawn
    exact inFile token (drawn token kept)
  · intro fault failed location stands
    rw [failed] at drawn
    obtain ⟨token, present, here⟩ := drawn
    rw [here] at stands
    cases stands
    exact inFile token present

/-- An entry whose tokens are in a file is in this file itself. -/
theorem file_of_mem_locations
    {node : Node}
    {directive : Directive}
    {line : UInt32}
    (inFile : ∀ token ∈ node.tokens, token.location.file = file)
    (inFileToo : ∀ token ∈ directive.tokens, token.location.file = file)
    (listed : location ∈ ScannedDirective.locations
      ⟨(node.significantTokens.head?.map Token.location).getD (Location.start file line), node,
        directive⟩) :
    location.file = file := by
  rcases List.mem_cons.1 listed with rfl | kept
  · cases first : node.significantTokens.head? with
    | none => rfl
    | some token => exact inFile token (List.mem_filter.1 (List.mem_of_head? first)).1
  · obtain ⟨token, present, rfl⟩ := List.mem_map.1 kept
    exact (List.mem_append.1 present).elim (inFile token) (inFileToo token)

theorem file_of_scanLine
    {line : LogicalLine}
    (listed : location ∈ scannedLocations ((scanLine grammar file line).map Option.toList)) :
    location.file = file := by
  unfold scanLine at listed
  split at listed
  next =>
    split at listed
    next fault failed =>
      cases List.mem_singleton.1 listed
      exact file_of_unterminated failed
    next tokens lexed =>
      split at listed
      next => cases listed
      next node parsed =>
        have formed := Grammar.formed_of_parseTokens (by decide) parsed
        obtain ⟨isLine, whole⟩ := Grammar.tokens_of_parseTokens parsed
        have inFile : ∀ token ∈ node.tokens, token.location.file = file := by
          intro token present
          rw [whole] at present
          exact file_of_mem_tokenize lexed ((List.takeWhile_sublist _).mem present)
        have drawn := file_of_drawn formed (by rw [isLine]; decide) inFile
        split at listed
        next fault failed => exact drawn.2 fault failed location (Option.mem_toList.1 listed)
        next directive means =>
          rw [Except.map, scannedLocations, Option.toList_some, List.flatMap_singleton] at listed
          exact file_of_mem_locations inFile (drawn.1 directive means) listed
  next => cases listed

theorem file_of_scanLines
    {lines : List LogicalLine}
    (listed : location ∈ scannedLocations (scanLines grammar file lines)) :
    location.file = file := by
  induction lines with
  | nil => cases listed
  | cons line lines inductionHypothesis =>
      have single : location ∈ scannedLocations
          ((scanLine grammar file line).map Option.toList) → location.file = file :=
        file_of_scanLine
      rw [scanLines] at listed
      split at listed
      next fault failed =>
        rw [failed] at single
        exact single listed
      next found one =>
        rw [one] at single
        cases rest : scanLines grammar file lines with
        | error fault =>
            rw [rest] at listed inductionHypothesis
            exact inductionHypothesis listed
        | ok others =>
            rw [rest] at listed inductionHypothesis
            rw [Except.map, scannedLocations, List.flatMap_append, List.mem_append] at listed
            exact listed.elim single inductionHypothesis

/-- A scan speaks of the file it was given, and of no other. -/
theorem file_of_scanSource
    {source : String}
    (listed : location ∈ scannedLocations (scanSource grammar source file)) :
    location.file = file :=
  file_of_scanLines listed

end PreprocessorSyntax
