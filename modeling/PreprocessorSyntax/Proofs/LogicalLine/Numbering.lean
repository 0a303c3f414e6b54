import PreprocessorSyntax.Proofs.Lexer.Locations
import PreprocessorSyntax.Proofs.LogicalLine.Boundaries

/-!
# What logical lines keep of a source, and where they start

The segments of a source lose nothing: each line feed ends one of them, is the
end of a splice or is kept in the text of a line.  So the number of a line can be
told from the source alone, by counting the line feeds in front of its segment.
-/

namespace PreprocessorSyntax
namespace LogicalLine

variable {region later : Region} {rest text before after : List Char} {c : Char} {more : Nat}
  {segment : Segment}

/-- The line end is all of it: no carriage return is left in front of the line feed. -/
def Segment.EndsLine (segment : Segment) : Prop :=
  segment.ending = ['\r', '\n'] ∨
    segment.ending = ['\n'] ∧ (segment.pieces.flatMap Piece.source).getLast? ≠ some '\r'

theorem Piece.source_ne_nil (piece : Piece) : piece.source ≠ [] := by
  rcases piece with c | (_ | _) <;> simp [source]

/-- A carriage return is not kept in front of the line feed that ends the line. -/
theorem getLast?_ne_of_keep
    (cuts : cut region (c :: rest) = .keep more later)
    (feed : (rest.drop more).head? = some '\n')
    (outside : later ≠ .blockComment) :
    (c :: rest.take more).getLast? ≠ some '\r' := by
  have atMostOne := more_le_one (.inl cuts)
  cases rest with
  | nil => simp at feed
  | cons d rest =>
      obtain rfl | rfl : more = 0 ∨ more = 1 := by omega
      · -- The carriage return and the line feed are a line end, unless they are in a comment.
        obtain rfl : d = '\n' := by simpa using feed
        rw [List.take_zero, List.getLast?_singleton, Ne, Option.some.injEq]
        rintro rfl
        rw [cut] at cuts
        split at cuts
        next comment => exact outside ((Cut.keep.inj cuts).2 ▸ comment)
        next => cases cuts
      · -- No two characters that are kept together have a carriage return at the end.
        cases rest with
        | nil => simp at feed
        | cons e rest =>
            obtain rfl : e = '\n' := by simpa using feed
            simp only [List.take_succ_cons, List.take_zero]
            rw [List.getLast?_cons_cons, List.getLast?_singleton, Ne, Option.some.injEq]
            rintro rfl
            unfold cut at cuts
            split at cuts <;> (try cases region) <;> grind

/-- A line that ends at once stands in front of a line feed, and not in a comment. -/
theorem head?_of_segments
    {others : List Segment}
    (ends : segments region text = ⟨[], ['\n']⟩ :: others) :
    text.head? = some '\n' ∧ region ≠ .blockComment := by
  cases text with
  | nil => simp [segments] at ends
  | cons c rest =>
      cases cuts : cut region (c :: rest) with
      | keep more later =>
          obtain ⟨first, others, equal⟩ := exists_segments later (rest.drop more)
          rw [segments_keep cuts, equal] at ends
          simp [Segment.prepend] at ends
      | splice more =>
          obtain ⟨first, others, equal⟩ := exists_segments region (rest.drop more)
          rw [segments_splice cuts, equal] at ends
          simp [Segment.prepend] at ends
      | endLine more =>
          rw [segments_endLine cuts, List.cons.injEq, Segment.mk.injEq] at ends
          obtain ⟨rfl, -⟩ := List.cons.inj ends.1.2
          refine ⟨rfl, ?_⟩
          rintro rfl
          cases cuts

/-- Pieces in front of a segment leave its line end as it is, but for a carriage return. -/
theorem Segment.EndsLine.prepend
    {before : List Piece}
    (ends : segment.EndsLine)
    (whole : segment = ⟨[], ['\n']⟩ → (before.flatMap Piece.source).getLast? ≠ some '\r') :
    (segment.prepend before).EndsLine := by
  rcases ends with carriage | ⟨feed, last⟩
  · exact .inl carriage
  · refine .inr ⟨feed, ?_⟩
    rw [Segment.prepend, List.flatMap_append, List.getLast?_append]
    cases pieces : segment.pieces with
    | nil =>
        have empty : segment = ⟨[], ['\n']⟩ := by rw [← pieces, ← feed]
        simpa using whole empty
    | cons piece others =>
        rw [pieces] at last
        rw [List.getLast?_eq_some_getLast (by simp [Piece.source_ne_nil]), Option.some_or]
        rwa [List.getLast?_eq_some_getLast (by simp [Piece.source_ne_nil])] at last

/-- Every segment but the last one has a whole line end. -/
theorem endsLine_of_mem_dropLast (earlier : segment ∈ (segments region text).dropLast) :
    segment.EndsLine := by
  fun_induction segments region text generalizing segment with
  | case1 => simp at earlier
  | case2 region c rest more later cuts inductionHypothesis =>
      obtain ⟨first, others, equal⟩ := exists_segments later (rest.drop more)
      rw [equal] at earlier inductionHypothesis
      cases others with
      | nil => simp at earlier
      | cons second others =>
          rw [List.modifyHead_cons, List.dropLast_cons_cons] at earlier
          rcases List.mem_cons.1 earlier with rfl | behind
          · refine (inductionHypothesis (by simp)).prepend ?_
            rintro rfl
            obtain ⟨feed, outside⟩ := head?_of_segments equal
            rw [Piece.flatMap_source_map_kept]
            exact getLast?_ne_of_keep cuts feed outside
          · exact inductionHypothesis (List.mem_cons_of_mem first behind)
  | case3 region c rest more cuts inductionHypothesis =>
      obtain ⟨first, others, equal⟩ := exists_segments region (rest.drop more)
      rw [equal] at earlier inductionHypothesis
      cases others with
      | nil => simp at earlier
      | cons second others =>
          rw [List.modifyHead_cons, List.dropLast_cons_cons] at earlier
          rcases List.mem_cons.1 earlier with rfl | behind
          · refine (inductionHypothesis (by simp)).prepend fun _ => ?_
            cases more != 1 <;> simp [Piece.source]
          · exact inductionHypothesis (List.mem_cons_of_mem first behind)
  | case4 region c rest more cuts inductionHypothesis =>
      obtain ⟨first, others, equal⟩ := exists_segments .code (rest.drop more)
      rw [equal, List.dropLast_cons_cons, ← equal] at earlier
      rcases List.mem_cons.1 earlier with rfl | behind
      · rcases ending_of_cut cuts with ending | ending
        · exact .inr ⟨ending, by simp⟩
        · exact .inl ending
      · exact inductionHypothesis behind

/-- Segments with line ends have a line each, blank or not. -/
theorem linesOf_of_endsLine
    {init : List Segment}
    (ends : ∀ segment ∈ init, segment.EndsLine)
    (start : UInt32) :
    linesOf start init = init.mapIdx fun i segment =>
      ⟨String.ofList segment.text,
        start + UInt32.ofNat (((init.take i).flatMap Segment.source).count '\n')⟩ := by
  induction init generalizing start with
  | nil => rfl
  | cons first init inductionHypothesis =>
      rw [List.forall_mem_cons] at ends
      have ended : first.ending.isEmpty = false := by
        rcases ends.1 with ending | ⟨ending, -⟩ <;> rw [ending] <;> rfl
      rw [linesOf, inductionHypothesis ends.2, Segment.isBlank, ended, Bool.and_false,
        List.mapIdx_cons]
      simp [UInt32.ofNat_add, UInt32.add_assoc]

/-- A character of a sequence of texts stands in one of them. -/
theorem exists_of_flatMap_eq {α : Type}
    {write : α → List Char}
    {items : List α}
    (equal : items.flatMap write = before ++ c :: after) :
    ∃ earlier item others front back, items = earlier ++ item :: others ∧
      write item = front ++ c :: back ∧ before = earlier.flatMap write ++ front := by
  induction items generalizing before with
  | nil => simp at equal
  | cons first items inductionHypothesis =>
      rw [List.flatMap_cons, List.append_eq_append_iff] at equal
      obtain ⟨front, rfl, behind⟩ | ⟨back, here, behind⟩ := equal
      · obtain ⟨earlier, item, others, front, back, rfl, written, rfl⟩ := inductionHypothesis behind
        exact ⟨first :: earlier, item, others, front, back, rfl, written, by simp⟩
      · cases back with
        | nil =>
            have later : items.flatMap write = [] ++ c :: after := behind.symm
            obtain ⟨earlier, item, others, front, back, rfl, written, passed⟩ :=
              inductionHypothesis later
            refine ⟨first :: earlier, item, others, front, back, rfl, written, ?_⟩
            rw [List.flatMap_cons, List.append_assoc, ← passed, here]
            simp
        | cons d back =>
            obtain ⟨rfl, -⟩ := List.cons.inj behind
            exact ⟨[], first, items, before, back, rfl, here, rfl⟩

/-- A line feed is all of a kept piece or the end of a splice. -/
theorem Piece.eq_of_source {piece : Piece} (feed : piece.source = before ++ '\n' :: after) :
    (piece = .kept '\n' ∨ ∃ carriage, piece = .splice carriage) ∧
      piece.source = before ++ ['\n'] := by
  have behind : after = [] := by
    rcases piece with d | (_ | _) <;> rcases before with _ | ⟨x, _ | ⟨y, _ | ⟨z, before⟩⟩⟩ <;>
      simp_all [source]
  subst behind
  refine ⟨?_, feed⟩
  rcases piece with d | carriage
  · cases before <;> simp_all [source]
  · exact .inr ⟨carriage, rfl⟩

/-- A line end has its line feed at the end. -/
theorem ending_eq_of_feed
    {ending : List Char}
    (ends : ending = [] ∨ ending = ['\n'] ∨ ending = ['\r', '\n'])
    (feed : ending = before ++ '\n' :: after) :
    ending = before ++ ['\n'] := by
  obtain rfl : after = [] := by
    rcases ends with rfl | rfl | rfl <;> rcases before with _ | ⟨x, _ | ⟨y, before⟩⟩ <;> simp_all
  exact feed

/-- A line feed of a segment is its end, or it is spliced or kept. -/
theorem Segment.feed_cases
    (ends : segment.ending = [] ∨ segment.ending = ['\n'] ∨ segment.ending = ['\r', '\n'])
    (feed : segment.source = before ++ '\n' :: after) :
    segment.source = before ++ ['\n'] ∧ segment.ending ≠ [] ∨
      ∃ passed piece others, segment.pieces = passed ++ piece :: others ∧
        (piece = .kept '\n' ∨ ∃ carriage, piece = .splice carriage) ∧
        before ++ ['\n'] = passed.flatMap Piece.source ++ piece.source := by
  rw [Segment.source, List.append_eq_append_iff] at feed
  obtain ⟨front, rfl, ending⟩ | ⟨back, pieces, ending⟩ := feed
  · refine .inl ⟨?_, by simp [ending]⟩
    rw [Segment.source, List.append_assoc, ending_eq_of_feed ends ending]
  · cases back with
    | nil =>
        rw [List.nil_append] at ending
        have all : segment.ending = [] ++ ['\n'] := ending_eq_of_feed ends ending.symm
        refine .inl ⟨?_, by simp [all]⟩
        rw [Segment.source, all, pieces, List.append_nil, List.nil_append]
    | cons d back =>
        obtain ⟨rfl, -⟩ := List.cons.inj ending
        obtain ⟨passed, piece, others, front, back, split, written, rfl⟩ :=
          exists_of_flatMap_eq pieces
        obtain ⟨which, all⟩ := Piece.eq_of_source written
        exact .inr ⟨passed, piece, others, split, which, by rw [all, List.append_assoc]⟩

end LogicalLine

open LogicalLine

/-- The bytes of a source from an offset on spell a text, and are cut between characters. -/
def IsSlice (source : String) (offset : Nat) (text : String) : Prop :=
  String.Pos.Raw.IsValid source ⟨offset⟩ ∧
    String.Pos.Raw.IsValid source ⟨offset + text.utf8ByteSize⟩ ∧
    source.toByteArray.extract offset (offset + text.utf8ByteSize) = text.toByteArray

/-- The characters between two others are a slice. -/
theorem isSlice_of_toList
    {source : String}
    {front text back : List Char}
    (whole : source.toList = front ++ text ++ back) :
    IsSlice source (String.ofList front).utf8ByteSize (String.ofList text) := by
  have joined : source = String.ofList front ++ String.ofList text ++ String.ofList back := by
    rw [← String.ofList_append, ← String.ofList_append, ← whole, String.ofList_toList]
  rw [joined]
  refine ⟨?_, ?_, extract_toByteArray _ _ _⟩
  · rw [String.append_assoc]
    exact String.Pos.Raw.isValid_rawEndPos.append_right _
  · rw [← String.utf8ByteSize_append]
    exact String.Pos.Raw.isValid_rawEndPos.append_right _

namespace LogicalLine

/-- What is kept between the splices of some segments are slices of the source. -/
def KeepSlices (source : String) (all : List Segment) : Prop :=
  ∀ earlier segment others, all = earlier ++ segment :: others →
    ∀ passed run behind, segment.pieces = passed ++ run.map .kept ++ behind →
      let front := earlier.flatMap Segment.source ++ passed.flatMap Piece.source
      IsSlice source (String.ofList front).utf8ByteSize (String.ofList run)

/-- Each line feed of a source ends a segment, ends a splice, or is kept. -/
def PlaceFeeds (source : String) (all : List Segment) : Prop :=
  ∀ before after, source.toList = before ++ '\n' :: after →
    ∃ earlier segment others, all = earlier ++ segment :: others ∧
      (before ++ ['\n'] = earlier.flatMap Segment.source ++ segment.source ∧
        segment.ending ≠ [] ∨
      ∃ passed piece behind, segment.pieces = passed ++ piece :: behind ∧
        (piece = .kept '\n' ∨ ∃ carriage, piece = .splice carriage) ∧
        before ++ ['\n'] =
          earlier.flatMap Segment.source ++ passed.flatMap Piece.source ++ piece.source)

variable {source : String} {all : List Segment}

theorem keepSlices_of_flatMap (whole : all.flatMap Segment.source = source.toList) :
    KeepSlices source all := by
  intro earlier segment others split passed run behind pieces
  have place : source.toList =
      earlier.flatMap Segment.source ++ passed.flatMap Piece.source ++ run ++
        (behind.flatMap Piece.source ++ segment.ending ++ others.flatMap Segment.source) := by
    rw [← whole, split, List.flatMap_append, List.flatMap_cons, Segment.source, pieces]
    simp
  exact isSlice_of_toList place

theorem placeFeeds_of_flatMap
    (whole : all.flatMap Segment.source = source.toList)
    (endings : ∀ segment ∈ all,
      segment.ending = [] ∨ segment.ending = ['\n'] ∨ segment.ending = ['\r', '\n']) :
    PlaceFeeds source all := by
  intro before after feed
  rw [← whole] at feed
  obtain ⟨earlier, segment, others, front, back, split, here, rfl⟩ := exists_of_flatMap_eq feed
  have ending := endings segment (by simp [split])
  refine ⟨earlier, segment, others, split, ?_⟩
  rcases Segment.feed_cases ending here with
    ⟨ends, something⟩ | ⟨passed, piece, behind, pieces, which, place⟩
  · exact .inl ⟨by rw [ends, List.append_assoc], something⟩
  · refine .inr ⟨passed, piece, behind, pieces, which, ?_⟩
    rw [List.append_assoc, place, List.append_assoc]

end LogicalLine

/--
The logical lines of a source lose nothing and are numbered by the line feeds in
front of them.  The source is cut into segments, all but the last with a whole
line end; a segment without its line end and its splices is the text of a line,
but no line belongs to a last segment without text.  What is kept between the
splices are slices of the source.  Each line feed of the source is the end of a
segment, the end of a splice or a kept character.
-/
theorem logicalLines_lose_nothing (source : String) :
    ∃ (init : List Segment) (last : List Piece),
      let all := init ++ [{ pieces := last, ending := [] }]
      all.flatMap Segment.source = source.toList ∧
        (∀ segment ∈ init, segment.EndsLine) ∧
        logicalLines source =
          (init.mapIdx fun i segment =>
            { text := String.ofList segment.text
              line := 1 + UInt32.ofNat (((init.take i).flatMap Segment.source).count '\n') }) ++
          (if last.flatMap Piece.text = [] then []
            else [{ text := String.ofList (last.flatMap Piece.text)
                    line := 1 + UInt32.ofNat ((init.flatMap Segment.source).count '\n') }]) ∧
        KeepSlices source all ∧ PlaceFeeds source all := by
  obtain ⟨init, last, equal, -⟩ := segments_append_letter .code source.toList
  have whole := flatMap_source_segments .code source.toList
  have ends : ∀ segment ∈ init, segment.EndsLine := by
    intro segment present
    have earlier : segment ∈ (segments .code source.toList).dropLast := by
      rwa [equal, List.dropLast_concat]
    exact endsLine_of_mem_dropLast earlier
  rw [equal] at whole
  refine ⟨init, last, whole, ends, ?_, keepSlices_of_flatMap whole, placeFeeds_of_flatMap whole ?_⟩
  · rw [logicalLines_eq_linesOf, equal, linesOf_append, linesOf_of_endsLine ends, linesOf_open]
    simp only [List.isEmpty_iff]
  · rw [List.forall_mem_append, List.forall_mem_singleton]
    exact ⟨fun segment earlier => .inr ((ends segment earlier).elim .inr fun only => .inl only.1),
      .inl rfl⟩

end PreprocessorSyntax
