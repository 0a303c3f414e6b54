import PreprocessorSyntax.Location
import PreprocessorSyntax.Proofs.LogicalLine.Segments

/-!
# Boundaries between logical lines

Behind a line end the splitter is where it started, but for the number of the
line.  So a text can be cut there, and its lines are those of its two parts.  A
letter put behind a text tells whether it ends like that: the letter then is a
line of its own.
-/

namespace PreprocessorSyntax
namespace LogicalLine

/-- A line some physical lines further down. -/
def moveDown (lines : Nat) (line : LogicalLine) : LogicalLine :=
  { line with line := line.line + UInt32.ofNat lines }

variable {region later : Region} {rest text back : List Char} {c : Char} {more : Nat}
  {init : List Segment} {last : List Piece}

theorem linesOf_append (start : UInt32) (first second : List Segment) :
    linesOf start (first ++ second) =
      linesOf start first ++
        linesOf (start + UInt32.ofNat ((first.flatMap Segment.source).count '\n')) second := by
  induction first generalizing start with
  | nil => simp [linesOf]
  | cons segment first inductionHypothesis =>
      rw [List.cons_append, linesOf, linesOf, inductionHypothesis, List.append_assoc,
        List.flatMap_cons, List.count_append, UInt32.ofNat_add, UInt32.add_assoc]

theorem linesOf_add (start : UInt32) (lines : Nat) (all : List Segment) :
    linesOf (start + UInt32.ofNat lines) all = (linesOf start all).map (moveDown lines) := by
  induction all generalizing start with
  | nil => rfl
  | cons segment all inductionHypothesis =>
      rw [linesOf, linesOf, List.map_append, UInt32.add_assoc, UInt32.add_comm (UInt32.ofNat lines),
        ← UInt32.add_assoc, inductionHypothesis]
      split <;> rfl

/-- The line of a segment without a line end. -/
theorem linesOf_open (start : UInt32) (last : List Piece) :
    linesOf start [⟨last, []⟩] =
      if (last.flatMap Piece.text).isEmpty then []
      else [⟨String.ofList (last.flatMap Piece.text), start⟩] := by
  simp [linesOf, Segment.isBlank, Segment.text]

/-- A cut looks at three characters. -/
theorem cut_eq_cut_take (region : Region) (c : Char) (rest : List Char) :
    cut region (c :: rest) = cut region (c :: rest.take 2) := by
  rcases rest with _ | ⟨d, _ | ⟨e, rest⟩⟩
  · rfl
  · rfl
  · cases splice : startsWithSplice (c :: d :: e :: rest) with
    | false =>
        have short : startsWithSplice (c :: (d :: e :: rest).take 2) = false := by
          rw [startsWithSplice_cons_cons] at splice
          rw [List.take_succ_cons, startsWithSplice_cons_cons]
          simpa using splice
        rw [cut_eq_cut_head? splice, cut_eq_cut_head? short]
        rfl
    | true =>
        rw [startsWithSplice_cons_cons] at splice
        simp only [Bool.and_eq_true, Bool.or_eq_true, beq_iff_eq, List.head?_cons,
          Option.some.injEq] at splice
        rcases splice with ⟨rfl, rfl | ⟨rfl, rfl⟩⟩ <;> rfl

/-- A letter behind a text tells a cut no more than the end of the text does. -/
theorem cut_append_letter : cut region (c :: (rest ++ ['x'])) = cut region (c :: rest) := by
  rcases rest with _ | ⟨d, _ | ⟨e, rest⟩⟩
  · by_cases backslash : c = '\\'
    · subst backslash
      rfl
    · exact cut_eq_cut_singleton (by simp [belongsTo, backslash])
  · cases splice : startsWithSplice [c, d] with
    | false =>
        have longer : startsWithSplice (c :: d :: ['x']) = false := by
          rw [startsWithSplice_cons_cons] at splice ⊢
          simpa using splice
        rw [cut_eq_cut_head? splice]
        exact cut_eq_cut_head? longer
    | true =>
        rw [startsWithSplice_cons_cons] at splice
        simp only [Bool.and_eq_true, Bool.or_eq_true, beq_iff_eq, List.head?_nil,
          reduceCtorEq, and_false, or_false] at splice
        obtain ⟨rfl, rfl⟩ := splice
        rfl
  · rw [cut_eq_cut_take, cut_eq_cut_take region c (d :: e :: rest)]
    rfl

/-- Behind a line feed a cut looks no further. -/
theorem cut_append
    (ends : (c :: rest).getLast? = some '\n')
    (back : List Char) :
    cut region (c :: (rest ++ back)) = cut region (c :: rest) := by
  rcases rest with _ | ⟨d, _ | ⟨e, rest⟩⟩
  · have feed : c = '\n' := by simpa using ends
    subst feed
    exact cut_eq_cut_singleton rfl
  · have feed : d = '\n' := by simpa using ends
    subst feed
    by_cases backslash : c = '\\'
    · subst backslash
      rfl
    · have noSplice (behind : List Char) : startsWithSplice (c :: '\n' :: behind) = false := by
        simp [startsWithSplice_cons_cons, backslash]
      exact (cut_eq_cut_head? (noSplice back)).trans (cut_eq_cut_head? (noSplice [])).symm
  · rw [cut_eq_cut_take, cut_eq_cut_take region c (d :: e :: rest)]
    rfl

/-- Pieces in front of some segments go to the last one only if it is the first one, too. -/
theorem exists_modifyHead_prepend (before : List Piece) (init : List Segment) :
    ∃ front added, ∀ last : List Piece,
      (init ++ [(⟨last, []⟩ : Segment)]).modifyHead (Segment.prepend before) =
        front ++ [⟨added ++ last, []⟩] := by
  cases init with
  | nil => exact ⟨[], before, fun last => rfl⟩
  | cons first init => exact ⟨first.prepend before :: init, [], fun last => rfl⟩

theorem segments_keep (cuts : cut region (c :: rest) = .keep more later) :
    segments region (c :: rest) =
      (segments later (rest.drop more)).modifyHead
        (Segment.prepend ((c :: rest.take more).map .kept)) := by
  rw [segments, cuts]

theorem segments_splice (cuts : cut region (c :: rest) = .splice more) :
    segments region (c :: rest) =
      (segments region (rest.drop more)).modifyHead (Segment.prepend [.splice (more != 1)]) := by
  rw [segments, cuts]

theorem segments_endLine (cuts : cut region (c :: rest) = .endLine more) :
    segments region (c :: rest) =
      ⟨[], c :: rest.take more⟩ :: segments .code (rest.drop more) := by
  rw [segments, cuts]

/-- A splice and a line end are there as a whole. -/
theorem more_le_length
    (cuts : cut region (c :: rest) = .splice more ∨ cut region (c :: rest) = .endLine more) :
    more ≤ rest.length := by
  unfold cut at cuts
  split at cuts <;> (try cases region) <;> grind

/-- A letter behind a text joins the segment that is under way. -/
theorem segments_append_letter (region : Region) (text : List Char) :
    ∃ init last, segments region text = init ++ [⟨last, []⟩] ∧
      segments region (text ++ ['x']) = init ++ [⟨last ++ [.kept 'x'], []⟩] := by
  fun_induction segments region text with
  | case1 region =>
      have kept : cut region ['x'] = .keep 0 region := rfl
      refine ⟨[], [], rfl, ?_⟩
      rw [List.nil_append, segments_keep kept]
      simp [segments, Segment.prepend]
  | case2 region c rest more later cuts inductionHypothesis =>
      obtain ⟨init, last, equal, longer⟩ := inductionHypothesis
      have cutsLonger := cut_append_letter.trans cuts
      rw [List.cons_append, segments_keep cutsLonger]
      by_cases enough : more ≤ rest.length
      · obtain ⟨front, added, joined⟩ :=
          exists_modifyHead_prepend ((c :: rest.take more).map .kept) init
        rw [List.drop_append_of_le_length enough, List.take_append_of_le_length enough, equal,
          longer, joined, joined]
        exact ⟨front, added ++ last, rfl, by rw [List.append_assoc]⟩
      · -- A backslash at the end of a string takes the letter with it.
        have atMostOne := more_le_one (.inl cuts)
        obtain ⟨rfl, rfl⟩ : rest = [] ∧ more = 1 := by
          rw [← List.length_eq_zero_iff]
          omega
        exact ⟨[], [.kept c], by simp [segments, Segment.prepend],
          by simp [segments, Segment.prepend]⟩
  | case3 region c rest more cuts inductionHypothesis =>
      obtain ⟨init, last, equal, longer⟩ := inductionHypothesis
      have enough := more_le_length (.inl cuts)
      obtain ⟨front, added, joined⟩ := exists_modifyHead_prepend [.splice (more != 1)] init
      rw [List.cons_append, segments_splice (cut_append_letter.trans cuts),
        List.drop_append_of_le_length enough, equal, longer, joined, joined]
      exact ⟨front, added ++ last, rfl, by rw [List.append_assoc]⟩
  | case4 region c rest more cuts inductionHypothesis =>
      obtain ⟨init, last, equal, longer⟩ := inductionHypothesis
      have enough := more_le_length (.inr cuts)
      rw [List.cons_append, segments_endLine (cut_append_letter.trans cuts),
        List.drop_append_of_le_length enough, List.take_append_of_le_length enough, equal, longer]
      exact ⟨⟨[], c :: rest.take more⟩ :: init, last, rfl, rfl⟩

/-- A text whose last segment is empty ends with a line feed. -/
theorem getLast?_of_segments
    (blank : segments region text = init ++ [⟨[], []⟩])
    (something : text ≠ []) :
    text.getLast? = some '\n' := by
  have whole := flatMap_source_segments region text
  rcases List.eq_nil_or_concat init with rfl | ⟨front, last, rfl⟩
  · rw [blank] at whole
    exact absurd whole.symm something
  · have earlier : last ∈ (segments region text).dropLast := by
      rw [blank, List.dropLast_concat]
      simp
    obtain ⟨body, equal⟩ := exists_source_of_mem_dropLast earlier
    rw [blank, List.concat_eq_append, List.flatMap_append, List.flatMap_append,
      List.flatMap_singleton, List.flatMap_singleton, equal] at whole
    simp [← whole, Segment.source]

/-- Pieces do not make the last segment empty, so if it is, they went to another one. -/
theorem exists_of_modifyHead_prepend
    {before : List Piece}
    (something : before ≠ [])
    (blank : (segments region text).modifyHead (Segment.prepend before) = init ++ [⟨[], []⟩]) :
    ∃ first others, segments region text = (first :: others) ++ [⟨[], []⟩] ∧
      init = first.prepend before :: others ∧ text ≠ [] := by
  obtain ⟨first, others, equal⟩ := exists_segments region text
  rw [equal, List.modifyHead_cons] at blank
  cases init with
  | nil =>
      obtain ⟨empty, -⟩ := List.cons.inj blank
      simp [Segment.prepend, something] at empty
  | cons head init =>
      obtain ⟨rfl, rfl⟩ := List.cons.inj blank
      refine ⟨first, init, equal, rfl, ?_⟩
      rintro rfl
      have single : (segments region []).length = 1 := by rw [segments]; rfl
      rw [equal] at single
      simp at single

/-- Behind an empty segment a text is cut as if it stood alone. -/
theorem segments_append
    (blank : segments region text = init ++ [⟨[], []⟩])
    (fresh : text = [] → region = .code)
    (back : List Char) :
    segments region (text ++ back) = init ++ segments .code back := by
  have ends := getLast?_of_segments blank
  fun_induction segments region text generalizing init with
  | case1 region =>
      have noCharacter : init = [] := by simpa using congrArg List.length blank
      rw [fresh rfl, noCharacter, List.nil_append, List.nil_append]
  | case2 region c rest more later cuts inductionHypothesis =>
      obtain ⟨first, others, equal, rfl, further⟩ := exists_of_modifyHead_prepend (by simp) blank
      have enough : more ≤ rest.length := by
        rw [Ne, List.drop_eq_nil_iff] at further
        omega
      have cutsLonger := (cut_append (ends (by simp)) back).trans cuts
      rw [List.cons_append, segments_keep cutsLonger, List.drop_append_of_le_length enough,
        List.take_append_of_le_length enough,
        inductionHypothesis equal (absurd · further) (getLast?_of_segments equal)]
      rfl
  | case3 region c rest more cuts inductionHypothesis =>
      obtain ⟨first, others, equal, rfl, further⟩ := exists_of_modifyHead_prepend (by simp) blank
      have cutsLonger := (cut_append (ends (by simp)) back).trans cuts
      rw [List.cons_append, segments_splice cutsLonger,
        List.drop_append_of_le_length (more_le_length (.inl cuts)),
        inductionHypothesis equal (absurd · further) (getLast?_of_segments equal)]
      rfl
  | case4 region c rest more cuts inductionHypothesis =>
      have enough := more_le_length (.inr cuts)
      have cutsLonger := (cut_append (ends (by simp)) back).trans cuts
      cases init with
      | nil => simp at blank
      | cons first init =>
          obtain ⟨rfl, equal⟩ := List.cons.inj blank
          rw [List.cons_append, segments_endLine cutsLonger, List.drop_append_of_le_length enough,
            List.take_append_of_le_length enough,
            inductionHypothesis equal (fun _ => rfl) (getLast?_of_segments equal)]
          rfl

end LogicalLine

open LogicalLine

/--
A letter behind a source is a line of its own on the line that the line feeds
lead to only if the source ends with an empty segment.
-/
theorem exists_segments_of_logicalLines
    {front : String}
    {number : UInt32}
    (boundary : logicalLines (front ++ "x") = logicalLines front ++ [⟨"x", number⟩])
    (counted : number.toNat = 1 + front.toList.count '\n') :
    ∃ init, segments .code front.toList = init ++ [⟨[], []⟩] := by
  obtain ⟨init, last, equal, longer⟩ := segments_append_letter .code front.toList
  have letter : "x".toList = ['x'] := rfl
  rw [logicalLines_eq_linesOf, logicalLines_eq_linesOf, String.toList_append, letter, longer,
    equal, linesOf_append, linesOf_append, List.append_assoc, List.append_right_inj] at boundary
  -- The segment under way has no text, or else its line would have been there before the letter.
  have empty : last.flatMap Piece.text = [] := by
    rw [← List.isEmpty_iff]
    cases isEmpty : (last.flatMap Piece.text).isEmpty with
    | true => rfl
    | false =>
        have lengths := congrArg List.length boundary
        rw [linesOf_open, linesOf_open, isEmpty] at lengths
        simp [Piece.text] at lengths
  -- It has no splices, or else the letter would stand on a line further down.
  have unspliced : last.countP Piece.isSplice = 0 := by
    rw [linesOf_open, linesOf_open, List.flatMap_append, empty] at boundary
    have numbers := congrArg (List.map LogicalLine.line) boundary
    have feeds := congrArg (List.count '\n') (flatMap_source_segments .code front.toList)
    rw [equal, List.flatMap_append, List.flatMap_singleton, Segment.source, List.append_nil,
      List.count_append, Piece.count_flatMap_source, empty, List.count_nil] at feeds
    simp only [Nat.zero_add] at feeds
    have isNumber : 1 + UInt32.ofNat ((init.flatMap Segment.source).count '\n') = number := by
      simpa [Piece.text] using numbers
    have bound : number.toNat < UInt32.size := number.toNat_lt
    have uncut : (1 + UInt32.ofNat ((init.flatMap Segment.source).count '\n')).toNat =
        1 + (init.flatMap Segment.source).count '\n' :=
      toNat_add_ofNat (by rw [UInt32.toNat_one]; omega)
    rw [isNumber] at uncut
    omega
  cases last with
  | nil => exact ⟨init, equal⟩
  | cons piece last => cases piece <;> simp [Piece.text, Piece.isSplice] at empty unspliced

/-- A text whose last segment is empty can be cut off in front of another one. -/
theorem logicalLines_append
    {front : String}
    {init : List Segment}
    (blank : segments .code front.toList = init ++ [⟨[], []⟩])
    (back : String) :
    logicalLines (front ++ back) =
      logicalLines front ++
        (logicalLines back).map (LogicalLine.moveDown (front.toList.count '\n')) := by
  have whole := flatMap_source_segments .code front.toList
  have nothing : (⟨[], []⟩ : Segment).source = [] := rfl
  rw [blank, List.flatMap_append, List.flatMap_singleton, nothing, List.append_nil] at whole
  rw [logicalLines_eq_linesOf, logicalLines_eq_linesOf, logicalLines_eq_linesOf,
    String.toList_append, segments_append blank (fun _ => rfl), blank, linesOf_append,
    linesOf_append, whole, linesOf_add]
  simp [linesOf_open]

end PreprocessorSyntax
