import PreprocessorSyntax.Proofs.LogicalLine.Splicing

/-!
# The segments of a source

A segment is the part of a source that makes up one logical line.  It is a
sequence of pieces, characters that are kept and splices that are taken out,
with a line end behind them.  Nothing of the source is lost in its segments, so
they tell where each character of a logical line comes from.
-/

namespace PreprocessorSyntax
namespace LogicalLine

/-- A part of a source that is kept or taken out as a whole. -/
inductive Piece where
  | kept (c : Char)
  /-- A backslash and a line end, with or without a carriage return. -/
  | splice (carriage : Bool)
  deriving DecidableEq, Repr

namespace Piece

/-- The characters of the source. -/
def source : Piece → List Char
  | .kept c => [c]
  | .splice carriage => if carriage then ['\\', '\r', '\n'] else ['\\', '\n']

/-- The characters of the logical line. -/
def text : Piece → List Char
  | .kept c => [c]
  | .splice _ => []

/-- Whether the piece is taken out. -/
def isSplice : Piece → Bool
  | .kept _ => false
  | .splice _ => true

@[simp] theorem flatMap_source_map_kept (text : List Char) :
    (text.map kept).flatMap source = text := by
  rw [List.flatMap_map]
  exact List.flatMap_singleton' text

@[simp] theorem flatMap_text_map_kept (characters : List Char) :
    (characters.map kept).flatMap text = characters := by
  rw [List.flatMap_map]
  exact List.flatMap_singleton' characters

/-- Every line feed of the source is kept or belongs to a splice. -/
theorem count_flatMap_source (pieces : List Piece) :
    (pieces.flatMap source).count '\n' =
      (pieces.flatMap text).count '\n' + pieces.countP isSplice := by
  induction pieces with
  | nil => rfl
  | cons piece pieces inductionHypothesis =>
      have here : piece.source.count '\n' =
          piece.text.count '\n' + if piece.isSplice then 1 else 0 := by
        rcases piece with c | (_ | _) <;> simp [source, text, isSplice]
      rw [List.flatMap_cons, List.flatMap_cons, List.count_append, List.count_append,
        inductionHypothesis, here, List.countP_cons]
      omega

/-- Without splices the line is the source. -/
theorem flatMap_source_eq_flatMap_text
    {pieces : List Piece}
    (unspliced : pieces.countP isSplice = 0) :
    pieces.flatMap source = pieces.flatMap text := by
  rw [List.countP_eq_zero] at unspliced
  rw [List.flatMap_def, List.flatMap_def]
  refine congrArg List.flatten (List.map_congr_left ?_)
  rintro (c | carriage) present
  · rfl
  · exact absurd rfl (unspliced _ present)

/-- A character of the line stands behind the pieces of what comes before it. -/
theorem exists_of_flatMap_text
    {pieces : List Piece}
    {before behind : List Char}
    {c : Char}
    (equal : pieces.flatMap text = before ++ c :: behind) :
    ∃ passed others, pieces = passed ++ .kept c :: others ∧ passed.flatMap text = before := by
  induction pieces generalizing before with
  | nil => simp at equal
  | cons piece pieces inductionHypothesis =>
      cases piece with
      | splice carriage =>
          obtain ⟨passed, others, rfl, passes⟩ := inductionHypothesis equal
          exact ⟨.splice carriage :: passed, others, rfl, passes⟩
      | kept d =>
          rw [List.flatMap_cons] at equal
          cases before with
          | nil =>
              obtain ⟨rfl, -⟩ := List.cons.inj equal
              exact ⟨[], pieces, rfl, rfl⟩
          | cons e before =>
              obtain ⟨rfl, later⟩ := List.cons.inj equal
              obtain ⟨passed, others, rfl, passes⟩ := inductionHypothesis later
              exact ⟨.kept d :: passed, others, rfl, by rw [List.flatMap_cons, passes]; rfl⟩

end Piece

/-- What a source has of one logical line: its pieces and the line end behind them. -/
structure Segment where
  /-- The characters and splices of the line, in source order. -/
  pieces : List Piece
  /-- The line end; only the last segment of a source has none. -/
  ending : List Char
  deriving DecidableEq, Repr

namespace Segment

/-- The characters of the source. -/
def source (segment : Segment) : List Char :=
  segment.pieces.flatMap Piece.source ++ segment.ending

/-- The characters of the logical line. -/
def text (segment : Segment) : List Char :=
  segment.pieces.flatMap Piece.text

/-- A segment with more pieces in front of it. -/
def prepend (before : List Piece) (segment : Segment) : Segment :=
  { segment with pieces := before ++ segment.pieces }

/-- Whether the segment is left over behind the last line end of a source. -/
def isBlank (segment : Segment) : Bool :=
  segment.text.isEmpty && segment.ending.isEmpty

@[simp] theorem prepend_nil : prepend [] = id := rfl

@[simp] theorem prepend_comp (first second : List Piece) :
    prepend first ∘ prepend second = prepend (first ++ second) := by
  funext segment
  simp [prepend, Function.comp]

@[simp] theorem source_prepend (before : List Piece) (segment : Segment) :
    (segment.prepend before).source = before.flatMap Piece.source ++ segment.source := by
  simp [prepend, source]

end Segment

/-- The segments of the remaining text, the first of them from the place within its line. -/
def segments (region : Region) (text : List Char) : List Segment :=
  match text with
  | [] => [⟨[], []⟩]
  | c :: rest =>
    match cut region (c :: rest) with
    | .keep more later =>
      (segments later (rest.drop more)).modifyHead
        (Segment.prepend ((c :: rest.take more).map .kept))
    | .splice more =>
      (segments region (rest.drop more)).modifyHead (Segment.prepend [.splice (more != 1)])
    | .endLine more => ⟨[], c :: rest.take more⟩ :: segments .code (rest.drop more)
termination_by text.length
decreasing_by all_goals simp only [List.length_drop, List.length_cons]; omega

/-- The lines of some segments, the first of which starts on the given physical line. -/
def linesOf (line : UInt32) : List Segment → List LogicalLine
  | [] => []
  | segment :: segments =>
    (if segment.isBlank then [] else [⟨String.ofList segment.text, line⟩]) ++
      linesOf (line + UInt32.ofNat (segment.source.count '\n')) segments

variable {region later : Region} {rest text : List Char} {c : Char} {more : Nat}

/-- A line feed is only ever kept on its own. -/
theorem not_mem_take_of_keep (cuts : cut region (c :: rest) = .keep more later) :
    '\n' ∉ rest.take more := by
  unfold cut at cuts
  split at cuts
  case h_4 noFeed _ _ front =>
    cases front
    obtain ⟨rfl, rfl⟩ := Cut.keep.inj cuts
    split
    next =>
      cases rest with
      | nil => simp
      | cons d tail =>
          have other : d ≠ '\n' := fun feed => noFeed tail (by rw [feed])
          simpa using other.symm
    next => simp
  all_goals rename_i front
  all_goals cases region <;> grind

/-- What is spliced has one line feed. -/
theorem source_splice (cuts : cut region (c :: rest) = .splice more) :
    (Piece.splice (more != 1)).source = c :: rest.take more := by
  unfold cut at cuts
  split at cuts <;> (try cases region) <;> grind [Piece.source]

/-- A line end is a line feed, perhaps with a carriage return in front of it. -/
theorem ending_of_cut (cuts : cut region (c :: rest) = .endLine more) :
    c :: rest.take more = ['\n'] ∨ c :: rest.take more = ['\r', '\n'] := by
  unfold cut at cuts
  split at cuts <;> (try cases region) <;> grind

/-- There is always a segment under way. -/
theorem exists_segments (region : Region) (text : List Char) :
    ∃ first others, segments region text = first :: others := by
  fun_induction segments region text with
  | case1 => exact ⟨_, _, rfl⟩
  | case2 region c rest more later cuts inductionHypothesis =>
      obtain ⟨first, others, equal⟩ := inductionHypothesis
      exact ⟨_, _, by rw [equal, List.modifyHead_cons]⟩
  | case3 region c rest more cuts inductionHypothesis =>
      obtain ⟨first, others, equal⟩ := inductionHypothesis
      exact ⟨_, _, by rw [equal, List.modifyHead_cons]⟩
  | case4 => exact ⟨_, _, rfl⟩

theorem flatMap_source_prepend
    (before : List Piece)
    (region : Region)
    (text : List Char) :
    ((segments region text).modifyHead (Segment.prepend before)).flatMap Segment.source =
      before.flatMap Piece.source ++ (segments region text).flatMap Segment.source := by
  obtain ⟨first, others, equal⟩ := exists_segments region text
  simp [equal]

/-- Pieces in front of the first segment do not change how segments end. -/
theorem exists_source_of_mem_dropLast_modifyHead
    {before : List Piece}
    {all : List Segment}
    (ends : ∀ {segment}, segment ∈ all.dropLast → ∃ front, segment.source = front ++ ['\n'])
    {segment : Segment}
    (earlier : segment ∈ (all.modifyHead (Segment.prepend before)).dropLast) :
    ∃ front, segment.source = front ++ ['\n'] := by
  match all with
  | [] => simp at earlier
  | [only] => simp at earlier
  | first :: second :: others =>
      rw [List.modifyHead_cons, List.dropLast_cons_cons] at earlier
      rcases List.mem_cons.1 earlier with rfl | later
      · have isEarlier : first ∈ (first :: second :: others).dropLast := by simp
        obtain ⟨front, equal⟩ := ends isEarlier
        exact ⟨before.flatMap Piece.source ++ front, by simp [equal]⟩
      · refine ends ?_
        rw [List.dropLast_cons_cons]
        exact List.mem_cons_of_mem first later

/-- The segments of a text make up the text. -/
theorem flatMap_source_segments (region : Region) (text : List Char) :
    (segments region text).flatMap Segment.source = text := by
  fun_induction segments region text with
  | case1 => rfl
  | case2 region c rest more later cuts inductionHypothesis =>
      rw [flatMap_source_prepend, inductionHypothesis, Piece.flatMap_source_map_kept,
        List.cons_append, List.take_append_drop]
  | case3 region c rest more cuts inductionHypothesis =>
      rw [flatMap_source_prepend, inductionHypothesis, List.flatMap_singleton,
        source_splice cuts, List.cons_append, List.take_append_drop]
  | case4 region c rest more cuts inductionHypothesis =>
      rw [List.flatMap_cons, inductionHypothesis, Segment.source, List.flatMap_nil,
        List.nil_append, List.cons_append, List.take_append_drop]

/-- Every segment but the last one ends with a line feed. -/
theorem exists_source_of_mem_dropLast
    {segment : Segment}
    (earlier : segment ∈ (segments region text).dropLast) :
    ∃ front, segment.source = front ++ ['\n'] := by
  fun_induction segments region text generalizing segment with
  | case1 => simp at earlier
  | case2 region c rest more later cuts inductionHypothesis =>
      exact exists_source_of_mem_dropLast_modifyHead inductionHypothesis earlier
  | case3 region c rest more cuts inductionHypothesis =>
      exact exists_source_of_mem_dropLast_modifyHead inductionHypothesis earlier
  | case4 region c rest more cuts inductionHypothesis =>
      obtain ⟨first, others, equal⟩ := exists_segments .code (rest.drop more)
      rw [equal, List.dropLast_cons_cons, ← equal] at earlier
      rcases List.mem_cons.1 earlier with rfl | later
      · rcases ending_of_cut cuts with ending | ending
        · exact ⟨[], ending⟩
        · exact ⟨['\r'], ending⟩
      · exact inductionHypothesis later

/--
The lines under way are those of the segments, where the pieces passed so far
belong to the first segment.
-/
theorem split_eq_linesOf
    {region : Region}
    {kept : List Char}
    {start line : UInt32}
    {text : List Char}
    (before : List Piece)
    (same : kept.reverse = before.flatMap Piece.text)
    (feeds : line = start + UInt32.ofNat ((before.flatMap Piece.source).count '\n')) :
    split region kept start line text =
      linesOf start ((segments region text).modifyHead (Segment.prepend before)) := by
  fun_induction split region kept start line text generalizing before with
  | case1 region kept start line nothing =>
      have noText : before.flatMap Piece.text = [] := by simpa [← same] using nothing
      simp [segments, Segment.prepend, linesOf, Segment.isBlank, Segment.text, noText]
  | case2 region kept start line something =>
      have hasText : before.flatMap Piece.text ≠ [] := by simpa [← same] using something
      simp [segments, Segment.prepend, linesOf, Segment.isBlank, Segment.text, hasText, same]
  | case3 region kept start line c rest more later cuts inductionHypothesis =>
      rw [segments, cuts, List.modifyHead_modifyHead, Segment.prepend_comp]
      apply inductionHypothesis
      · rw [List.reverse_append, List.reverse_reverse, same, List.flatMap_append,
          Piece.flatMap_text_map_kept]
      · have noFeed := List.count_eq_zero.2 (not_mem_take_of_keep cuts)
        rw [feeds, List.flatMap_append, Piece.flatMap_source_map_kept, List.count_append,
          List.count_cons, noFeed]
        simp only [beq_iff_eq]
        split <;> simp [UInt32.ofNat_add, UInt32.add_assoc]
  | case4 region kept start line c rest more cuts inductionHypothesis =>
      rw [segments, cuts, List.modifyHead_modifyHead, Segment.prepend_comp]
      apply inductionHypothesis
      · simpa [Piece.text] using same
      · rw [feeds, List.flatMap_append, List.flatMap_singleton, List.count_append]
        have single : (Piece.splice (more != 1)).source.count '\n' = 1 := by
          cases more != 1 <;> rfl
        rw [single, UInt32.ofNat_add, ← UInt32.add_assoc]
        rfl
  | case5 region kept start line c rest more cuts inductionHypothesis =>
      have single : (c :: rest.take more).count '\n' = 1 := by
        rcases ending_of_cut cuts with ending | ending <;> rw [ending] <;> rfl
      have next : line + 1 =
          start + UInt32.ofNat ((⟨before, c :: rest.take more⟩ : Segment).source.count '\n') := by
        rw [Segment.source, List.count_append, single, feeds, UInt32.ofNat_add,
          ← UInt32.add_assoc]
        rfl
      have fresh := inductionHypothesis [] rfl (by simp)
      rw [Segment.prepend_nil, List.modifyHead_id] at fresh
      rw [segments, cuts, List.modifyHead_cons, linesOf, fresh, next]
      simp [Segment.prepend, Segment.isBlank, Segment.text, same]

/-- A line is that of a segment; its number counts the line feeds in front of the segment. -/
theorem exists_of_mem_linesOf
    {start : UInt32}
    {all : List Segment}
    {line : LogicalLine}
    (present : line ∈ linesOf start all) :
    ∃ earlier segment others, all = earlier ++ segment :: others ∧
      line = ⟨String.ofList segment.text,
        start + UInt32.ofNat ((earlier.flatMap Segment.source).count '\n')⟩ := by
  induction all generalizing start with
  | nil => simp [linesOf] at present
  | cons first all inductionHypothesis =>
      rw [linesOf, List.mem_append] at present
      rcases present with here | later
      · refine ⟨[], first, all, rfl, ?_⟩
        split at here <;> simp_all
      · obtain ⟨earlier, segment, others, rfl, equal⟩ := inductionHypothesis later
        refine ⟨first :: earlier, segment, others, rfl, ?_⟩
        rw [equal, List.flatMap_cons, List.count_append, UInt32.ofNat_add, UInt32.add_assoc]

end LogicalLine

/-- The logical lines of a source are the lines of its segments. -/
theorem logicalLines_eq_linesOf (source : String) :
    logicalLines source = LogicalLine.linesOf 1 (LogicalLine.segments .code source.toList) := by
  have lines : logicalLines source = _ := LogicalLine.split_eq_linesOf [] rfl (by simp)
  rwa [LogicalLine.Segment.prepend_nil, List.modifyHead_id] at lines

end PreprocessorSyntax
