import PreprocessorSyntax.LogicalLine

/-!
# The texts of logical lines

`LogicalLine.texts` is what the splitter makes of the remaining text when the
line numbers are left aside.  It obeys one equation for each way a character is
cut, so proofs about the texts of lines do not have to carry numbers along.
-/

namespace PreprocessorSyntax
namespace LogicalLine

/--
The texts of the lines of the remaining text, the first of them behind the
characters kept so far, latest first.
-/
def texts (region : Region) (kept : List Char) (text : List Char) : List String :=
  (split region kept 1 1 text).map LogicalLine.text

variable {region later : Region} {kept rest : List Char} {c : Char} {more : Nat}

/-- The numbers of the lines have no influence on their texts. -/
theorem map_text_split_congr
    (region : Region)
    (kept : List Char)
    (start line otherStart otherLine : UInt32)
    (text : List Char) :
    (split region kept start line text).map LogicalLine.text =
      (split region kept otherStart otherLine text).map LogicalLine.text := by
  fun_induction split region kept start line text generalizing otherStart otherLine with
  | case1 region kept start line nothing => rw [split, if_pos nothing]
  | case2 region kept start line something =>
      rw [split, if_neg something]
      rfl
  | case3 region kept start line c rest more later cuts inductionHypothesis =>
      rw [split]
      simp only [cuts]
      exact inductionHypothesis _ _
  | case4 region kept start line c rest more cuts inductionHypothesis =>
      rw [split]
      simp only [cuts]
      exact inductionHypothesis _ _
  | case5 region kept start line c rest more cuts inductionHypothesis =>
      rw [split]
      simp only [cuts]
      exact congrArg (String.ofList kept.reverse :: ·) (inductionHypothesis _ _)

theorem map_text_split
    (region : Region)
    (kept : List Char)
    (start line : UInt32)
    (text : List Char) :
    (split region kept start line text).map LogicalLine.text = texts region kept text :=
  map_text_split_congr region kept start line 1 1 text

theorem texts_nil (region : Region) (kept : List Char) :
    texts region kept [] = if kept.isEmpty then [] else [String.ofList kept.reverse] := by
  unfold texts
  rw [split]
  split <;> rfl

theorem texts_keep (cuts : cut region (c :: rest) = .keep more later) :
    texts region kept (c :: rest) =
      texts later ((c :: rest.take more).reverse ++ kept) (rest.drop more) := by
  unfold texts
  rw [split, cuts]
  exact map_text_split _ _ _ _ _

theorem texts_splice (cuts : cut region (c :: rest) = .splice more) :
    texts region kept (c :: rest) = texts region kept (rest.drop more) := by
  unfold texts
  rw [split, cuts]
  exact map_text_split _ _ _ _ _

theorem texts_endLine (cuts : cut region (c :: rest) = .endLine more) :
    texts region kept (c :: rest) =
      String.ofList kept.reverse :: texts .code [] (rest.drop more) := by
  unfold texts
  rw [split, cuts]
  exact congrArg (String.ofList kept.reverse :: ·) (map_text_split _ _ _ _ _)

/-- Characters that are kept one by one without a change of the region. -/
theorem texts_append
    {front : List Char}
    (back : List Char)
    (passes : ∀ before c behind, front = before ++ c :: behind →
      cut region (c :: (behind ++ back)) = .keep 0 region) :
    texts region kept (front ++ back) = texts region (front.reverse ++ kept) back := by
  induction front generalizing kept with
  | nil => rfl
  | cons c front inductionHypothesis =>
      have here : cut region (c :: (front ++ back)) = .keep 0 region := passes [] c front rfl
      have others : ∀ before d behind, front = before ++ d :: behind →
          cut region (d :: (behind ++ back)) = .keep 0 region := by
        intro before d behind equal
        exact passes (c :: before) d behind (by rw [equal, List.cons_append])
      rw [List.cons_append, texts_keep here, List.take_zero, List.drop_zero,
        inductionHypothesis others]
      simp

end LogicalLine

theorem map_text_logicalLines (source : String) :
    (logicalLines source).map LogicalLine.text = LogicalLine.texts .code [] source.toList :=
  LogicalLine.map_text_split _ _ _ _ _

end PreprocessorSyntax
