import PreprocessorSyntax.LogicalLine

/-!
# Line feeds inside logical lines

Splicing removes line feeds, and a line feed outside of block comments ends its
line.  So the only line feeds that a logical line keeps stand inside a block
comment, behind the slash that opens it.
-/

namespace PreprocessorSyntax

/-- In front of the first slash of a text there is no line feed. -/
def FeedsBehindSlash (text : List Char) : Prop :=
  '\n' ∉ text.takeWhile (· != '/')

namespace FeedsBehindSlash

variable {front text : List Char}

theorem of_not_mem (noFeed : '\n' ∉ text) : FeedsBehindSlash text :=
  fun feed => noFeed ((List.takeWhile_sublist _).mem feed)

/-- Behind a slash everything may follow. -/
theorem append_of_slash
    (hidden : FeedsBehindSlash front)
    (slash : '/' ∈ front)
    (text : List Char) :
    FeedsBehindSlash (front ++ text) := by
  have shorter : (front.takeWhile (· != '/')).length ≠ front.length := by
    intro equal
    have whole := (List.takeWhile_prefix (· != '/')).eq_of_length equal
    rw [← whole] at slash
    have passed := List.all_eq_true.1 List.all_takeWhile _ slash
    simp at passed
  unfold FeedsBehindSlash at hidden ⊢
  rwa [List.takeWhile_append, if_neg shorter]

/-- Where no slash stands in front, there is no line feed either. -/
theorem of_append
    (hidden : FeedsBehindSlash (front ++ text))
    (noSlash : '/' ∉ front) :
    '\n' ∉ front ∧ FeedsBehindSlash text := by
  have passes : ∀ c ∈ front, (c != '/') = true := by
    intro c present
    rw [bne_iff_ne]
    rintro rfl
    exact noSlash present
  unfold FeedsBehindSlash at hidden ⊢
  rw [List.takeWhile_append_of_pos passes, List.mem_append, not_or] at hidden
  exact hidden

/-- Further text without line feeds changes nothing. -/
theorem append_of_not_mem
    (hidden : FeedsBehindSlash front)
    (noFeed : '\n' ∉ text) :
    FeedsBehindSlash (front ++ text) := by
  by_cases slash : '/' ∈ front
  · exact hidden.append_of_slash slash text
  · have whole : FeedsBehindSlash (front ++ []) := by rwa [List.append_nil]
    have noFeedFront := (whole.of_append slash).1
    apply of_not_mem
    simp [noFeedFront, noFeed]

end FeedsBehindSlash

namespace LogicalLine

/-- What is kept outside of block comments has no line feed, and a slash if it opens one. -/
theorem cut_eq_keep
    {region later : Region}
    {c : Char}
    {rest : List Char}
    {more : Nat}
    (kept : cut region (c :: rest) = .keep more later)
    (outside : region ≠ .blockComment) :
    '\n' ∉ c :: rest.take more ∧ (later = .blockComment → '/' ∈ c :: rest.take more) := by
  unfold cut at kept
  split at kept
  next => cases kept
  next => cases kept
  next front =>
    cases front
    cases kept
    exact ⟨by simp, fun opened => absurd opened outside⟩
  next noFeed _ _ front =>
    cases front
    obtain ⟨rfl, rfl⟩ := Cut.keep.inj kept
    refine ⟨?_, fun opened => absurd opened outside⟩
    split
    next =>
      cases rest with
      | nil => simp
      | cons d tail =>
          have other : d ≠ '\n' := fun feed => noFeed tail (by rw [feed])
          simpa using other.symm
    next => simp
  next =>
    rw [if_neg outside] at kept
    cases kept
  next =>
    rw [if_neg outside] at kept
    cases kept
  case h_11 noFeed _ _ _ _ _ =>
    cases kept
    have other : c ≠ '\n' := fun feed => noFeed rest (by rw [feed])
    exact ⟨by simpa using other.symm, fun opened => absurd opened outside⟩
  -- What is left are the texts that open or close literals and comments.
  all_goals
    rename_i front
    cases front
    cases region <;> cases kept <;> simp at outside ⊢

/-- The text kept so far hides its line feeds, and inside a block comment there is a slash. -/
def Hides (region : Region) (kept : List Char) : Prop :=
  FeedsBehindSlash kept.reverse ∧ (region = .blockComment → '/' ∈ kept)

/-- Keeping more of the text goes on hiding its line feeds. -/
theorem Hides.keep
    {region later : Region}
    {kept : List Char}
    {c : Char}
    {rest : List Char}
    {more : Nat}
    (hides : Hides region kept)
    (cuts : cut region (c :: rest) = .keep more later) :
    Hides later ((c :: rest.take more).reverse ++ kept) := by
  unfold Hides
  rw [List.reverse_append, List.reverse_reverse]
  by_cases inside : region = .blockComment
  · have slash := hides.2 inside
    refine ⟨hides.1.append_of_slash (List.mem_reverse.2 slash) _, fun _ => ?_⟩
    exact List.mem_append_right _ slash
  · obtain ⟨noFeed, opens⟩ := cut_eq_keep cuts inside
    refine ⟨hides.1.append_of_not_mem noFeed, fun opened => ?_⟩
    exact List.mem_append_left _ (List.mem_reverse.2 (opens opened))

/-- All lines that are still to come hide their line feeds. -/
theorem feedsBehindSlash_of_mem_split
    {region : Region}
    {kept : List Char}
    {start number : UInt32}
    {text : List Char}
    (hides : Hides region kept)
    {line : LogicalLine}
    (present : line ∈ split region kept start number text) :
    FeedsBehindSlash line.text.toList := by
  fun_induction split region kept start number text with
  | case1 region kept start number nothing => simp at present
  | case2 region kept start number something =>
      rw [List.mem_singleton] at present
      rw [present, String.toList_ofList]
      exact hides.1
  | case3 region kept start number c rest more later cuts inductionHypothesis =>
      exact inductionHypothesis (hides.keep cuts) present
  | case4 region kept start number c rest more cuts inductionHypothesis =>
      exact inductionHypothesis hides present
  | case5 region kept start number c rest more cuts inductionHypothesis =>
      rcases List.mem_cons.1 present with rfl | present
      · rw [String.toList_ofList]
        exact hides.1
      · have fresh : Hides .code [] := ⟨by simp [FeedsBehindSlash], by simp⟩
        exact inductionHypothesis fresh present

end LogicalLine

/-- A logical line has no line feed in front of its first slash. -/
theorem feedsBehindSlash_of_mem_logicalLines
    {source : String}
    {line : LogicalLine}
    (present : line ∈ logicalLines source) :
    FeedsBehindSlash line.text.toList := by
  apply LogicalLine.feedsBehindSlash_of_mem_split ?_ present
  exact ⟨by simp [FeedsBehindSlash], by simp⟩

end PreprocessorSyntax
