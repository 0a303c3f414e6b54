import PreprocessorSyntax.Proofs.LogicalLine.Texts

/-!
# Splices and the structure of a text

The splitter takes out splices and looks for strings and comments in one pass,
and it looks for pairs of characters in the text as it stands.  So removing all
splices first leads to the same lines, provided that no splice stands inside a
pair of characters that the splitter reads together.
-/

namespace PreprocessorSyntax
namespace LogicalLine

/-- Whether a text starts with a backslash and the line end that it removes. -/
def startsWithSplice : List Char → Bool
  | '\\' :: '\n' :: _ => true
  | '\\' :: '\r' :: '\n' :: _ => true
  | _ => false

/-- A text without its splices, removed in one pass from left to right. -/
def spliced : List Char → List Char
  | '\\' :: '\n' :: rest => spliced rest
  | '\\' :: '\r' :: '\n' :: rest => spliced rest
  | c :: rest => c :: spliced rest
  | [] => []

/--
The pairs of characters that the splitter reads together.  A backslash is read
together with whatever stands behind it.
-/
def belongsTo (first : Char) (second : Option Char) : Bool :=
  first == '\\' || [('/', '/'), ('/', '*'), ('*', '/'), ('\r', '\n')].any fun pair =>
    first == pair.1 && second == some pair.2

/-- Whether a splice stands between two characters that are read together. -/
def splicesPair : List Char → Bool
  | [] => false
  | first :: rest =>
    startsWithSplice rest && belongsTo first (spliced rest).head? || splicesPair rest

variable {region later : Region} {kept rest text : List Char} {c d : Char} {more : Nat}

theorem startsWithSplice_cons_cons :
    startsWithSplice (c :: d :: rest) =
      (c == '\\' && (d == '\n' || d == '\r' && rest.head? == some '\n')) := by
  cases rest <;> unfold startsWithSplice <;> grind

theorem spliced_cons (noSplice : startsWithSplice (c :: rest) = false) :
    spliced (c :: rest) = c :: spliced rest := by
  refine spliced.eq_3 c rest ?_ ?_
  · rintro behind rfl rfl
    simp [startsWithSplice] at noSplice
  · rintro behind rfl rfl
    simp [startsWithSplice] at noSplice

theorem head?_of_startsWithSplice (splice : startsWithSplice rest = true) :
    rest.head? = some '\\' := by
  unfold startsWithSplice at splice
  split at splice <;> simp_all

/-- The next character is the same if no splice stands in front of it. -/
theorem head?_spliced (noSplice : startsWithSplice rest = false) :
    (spliced rest).head? = rest.head? := by
  cases rest with
  | nil => rfl
  | cons c rest => rw [spliced_cons noSplice]; rfl

/-- Nothing is taken out of a character without a splice in front of it. -/
theorem take_drop_spliced (noSplice : 0 < more → more = 1 ∧ startsWithSplice rest = false) :
    (spliced rest).take more = rest.take more ∧
      (spliced rest).drop more = spliced (rest.drop more) := by
  rcases Nat.eq_zero_or_pos more with none | some
  · simp [none]
  · obtain ⟨rfl, unspliced⟩ := noSplice some
    cases rest with
    | nil => simp [spliced]
    | cons c rest => simp [spliced_cons unspliced]

theorem splicesPair_drop (whole : splicesPair text = false) (count : Nat) :
    splicesPair (text.drop count) = false := by
  induction text generalizing count with
  | nil => simpa using whole
  | cons c rest inductionHypothesis =>
      cases count with
      | zero => exact whole
      | succ count =>
          simp only [splicesPair, Bool.or_eq_false_iff] at whole
          exact inductionHypothesis whole.2 count

/-- A character that does not belong to the next one is cut as if it were the last one. -/
theorem cut_eq_cut_singleton (apart : belongsTo c rest.head? = false) :
    cut region (c :: rest) = cut region [c] := by
  cases rest with
  | nil => rfl
  | cons d rest =>
      unfold cut
      split <;> simp_all [belongsTo]

/-- Without a splice at the front, a cut depends on the next character at most. -/
theorem cut_eq_cut_head? (noSplice : startsWithSplice (c :: rest) = false) :
    cut region (c :: rest) = cut region (c :: rest.head?.toList) := by
  rcases rest with _ | ⟨d, rest⟩
  · rfl
  simp only [List.head?_cons, Option.toList_some]
  by_cases backslash : c = '\\'
  · subst backslash
    have noFeed : d ≠ '\n' := by
      rintro rfl
      simp [startsWithSplice] at noSplice
    by_cases carriage : d = '\r'
    · subst carriage
      have unended : ∀ behind, rest = '\n' :: behind → False := by
        rintro behind rfl
        simp [startsWithSplice] at noSplice
      rw [cut.eq_3 _ _ unended, cut.eq_3 _ _ (by simp)]
    · rw [cut.eq_4, cut.eq_4] <;> simp [noFeed, carriage]
  · by_cases apart : belongsTo c (some d) = false
    · have alone : cut region [c, d] = cut region [c] := cut_eq_cut_singleton apart
      rw [cut_eq_cut_singleton apart, alone]
    · simp only [belongsTo, beq_iff_eq, backslash, List.any_cons, List.any_nil, Bool.or_false,
        Option.some.injEq, Bool.not_eq_false, Bool.or_eq_true, Bool.and_eq_true, false_or] at apart
      rcases apart with ⟨rfl, rfl⟩ | ⟨rfl, rfl⟩ | ⟨rfl, rfl⟩ | ⟨rfl, rfl⟩ <;> rfl

theorem more_le_one
    (cuts : cut region (c :: rest) = .keep more later ∨ cut region (c :: rest) = .endLine more) :
    more ≤ 1 := by
  unfold cut at cuts
  split at cuts <;> (try cases region) <;> grind

theorem more_eq_zero
    (notBackslash : c ≠ '\\')
    (cuts : cut region [c] = .keep more later ∨ cut region [c] = .endLine more) :
    more = 0 := by
  unfold cut at cuts
  split at cuts <;> (try cases region) <;> grind

theorem noSplice_cons_spliced
    (noSplice : startsWithSplice (c :: rest) = false)
    (whole : splicesPair rest = false)
    (noSpliceBehind : startsWithSplice rest = false) :
    startsWithSplice (c :: spliced rest) = false := by
  cases rest with
  | nil => exact noSplice
  | cons d rest =>
      rw [spliced_cons noSpliceBehind]
      -- A line feed may only have come up behind a carriage return, and the two are a pair.
      have feedBefore (carriage : d = '\r') (feed : (spliced rest).head? = some '\n') :
          rest.head? = some '\n' := by
        rw [← feed]
        refine (head?_spliced ?_).symm
        simp only [splicesPair, carriage, feed, Bool.or_eq_false_iff,
          Bool.and_eq_false_iff] at whole
        simpa [belongsTo] using whole.1
      rw [startsWithSplice_cons_cons] at noSplice ⊢
      grind

/-- A splice stands between characters that do not belong together. -/
theorem belongsTo_of_startsWithSplice
    (whole : splicesPair (c :: rest) = false)
    (splice : startsWithSplice rest = true) :
    c ≠ '\\' ∧ belongsTo c (spliced rest).head? = false ∧ belongsTo c rest.head? = false := by
  have apart : belongsTo c (spliced rest).head? = false := by
    simp only [splicesPair, Bool.or_eq_false_iff, Bool.and_eq_false_iff] at whole
    simpa [splice] using whole.1
  have notBackslash : c ≠ '\\' := by
    rintro rfl
    simp [belongsTo] at apart
  refine ⟨notBackslash, apart, ?_⟩
  rw [head?_of_startsWithSplice splice]
  simp [belongsTo, notBackslash]

/-- Taking splices out of the text behind a character leaves its cut as it is. -/
theorem cut_cons_spliced
    (noSplice : startsWithSplice (c :: rest) = false)
    (whole : splicesPair (c :: rest) = false) :
    cut region (c :: spliced rest) = cut region (c :: rest) := by
  cases splice : startsWithSplice rest with
  | true =>
      obtain ⟨-, apart, apartBefore⟩ := belongsTo_of_startsWithSplice whole splice
      rw [cut_eq_cut_singleton apart, cut_eq_cut_singleton apartBefore]
  | false =>
      have noLater : startsWithSplice (c :: spliced rest) = false :=
        noSplice_cons_spliced noSplice (splicesPair_drop whole 1) splice
      rw [cut_eq_cut_head? noLater, cut_eq_cut_head? noSplice, head?_spliced splice]

/-- A character takes another one with it only if no splice stands between them. -/
theorem noSplice_of_more
    (later : Region)
    (whole : splicesPair (c :: rest) = false)
    (cuts : cut region (c :: rest) = .keep more later ∨ cut region (c :: rest) = .endLine more)
    (some : 0 < more) :
    more = 1 ∧ startsWithSplice rest = false := by
  refine ⟨Nat.le_antisymm (more_le_one cuts) some, ?_⟩
  cases splice : startsWithSplice rest with
  | false => rfl
  | true =>
      obtain ⟨notBackslash, -, apart⟩ := belongsTo_of_startsWithSplice whole splice
      rw [cut_eq_cut_singleton apart] at cuts
      exact absurd (more_eq_zero notBackslash cuts) (Nat.ne_of_gt some)

theorem spliced_of_cut_eq_splice (cuts : cut region (c :: rest) = .splice more) :
    spliced (c :: rest) = spliced (rest.drop more) := by
  unfold cut at cuts
  split at cuts <;> (try cases region) <;> grind [spliced]

theorem noSplice_of_cut
    (region : Region)
    (cuts : ∀ more, cut region text ≠ .splice more) :
    startsWithSplice text = false := by
  unfold startsWithSplice
  split <;> simp_all [cut]

theorem texts_spliced
    (region : Region)
    (kept text : List Char)
    (whole : splicesPair text = false) :
    texts region kept (spliced text) = texts region kept text := by
  match text with
  | [] => rfl
  | c :: rest =>
    have wholeBehind (count : Nat) : splicesPair (rest.drop count) = false :=
      splicesPair_drop whole (count + 1)
    cases cuts : cut region (c :: rest) with
    | splice more =>
        rw [spliced_of_cut_eq_splice cuts, texts_splice cuts,
          texts_spliced _ _ _ (wholeBehind more)]
    | keep more later =>
        have noSplice : startsWithSplice (c :: rest) = false :=
          noSplice_of_cut region (by simp [cuts])
        obtain ⟨taken, dropped⟩ := take_drop_spliced (noSplice_of_more later whole (.inl cuts))
        rw [spliced_cons noSplice, texts_keep cuts,
          texts_keep ((cut_cons_spliced noSplice whole).trans cuts), taken, dropped,
          texts_spliced _ _ _ (wholeBehind more)]
    | endLine more =>
        have noSplice : startsWithSplice (c :: rest) = false :=
          noSplice_of_cut region (by simp [cuts])
        obtain ⟨-, dropped⟩ := take_drop_spliced (noSplice_of_more region whole (.inr cuts))
        rw [spliced_cons noSplice, texts_endLine cuts,
          texts_endLine ((cut_cons_spliced noSplice whole).trans cuts), dropped,
          texts_spliced _ _ _ (wholeBehind more)]
termination_by text.length
decreasing_by all_goals simp only [List.length_drop, List.length_cons]; omega

end LogicalLine

/--
A text has the same lines with its splices as without them, unless a splice
stands inside a pair of characters that belong together.
-/
theorem map_text_logicalLines_spliced
    {source : String}
    (whole : LogicalLine.splicesPair source.toList = false) :
    (logicalLines source).map LogicalLine.text =
      (logicalLines (String.ofList (LogicalLine.spliced source.toList))).map LogicalLine.text := by
  rw [map_text_logicalLines, map_text_logicalLines, String.toList_ofList,
    LogicalLine.texts_spliced _ _ _ whole]

/-- Splices in a name, a string, both kinds of comments and in front of a line end. -/
theorem map_text_logicalLines_spliced_everywhere :
    let source := "na\\\nme \"a\\\r\nb\" // c\\\nd \\\n\n/* e\\\r\nf\ng */\n"
    LogicalLine.splicesPair source.toList = false ∧
      (logicalLines source).map LogicalLine.text = ["name \"ab\" // cd ", "/* ef\ng */"] ∧
      (logicalLines source).map LogicalLine.text =
        (logicalLines (String.ofList (LogicalLine.spliced source.toList))).map
          LogicalLine.text :=
  ⟨by decide, by decide +kernel, map_text_logicalLines_spliced (by decide)⟩

/--
A splice behind a backslash in a string is taken for an escaped backslash and a
line end, although no splice comes up in what is left without it.
-/
theorem map_text_logicalLines_ne_spliced :
    let source := "\"a\\\\\nb"
    let spliced := LogicalLine.spliced source.toList
    ¬ ['\\', '\n'] <:+: spliced ∧ ¬ ['\\', '\r', '\n'] <:+: spliced ∧
      (logicalLines source).map LogicalLine.text = ["\"a\\\\", "b"] ∧
      (logicalLines (String.ofList spliced)).map LogicalLine.text = ["\"a\\b"] := by
  decide +kernel

-- The marks of comments and the two characters of a line end are not recognised
-- either when a splice stands between them.
example :
    ["/\\\n* a\nb */", "/\\\n/ /* a\nb", "/* a *\\\n/\nb", "a\r\\\n\nb"].map
        (fun source => (logicalLines source).map LogicalLine.text) =
      [["/* a", "b */"], ["// /* a\nb"], ["/* a */\nb"], ["a\r", "b"]] := by
  decide +kernel

end PreprocessorSyntax
