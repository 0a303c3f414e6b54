import PreprocessorSyntax.SExpression

/-!
# The text of an expression

An expression is written as a sequence of marks, and the two layouts only differ
in what they write for the separators between items.  The marks can be found
again in the compact text: a word goes up to the next space or parenthesis, a
quoted text up to the next double quote that is not escaped.  So no two
expressions have the same compact text.
-/

namespace PreprocessorSyntax
namespace SExpression

/-- A part of the text of an expression. -/
inductive Mark where
  /-- An opening parenthesis and the head of the list. -/
  | opening (head : String)
  | closing
  | atom (text : String)
  /-- What sets an item apart from what stands in front of it. -/
  | separator
  deriving DecidableEq, Repr

/-- The text of a mark, apart from separators. -/
def Mark.text : Mark → String
  | .opening head => "(" ++ head
  | .closing => ")"
  | .atom text => text
  | .separator => ""

/-- The number of open lists behind a mark. -/
def Mark.depthBehind (depth : Nat) : Mark → Nat
  | .opening _ => depth + 1
  | .closing => depth - 1
  | .atom _ => depth
  | .separator => depth

/-- Marks as text, where a separator may depend on the number of open lists. -/
def spell (separator : Nat → String) (depth : Nat) : List Mark → String
  | [] => ""
  | mark :: marks =>
    (if mark = .separator then separator depth else mark.text) ++
      spell separator (mark.depthBehind depth) marks

mutual

/-- The marks of an expression. -/
def marks : SExpression → List Mark
  | .atom text => [.atom text]
  | .list head items => .opening head :: (marksOf items ++ [.closing])

/-- The marks of the items of a list. -/
def marksOf : List SExpression → List Mark
  | [] => []
  | item :: items => .separator :: (marks item ++ marksOf items)

end

mutual

/-- Behind an expression as many lists are open as in front of it. -/
theorem spell_marks (layout : Layout) (depth : Nat) (written : String) (rest : List Mark) :
    (expression : SExpression) →
    written ++ spell layout.separator depth (marks expression ++ rest) =
      write layout depth written expression ++ spell layout.separator depth rest
  | .atom text => by
      simp [marks, spell, Mark.text, Mark.depthBehind, write, String.append_assoc]
  | .list head items => by
      have inside := spell_marksOf layout (depth + 1) (written ++ "(" ++ head)
        (.closing :: rest) items
      simp only [marks, List.cons_append, List.append_assoc, List.nil_append, spell, Mark.text,
        Mark.depthBehind, write, reduceCtorEq, if_false, Nat.add_sub_cancel] at inside ⊢
      simpa only [String.append_assoc] using inside

theorem spell_marksOf (layout : Layout) (depth : Nat) (written : String) (rest : List Mark) :
    (items : List SExpression) →
    written ++ spell layout.separator depth (marksOf items ++ rest) =
      writeItems layout depth written items ++ spell layout.separator depth rest
  | [] => rfl
  | item :: items => by
      rw [marksOf, List.cons_append, List.append_assoc, writeItems, ← spell_marksOf layout depth,
        ← spell_marks layout depth, spell, String.append_assoc]
      rfl

end

/-- A layout is how separators are written. -/
theorem render_eq_spell (layout : Layout) (expression : SExpression) :
    render layout expression = spell layout.separator 0 (marks expression) := by
  have written := spell_marks layout 0 "" [] expression
  rw [render]
  simpa [spell] using written.symm

/-- Characters of heads and of atoms that are not quoted. -/
def isPlain (c : Char) : Bool :=
  c != ' ' && c != '(' && c != ')' && c != '"' && c != '\n'

/-- A text that is written as it is. -/
def IsWord (text : String) : Prop :=
  text ≠ "" ∧ ∀ c ∈ text.toList, isPlain c = true

/-- What the atoms of a tree are: words and quoted texts. -/
def IsAtom (text : String) : Prop :=
  IsWord text ∨ ∃ content, text = quote content

/-- A quoted text from behind its opening quote on, and what stands behind its closing quote. -/
def readQuoted : List Char → List Char × List Char
  | [] => ([], [])
  | '"' :: rest => ([], rest)
  | '\\' :: c :: rest =>
    ((if c = 'n' then '\n' else if c = 't' then '\t' else c) :: (readQuoted rest).1,
      (readQuoted rest).2)
  | c :: rest => (c :: (readQuoted rest).1, (readQuoted rest).2)

/-- The text that an atom stands for. -/
def unquote (text : String) : String :=
  match text.toList with
  | '"' :: rest => String.ofList (readQuoted rest).1
  | _ => text

/-- An escaped character is read as that character. -/
theorem readQuoted_escape (c : Char) (rest : List Char) :
    readQuoted ((escape c).toList ++ rest) = (c :: (readQuoted rest).1, (readQuoted rest).2) := by
  unfold escape
  split
  next isQuote => subst isQuote; rfl
  next notQuote =>
  split
  next isBackslash => subst isBackslash; rfl
  next notBackslash =>
  split
  next isFeed => subst isFeed; rfl
  next =>
  split
  next isTab => subst isTab; rfl
  next =>
    rw [String.toList_singleton, List.singleton_append, readQuoted]
    · exact fun equal => absurd equal notQuote
    · exact fun _ _ equal => absurd equal notBackslash

theorem toList_quote (content : String) :
    (quote content).toList =
      '"' :: (content.toList.flatMap fun c => (escape c).toList) ++ ['"'] := by
  simp [quote, String.toList_join, List.flatMap_map]

/-- A quoted text ends where its closing quote stands. -/
theorem readQuoted_quote (content rest : List Char) :
    readQuoted ((content.flatMap fun c => (escape c).toList) ++ '"' :: rest) =
      (content, rest) := by
  induction content with
  | nil => rfl
  | cons c content inductionHypothesis =>
      rw [List.flatMap_cons, List.append_assoc, readQuoted_escape, inductionHypothesis]

@[simp] theorem unquote_quote (content : String) : unquote (quote content) = content := by
  rw [unquote, toList_quote]
  simp [readQuoted_quote]

theorem unquote_of_isWord {text : String} (isWord : IsWord text) : unquote text = text := by
  unfold unquote
  split
  next rest equal =>
    have plain := isWord.2 '"' (by simp [equal])
    cases plain
  next => rfl

/-- What stands behind an item: nothing, a separator or a closing parenthesis. -/
def EndsItem (rest : List Char) : Prop :=
  ∀ c ∈ rest.head?, isPlain c = false

/-- A word ends where no plain character goes on. -/
theorem takeWhile_isPlain
    {text : String}
    {rest : List Char}
    (isWord : IsWord text)
    (ends : EndsItem rest) :
    (text.toList ++ rest).takeWhile isPlain = text.toList := by
  rw [List.takeWhile_append_of_pos isWord.2]
  cases rest with
  | nil => simp
  | cons c rest => rw [List.takeWhile_cons_of_neg (by simp [ends c rfl]), List.append_nil]

theorem IsWord.append_inj
    {first second : String}
    {rest back : List Char}
    (firstWord : IsWord first)
    (secondWord : IsWord second)
    (firstEnds : EndsItem rest)
    (secondEnds : EndsItem back)
    (same : first.toList ++ rest = second.toList ++ back) :
    first = second ∧ rest = back := by
  have equal : first.toList = second.toList := by
    rw [← takeWhile_isPlain firstWord firstEnds, same, takeWhile_isPlain secondWord secondEnds]
  rw [equal, List.append_cancel_left_eq] at same
  exact ⟨String.toList_inj.1 equal, same⟩

theorem quote_append_inj
    {first second : String}
    {rest back : List Char}
    (same : (quote first).toList ++ rest = (quote second).toList ++ back) :
    first = second ∧ rest = back := by
  simp only [toList_quote, List.cons_append, List.append_assoc, List.nil_append,
    List.cons.injEq, true_and] at same
  have read := congrArg readQuoted same
  rw [readQuoted_quote, readQuoted_quote, Prod.mk.injEq] at read
  exact ⟨String.toList_inj.1 read.1, read.2⟩

theorem exists_cons_of_isWord
    {text : String}
    (isWord : IsWord text) :
    ∃ c rest, text.toList = c :: rest ∧ isPlain c = true := by
  cases characters : text.toList with
  | nil => exact absurd (String.toList_eq_nil_iff.1 characters) isWord.1
  | cons c rest => exact ⟨c, rest, rfl, isWord.2 c (by simp [characters])⟩

/-- An atom starts with a plain character or with a double quote. -/
theorem exists_cons_of_isAtom
    {text : String}
    (isAtom : IsAtom text) :
    ∃ c rest, text.toList = c :: rest ∧ (isPlain c = true ∨ c = '"') := by
  rcases isAtom with isWord | ⟨content, rfl⟩
  · obtain ⟨c, rest, equal, plain⟩ := exists_cons_of_isWord isWord
    exact ⟨c, rest, equal, .inl plain⟩
  · exact ⟨_, _, toList_quote content, .inr rfl⟩

/-- An atom is told from what stands behind it. -/
theorem IsAtom.append_inj
    {first second : String}
    {rest back : List Char}
    (firstAtom : IsAtom first)
    (secondAtom : IsAtom second)
    (firstEnds : EndsItem rest)
    (secondEnds : EndsItem back)
    (same : first.toList ++ rest = second.toList ++ back) :
    first = second ∧ rest = back := by
  -- A word has no double quote, so the two atoms are both words or both quoted.
  have apart {word content : String} {rest back : List Char} (isWord : IsWord word)
      (equal : word.toList ++ rest = (quote content).toList ++ back) : False := by
    obtain ⟨c, tail, characters, plain⟩ := exists_cons_of_isWord isWord
    rw [characters, toList_quote] at equal
    obtain ⟨rfl, -⟩ := List.cons.inj equal
    cases plain
  rcases firstAtom with firstWord | ⟨content, rfl⟩ <;>
    rcases secondAtom with secondWord | ⟨other, rfl⟩
  · exact firstWord.append_inj secondWord firstEnds secondEnds same
  · exact (apart firstWord same).elim
  · exact (apart secondWord same.symm).elim
  · obtain ⟨rfl, behind⟩ := quote_append_inj same
    exact ⟨rfl, behind⟩

/-- An escaped character is no line feed. -/
theorem feed_not_mem_escape (c : Char) : '\n' ∉ (escape c).toList := by
  unfold escape
  split <;> (try simp)
  split <;> (try simp)
  split <;> (try simp)
  split <;> simp_all [eq_comm]

theorem IsWord.feed_not_mem {text : String} (isWord : IsWord text) : '\n' ∉ text.toList := by
  intro feed
  have plain := isWord.2 _ feed
  cases plain

theorem IsAtom.feed_not_mem {text : String} (isAtom : IsAtom text) : '\n' ∉ text.toList := by
  rcases isAtom with isWord | ⟨content, rfl⟩
  · exact isWord.feed_not_mem
  · simp [toList_quote, feed_not_mem_escape]

mutual

/-- An expression whose heads are words and whose atoms are words or quoted texts. -/
def WellFormed : SExpression → Prop
  | .atom text => IsAtom text
  | .list head items => IsWord head ∧ AllWellFormed items

/-- Expressions whose heads and atoms can be told apart. -/
def AllWellFormed : List SExpression → Prop
  | [] => True
  | item :: items => item.WellFormed ∧ AllWellFormed items

end

theorem allWellFormed_append {first second : List SExpression} :
    AllWellFormed (first ++ second) ↔ AllWellFormed first ∧ AllWellFormed second := by
  induction first with
  | nil => simp [AllWellFormed]
  | cons item first inductionHypothesis =>
      rw [List.cons_append, AllWellFormed, AllWellFormed, inductionHypothesis, and_assoc]

mutual

/-- Line feeds are only written where separators are. -/
theorem feed_not_mem_marks :
    (expression : SExpression) → expression.WellFormed →
    ∀ mark ∈ expression.marks, '\n' ∉ mark.text.toList
  | .atom text, isAtom => by
      rw [marks, List.forall_mem_singleton]
      exact IsAtom.feed_not_mem isAtom
  | .list head items, formed => by
      rw [marks, List.forall_mem_cons, List.forall_mem_append, List.forall_mem_singleton]
      refine ⟨?_, feed_not_mem_marksOf items formed.2, by simp [Mark.text]⟩
      simpa [Mark.text] using formed.1.feed_not_mem

theorem feed_not_mem_marksOf :
    (items : List SExpression) → AllWellFormed items →
    ∀ mark ∈ marksOf items, '\n' ∉ mark.text.toList
  | [], _ => by simp [marksOf]
  | item :: items, formed => by
      rw [marksOf, List.forall_mem_cons, List.forall_mem_append]
      exact ⟨by simp [Mark.text], feed_not_mem_marks item formed.1,
        feed_not_mem_marksOf items formed.2⟩

end

mutual

/-- The characters of the compact text. -/
def compact : SExpression → List Char
  | .atom text => text.toList
  | .list head items => '(' :: head.toList ++ compactItems items ++ [')']

/-- The characters of the compact text of the items of a list. -/
def compactItems : List SExpression → List Char
  | [] => []
  | item :: items => ' ' :: compact item ++ compactItems items

end

mutual

theorem toList_write (depth : Nat) (written : String) :
    (expression : SExpression) →
    (write .compact depth written expression).toList = written.toList ++ compact expression
  | .atom text => by rw [write, String.toList_append, compact]
  | .list head items => by
      simp [write, compact, toList_writeItems (depth + 1) (written ++ "(" ++ head) items]

theorem toList_writeItems (depth : Nat) (written : String) :
    (items : List SExpression) →
    (writeItems .compact depth written items).toList = written.toList ++ compactItems items
  | [] => by rw [writeItems, compactItems, List.append_nil]
  | item :: items => by
      rw [writeItems, toList_writeItems depth _ items, toList_write depth _ item, compactItems]
      simp [Layout.separator]

end

theorem toList_render_compact (expression : SExpression) :
    (render .compact expression).toList = compact expression := by
  rw [render, toList_write]
  rfl

theorem endsItem_compactItems_append (items : List SExpression) (rest : List Char) :
    EndsItem (compactItems items ++ ')' :: rest) := by
  cases items with
  | nil =>
      rintro _ ⟨⟩
      rfl
  | cons item items =>
      rintro _ ⟨⟩
      rfl

mutual

/-- The compact text of an expression is told from what stands behind it. -/
theorem compact_append_inj
    {rest back : List Char}
    (firstEnds : EndsItem rest)
    (secondEnds : EndsItem back) :
    (first second : SExpression) → first.WellFormed → second.WellFormed →
    first.compact ++ rest = second.compact ++ back → first = second ∧ rest = back
  | .atom text, .atom other, firstAtom, secondAtom, same => by
      obtain ⟨rfl, behind⟩ :=
        IsAtom.append_inj firstAtom secondAtom firstEnds secondEnds same
      exact ⟨rfl, behind⟩
  | .atom text, .list head items, firstAtom, _, same => by
      obtain ⟨c, tail, characters, starts⟩ := exists_cons_of_isAtom firstAtom
      rw [compact, characters, compact] at same
      obtain ⟨rfl, -⟩ := List.cons.inj same
      rcases starts with plain | quotes <;> contradiction
  | .list head items, .atom text, _, secondAtom, same => by
      obtain ⟨c, tail, characters, starts⟩ := exists_cons_of_isAtom secondAtom
      rw [compact, compact, characters] at same
      obtain ⟨rfl, -⟩ := List.cons.inj same
      rcases starts with plain | quotes <;> contradiction
  | .list head items, .list other others, firstFormed, secondFormed, same => by
      simp only [compact, List.cons_append, List.append_assoc, List.nil_append,
        List.cons.injEq, true_and] at same
      obtain ⟨rfl, inside⟩ := firstFormed.1.append_inj secondFormed.1
        (endsItem_compactItems_append items rest) (endsItem_compactItems_append others back) same
      obtain ⟨rfl, behind⟩ :=
        compactItems_append_inj items others firstFormed.2 secondFormed.2 inside
      exact ⟨rfl, behind⟩

/-- The items of a list go up to its closing parenthesis. -/
theorem compactItems_append_inj
    {rest back : List Char} :
    (first second : List SExpression) → AllWellFormed first → AllWellFormed second →
    compactItems first ++ ')' :: rest = compactItems second ++ ')' :: back →
      first = second ∧ rest = back
  | [], [], _, _, same => ⟨rfl, (List.cons.inj same).2⟩
  | [], _ :: _, _, _, same => by
      have differs := (List.cons.inj same).1
      contradiction
  | _ :: _, [], _, _, same => by
      have differs := (List.cons.inj same).1
      contradiction
  | item :: items, other :: others, firstFormed, secondFormed, same => by
      simp only [compactItems, List.cons_append, List.append_assoc, List.cons.injEq,
        true_and] at same
      obtain ⟨rfl, inside⟩ := compact_append_inj (endsItem_compactItems_append items rest)
        (endsItem_compactItems_append others back) item other firstFormed.1 secondFormed.1 same
      obtain ⟨rfl, behind⟩ :=
        compactItems_append_inj items others firstFormed.2 secondFormed.2 inside
      exact ⟨rfl, behind⟩

end

/-- Different expressions have different compact texts. -/
theorem eq_of_render_compact
    {first second : SExpression}
    (firstFormed : first.WellFormed)
    (secondFormed : second.WellFormed)
    (same : render .compact first = render .compact second) :
    first = second := by
  have characters := congrArg String.toList same
  rw [toList_render_compact, toList_render_compact] at characters
  have ends : EndsItem [] := by simp [EndsItem]
  exact (compact_append_inj ends ends first second firstFormed secondFormed
    (by rw [characters])).1

end SExpression
end PreprocessorSyntax
