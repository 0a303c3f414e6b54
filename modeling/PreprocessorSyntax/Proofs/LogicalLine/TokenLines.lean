import PreprocessorSyntax.Proofs.Lexer.Spelling
import PreprocessorSyntax.Proofs.LogicalLine.Texts

/-!
# Logical lines and the token stream

The splitter and the lexer find the ends of lines independently of each other.
Where nothing is spliced or escaped they differ in two things: the splitter has
no character literals, and a quotation mark that is not closed hides the rest of
its line from the splitter but not from the lexer.  So the logical lines are the
texts between the line feeds of the token stream, provided that no character
literal looks like the start of something else, if and only if no comment behind
an open quotation mark goes over the end of the line.
-/

namespace PreprocessorSyntax

/-- The texts between the line feeds among some tokens. -/
def textsBetweenFeeds (tokens : List Token) : List String :=
  (tokens.splitOnP fun token => token.kind == .newline).map fun piece =>
    String.join (piece.map Token.text)

/-- Some texts without the last one if that is empty. -/
def withoutEmptyLast (texts : List String) : List String :=
  if texts.getLast? = some "" then texts.dropLast else texts

/-- The lines of some tokens.  An empty text behind the last line feed is no line. -/
def lineTexts (tokens : List Token) : List String :=
  withoutEmptyLast (textsBetweenFeeds tokens)

theorem textsBetweenFeeds_nil : textsBetweenFeeds [] = [""] := rfl

theorem textsBetweenFeeds_newline
    {token : Token}
    (feed : token.kind = .newline)
    (tokens : List Token) :
    textsBetweenFeeds (token :: tokens) = "" :: textsBetweenFeeds tokens := by
  unfold textsBetweenFeeds
  rw [List.splitOnP_cons_eq_if_modifyHead, if_pos (beq_iff_eq.2 feed)]
  rfl

theorem textsBetweenFeeds_cons
    {token : Token}
    (inLine : token.kind ≠ .newline)
    (tokens : List Token) :
    textsBetweenFeeds (token :: tokens) =
      (textsBetweenFeeds tokens).modifyHead (token.text ++ ·) := by
  unfold textsBetweenFeeds
  rw [List.splitOnP_cons_eq_if_modifyHead, if_neg (by simpa using inLine)]
  cases tokens.splitOnP fun token => token.kind == .newline with
  | nil => rfl
  | cons piece pieces => simp

/-- There is a text in front of the first line feed, however short. -/
theorem exists_textsBetweenFeeds (tokens : List Token) :
    ∃ first others, textsBetweenFeeds tokens = first :: others := by
  apply List.exists_cons_of_ne_nil
  simp [textsBetweenFeeds]

namespace Token

/-- A quotation mark that is not closed on its line, with its encoding prefix. -/
def isOpenQuotation (token : Token) : Bool :=
  token.kind == .other && token.text.toList.getLast? == some '"'

/-- A comment that goes over the end of a line. -/
def spansLines (token : Token) : Bool :=
  token.kind == .comment .block && token.text.toList.contains '\n'

/-- A character literal with or without encoding prefix. -/
def isCharacter (token : Token) : Bool :=
  match token.kind with
  | .character _ => true
  | _ => false

/-- A character literal in which a string literal or a comment seems to start. -/
def Misleads (token : Token) : Prop :=
  token.isCharacter = true ∧
    ('"' ∈ token.text.toList ∨ ['/', '/'] <:+: token.text.toList ∨
      ['/', '*'] <:+: token.text.toList)

instance : DecidablePred Misleads := fun _ => inferInstanceAs (Decidable (_ ∧ _))

end Token

/--
Whether a comment that goes over the end of a line stands behind an open
quotation mark on its first line; `opened` tells whether there has been such a
mark on the line so far.
-/
def commentBehindQuotation (opened : Bool) : List Token → Bool
  | [] => false
  | token :: tokens =>
    if token.kind = .newline then commentBehindQuotation false tokens
    else
      opened && token.spansLines || commentBehindQuotation (opened || token.isOpenQuotation) tokens

/-- The lines of some tokens where the first line starts with the characters kept so far. -/
def linesBehind (kept : List Char) (tokens : List Token) : List String :=
  withoutEmptyLast ((textsBetweenFeeds tokens).modifyHead (String.ofList kept.reverse ++ ·))

theorem linesBehind_nil (kept : List Char) :
    linesBehind kept [] = if kept.isEmpty then [] else [String.ofList kept.reverse] := by
  rw [linesBehind, textsBetweenFeeds_nil]
  cases kept with
  | nil => rfl
  | cons c kept => simp [withoutEmptyLast]

theorem linesBehind_start (tokens : List Token) : linesBehind [] tokens = lineTexts tokens := by
  obtain ⟨first, others, equal⟩ := exists_textsBetweenFeeds tokens
  simp [linesBehind, lineTexts, equal]

theorem linesBehind_newline
    (kept : List Char)
    {token : Token}
    (feed : token.kind = .newline)
    (tokens : List Token) :
    linesBehind kept (token :: tokens) = String.ofList kept.reverse :: linesBehind [] tokens := by
  obtain ⟨first, others, equal⟩ := exists_textsBetweenFeeds tokens
  rw [linesBehind, linesBehind, textsBetweenFeeds_newline feed, equal]
  simp only [List.modifyHead_cons, String.append_empty, withoutEmptyLast, List.getLast?_cons_cons,
    List.reverse_nil, String.ofList_nil, String.empty_append, List.dropLast_cons_cons]
  split <;> rfl

theorem linesBehind_cons
    (kept : List Char)
    {token : Token}
    (inLine : token.kind ≠ .newline)
    (tokens : List Token) :
    linesBehind kept (token :: tokens) =
      linesBehind (token.text.toList.reverse ++ kept) tokens := by
  obtain ⟨first, others, equal⟩ := exists_textsBetweenFeeds tokens
  rw [linesBehind, linesBehind, textsBetweenFeeds_cons inLine, equal]
  simp [String.append_assoc]

/-- The first line starts with what is kept. -/
theorem le_length_of_linesBehind
    {kept : List Char}
    {tokens : List Token}
    {first : String}
    {others : List String}
    (lines : linesBehind kept tokens = first :: others) :
    kept.length ≤ first.length := by
  obtain ⟨text, texts, equal⟩ := exists_textsBetweenFeeds tokens
  have same : first = String.ofList kept.reverse ++ text := by
    rw [linesBehind, equal, List.modifyHead_cons, withoutEmptyLast] at lines
    split at lines
    next =>
      cases texts with
      | nil => simp at lines
      | cons => exact (List.cons.inj lines).1.symm
    next => exact (List.cons.inj lines).1.symm
  rw [same, String.length_append, String.length_ofList, List.length_reverse]
  exact Nat.le_add_right _ _

namespace LogicalLine

variable {region : Region} {kept front back rest : List Char} {c : Char}

/-- Outside of block comments, most characters are kept one by one. -/
theorem cut_ordinary
    (verbatim : c ≠ '\\' ∧ c ≠ '\r')
    (plain : c ≠ '\n' ∧ c ≠ '"' ∧ c ≠ '/')
    (outside : region ≠ .blockComment)
    (rest : List Char) :
    cut region (c :: rest) = .keep 0 region := by
  unfold cut
  split <;> simp_all

/-- Inside of strings and line comments, all but line feeds and closing quotation marks are kept. -/
theorem cut_hidden
    (verbatim : c ≠ '\\' ∧ c ≠ '\r')
    (inLine : c ≠ '\n')
    (unquoted : region = .string → c ≠ '"')
    (hidden : region = .string ∨ region = .lineComment)
    (rest : List Char) :
    cut region (c :: rest) = .keep 0 region := by
  unfold cut
  split <;> rcases hidden with rfl | rfl <;> simp_all

/-- A slash that opens no comment is kept. -/
theorem cut_slash
    (noComment : ∀ d ∈ rest.head?, d ≠ '/' ∧ d ≠ '*') :
    cut .code ('/' :: rest) = .keep 0 .code := by
  unfold cut
  split <;> simp_all

theorem texts_ordinary
    (verbatim : Verbatim (front ++ back))
    (plain : Ordinary front)
    (outside : region ≠ .blockComment) :
    texts region kept (front ++ back) = texts region (front.reverse ++ kept) back := by
  apply texts_append
  rintro before c behind rfl
  have present : c ∈ before ++ c :: behind := List.mem_append_right _ List.mem_cons_self
  apply cut_ordinary (verbatim.ne_of_mem ?_) (plain c present) outside
  exact List.mem_append_left _ present

theorem texts_hidden
    (verbatim : Verbatim (front ++ back))
    (oneLine : '\n' ∉ front)
    (unquoted : region = .string → '"' ∉ front)
    (hidden : region = .string ∨ region = .lineComment) :
    texts region kept (front ++ back) = texts region (front.reverse ++ kept) back := by
  apply texts_append
  rintro before c behind rfl
  have present : c ∈ before ++ c :: behind := List.mem_append_right _ List.mem_cons_self
  refine cut_hidden (verbatim.ne_of_mem (List.mem_append_left _ present)) ?_ ?_ hidden _
  · rintro rfl
    exact oneLine present
  · rintro inString rfl
    exact unquoted inString present

/-- Outside of block comments a line feed ends the line. -/
theorem texts_feed (outside : region ≠ .blockComment) :
    texts region kept ('\n' :: back) = String.ofList kept.reverse :: texts .code [] back := by
  have cuts : cut region ('\n' :: back) = .endLine 0 := by simp [cut, outside]
  rw [texts_endLine cuts, List.drop_zero]

/-- A block comment is kept up to and with its end. -/
theorem texts_blockComment
    {tail : Nat}
    (verbatim : Verbatim rest)
    (closed : blockCommentTail? rest = some tail) :
    texts .blockComment kept rest =
      texts .code ((rest.take tail).reverse ++ kept) (rest.drop tail) := by
  fun_induction blockCommentTail? rest generalizing kept tail with
  | case1 rest =>
      cases closed
      exact texts_keep rfl
  | case2 c rest notEnd inductionHypothesis =>
      obtain ⟨later, found, rfl⟩ := Option.map_eq_some_iff.1 closed
      have distinct := verbatim.ne_of_mem (c := c) List.mem_cons_self
      have cuts : cut .blockComment (c :: rest) = .keep 0 .blockComment := by
        unfold cut
        split <;> simp_all
      rw [texts_keep cuts, List.take_zero, List.drop_zero, inductionHypothesis verbatim.tail found]
      simp
  | case3 => cases closed

/-- A string is kept up to and with its closing quotation mark. -/
theorem texts_string
    (verbatim : Verbatim (front ++ '"' :: back))
    (oneLine : '\n' ∉ front)
    (unquoted : '"' ∉ front) :
    texts .string kept (front ++ '"' :: back) =
      texts .code ('"' :: (front.reverse ++ kept)) back := by
  have cuts : cut .string ('"' :: back) = .keep 0 .code := rfl
  rw [texts_hidden verbatim oneLine (fun _ => unquoted) (.inl rfl), texts_keep cuts]
  rfl

/-- A character literal that misleads nobody is kept. -/
theorem texts_character
    {body : List Char}
    (verbatim : Verbatim (body ++ ['\''] ++ back))
    (oneLine : '\n' ∉ body)
    (unquoted : '"' ∉ body ++ ['\''])
    (noLineComment : ¬ ['/', '/'] <:+: body ++ ['\''])
    (noBlockComment : ¬ ['/', '*'] <:+: body ++ ['\'']) :
    texts .code kept (body ++ ['\''] ++ back) =
      texts .code ((body ++ ['\'']).reverse ++ kept) back := by
  apply texts_append
  intro before c behind equal
  have present : c ∈ body ++ ['\''] := by
    rw [equal]
    exact List.mem_append_right _ List.mem_cons_self
  by_cases slash : c = '/'
  · subst slash
    apply cut_slash
    -- The slash is not the last character, and what follows it opens no comment.
    cases behind with
    | nil =>
        have last := congrArg List.getLast? equal
        simp at last
    | cons d behind =>
        rintro e ⟨⟩
        refine ⟨?_, ?_⟩
        · rintro rfl
          exact noLineComment ⟨before, behind, by rw [equal]; simp⟩
        · rintro rfl
          exact noBlockComment ⟨before, behind, by rw [equal]; simp⟩
  · have verbatimHere := verbatim.ne_of_mem (List.mem_append_left _ present)
    refine cut_ordinary verbatimHere ⟨?_, ?_, slash⟩ (by simp) _
    · rintro rfl
      simp [oneLine] at present
    · rintro rfl
      exact unquoted present

/-! ## Tokens -/

/--
What the splitter knows of the tokens so far: it reads code, or a quotation mark
is open on the line, or a line comment has just ended.
-/
def InStep (region : Region) (opened : Bool) (rest : List Char) : Prop :=
  region = .code ∧ opened = false ∨
    (region = .string ∨ region = .lineComment) ∧ '"' ∉ rest.takeWhile (· != '\n') ∧
      (opened = true ∨ ∀ c ∈ rest.head?, c = '\n')

theorem inStep_code (rest : List Char) : InStep .code false rest :=
  .inl ⟨rfl, rfl⟩

theorem InStep.ne_blockComment
    {opened : Bool}
    (inStep : InStep region opened rest) :
    region ≠ .blockComment := by
  rcases inStep with ⟨rfl, _⟩ | ⟨rfl | rfl, _⟩ <;> simp

/-- Reading code, the splitter keeps a token as a whole. -/
theorem exists_texts_of_spells
    (kept : List Char)
    {kind : TokenKind}
    (spells : Spells kind front back)
    (verbatim : Verbatim (front ++ back))
    (inLine : kind ≠ .newline)
    (literal : (∃ encoding, kind = .character encoding) →
      '"' ∉ front ∧ ¬ ['/', '/'] <:+: front ∧ ¬ ['/', '*'] <:+: front) :
    ∃ later, texts .code kept (front ++ back) = texts later (front.reverse ++ kept) back ∧
      InStep later (kind == .other && front.getLast? == some '"') back := by
  cases spells with
  | endOfInput => exact ⟨.code, rfl, inStep_code _⟩
  | newline => exact absurd rfl inLine
  | ordinary _ noComment plain =>
      have unquoted : (front.getLast? == some '"') = false := by
        rw [beq_eq_false_iff_ne]
        intro last
        exact (plain _ (List.mem_of_getLast? last)).2.1 rfl
      rw [unquoted, Bool.and_false]
      exact ⟨.code, texts_ordinary verbatim plain (by simp), inStep_code _⟩
  | slash symbol plain noComment =>
      refine ⟨.code, ?_, inStep_code _⟩
      rw [List.cons_append, texts_keep (cut_slash noComment), List.take_zero, List.drop_zero,
        texts_ordinary verbatim.tail plain (by simp)]
      simp
  | @lineComment body back oneLine whole =>
      have opens : cut .code ('/' :: '/' :: (body ++ back)) = .keep 1 .lineComment := rfl
      refine ⟨.lineComment, ?_, .inr ⟨.inr rfl, ?_, .inr whole⟩⟩
      · rw [List.cons_append, List.cons_append, texts_keep opens]
        simp only [List.take_succ_cons, List.take_zero, List.drop_succ_cons, List.drop_zero]
        rw [texts_hidden verbatim.tail.tail oneLine (by simp) (.inr rfl)]
        simp
      · cases back with
        | nil => simp
        | cons c back => simp [whole c rfl]
  | @blockComment rest tail closed =>
      have opens : cut .code ('/' :: '*' :: rest) = .keep 1 .blockComment := rfl
      refine ⟨.code, ?_, inStep_code _⟩
      rw [List.cons_append, List.cons_append, List.take_append_drop] at verbatim ⊢
      rw [texts_keep opens]
      simp only [List.take_succ_cons, List.take_zero, List.drop_succ_cons, List.drop_zero]
      rw [texts_blockComment verbatim.tail.tail closed]
      simp
  | @string encoding letters body plain oneLine unquoted =>
      have opens : cut .code ('"' :: (body ++ '"' :: back)) = .keep 0 .string := rfl
      have regrouped : letters ++ '"' :: (body ++ ['"']) ++ back =
          letters ++ '"' :: (body ++ '"' :: back) := by simp
      refine ⟨.code, ?_, inStep_code _⟩
      rw [regrouped] at verbatim ⊢
      rw [texts_ordinary verbatim plain (by simp), texts_keep opens, List.take_zero, List.drop_zero,
        texts_string verbatim.right.tail oneLine unquoted]
      simp
  | character encoding oneLine =>
      obtain ⟨unquoted, noLineComment, noBlockComment⟩ := literal ⟨encoding, rfl⟩
      exact ⟨.code, texts_character verbatim oneLine unquoted noLineComment noBlockComment,
        inStep_code _⟩
  | @openQuotation letters back plain unclosed =>
      have opens : cut .code ('"' :: back) = .keep 0 .string := rfl
      have regrouped : letters ++ ['"'] ++ back = letters ++ '"' :: back := by simp
      refine ⟨.string, ?_, .inr ⟨.inl rfl, unclosed, .inl (by simp)⟩⟩
      rw [regrouped] at verbatim ⊢
      rw [texts_ordinary verbatim plain (by simp), texts_keep opens]
      simp

/-- Where a quotation mark is open, the splitter keeps a token that stays on its line. -/
theorem inStep_hidden
    (kept : List Char)
    (verbatim : Verbatim (front ++ back))
    (hidden : region = .string ∨ region = .lineComment)
    (unquoted : '"' ∉ (front ++ back).takeWhile (· != '\n'))
    (oneLine : '\n' ∉ front) :
    texts region kept (front ++ back) = texts region (front.reverse ++ kept) back ∧
      InStep region true back := by
  have passes : ∀ c ∈ front, (c != '\n') = true := by
    intro c present
    rw [bne_iff_ne]
    rintro rfl
    exact oneLine present
  rw [List.takeWhile_append_of_pos passes, List.mem_append, not_or] at unquoted
  exact ⟨texts_hidden verbatim oneLine (fun _ => unquoted.1) hidden,
    .inr ⟨hidden, unquoted.2, .inl rfl⟩⟩

/-- Where a quotation mark is open, the first line feed ends the line, comment or not. -/
theorem exists_texts_hidden
    (kept : List Char)
    (verbatim : Verbatim (front ++ back))
    (hidden : region = .string ∨ region = .lineComment)
    (unquoted : '"' ∉ (front ++ back).takeWhile (· != '\n'))
    (feed : '\n' ∈ front) :
    ∃ first others, texts region kept (front ++ back) = first :: others ∧
      first.length < kept.length + front.length := by
  obtain ⟨before, behind, rfl, oneLine⟩ := List.eq_append_cons_of_mem feed
  have outside : region ≠ .blockComment := by
    rcases hidden with rfl | rfl <;> simp
  rw [List.append_assoc] at verbatim unquoted ⊢
  obtain ⟨passed, _⟩ := inStep_hidden kept verbatim hidden unquoted oneLine
  rw [passed, List.cons_append, texts_feed outside]
  refine ⟨_, _, rfl, ?_⟩
  simp only [String.length_ofList, List.length_reverse, List.length_append, List.length_cons]
  omega

/--
A token in a line is kept, and the splitter stays in step with the lexer; or it
is a comment behind an open quotation mark, and its first line feed ends the line.
-/
theorem exists_texts_or_splits
    (kept : List Char)
    {opened : Bool}
    {token : Token}
    (spells : Spells token.kind token.text.toList back)
    (verbatim : Verbatim (token.text.toList ++ back))
    (inLine : token.kind.isLineEnd = false)
    (honest : ¬ token.Misleads)
    (inStep : InStep region opened (token.text.toList ++ back))
    (ends : (∀ c ∈ (token.text.toList ++ back).head?, c = '\n') → token.kind.isLineEnd = true) :
    ((opened && token.spansLines) = false ∧
      ∃ later, texts region kept (token.text.toList ++ back) =
          texts later (token.text.toList.reverse ++ kept) back ∧
        InStep later (opened || token.isOpenQuotation) back) ∨
    ((opened && token.spansLines) = true ∧
      ∃ first others, texts region kept (token.text.toList ++ back) = first :: others ∧
        first.length < kept.length + token.text.length) := by
  have notFeed : token.kind ≠ .newline := by
    intro feed
    rw [feed] at inLine
    cases inLine
  rcases inStep with ⟨rfl, rfl⟩ | ⟨hidden, unquoted, line⟩
  · have literal : (∃ encoding, token.kind = .character encoding) →
        '"' ∉ token.text.toList ∧ ¬ ['/', '/'] <:+: token.text.toList ∧
          ¬ ['/', '*'] <:+: token.text.toList := by
      rintro ⟨encoding, kind⟩
      rw [Token.Misleads, not_and, not_or, not_or] at honest
      exact honest (by rw [Token.isCharacter, kind])
    rw [Bool.false_and, Bool.false_or]
    exact .inl ⟨rfl, exists_texts_of_spells kept spells verbatim notFeed literal⟩
  · have isOpened : opened = true := by
      refine line.resolve_right fun atEnd => ?_
      rw [ends atEnd] at inLine
      cases inLine
    rw [isOpened, Bool.true_and, Bool.true_or]
    by_cases inside : '\n' ∈ token.text.toList
    · have isComment := (spells.kind_of_feed inside).resolve_left notFeed
      have spans : token.spansLines = true := by simp [Token.spansLines, isComment, inside]
      exact .inr ⟨spans, exists_texts_hidden kept verbatim hidden unquoted inside⟩
    · have spans : token.spansLines = false := by simp [Token.spansLines, inside]
      exact .inl ⟨spans, region, inStep_hidden kept verbatim hidden unquoted inside⟩

end LogicalLine

namespace Lexer

open LogicalLine

theorem isLineEnd_eq_false
    {kind : TokenKind}
    (notFeed : kind ≠ .newline)
    (notEnd : kind ≠ .endOfInput) :
    kind.isLineEnd = false := by
  cases kind <;> first | rfl | contradiction

/-- The end of the input or a line feed is a token of its own. -/
theorem isLineEnd_of_head?
    {lexer after : Lexer}
    {token : Token}
    (read : lexer.next = (.ok token, after))
    (ends : ∀ c ∈ lexer.rest.head?, c = '\n') :
    token.kind.isLineEnd = true := by
  obtain ⟨length, munched, _⟩ := next_eq_ok read
  cases rest : lexer.rest with
  | nil =>
      rw [rest] at munched
      have kind : .endOfInput = token.kind := congrArg Prod.fst (Option.some.inj munched)
      rw [← kind]
      rfl
  | cons c rest =>
      rw [rest] at munched ends
      cases ends c rfl
      rw [munch_newline] at munched
      have kind : .newline = token.kind := congrArg Prod.fst (Option.some.inj munched)
      rw [← kind]
      rfl

/--
As long as the splitter is in step with the lexer, it goes on to find the lines
of the tokens, unless a comment behind an open quotation mark goes over the end
of the line.
-/
theorem Yields.texts_eq_linesBehind_iff
    {lexer : Lexer}
    {tokens : List Token}
    (yields : lexer.Yields tokens)
    (verbatim : Verbatim lexer.rest)
    (literals : ∀ token ∈ tokens, ¬ token.Misleads)
    {region : Region}
    {opened : Bool}
    (inStep : InStep region opened lexer.rest)
    (kept : List Char) :
    texts region kept lexer.rest = linesBehind kept tokens ↔
      commentBehindQuotation opened tokens = false := by
  induction yields generalizing region opened kept with
  | @last lexer after token read ends =>
      obtain ⟨empty, text⟩ := rest_eq_nil_of_endOfInput read ends
      have inLine : token.kind ≠ .newline := by simp [ends]
      have noComment : token.spansLines = false := by simp [Token.spansLines, ends]
      rw [empty, linesBehind_cons kept inLine, text, texts_nil]
      simp [linesBehind_nil, commentBehindQuotation, inLine, noComment]
  | @step lexer after token tokens read continues rest inductionHypothesis =>
      have ends := isLineEnd_of_head? read
      obtain ⟨length, munched, spelled, _, rfl⟩ := next_eq_ok read
      have spells := spells_of_munch verbatim munched
      have characters : lexer.rest.take length = token.text.toList := by
        rw [spelled, String.toList_ofList]
      have whole : lexer.rest = token.text.toList ++ lexer.rest.drop length := by
        rw [← characters, List.take_append_drop]
      rw [List.forall_mem_cons] at literals
      rw [skip] at inductionHypothesis
      rw [characters] at spells
      generalize lexer.rest.drop length = back at spells whole inductionHypothesis
      rw [whole] at verbatim inStep ends ⊢
      by_cases feed : token.kind = .newline
      · have single : token.text.toList = ['\n'] := by
          rw [feed] at spells
          exact spells.eq_newline
        rw [single, List.singleton_append, texts_feed inStep.ne_blockComment,
          linesBehind_newline kept feed, commentBehindQuotation, if_pos feed, List.cons.injEq]
        simp only [true_and]
        exact inductionHypothesis verbatim.right literals.2 (inStep_code _) []
      · have inLine := isLineEnd_eq_false feed continues
        rw [linesBehind_cons kept feed, commentBehindQuotation, if_neg feed]
        rcases exists_texts_or_splits kept spells verbatim inLine literals.1 inStep ends with
          ⟨same, later, passed, inStepLater⟩ | ⟨splits, first, others, lines, shorter⟩
        · rw [passed, same, Bool.false_or]
          exact inductionHypothesis verbatim.right literals.2 inStepLater _
        · -- The comment is one token for the lexer, but its first line is too short for it.
          rw [splits, Bool.true_or, lines]
          simp only [Bool.true_eq_false, iff_false]
          intro equal
          have longer := le_length_of_linesBehind equal.symm
          rw [List.length_append, List.length_reverse, String.length_toList] at longer
          omega

end Lexer

/--
Where nothing is spliced or escaped, and no character literal looks like the
start of a string literal or of a comment, the logical lines of a text are the
texts between the line feeds of its tokens if and only if no comment that stands
behind an open quotation mark goes over the end of the line.
-/
theorem map_text_logicalLines_eq_lineTexts_iff
    {source : String}
    {file : FileId}
    {line : UInt32}
    {tokens : List Token}
    (verbatim : Verbatim source.toList)
    (lexed : tokenize source file line = .ok tokens)
    (literals : ∀ token ∈ tokens, ¬ token.Misleads) :
    (logicalLines source).map LogicalLine.text = lineTexts tokens ↔
      commentBehindQuotation false tokens = false := by
  have yields := Lexer.yields_of_tokens _ lexed
  rw [map_text_logicalLines]
  have agreement := yields.texts_eq_linesBehind_iff verbatim literals
    (LogicalLine.inStep_code _) []
  rwa [linesBehind_start] at agreement

/-- A comment over two lines, and a quotation mark that is left open behind it. -/
theorem map_text_logicalLines_eq_lineTexts_iff_two_lines :
    let source := "\"a\" /* b\nc */ 'd' // \"e\nf \"g\n\n"
    ∃ tokens, tokenize source 0 1 = .ok tokens ∧ Verbatim source.toList ∧
      (∀ token ∈ tokens, ¬ token.Misleads) ∧ tokens.any Token.spansLines = true ∧
      tokens.any Token.isOpenQuotation = true ∧
      ((logicalLines source).map LogicalLine.text = lineTexts tokens ↔
        commentBehindQuotation false tokens = false) := by
  intro source
  have verbatim : Verbatim source.toList := ⟨by decide, by decide⟩
  have read : (tokenize source 0 1).toOption.any (fun tokens =>
      tokens.all (fun token => !decide token.Misleads) && tokens.any Token.spansLines &&
        tokens.any Token.isOpenQuotation) = true := by
    decide +kernel
  cases lexed : tokenize source 0 1 with
  | error fault => simp [lexed, Except.toOption] at read
  | ok tokens =>
      simp only [lexed, Except.toOption, Option.any_some, Bool.and_eq_true, List.all_eq_true,
        Bool.not_eq_true', decide_eq_false_iff_not] at read
      obtain ⟨⟨literals, spans⟩, opens⟩ := read
      exact ⟨tokens, rfl, verbatim, literals, spans, opens,
        map_text_logicalLines_eq_lineTexts_iff verbatim lexed literals⟩

/--
A quotation mark in a character literal opens a string for the splitter, which
then cuts the comment behind it.  So does a quotation mark that is not closed.
-/
theorem map_text_logicalLines_ne_lineTexts :
    let inCharacter := "'\"' /* a\nb */\n"
    let unclosed := "\" /* a\nb */\n"
    (Verbatim inCharacter.toList ∧
      (tokenize inCharacter 0 1).toOption.map lineTexts = some ["'\"' /* a\nb */"] ∧
      (logicalLines inCharacter).map LogicalLine.text = ["'\"' /* a", "b */"]) ∧
    (Verbatim unclosed.toList ∧
      (tokenize unclosed 0 1).toOption.map lineTexts = some ["\" /* a\nb */"] ∧
      (logicalLines unclosed).map LogicalLine.text = ["\" /* a", "b */"]) := by
  refine ⟨⟨⟨by decide, by decide⟩, ?_⟩, ⟨by decide, by decide⟩, ?_⟩ <;> decide +kernel

end PreprocessorSyntax
