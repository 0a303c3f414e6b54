import PreprocessorSyntax.Proofs.Line.Isolation
import PreprocessorSyntax.Proofs.MacroDefinition.Lines

/-!
# How a replacement list is cut

Which element of a replacement list a token belongs to can be told from the
tokens around it.  A number sign with a name behind it stringizes the name.  It
takes along an encoding prefix that stands directly before it, unless this
prefix is the name that an earlier number sign stringizes.  Every other content
token is an element of its own.
-/

namespace PreprocessorSyntax

/-- A name that may stand as an encoding prefix. -/
def Token.isEncodingPrefix (token : Token) : Bool :=
  token.isIdentifier && (EncodingPrefix.ofSpelling? token.text).isSome

/-- Whether a number sign is the last of some tokens, but for white space and comments. -/
def awaitsName (front : List Token) : Bool :=
  (front.filter Token.isContent).getLast?.any (Token.isPunctuator .hash)

/-- Whether a name is the first of some tokens, but for white space and comments. -/
def startsWithName (behind : List Token) : Bool :=
  (behind.filter Token.isContent).head?.any Token.isIdentifier

/-- The encoding prefix that a number sign behind some tokens takes along. -/
def encodingBefore (front : List Token) : List Token :=
  (front.getLast?.filter fun encoding =>
    encoding.isEncodingPrefix && !awaitsName front.dropLast).toList

/-- White space and comments, and the token behind them. -/
def throughContent (behind : List Token) : List Token :=
  behind.takeWhile Token.isTrivia ++ (behind.dropWhile Token.isTrivia).take 1

/--
The element of a token between other tokens: its rule, and what it holds in front
of the token and behind it.
-/
inductive Belongs (front : List Token) (token : Token) (behind : List Token) :
    Rule → List Token → List Token → Prop
  | numberSign
      (isHash : token.isPunctuator .hash = true)
      (named : startsWithName behind = true) :
      Belongs front token behind .stringizing (encodingBefore front) (throughContent behind)
  | operand
      {held : List Token}
      (isName : token.isIdentifier = true)
      (awaited : awaitsName front = true) :
      Belongs front token behind .stringizing held []
  | encoding
      {hash : Token} {more tail : List Token}
      (isPrefix : token.isEncodingPrefix = true)
      (stands : behind = hash :: more)
      (isHash : hash.isPunctuator .hash = true)
      (named : startsWithName more = true) :
      Belongs front token behind .stringizing [] tail
  | pasting
      (pastes : token.isPunctuator .hashHash = true) :
      Belongs front token behind .tokenPasting [] []
  | single
      (noPasting : token.isPunctuator .hashHash = false)
      (noSign : token.isPunctuator .hash = true → startsWithName behind = false)
      (noOperand : token.isIdentifier = true → awaitsName front = false)
      (noPrefix : token.isEncodingPrefix = true → ∀ hash more, behind = hash :: more →
        hash.isPunctuator .hash = true → startsWithName more = false) :
      Belongs front token behind .ppToken [] []

section Contexts

variable {front tokens blanks : List Token} {token : Token}

theorem awaitsName_append_content (isContent : token.isContent = true) :
    awaitsName (front ++ [token]) = token.isPunctuator .hash := by
  simp [awaitsName, isContent]

theorem awaitsName_append_blanks (trivial : ∀ token ∈ blanks, token.isTrivia = true) :
    awaitsName (front ++ blanks) = awaitsName front := by
  rw [awaitsName, List.filter_append, filter_isContent_eq_nil trivial, List.append_nil, awaitsName]

theorem startsWithName_blank (trivial : token.isTrivia = true) :
    startsWithName (token :: tokens) = startsWithName tokens := by
  rw [startsWithName, List.filter_cons_of_neg (by simp [isContent_eq_false_of_isTrivia trivial]),
    startsWithName]

theorem startsWithName_content (isContent : token.isContent = true) :
    startsWithName (token :: tokens) = token.isIdentifier := by
  rw [startsWithName, List.filter_cons_of_pos isContent]
  rfl

theorem encodingBefore_append (front : List Token) (token : Token) :
    encodingBefore (front ++ [token]) =
      if token.isEncodingPrefix && !awaitsName front then [token] else [] := by
  rw [encodingBefore, List.getLast?_concat, List.dropLast_concat, Option.filter_some]
  split <;> rfl

/-- In a line, a name comes first behind white space and comments. -/
theorem exists_name_of_startsWithName
    (inLine : InLine tokens)
    (named : startsWithName tokens = true) :
    ∃ blanks name more, tokens = blanks ++ name :: more ∧
      (∀ token ∈ blanks, token.isTrivia = true) ∧ name.isIdentifier = true := by
  obtain ⟨name, first, isName⟩ := (Option.any_eq_true _ _).1 named
  obtain ⟨content, contents⟩ := List.head?_eq_some_iff.1 first
  obtain ⟨blanks, more, equal, trivial, _⟩ := inLine.exists_of_filter_eq_cons contents
  exact ⟨blanks, name, more, equal, trivial, isName⟩

theorem startsWithName_append_name
    (trivial : ∀ token ∈ blanks, token.isTrivia = true)
    (isName : token.isIdentifier = true) :
    startsWithName (blanks ++ token :: tokens) = true := by
  rw [startsWithName, List.filter_append, filter_isContent_eq_nil trivial, List.nil_append,
    List.filter_cons_of_pos (Token.isContent_of_isIdentifier isName)]
  exact isName

theorem throughContent_append
    (trivial : ∀ token ∈ blanks, token.isTrivia = true)
    (notTrivia : token.isTrivia = false) :
    throughContent (blanks ++ token :: tokens) = blanks ++ [token] := by
  rw [throughContent, List.takeWhile_append_of_pos trivial, List.dropWhile_append_of_pos trivial]
  simp [notTrivia]

end Contexts

/--
The place between two elements: no name behind it is awaited in front of it, and
no encoding prefix in front of it belongs to a number sign behind it.
-/
structure Settled (front behind : List Token) : Prop where
  operand : awaitsName front = true → startsWithName behind = false
  encoding : ∀ hash more, behind = hash :: more → hash.isPunctuator .hash = true →
    startsWithName more = true → encodingBefore front = []

namespace Settled

variable {before front line tokens : List Token} {token : Token}

theorem nil (line : List Token) : Settled [] line where
  operand awaited := by cases awaited
  encoding _ _ _ _ _ := rfl

theorem trivia
    (settled : Settled before (token :: tokens))
    (trivial : token.isTrivia = true) :
    Settled (before ++ [token]) tokens where
  operand awaited := by
    rw [awaitsName_append_blanks (by simpa using trivial)] at awaited
    rw [← startsWithName_blank trivial]
    exact settled.operand awaited
  encoding hash more _ _ _ := by
    have noPrefix : token.isEncodingPrefix = false := by
      cases isPrefix : token.isEncodingPrefix with
      | false => rfl
      | true =>
          have notTrivia := Token.isTrivia_of_isIdentifier (Bool.and_eq_true_iff.1 isPrefix).1
          rw [trivial] at notTrivia
          cases notTrivia
    rw [encodingBefore_append, noPrefix]
    rfl

/-- Behind the name that it stringizes, an operator has ended. -/
theorem behind_name
    {name : Token}
    (isName : name.isIdentifier = true)
    (awaited : awaitsName before = true) :
    Settled (before ++ [name]) tokens where
  operand again := by
    have isHash : name.isPunctuator .hash = true := by
      rwa [awaitsName_append_content (Token.isContent_of_isIdentifier isName)] at again
    rw [Token.isIdentifier_of_isPunctuator isHash] at isName
    cases isName
  encoding _ _ _ _ _ := by simp [encodingBefore_append, awaited]

theorem awaitsName_numberSign
    {hash : Token} {blanks : List Token}
    (isHash : hash.isPunctuator .hash = true)
    (trivial : ∀ token ∈ blanks, token.isTrivia = true)
    (before : List Token) :
    awaitsName (before ++ hash :: blanks) = true := by
  have parts : before ++ hash :: blanks = before ++ [hash] ++ blanks := by simp
  rw [parts, awaitsName_append_blanks trivial,
    awaitsName_append_content (Token.isContent_of_isPunctuator isHash), isHash]

/-- Elements settle what is behind them. -/
theorem element
    {rule : Rule}
    (writes : WritesElement rule front tokens)
    (inLine : InLine tokens)
    (before : List Token) :
    Settled (before ++ front) tokens := by
  cases writes with
  | stringizing writes =>
      cases writes with
      | @plain hash name blanks isHash trivial isName =>
          have settled : Settled (before ++ hash :: blanks ++ [name]) tokens :=
            behind_name isName (awaitsName_numberSign isHash trivial before)
          simpa using settled
      | @prefixed encoding hash name blanks isPrefix isHash trivial isName =>
          have settled : Settled (before ++ [encoding] ++ hash :: blanks ++ [name]) tokens :=
            behind_name isName (awaitsName_numberSign isHash trivial _)
          simpa using settled
  | @tokenPasting token _ pastes =>
      constructor
      · intro awaited
        rw [awaitsName_append_content (Token.isContent_of_isPunctuator pastes),
          Token.isPunctuator_eq_false pastes (by decide)] at awaited
        cases awaited
      · intro hash more _ _ _
        rw [encodingBefore_append, Token.isEncodingPrefix,
          Token.isIdentifier_of_isPunctuator pastes]
        rfl
  | @ppToken token _ isContent noPasting unwritten =>
      constructor
      · intro awaited
        rw [awaitsName_append_content isContent] at awaited
        rw [Bool.eq_false_iff]
        intro named
        obtain ⟨blanks, name, more, rfl, trivial, isName⟩ :=
          exists_name_of_startsWithName inLine named
        exact unwritten (token :: (blanks ++ [name])) more (by simp)
          (.plain awaited trivial isName)
      · rintro hash more rfl isHash named
        obtain ⟨blanks, name, more, rfl, trivial, isName⟩ :=
          exists_name_of_startsWithName (InLine.cons_iff.1 inLine).2 named
        rw [encodingBefore_append]
        split
        next taken =>
            have isPrefix := (Bool.and_eq_true_iff.1 taken).1
            exact absurd (.prefixed isPrefix isHash trivial isName)
              (unwritten (token :: hash :: (blanks ++ [name])) more (by simp))
        next => rfl

end Settled

section Elements

variable {before front tokens held tail blanks : List Token} {token name : Token} {rule : Rule}
variable {trees : List Tree}

/-- Behind white space and comments, there is no content in front of a name. -/
theorem eq_of_blanks_append
    (trivial : ∀ token ∈ blanks, token.isTrivia = true)
    (isContent : token.isContent = true)
    (parts : blanks ++ [name] = held ++ token :: tail) :
    held = blanks ∧ token = name ∧ tail = [] := by
  induction blanks generalizing held with
  | nil =>
      obtain ⟨rfl, last⟩ := List.singleton_eq_append_iff.1 parts |>.resolve_right (by simp)
      simpa using last
  | cons blank blanks inductionHypothesis =>
      obtain ⟨blankTrivial, others⟩ := List.forall_mem_cons.1 trivial
      cases held with
      | nil =>
          cases parts
          rw [isContent_eq_false_of_isTrivia blankTrivial] at isContent
          cases isContent
      | cons first held =>
          rw [List.cons_append, List.cons_append, List.cons.injEq] at parts
          obtain ⟨rfl, parts⟩ := parts
          obtain ⟨rfl, rfl, rfl⟩ := inductionHypothesis others parts
          exact ⟨rfl, rfl, rfl⟩

/-- From its number sign on, a stringizing operator holds the sign and the name. -/
theorem belongs_of_numberSign
    {hash : Token}
    (isHash : hash.isPunctuator .hash = true)
    (trivial : ∀ token ∈ blanks, token.isTrivia = true)
    (isName : name.isIdentifier = true)
    (isContent : token.isContent = true)
    (parts : hash :: (blanks ++ [name]) = held ++ token :: tail) :
    Belongs (before ++ held) token (tail ++ tokens) .stringizing
      (encodingBefore before ++ held) tail := by
  cases held with
  | nil =>
      obtain ⟨rfl, rfl⟩ := List.cons.inj parts
      have named : startsWithName (blanks ++ name :: tokens) = true :=
        startsWithName_append_name trivial isName
      have through : throughContent (blanks ++ name :: tokens) = blanks ++ [name] :=
        throughContent_append trivial (Token.isTrivia_of_isIdentifier isName)
      have sign : Belongs before hash (blanks ++ name :: tokens) .stringizing
          (encodingBefore before) (throughContent (blanks ++ name :: tokens)) :=
        .numberSign isHash named
      rw [through] at sign
      simpa using sign
  | cons first held =>
      rw [List.cons_append, List.cons.injEq] at parts
      obtain ⟨rfl, parts⟩ := parts
      obtain ⟨rfl, rfl, rfl⟩ := eq_of_blanks_append trivial isContent parts
      exact .operand isName (Settled.awaitsName_numberSign isHash trivial before)

/-- A content token of an element belongs to it. -/
theorem WritesElement.belongs
    (writes : WritesElement rule front tokens)
    (inLine : InLine tokens)
    (settled : Settled before (front ++ tokens))
    (isContent : token.isContent = true)
    (parts : front = held ++ token :: tail) :
    Belongs (before ++ held) token (tail ++ tokens) rule held tail := by
  cases writes with
  | stringizing writes =>
      cases writes with
      | @plain hash name blanks isHash trivial isName =>
          have unprefixed : encodingBefore before = [] :=
            settled.encoding hash (blanks ++ [name] ++ tokens) rfl isHash (by
              rw [List.append_assoc]
              exact startsWithName_append_name trivial isName)
          have belongs : Belongs (before ++ held) token (tail ++ tokens) .stringizing
              (encodingBefore before ++ held) tail :=
            belongs_of_numberSign isHash trivial isName isContent parts
          rwa [unprefixed, List.nil_append] at belongs
      | @prefixed encoding hash name blanks isPrefix isHash trivial isName =>
          have isWord := (Bool.and_eq_true_iff.1 isPrefix).1
          have notAwaited : awaitsName before = false := by
            rw [Bool.eq_false_iff]
            intro awaited
            have unnamed := settled.operand awaited
            rw [List.cons_append, startsWithName_content (Token.isContent_of_isIdentifier isWord),
              isWord] at unnamed
            cases unnamed
          cases held with
          | nil =>
              obtain ⟨rfl, rfl⟩ := List.cons.inj parts
              have named : startsWithName (blanks ++ name :: tokens) = true :=
                startsWithName_append_name trivial isName
              exact .encoding isPrefix rfl isHash (by simpa using named)
          | cons first held =>
              rw [List.cons_append, List.cons.injEq] at parts
              obtain ⟨rfl, parts⟩ := parts
              have taken : encodingBefore (before ++ [encoding]) = [encoding] := by
                rw [encodingBefore_append, notAwaited, Token.isEncodingPrefix, isPrefix]
                rfl
              have belongs : Belongs (before ++ [encoding] ++ held) token (tail ++ tokens)
                  .stringizing (encodingBefore (before ++ [encoding]) ++ held) tail :=
                belongs_of_numberSign isHash trivial isName isContent parts
              rw [taken] at belongs
              simpa using belongs
  | tokenPasting pastes =>
      obtain ⟨rfl, last⟩ := List.singleton_eq_append_iff.1 parts |>.resolve_right (by simp)
      obtain ⟨rfl, rfl⟩ := List.cons.inj last
      exact .pasting pastes
  | @ppToken single _ _ noPasting unwritten =>
      obtain ⟨rfl, last⟩ := List.singleton_eq_append_iff.1 parts |>.resolve_right (by simp)
      obtain ⟨rfl, rfl⟩ := List.cons.inj last
      rw [List.append_nil, List.nil_append]
      refine .single noPasting (fun isHash => ?_) (fun isName => ?_) ?_
      · rw [Bool.eq_false_iff]
        intro named
        obtain ⟨blanks, name, more, rfl, trivial, isName⟩ :=
          exists_name_of_startsWithName inLine named
        exact unwritten (token :: (blanks ++ [name])) more (by simp) (.plain isHash trivial isName)
      · rw [Bool.eq_false_iff]
        intro awaited
        have unnamed := settled.operand awaited
        rw [List.singleton_append, startsWithName_content isContent, isName] at unnamed
        cases unnamed
      · rintro isPrefix hash more rfl isHash
        rw [Bool.eq_false_iff]
        intro named
        obtain ⟨blanks, name, more, rfl, trivial, isName⟩ :=
          exists_name_of_startsWithName (InLine.cons_iff.1 inLine).2 named
        exact unwritten (token :: hash :: (blanks ++ [name])) more (by simp)
          (.prefixed isPrefix isHash trivial isName)

/-- Every content token is found in the element that it belongs to. -/
theorem Segmented.exists_belongs
    (segmented : Segmented tokens trees)
    (inLine : InLine tokens)
    {before : List Token}
    (settled : Settled before tokens)
    {front behind : List Token}
    (isContent : token.isContent = true)
    (parts : tokens = front ++ token :: behind) :
    ∃ rule held tail earlier later, Belongs (before ++ front) token behind rule held tail ∧
      trees = earlier ++ .node rule ((held ++ token :: tail).map .leaf) :: later ∧
      Tree.tokensOf earlier ++ held = front := by
  induction segmented generalizing before front with
  | nil => simp at parts
  | @trivia blank tokens trees trivial further inductionHypothesis =>
      cases front with
      | nil =>
          obtain ⟨rfl, rfl⟩ := List.cons.inj parts
          rw [isContent_eq_false_of_isTrivia trivial] at isContent
          cases isContent
      | cons first front =>
          obtain ⟨rfl, partsBehind⟩ := List.cons.inj parts
          obtain ⟨rule, held, tail, earlier, later, belongs, rfl, rfl⟩ :=
            inductionHypothesis (InLine.cons_iff.1 inLine).2 (settled.trivia trivial) partsBehind
          refine ⟨rule, held, tail, .leaf blank :: earlier, later, ?_, rfl, by simp⟩
          simpa using belongs
  | @element rule written tokens trees writes further inductionHypothesis =>
      have inLineBehind := (InLine.append_iff.1 inLine).2
      have behindElement {inner : List Token} (equal : front = written ++ inner)
          (partsBehind : tokens = inner ++ token :: behind) :
          ∃ found held tail earlier later, Belongs (before ++ front) token behind found held tail ∧
            Tree.node rule (written.map .leaf) :: trees =
              earlier ++ .node found ((held ++ token :: tail).map .leaf) :: later ∧
            Tree.tokensOf earlier ++ held = front := by
        obtain ⟨found, held, tail, earlier, later, belongs, rfl, rfl⟩ :=
          inductionHypothesis inLineBehind (Settled.element writes inLineBehind before) partsBehind
        refine ⟨found, held, tail, .node rule (written.map .leaf) :: earlier, later, ?_, rfl, ?_⟩
        · simpa [equal] using belongs
        · simp [equal]
      rcases List.append_eq_append_iff.1 parts with
        ⟨inner, equal, partsBehind⟩ | ⟨inner, equal, partsBehind⟩
      · exact behindElement equal partsBehind
      · cases inner with
        | nil =>
            have whole : front = written ++ [] := by simpa using equal.symm
            exact behindElement whole partsBehind.symm
        | cons first inner =>
            obtain ⟨rfl, rfl⟩ := List.cons.inj partsBehind
            subst equal
            exact ⟨rule, front, inner, [], trees,
              writes.belongs inLineBehind settled isContent rfl, rfl, rfl⟩

/-- Leaves beside the elements are white space and comments. -/
theorem Segmented.isTrivia_of_leaf
    (segmented : Segmented tokens trees)
    (present : .leaf token ∈ trees) :
    token.isTrivia = true := by
  induction segmented with
  | nil => cases present
  | trivia trivial _ inductionHypothesis =>
      rcases List.mem_cons.1 present with here | further
      · cases here
        exact trivial
      · exact inductionHypothesis further
  | element _ _ inductionHypothesis =>
      exact inductionHypothesis ((List.mem_cons.1 present).resolve_left nofun)

/-- Nodes hold content. -/
theorem Segmented.exists_content
    {children : List Tree}
    (segmented : Segmented tokens trees)
    (present : .node rule children ∈ trees) :
    ∃ token ∈ Tree.tokensOf children, token.isContent = true := by
  induction segmented with
  | nil => cases present
  | trivia _ _ inductionHypothesis =>
      exact inductionHypothesis ((List.mem_cons.1 present).resolve_left nofun)
  | element writes _ inductionHypothesis =>
      rcases List.mem_cons.1 present with here | further
      · cases here
        obtain ⟨first, more, rfl, isContent⟩ := writes.exists_content
        exact ⟨first, by simp, isContent⟩
      · exact inductionHypothesis further

end Elements

/--
The trees of a replacement list share out the content of its line.  A number sign
with a name behind it is stringized together with the name and, where there is
one for it, its encoding prefix; a sign that pastes and any other content token
are elements of their own; and there is nothing else in the trees but white space
and comments.
-/
structure CutIntoElements (line : List Token) (trees : List Tree) : Prop where
  tokensOf : Tree.tokensOf trees = line
  isTrivia : ∀ token, .leaf token ∈ trees → token.isTrivia = true
  exists_content : ∀ rule children, .node rule children ∈ trees →
    ∃ token ∈ Tree.tokensOf children, token.isContent = true
  stringizing : ∀ front hash blanks name behind,
    line = front ++ hash :: (blanks ++ name :: behind) → hash.isPunctuator .hash = true →
    (∀ token ∈ blanks, token.isTrivia = true) → name.isIdentifier = true →
    ∃ earlier later, trees = earlier ++ .node .stringizing
        ((encodingBefore front ++ hash :: (blanks ++ [name])).map .leaf) :: later ∧
      Tree.tokensOf earlier ++ encodingBefore front = front
  tokenPasting : ∀ front token behind,
    line = front ++ token :: behind → token.isPunctuator .hashHash = true →
    ∃ earlier later, trees = earlier ++ .node .tokenPasting [.leaf token] :: later ∧
      Tree.tokensOf earlier = front
  ppToken : ∀ front token behind,
    line = front ++ token :: behind → token.isContent = true →
    token.isPunctuator .hashHash = false →
    (token.isPunctuator .hash = true → startsWithName behind = false) →
    (token.isIdentifier = true → awaitsName front = false) →
    (token.isEncodingPrefix = true → ∀ hash more, behind = hash :: more →
      hash.isPunctuator .hash = true → startsWithName more = false) →
    ∃ earlier later, trees = earlier ++ .node .ppToken [.leaf token] :: later ∧
      Tree.tokensOf earlier = front

namespace Belongs

variable {front behind held tail : List Token} {token : Token} {rule : Rule}

/-- A number sign with a name behind it stringizes this name. -/
theorem of_numberSign
    (belongs : Belongs front token behind rule held tail)
    (isHash : token.isPunctuator .hash = true)
    (named : startsWithName behind = true) :
    rule = .stringizing ∧ held = encodingBefore front ∧ tail = throughContent behind := by
  have noName := Token.isIdentifier_of_isPunctuator isHash
  cases belongs with
  | numberSign => exact ⟨rfl, rfl, rfl⟩
  | operand isName => simp [isName] at noName
  | encoding isPrefix =>
      simp [(Bool.and_eq_true_iff.1 isPrefix).1] at noName
  | pasting pastes => simp [Token.isPunctuator_eq_false pastes] at isHash
  | single _ noSign => simp [noSign isHash] at named

theorem of_pasting
    (belongs : Belongs front token behind rule held tail)
    (pastes : token.isPunctuator .hashHash = true) :
    rule = .tokenPasting ∧ held = [] ∧ tail = [] := by
  have noName := Token.isIdentifier_of_isPunctuator pastes
  cases belongs with
  | numberSign isHash => simp [Token.isPunctuator_eq_false isHash] at pastes
  | operand isName => simp [isName] at noName
  | encoding isPrefix =>
      simp [(Bool.and_eq_true_iff.1 isPrefix).1] at noName
  | pasting => exact ⟨rfl, rfl, rfl⟩
  | single noPasting => simp [noPasting] at pastes

theorem of_single
    (belongs : Belongs front token behind rule held tail)
    (noPasting : token.isPunctuator .hashHash = false)
    (noSign : token.isPunctuator .hash = true → startsWithName behind = false)
    (noOperand : token.isIdentifier = true → awaitsName front = false)
    (noPrefix : token.isEncodingPrefix = true → ∀ hash more, behind = hash :: more →
      hash.isPunctuator .hash = true → startsWithName more = false) :
    rule = .ppToken ∧ held = [] ∧ tail = [] := by
  cases belongs with
  | numberSign isHash named => simp [noSign isHash] at named
  | operand isName awaited => simp [noOperand isName] at awaited
  | encoding isPrefix stands isHash named =>
      simp [noPrefix isPrefix _ _ stands isHash] at named
  | pasting pastes => simp [noPasting] at pastes
  | single => exact ⟨rfl, rfl, rfl⟩

end Belongs

theorem Segmented.cutIntoElements
    {line : List Token}
    {trees : List Tree}
    (segmented : Segmented line trees)
    (inLine : InLine line) :
    CutIntoElements line trees where
  tokensOf := segmented.tokensOf
  isTrivia _ := segmented.isTrivia_of_leaf
  exists_content _ _ := segmented.exists_content
  stringizing front hash blanks name behind parts isHash trivial isName := by
    obtain ⟨rule, held, tail, earlier, later, belongs, whole, before⟩ :=
      segmented.exists_belongs inLine (.nil line) (Token.isContent_of_isPunctuator isHash) parts
    obtain ⟨rfl, rfl, rfl⟩ :=
      belongs.of_numberSign isHash (startsWithName_append_name trivial isName)
    rw [throughContent_append trivial (Token.isTrivia_of_isIdentifier isName)] at whole
    exact ⟨earlier, later, whole, before⟩
  tokenPasting front token behind parts pastes := by
    obtain ⟨rule, held, tail, earlier, later, belongs, whole, before⟩ :=
      segmented.exists_belongs inLine (.nil line) (Token.isContent_of_isPunctuator pastes) parts
    obtain ⟨rfl, rfl, rfl⟩ := belongs.of_pasting pastes
    exact ⟨earlier, later, whole, by simpa using before⟩
  ppToken front token behind parts isContent noPasting noSign noOperand noPrefix := by
    obtain ⟨rule, held, tail, earlier, later, belongs, whole, before⟩ :=
      segmented.exists_belongs inLine (.nil line) isContent parts
    obtain ⟨rfl, rfl, rfl⟩ := belongs.of_single noPasting noSign noOperand noPrefix
    exact ⟨earlier, later, whole, by simpa using before⟩

end PreprocessorSyntax
