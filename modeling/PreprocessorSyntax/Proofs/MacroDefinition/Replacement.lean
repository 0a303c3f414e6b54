import PreprocessorSyntax.Proofs.MacroDefinition.Parameters

/-!
# Replacement lists

The elements of a replacement list are found from left to right: a stringizing
operator where a number sign has a name behind it, and a single token elsewhere.
So the list always reaches up to the last content token, and what elements it
has can be told from its content alone.
-/

namespace PreprocessorSyntax

/-- Whether some number sign has a name behind it. -/
def stringizes : List Token → Bool
  | [] => false
  | token :: tokens =>
    token.isPunctuator .hash && tokens.head?.any Token.isIdentifier || stringizes tokens

/-- The tokens of a stringizing operator. -/
inductive WritesStringizing : List Token → Prop
  | plain
      {hash name : Token} {blanks : List Token}
      (isHash : hash.isPunctuator .hash = true)
      (trivial : ∀ token ∈ blanks, token.isTrivia = true)
      (isName : name.isIdentifier = true) :
      WritesStringizing (hash :: (blanks ++ [name]))
  | prefixed
      {encoding hash name : Token} {blanks : List Token}
      (isPrefix :
        (encoding.isIdentifier && (EncodingPrefix.ofSpelling? encoding.text).isSome) = true)
      (isHash : hash.isPunctuator .hash = true)
      (trivial : ∀ token ∈ blanks, token.isTrivia = true)
      (isName : name.isIdentifier = true) :
      WritesStringizing (encoding :: hash :: (blanks ++ [name]))

/-- An element in front of further tokens, and the rule that reads it. -/
inductive WritesElement : Rule → List Token → List Token → Prop
  | stringizing
      {tokens behind : List Token}
      (writes : WritesStringizing tokens) :
      WritesElement .stringizing tokens behind
  | tokenPasting
      {token : Token} {behind : List Token}
      (pastes : token.isPunctuator .hashHash = true) :
      WritesElement .tokenPasting [token] behind
  | ppToken
      {token : Token} {behind : List Token}
      (isContent : token.isContent = true)
      (noPasting : token.isPunctuator .hashHash = false)
      (unwritten : ∀ front rest, token :: behind = front ++ rest → ¬ WritesStringizing front) :
      WritesElement .ppToken [token] behind

/-- Trees that cut tokens into elements with white space and comments around them. -/
inductive Segmented : List Token → List Tree → Prop
  | nil : Segmented [] []
  | trivia
      {token : Token} {tokens : List Token} {trees : List Tree}
      (trivial : token.isTrivia = true)
      (further : Segmented tokens trees) :
      Segmented (token :: tokens) (.leaf token :: trees)
  | element
      {rule : Rule} {front tokens : List Token} {trees : List Tree}
      (writes : WritesElement rule front tokens)
      (further : Segmented tokens trees) :
      Segmented (front ++ tokens) (.node rule (front.map .leaf) :: trees)

/-- What a replacement list says is told by some content tokens. -/
structure Replaces (list : Node) (content : List Token) : Prop where
  significantTokens : list.significantTokens = content
  stringizing : (list.child? .stringizing).isSome = stringizes content
  tokenPasting : (list.child? .tokenPasting).isSome = content.any (Token.isPunctuator .hashHash)

section Content

variable {token : Token} {tokens front behind : List Token}

/-- A stringizing operator stringizes. -/
theorem WritesStringizing.stringizes
    (writes : WritesStringizing front)
    (behind : List Token) :
    stringizes ((front ++ behind).filter Token.isContent) = true := by
  cases writes with
  | plain isHash trivial isName =>
      simp [PreprocessorSyntax.stringizes, Token.isContent_of_isPunctuator isHash,
        filter_isContent_eq_nil trivial, Token.isContent_of_isIdentifier isName, isHash, isName]
  | prefixed isPrefix isHash trivial isName =>
      have isContent := Token.isContent_of_isIdentifier (Bool.and_eq_true_iff.1 isPrefix).1
      simp [PreprocessorSyntax.stringizes, isContent, Token.isContent_of_isPunctuator isHash,
        filter_isContent_eq_nil trivial, Token.isContent_of_isIdentifier isName, isHash, isName]

/-- There is no token pasting in it. -/
theorem WritesStringizing.isPunctuator_hashHash (writes : WritesStringizing front) :
    ∀ token ∈ front, token.isPunctuator .hashHash = false := by
  have tail {hash name : Token} {blanks : List Token} (isHash : hash.isPunctuator .hash = true)
      (trivial : ∀ token ∈ blanks, token.isTrivia = true) (isName : name.isIdentifier = true) :
      ∀ token ∈ hash :: (blanks ++ [name]), token.isPunctuator .hashHash = false := by
    intro token present
    cases pastes : token.isPunctuator .hashHash with
    | false => rfl
    | true =>
        have kind := Token.kind_of_isPunctuator pastes
        simp only [List.mem_cons, List.mem_append, List.not_mem_nil, or_false] at present
        rcases present with rfl | skipped | rfl
        · rw [Token.kind_of_isPunctuator isHash] at kind
          cases kind
        · have notTrivia := Token.isTrivia_of_isPunctuator pastes
          rw [trivial token skipped] at notTrivia
          cases notTrivia
        · rw [Token.kind_of_isIdentifier isName] at kind
          cases kind
  cases writes with
  | plain isHash trivial isName => exact tail isHash trivial isName
  | prefixed isPrefix isHash trivial isName =>
      refine List.forall_mem_cons.2 ⟨?_, tail isHash trivial isName⟩
      have isWord := (Bool.and_eq_true_iff.1 isPrefix).1
      simp [Token.isPunctuator, Token.kind_of_isIdentifier isWord]

/-- Where no stringizing operator is written, the first token makes no difference. -/
theorem stringizes_cons
    (inLine : InLine tokens)
    (unwritten : ∀ front behind, token :: tokens = front ++ behind → ¬ WritesStringizing front) :
    stringizes (token :: tokens.filter Token.isContent) =
      stringizes (tokens.filter Token.isContent) := by
  rw [stringizes]
  cases isHash : token.isPunctuator .hash with
  | false => rfl
  | true =>
      cases contents : tokens.filter Token.isContent with
      | nil => rfl
      | cons name content =>
          cases isName : name.isIdentifier with
          | false => simp [isName]
          | true =>
              obtain ⟨blanks, behind, rfl, trivial, _, _⟩ :=
                inLine.exists_of_filter_eq_cons contents
              exact absurd (WritesStringizing.plain isHash trivial isName)
                (unwritten _ behind (by simp))

end Content

/-- An encoding prefix directly in front of a number sign. -/
abbrev Pattern.stringizingPrefix : Pattern :=
  .token (fun found => found.isIdentifier && (EncodingPrefix.ofSpelling? found.text).isSome) ++
    .ahead (fun kind => kind == .punctuator .hash)

namespace Grammar

variable {grammar : Grammar} {token : Token} {tokens rest : List Token}

/-- Behind the end of a line, no content can be read. -/
theorem fails_token_of_ends
    {accepts : Token → Bool}
    (ends : ∀ token ∈ rest.head?, token.isLineEnd = true)
    (content : ∀ token, accepts token = true → token.isContent = true) :
    grammar.Fails (.token accepts) rest := by
  apply fails_token
  intro token first
  cases accepted : accepts token with
  | false => rfl
  | true =>
      have isContent := content token accepted
      simp [Token.isContent, ends token first] at isContent

section Operator

variable {first : Pattern} {front blanks : List Token} {trees : List Tree} {hash name : Token}

/-- A number sign and a name behind what may stand in front of them. -/
theorem reads_numberSign
    (reads : grammar.Reads first front trees ([hash] ++ (blanks ++ ([name] ++ rest))))
    (isHash : hash.isPunctuator .hash = true)
    (trivial : ∀ token ∈ blanks, token.isTrivia = true)
    (isName : name.isIdentifier = true) :
    grammar.Reads (first ++ .symbol .hash ++ .trivia ++ .identifier)
      (front ++ hash :: (blanks ++ [name])) (trees ++ (hash :: (blanks ++ [name])).map .leaf)
      rest := by
  have skipped : grammar.Reads .trivia blanks (blanks.map .leaf) ([name] ++ rest) :=
    reads_trivia trivial (significant_cons (Token.isTrivia_of_isIdentifier isName) rest)
  have named : grammar.Reads .identifier [name] [.leaf name] rest := reads_identifier isName isName
  have whole := ((reads.append (reads_symbol isHash)).append skipped).append named
  simpa using whole

/-- Either a number sign and a name stand there or nothing is read. -/
theorem exists_name_or_fails
    (reads : grammar.Reads first front trees (tokens ++ rest))
    (ends : ∀ token ∈ rest.head?, token.isLineEnd = true) :
    (∃ hash blanks name behind, tokens = hash :: (blanks ++ name :: behind) ∧
        hash.isPunctuator .hash = true ∧ (∀ token ∈ blanks, token.isTrivia = true) ∧
        name.isIdentifier = true) ∨
      grammar.Fails (first ++ .symbol .hash ++ .trivia ++ .identifier)
        (front ++ (tokens ++ rest)) := by
  rcases tokens with _ | ⟨token, tokens⟩
  · have failed : grammar.Fails (.symbol .hash) rest :=
      fails_token_of_ends ends fun _ => Token.isContent_of_isPunctuator
    exact .inr (reads.append_fails failed).append.append
  cases isHash : token.isPunctuator .hash with
  | false => exact .inr (reads.append_fails (fails_token_cons isHash)).append.append
  | true =>
      obtain ⟨blanks, behind, rfl, trivial, significant⟩ := exists_significant tokens
      by_cases named : ∃ name more, behind = name :: more ∧ name.isIdentifier = true
      · obtain ⟨name, more, rfl, isName⟩ := named
        exact .inl ⟨token, blanks, name, more, rfl, isHash, trivial, isName⟩
      · right
        have front : grammar.Reads first front trees ([token] ++ (blanks ++ (behind ++ rest))) := by
          simpa using reads
        have skipped : grammar.Reads .trivia blanks (blanks.map .leaf) (behind ++ rest) :=
          reads_trivia trivial (significant.append_ends ends)
        have failed : grammar.Fails .identifier (behind ++ rest) := by
          cases behind with
          | nil => exact fails_token_of_ends ends fun _ => Token.isContent_of_isIdentifier
          | cons name more =>
              have noName : name.isIdentifier = false := by simpa using named
              exact fails_token_cons noName
        simpa using ((front.append (reads_symbol isHash)).append skipped).append_fails failed

end Operator

/-- What writes a stringizing operator is read as one. -/
theorem reads_stringizing (writes : WritesStringizing tokens) :
    grammar.Reads .stringizing tokens (tokens.map .leaf) rest := by
  cases writes with
  | @plain hash name blanks isHash trivial isName =>
      have unprefixed : grammar.Reads (.optional .stringizingPrefix) [] []
          ([hash] ++ (blanks ++ ([name] ++ rest))) := by
        apply Fails.optional
        apply Fails.append
        apply fails_token_cons
        rw [Token.isIdentifier_of_isPunctuator isHash, Bool.false_and]
      exact reads_numberSign unprefixed isHash trivial isName
  | @prefixed encoding hash name blanks isPrefix isHash trivial isName =>
      have isWord := (Bool.and_eq_true_iff.1 isPrefix).1
      have ahead : grammar.Reads (.ahead (fun kind => kind == .punctuator .hash)) [] []
          ([hash] ++ (blanks ++ ([name] ++ rest))) := by
        apply reads_ahead
        have kind := Token.kind_of_isPunctuator isHash
        rw [List.singleton_append, peekKind_cons (by simp [kind]), kind]
        rfl
      have letter : grammar.Reads (.token fun found =>
          found.isIdentifier && (EncodingPrefix.ofSpelling? found.text).isSome) [encoding]
          [.leaf encoding] ([] ++ ([hash] ++ (blanks ++ ([name] ++ rest)))) :=
        reads_identifier isPrefix isWord
      exact reads_numberSign (letter.append ahead).optional isHash trivial isName

/-- Where none is written, none is read. -/
theorem fails_stringizing
    (ends : ∀ token ∈ rest.head?, token.isLineEnd = true)
    (unwritten : ∀ front behind, tokens = front ++ behind → ¬ WritesStringizing front) :
    grammar.Fails .stringizing (tokens ++ rest) := by
  -- What the encoding prefix leaves is read in the same way whether there is one or not.
  have without (unprefixed : grammar.Fails .stringizingPrefix (tokens ++ rest)) :
      grammar.Fails .stringizing (tokens ++ rest) := by
    have nothing : grammar.Reads (.optional .stringizingPrefix) [] [] (tokens ++ rest) :=
      unprefixed.optional
    rcases exists_name_or_fails nothing ends with
      ⟨hash, blanks, name, behind, rfl, isHash, trivial, isName⟩ | failed
    · exact absurd (WritesStringizing.plain isHash trivial isName) (unwritten _ behind (by simp))
    · exact failed
  rcases tokens with _ | ⟨encoding, tokens⟩
  · refine without (Fails.append (fails_token_of_ends ends fun token accepted => ?_))
    exact Token.isContent_of_isIdentifier (Bool.and_eq_true_iff.1 accepted).1
  cases isPrefix : encoding.isIdentifier && (EncodingPrefix.ofSpelling? encoding.text).isSome with
  | false => exact without (fails_token_cons isPrefix).append
  | true =>
      have letter : grammar.Reads (.token fun found =>
          found.isIdentifier && (EncodingPrefix.ofSpelling? found.text).isSome) [encoding]
          [.leaf encoding] ([] ++ (tokens ++ rest)) :=
        reads_identifier isPrefix (Bool.and_eq_true_iff.1 isPrefix).1
      cases hashed : (Cursor.ofTokens (tokens ++ rest)).peekKind == .punctuator .hash with
      | false => exact without (letter.append_fails (fails_ahead hashed))
      | true =>
          have ahead : grammar.Reads (.ahead (fun kind => kind == .punctuator .hash)) [] []
              (tokens ++ rest) :=
            reads_ahead hashed
          have encoded : grammar.Reads (.optional .stringizingPrefix) [encoding] [.leaf encoding]
              (tokens ++ rest) :=
            (letter.append ahead).optional
          rcases exists_name_or_fails encoded ends with
            ⟨hash, blanks, name, behind, rfl, isHash, trivial, isName⟩ | failed
          · exact absurd (WritesStringizing.prefixed isPrefix isHash trivial isName)
              (unwritten _ behind (by simp))
          · exact failed

/-- A node in front of trees is the first of its rule and no other. -/
theorem child?_cons (rule inner child : Rule) (children trees : List Tree) :
    (Node.mk rule (.node inner children :: trees)).child? child =
      if inner == child then some ⟨inner, children⟩ else (Node.mk rule trees).child? child := by
  simp only [Node.child?, Node.childNodes, List.filterMap_cons, Tree.node?, List.find?_cons]
  cases inner == child <;> rfl

/-- No node is among leaves behind other trees. -/
theorem child?_append_leaves (rule child : Rule) (trees : List Tree) (tokens : List Token) :
    (Node.mk rule (trees ++ tokens.map .leaf)).child? child = (Node.mk rule trees).child? child := by
  simp only [Node.child?, Node.childNodes, List.filterMap_append, filterMap_node?_map_leaf,
    List.append_nil]

theorem isSome_child?_cons (rule inner child : Rule) (children trees : List Tree) :
    ((Node.mk rule (.node inner children :: trees)).child? child).isSome =
      (inner == child || ((Node.mk rule trees).child? child).isSome) := by
  rw [child?_cons]
  cases inner == child <;> rfl

end Grammar

section Elements

open Grammar

variable {token : Token} {tokens : List Token}

/-- An element starts with content. -/
theorem WritesElement.exists_content
    {rule : Rule}
    {front behind : List Token}
    (writes : WritesElement rule front behind) :
    ∃ first more, front = first :: more ∧ first.isContent = true := by
  cases writes with
  | stringizing writes =>
      cases writes with
      | plain isHash => exact ⟨_, _, rfl, Token.isContent_of_isPunctuator isHash⟩
      | prefixed isPrefix =>
          exact ⟨_, _, rfl, Token.isContent_of_isIdentifier (Bool.and_eq_true_iff.1 isPrefix).1⟩
  | tokenPasting pastes => exact ⟨_, _, rfl, Token.isContent_of_isPunctuator pastes⟩
  | ppToken isContent => exact ⟨_, _, rfl, isContent⟩

/-- Where content stands, there is an element. -/
theorem exists_writesElement (isContent : token.isContent = true) :
    ∃ rule front behind, token :: tokens = front ++ behind ∧ WritesElement rule front behind := by
  by_cases written : ∃ front behind, token :: tokens = front ++ behind ∧ WritesStringizing front
  · obtain ⟨front, behind, equal, writes⟩ := written
    exact ⟨.stringizing, front, behind, equal, .stringizing writes⟩
  · cases pastes : token.isPunctuator .hashHash with
    | true => exact ⟨.tokenPasting, [token], tokens, rfl, .tokenPasting pastes⟩
    | false =>
        refine ⟨.ppToken, [token], tokens, rfl, .ppToken isContent pastes ?_⟩
        exact fun front behind equal writes => written ⟨front, behind, equal, writes⟩

namespace Segmented

variable {trees : List Tree} {blanks : List Token}

theorem append_blanks
    (trivial : ∀ token ∈ blanks, token.isTrivia = true)
    (further : Segmented tokens trees) :
    Segmented (blanks ++ tokens) (blanks.map .leaf ++ trees) := by
  induction blanks with
  | nil => exact further
  | cons blank blanks inductionHypothesis =>
      obtain ⟨blankTrivial, others⟩ := List.forall_mem_cons.1 trivial
      exact .trivia blankTrivial (inductionHypothesis others)

theorem of_blanks (trivial : ∀ token ∈ blanks, token.isTrivia = true) :
    Segmented blanks (blanks.map .leaf) := by
  simpa using append_blanks trivial .nil

theorem tokensOf (segmented : Segmented tokens trees) : Tree.tokensOf trees = tokens := by
  induction segmented with
  | nil => rfl
  | trivia _ _ inductionHypothesis => simp [inductionHypothesis]
  | element _ _ inductionHypothesis => simp [inductionHypothesis]

/-- The content of a list tells whether it stringizes. -/
theorem isSome_child?_stringizing
    (rule : Rule)
    (segmented : Segmented tokens trees)
    (inLine : InLine tokens) :
    ((Node.mk rule trees).child? .stringizing).isSome =
      stringizes (tokens.filter Token.isContent) := by
  induction segmented with
  | nil => rfl
  | trivia trivial _ inductionHypothesis =>
      rw [List.filter_cons_of_neg (by simp [isContent_eq_false_of_isTrivia trivial])]
      exact inductionHypothesis (InLine.cons_iff.1 inLine).2
  | element writes _ inductionHypothesis =>
      have inLineBehind := (InLine.append_iff.1 inLine).2
      rw [isSome_child?_cons, inductionHypothesis inLineBehind]
      cases writes with
      | stringizing writes =>
          rw [writes.stringizes]
          rfl
      | tokenPasting pastes =>
          have noHash := Token.isPunctuator_eq_false pastes (show _ ≠ .hash by decide)
          simp [stringizes, Token.isContent_of_isPunctuator pastes, noHash]
      | ppToken isContent _ unwritten =>
          rw [List.singleton_append, List.filter_cons_of_pos isContent,
            stringizes_cons inLineBehind unwritten]
          rfl

/-- The content of a list tells whether it pastes. -/
theorem isSome_child?_tokenPasting
    (rule : Rule)
    (segmented : Segmented tokens trees) :
    ((Node.mk rule trees).child? .tokenPasting).isSome =
      (tokens.filter Token.isContent).any (Token.isPunctuator .hashHash) := by
  induction segmented with
  | nil => rfl
  | trivia trivial _ inductionHypothesis =>
      rw [List.filter_cons_of_neg (by simp [isContent_eq_false_of_isTrivia trivial])]
      exact inductionHypothesis
  | @element _ front _ _ writes _ inductionHypothesis =>
      rw [isSome_child?_cons, inductionHypothesis, List.filter_append, List.any_append]
      cases writes with
      | stringizing writes =>
          have noOperator : (front.filter Token.isContent).any (Token.isPunctuator .hashHash) =
              false := by
            rw [List.any_eq_false]
            intro token present
            simpa using writes.isPunctuator_hashHash token (List.mem_filter.1 present).1
          rw [noOperator]
          rfl
      | tokenPasting pastes => simp [Token.isContent_of_isPunctuator pastes, pastes]
      | ppToken isContent noPasting =>
          rw [List.filter_cons_of_pos isContent, List.any_cons, noPasting]
          rfl

end Segmented

end Elements

namespace Grammar

variable {grammar : Grammar} {tokens rest : List Token}
variable (ends : ∀ token ∈ rest.head?, token.isLineEnd = true)
include ends

/-- There is no element where a line ends. -/
theorem fails_replacementElement : grammar.Fails .replacementElement rest := by
  apply Fails.append
  apply fails_ahead
  rw [isLineEnd_peekKind ends]
  rfl

variable (unmocked : grammar.mocked = [])
include unmocked

/-- What writes an element is read as one by its rule. -/
theorem reads_replacementElement
    {rule : Rule}
    {front behind : List Token}
    (writes : WritesElement rule front behind)
    (inLine : InLine front) :
    grammar.Reads .replacementElement front [.node rule (front.map .leaf)] (behind ++ rest) := by
  have ahead : grammar.Reads (.ahead fun kind => !kind.isLineEnd) [] []
      (front ++ (behind ++ rest)) := by
    obtain ⟨first, more, rfl, isContent⟩ := writes.exists_content
    apply reads_ahead
    have notEnd : first.kind.isLineEnd = false := (InLine.cons_iff.1 inLine).1
    rw [List.cons_append, peekKind_cons (readable_of_isContent isContent), notEnd]
    rfl
  cases writes with
  | stringizing writes =>
      have operator : grammar.Reads (.rule .stringizing) front
          [.node .stringizing (front.map .leaf)] (behind ++ rest) :=
        Reads.node unmocked rfl (reads_stringizing writes)
      exact ahead.append operator.orElse_left
  | @tokenPasting token _ pastes =>
      have noPrefix : token.isIdentifier = false := Token.isIdentifier_of_isPunctuator pastes
      have noHash := Token.isPunctuator_eq_false pastes (show _ ≠ .hash by decide)
      have noOperator : grammar.Fails (.rule .stringizing) ([token] ++ (behind ++ rest)) := by
        have unprefixed : grammar.Reads (.optional .stringizingPrefix) [] []
            ([token] ++ (behind ++ rest)) :=
          (fails_token_cons (by rw [noPrefix, Bool.false_and])).append.optional
        exact fails_node unmocked
          (unprefixed.append_fails (fails_token_cons noHash)).append.append
      have pasting : grammar.Reads (.rule .tokenPasting) [token]
          [.node .tokenPasting [.leaf token]] (behind ++ rest) :=
        Reads.node unmocked rfl (reads_symbol pastes)
      exact ahead.append (noOperator.orElse_right pasting.orElse_left)
  | @ppToken token _ isContent noPasting unwritten =>
      have failed : grammar.Fails .stringizing (token :: behind ++ rest) :=
        fails_stringizing ends unwritten
      have noOperator : grammar.Fails (.rule .stringizing) ([token] ++ (behind ++ rest)) :=
        fails_node unmocked failed
      have noPaste : grammar.Fails (.rule .tokenPasting) ([token] ++ (behind ++ rest)) :=
        fails_node unmocked (fails_token_cons noPasting)
      have single : grammar.Reads (.rule .ppToken) [token]
          [.node .ppToken [.leaf token]] (behind ++ rest) :=
        Reads.node unmocked rfl (reads_token isContent (readable_of_isContent isContent))
      exact ahead.append (noOperator.orElse_right (noPaste.orElse_right single))

/-- The further elements of a list reach up to the last content token. -/
theorem exists_reads_furtherElements (inLine : InLine tokens) :
    ∃ core blanks trees, tokens = core ++ blanks ∧ (∀ token ∈ blanks, token.isTrivia = true) ∧
      grammar.Reads (.many (.trivia ++ .replacementElement)) core trees (blanks ++ rest) ∧
      Segmented tokens (trees ++ blanks.map .leaf) := by
  induction bound : tokens.length using Nat.strongRecOn generalizing tokens with
  | ind length inductionHypothesis =>
      obtain ⟨gap, tokens, rfl, trivial, significant⟩ := exists_significant tokens
      obtain ⟨_, inLineBehind⟩ := InLine.append_iff.1 inLine
      have skipped : grammar.Reads .trivia gap (gap.map .leaf) (tokens ++ rest) :=
        reads_trivia trivial (significant.append_ends ends)
      cases tokens with
      | nil =>
          refine ⟨[], gap, [], by simp, trivial, ?_, ?_⟩
          · exact Fails.many (skipped.append_fails (fails_replacementElement ends))
          · simpa using Segmented.of_blanks trivial
      | cons token tokens =>
          obtain ⟨rule, front, behind, equal, writes⟩ :=
            exists_writesElement (inLineBehind.isContent significant)
          rw [equal] at inLineBehind skipped bound ⊢
          obtain ⟨inLineFront, inLineFurther⟩ := InLine.append_iff.1 inLineBehind
          have fewer : behind.length < length := by
            obtain ⟨first, more, rfl, _⟩ := writes.exists_content
            simp only [List.length_append, List.length_cons] at bound
            omega
          obtain ⟨core, blanks, trees, rfl, trivialBlanks, further, segmented⟩ :=
            inductionHypothesis _ fewer inLineFurther rfl
          have item : grammar.Reads (.trivia ++ .replacementElement) (gap ++ front)
              (gap.map .leaf ++ [.node rule (front.map .leaf)]) (core ++ (blanks ++ rest)) := by
            rw [List.append_assoc] at skipped
            have regrouped :=
              skipped.append (reads_replacementElement ends unmocked writes inLineFront)
            rwa [List.append_assoc] at regrouped
          refine ⟨gap ++ front ++ core, blanks, _, by simp, trivialBlanks,
            Reads.many rfl item further, ?_⟩
          simpa using (Segmented.element writes segmented).append_blanks trivial

/-- A replacement list is read whatever it consists of, and it reaches up to the last content. -/
theorem exists_reads_segments
    (inLine : InLine tokens)
    (significant : Significant tokens) :
    ∃ core blanks trees, tokens = core ++ blanks ∧ (∀ token ∈ blanks, token.isTrivia = true) ∧
      grammar.Reads .replacementList core trees (blanks ++ rest) ∧
      Segmented tokens (trees ++ blanks.map .leaf) := by
  cases tokens with
  | nil =>
      have reads : grammar.Reads .replacementList [] [] ([] ++ rest) :=
        (fails_replacementElement ends).append.optional
      exact ⟨[], [], [], rfl, by simp, reads, .nil⟩
  | cons token tokens =>
      obtain ⟨rule, front, behind, equal, writes⟩ :=
        exists_writesElement (inLine.isContent significant)
      rw [equal] at inLine ⊢
      obtain ⟨inLineFront, inLineBehind⟩ := InLine.append_iff.1 inLine
      obtain ⟨core, blanks, trees, rfl, trivial, further, segmented⟩ :=
        exists_reads_furtherElements ends unmocked inLineBehind
      have first := reads_replacementElement ends unmocked writes inLineFront
      rw [List.append_assoc] at first
      exact ⟨front ++ core, blanks, _, by simp, trivial, (first.append further).optional,
        .element writes segmented⟩

/-- What a replacement list says is told by the content of the tokens that it is read from. -/
theorem exists_reads_replacementList
    (inLine : InLine tokens)
    (significant : Significant tokens) :
    ∃ core blanks trees, tokens = core ++ blanks ∧ (∀ token ∈ blanks, token.isTrivia = true) ∧
      grammar.Reads .replacementList core trees (blanks ++ rest) ∧
      Replaces ⟨.replacementList, trees⟩ (tokens.filter Token.isContent) := by
  obtain ⟨core, blanks, trees, rfl, trivial, reads, segmented⟩ :=
    exists_reads_segments ends unmocked inLine significant
  have silent : (core ++ blanks).filter Token.isContent = core.filter Token.isContent := by
    rw [List.filter_append, filter_isContent_eq_nil trivial, List.append_nil]
  refine ⟨core, blanks, trees, rfl, trivial, reads, ?_, ?_, ?_⟩
  · rw [silent, Node.significantTokens, Node.tokens, reads.tokensOf]
    apply List.filter_congr
    intro token present
    simp [Token.isContent, (InLine.append_iff.1 inLine).1 token present]
  · rw [← segmented.isSome_child?_stringizing .replacementList inLine, child?_append_leaves]
  · rw [← segmented.isSome_child?_tokenPasting .replacementList, child?_append_leaves]

end Grammar
end PreprocessorSyntax
