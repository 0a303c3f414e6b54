import PreprocessorSyntax.Proofs.Trailing.Operands

/-!
# Directive lines with white space added

Between the operands of a directive, it is known where added white space and
comments have been read: in front of nothing but the empty replacement of a
macro.  So the trees of a line and of the longer line differ only in this, and
the lines are read by the same rule.
-/

namespace PreprocessorSyntax
namespace Grammar
namespace Trailing

variable {grammar : Grammar} {line blanks : List Token}

/-- What is known of a pair of places between the operands of a directive. -/
inductive Outer where
  /-- The same token comes next. -/
  | inside
  /-- The same was read, up to the same place. -/
  | tight
  /-- Both lines are over. -/
  | ended
  /-- White space and comments have been skipped. -/
  | gap
  /-- The same was read up to the same place, or both lines are over. -/
  | behind

/-- Which readings of the two lines correspond between operands. -/
def Outer.Meets (line blanks : List Token) :
    Outer → List Tree × Cursor → List Tree × Cursor → Prop
  | .inside, found, matching => Here line blanks found matching ∧ Faces found.2
  | .tight, found, matching => Here line blanks found matching
  | .ended, found, matching => Ended line blanks found matching
  | .gap, found, matching =>
    Here line blanks found matching ∧ Faces found.2 ∨ Ended line blanks found matching
  | .behind, found, matching =>
    Here line blanks found matching ∨ Ended line blanks found matching

/-- The two lines between operands. -/
def outer (line blanks : List Token) : Alignment Outer where
  meets := Outer.Meets line blanks
  related := Remembers line blanks

/-- Operands end with a token. -/
def Outer.Operand (rule : Rule) (before after : Outer) : Prop :=
  (rule ∈ Inner.rules ∧ rule ≠ .argumentList) ∧ before = .gap ∧ after = .tight

/-- Only the replacement of a macro may be empty. -/
def Outer.Signed (rule : Rule) (before after : Outer) : Prop :=
  Outer.Operand rule before after ∨ rule = .replacementList ∧ before = .gap ∧ after = .behind

/-- The rules for lines that are not only other rules. -/
def Outer.lines : List Rule :=
  [.functionlikeMacroDefinition, .objectlikeMacroDefinition, .includeLine, .ppImport, .ppModule,
   .ifLine, .ifdefLine, .elifLine, .elseLine, .endifLine, .undefLine, .lineLine, .errorLine,
   .pragmaLine, .warningLine, .miscLine]

theorem Outer.Meets.cases
    {footing : Outer}
    {found matching : List Tree × Cursor}
    (meets : Outer.Meets line blanks footing found matching) :
    Here line blanks found matching ∨ Ended line blanks found matching := by
  cases footing with
  | inside => exact .inl meets.1
  | tight => exact .inl meets
  | ended => exact .inr meets
  | gap => exact meets.imp_left And.left
  | behind => exact meets

theorem lawful_outer (added : blanks ≠ []) : (outer line blanks).Lawful where
  forget {footing found matching} meets := by
    cases footing with
    | inside => exact And.imp_left Here.forget meets
    | tight => exact Here.forget meets
    | ended => exact Ended.forget meets
    | gap => exact Or.imp (And.imp_left Here.forget) Ended.forget meets
    | behind => exact Or.imp Here.forget Ended.forget meets
  join {before after trees cursor others place more last further otherLast} first passed advances
      second := by
    have here (late : Here line blanks (more, last) (further, otherLast)) :
        Here line blanks (trees ++ more, last) (others ++ further, otherLast) := by
      rcases Outer.Meets.cases first with early | early
      · exact early.join late
      · exact absurd late (early.1.not_here added advances)
    have ended (late : Ended line blanks (more, last) (further, otherLast)) :
        Ended line blanks (trees ++ more, last) (others ++ further, otherLast) := by
      rcases Outer.Meets.cases first with early | early
      · exact early.ended late
      · exact early.join added passed advances late
    cases after with
    | inside => exact And.imp_left here second
    | tight => exact here second
    | ended => exact ended second
    | gap => exact Or.imp (And.imp_left here) ended second
    | behind => exact Or.imp here ended second

theorem Outer.settled
    {cursor place : Cursor}
    (starts : (outer line blanks).Starts .gap cursor place) :
    Settled line blanks cursor place :=
  Or.imp_right And.left starts

section Directives

variable (inLine : InLine line) (trivial : ∀ token ∈ blanks, token.isTrivia = true)
include inLine trivial

theorem skips_outer {signature : Rule → Outer → Outer → Prop} :
    (outer line blanks).Skips grammar signature .gap .tight .behind where
  loosen meets := .inl meets
  unsettle meets := Or.imp_left And.left meets
  trivia := by
    refine .step rfl fun cursor place starts => ?_
    rw [treesAt?_trivia_eq, treesAt?_trivia_eq]
    rcases starts with here | ended
    · exact .some (here.skip trivial)
    · exact .some (.inr ended.1.skip)
  token accepts := .step rfl fun _ _ starts => Settled.read inLine (Outer.settled starts) accepts

omit inLine trivial in
theorem leads_replacementElement :
    (outer line blanks).Leads grammar Outer.Operand .gap .tight .replacementElement := by
  have ahead (accepts : TokenKind → Bool) :
      (outer line blanks).Leads grammar Outer.Operand .gap .gap (.ahead accepts) := by
    refine .step rfl fun cursor place starts => ?_
    rw [treesAt?_ahead, treesAt?_ahead, (Outer.settled starts).peekKind_eq]
    split
    next => exact .some starts
    next => exact .none
  have element {rule : Rule} (listed : rule ∈ Inner.rules ∧ rule ≠ .argumentList) :
      (outer line blanks).Leads grammar Outer.Operand .gap .tight (.rule rule) :=
    .rule ⟨listed, rfl, rfl⟩
  exact (ahead _).sequence ((element (by decide)).choice
    ((element (by decide)).choice (element (by decide))))

/-- A replacement ends with a token, or it is empty. -/
theorem leads_replacementList
    {before after : Outer}
    (gap : ∀ {cursor place}, (outer line blanks).Starts before cursor place →
      (outer line blanks).Starts .gap cursor place)
    (elements : ∀ {found matching}, Here line blanks found matching →
      (outer line blanks).meets after found matching)
    (nothing : ∀ {found matching}, (outer line blanks).meets before found matching →
      (outer line blanks).meets after found matching) :
    (outer line blanks).Leads grammar Outer.Operand before after .replacementList := by
  have skips : (outer line blanks).Skips grammar Outer.Operand .gap .tight .behind :=
    skips_outer inLine trivial
  have element : (outer line blanks).Leads grammar Outer.Operand .gap .tight .replacementElement :=
    leads_replacementElement
  have several : (outer line blanks).Leads grammar Outer.Operand .gap .tight
      (.replacementElement ++ .many (.trivia ++ .replacementElement)) :=
    element.sequence (skips.manyBehind rfl element)
  exact (Alignment.Leads.strengthen gap (several.weaken elements)).choice
    ((Alignment.Leads.empty before).weaken nothing)

section Corresponds

variable (added : blanks ≠ []) (unmocked : grammar.mocked = []) (levels : Nat)
include added unmocked

theorem corresponds_operand
    {rule : Rule}
    {before after : Outer}
    (signed : Outer.Operand rule before after) :
    grammar.Corresponds levels (Remembers line blanks) ((outer line blanks).Starts before)
      ((outer line blanks).meets after) (.rule rule) := by
  obtain ⟨listed, rfl, rfl⟩ := signed
  have sound : (inner line blanks).Sound grammar Inner.Signed :=
    sound_inner inLine trivial added unmocked
  exact fun cursor place failures others starts =>
    sound.corresponds_rule levels (Inner.signed listed) cursor place failures others
      (Outer.settled starts)

theorem corresponds_replacementList :
    grammar.Corresponds levels (Remembers line blanks) ((outer line blanks).Starts .gap)
      ((outer line blanks).meets .behind) (.rule .replacementList) := by
  have body {before after : Outer} (levels : Nat)
      (leads : (outer line blanks).Leads grammar Outer.Operand before after .replacementList) :
      grammar.Corresponds levels (Remembers line blanks) ((outer line blanks).Starts before)
        ((outer line blanks).meets after) (grammar.pattern .replacementList) := by
    rw [pattern_eq unmocked]
    exact Alignment.corresponds_of_leads (lawful_outer added)
      (corresponds_operand inLine trivial added unmocked levels) leads
  have knows {cursor place : Cursor} {failures others : Failures}
      (settled : Settled line blanks cursor place)
      (remembers : Remembers line blanks failures others) :
      Remembers line blanks (failures.insert .replacementList cursor.position)
        (others.insert .replacementList place.position) :=
    Remembers.insert added remembers settled _
  intro cursor place failures others starts
  rcases starts with inside | ended
  · have here (levels : Nat) : grammar.Corresponds levels (Remembers line blanks)
        ((outer line blanks).Starts .inside) ((outer line blanks).meets .tight)
        (grammar.pattern .replacementList) :=
      body levels (leads_replacementList inLine trivial Or.inl id And.left)
    have corresponds : grammar.Corresponds levels (Remembers line blanks)
        ((outer line blanks).Starts .inside) ((outer line blanks).meets .behind)
        (.rule .replacementList) :=
      .of_pattern (fun starts remembers => remembers _ _ _ (.inl starts))
        (fun starts => knows (.inl starts)) here
        (fun _ _ _ reached => .inl (Here.build reached _)) levels
    exact corresponds cursor place failures others inside
  · have past (levels : Nat) : grammar.Corresponds levels (Remembers line blanks)
        ((outer line blanks).Starts .ended) ((outer line blanks).meets .behind)
        (grammar.pattern .replacementList) :=
      body levels (leads_replacementList inLine trivial Or.inr Or.inl Or.inr)
    have corresponds : grammar.Corresponds levels (Remembers line blanks)
        ((outer line blanks).Starts .ended) ((outer line blanks).meets .behind)
        (.rule .replacementList) := by
      refine .of_pattern (fun starts remembers => remembers _ _ _ (.inr starts.1))
        (fun starts => knows (.inr starts.1)) past
        (fun {cursor place trees after others last} starts _ derived reached => ?_) levels
      refine Or.imp (Here.build · _) (fun late => ⟨late.1, .inl ?_⟩) reached
      -- nothing can be read there, so nothing was added
      obtain ⟨⟨rfl, rfl⟩, _⟩ := starts
      have nothing := (eq_of_advances derived.advances).1
      rcases late.2 with same | ⟨front, back, _, _, equal⟩
      · rw [show others = trees from same]
      · rw [show others = _ from equal] at nothing
        simp [added] at nothing
    exact corresponds cursor place failures others ended

/-- What stands between operands corresponds if the operands do. -/
theorem corresponds_of_leads_outer
    {before after : Outer}
    {pattern : Pattern}
    (leads : (outer line blanks).Leads grammar Outer.Signed before after pattern) :
    grammar.Corresponds levels (Remembers line blanks) ((outer line blanks).Starts before)
      ((outer line blanks).meets after) pattern := by
  refine Alignment.corresponds_of_leads (lawful_outer added) ?_ leads
  rintro rule before after (operand | ⟨rfl, rfl, rfl⟩)
  · exact corresponds_operand inLine trivial added unmocked levels operand
  · exact corresponds_replacementList inLine trivial added unmocked levels

end Corresponds

/-! ## Directive lines -/

section Leads

variable {names : List String}

omit inLine trivial in
theorem leads_operand_outer {rule : Rule} (listed : rule ∈ Inner.rules ∧ rule ≠ .argumentList) :
    (outer line blanks).Leads grammar Outer.Signed .gap .tight (.rule rule) :=
  .rule (.inl ⟨listed, rfl, rfl⟩)

theorem leads_trivia_outer :
    (outer line blanks).Leads grammar Outer.Signed .behind .gap .trivia :=
  (skips_outer inLine trivial).trivia

theorem leads_endOfLine :
    (outer line blanks).Leads grammar Outer.Signed .behind .ended .endOfLine :=
  (leads_trivia_outer inLine trivial).sequence
    (.step rfl fun _ _ starts => Settled.endOfLine inLine (Outer.settled starts))

theorem leads_restOfLine :
    (outer line blanks).Leads grammar Outer.Signed .tight .ended .restOfLine :=
  .step rfl fun _ _ here => Here.restOfLine inLine trivial here

theorem leads_directiveHead :
    (outer line blanks).Leads grammar Outer.Signed .gap .tight (.directiveHead names) := by
  have skips : (outer line blanks).Skips grammar Outer.Signed .gap .tight .behind :=
    skips_outer inLine trivial
  exact (skips.of_settled skips.around).sequence (skips.token _)

theorem leads_conditionLine (name : String) :
    (outer line blanks).Leads grammar Outer.Signed .gap .ended (.conditionLine name) := by
  have skips : (outer line blanks).Skips grammar Outer.Signed .gap .tight .behind :=
    skips_outer inLine trivial
  exact ((skips.behind (leads_directiveHead inLine trivial)).sequence
    (leads_operand_outer (by decide))).sequence (skips.of_tight (leads_endOfLine inLine trivial))

theorem leads_nameLine :
    (outer line blanks).Leads grammar Outer.Signed .gap .ended (.nameLine names) := by
  have skips : (outer line blanks).Skips grammar Outer.Signed .gap .tight .behind :=
    skips_outer inLine trivial
  exact ((skips.behind (leads_directiveHead inLine trivial)).sequence (skips.token _)).sequence
    (leads_restOfLine inLine trivial)

theorem leads_freeLine (name : String) :
    (outer line blanks).Leads grammar Outer.Signed .gap .ended (.freeLine name) :=
  (leads_directiveHead inLine trivial).sequence (leads_restOfLine inLine trivial)

theorem leads_includeLine :
    (outer line blanks).Leads grammar Outer.Signed .gap .ended .includeLine := by
  have skips : (outer line blanks).Skips grammar Outer.Signed .gap .tight .behind :=
    skips_outer inLine trivial
  exact ((skips.behind (leads_directiveHead inLine trivial)).sequence
    (leads_operand_outer (by decide))).sequence (skips.of_tight (leads_endOfLine inLine trivial))

theorem leads_exported :
    (outer line blanks).Leads grammar Outer.Signed .gap .gap .exported := by
  have skips : (outer line blanks).Skips grammar Outer.Signed .gap .tight .behind :=
    skips_outer inLine trivial
  exact Alignment.Skips.optionalBehind (skips.behind (skips.token _))

theorem leads_ppImport :
    (outer line blanks).Leads grammar Outer.Signed .gap .ended .ppImport := by
  have skips : (outer line blanks).Skips grammar Outer.Signed .gap .tight .behind :=
    skips_outer inLine trivial
  have head : (outer line blanks).Leads grammar Outer.Signed .gap .gap
      (.trivia ++ .exported ++ .word ["import"] ++ .trivia) :=
    skips.behind (((skips.of_settled skips.trivia).sequence
      (leads_exported inLine trivial)).sequence (skips.token _))
  have header : (outer line blanks).Leads grammar Outer.Signed .gap .tight .headerName :=
    (leads_operand_outer (by decide)).choice (leads_operand_outer (by decide))
  have semicolon : (outer line blanks).Leads grammar Outer.Signed .tight .tight
      (.optional (.trivia ++ .symbol .semicolon)) :=
    ((skips.of_tight skips.trivia).sequence (skips.token _)).choice (.empty Outer.tight)
  have moduleLine : (outer line blanks).Leads grammar Outer.Signed .gap .tight
      (.optional (.symbol .colon ++ .trivia) ++ .rule .moduleName ++ .trivia ++
        .symbol .semicolon) :=
    (skips.behind ((Alignment.Skips.optionalBehind (skips.behind (skips.token _))).sequence
      (leads_operand_outer (by decide)))).sequence (skips.token _)
  exact (head.sequence ((header.sequence semicolon).choice moduleLine)).sequence
    (skips.of_tight (leads_endOfLine inLine trivial))

theorem leads_ppModule :
    (outer line blanks).Leads grammar Outer.Signed .gap .ended .ppModule := by
  have skips : (outer line blanks).Skips grammar Outer.Signed .gap .tight .behind :=
    skips_outer inLine trivial
  have start : (outer line blanks).Leads grammar Outer.Signed .gap .tight .globalFragment :=
    (skips.behind (skips.token _)).sequence (skips.token _)
  have fragment : (outer line blanks).Leads grammar Outer.Signed .gap .tight .privateFragment :=
    (skips.behind ((skips.behind ((skips.behind (skips.token _)).sequence
      (skips.token _))).sequence (skips.token _))).sequence (skips.token _)
  have partition : (outer line blanks).Leads grammar Outer.Signed .tight .tight
      (.optional (.trivia ++ .symbol .colon ++ .trivia ++ .rule .moduleName)) :=
    ((skips.of_tight skips.around).sequence (leads_operand_outer (by decide))).choice
      (.empty Outer.tight)
  have name : (outer line blanks).Leads grammar Outer.Signed .gap .tight
      (.exported ++ .word ["module"] ++ .trivia ++ .rule .moduleName) :=
    (skips.behind ((leads_exported inLine trivial).sequence (skips.token _))).sequence
      (leads_operand_outer (by decide))
  have named : (outer line blanks).Leads grammar Outer.Signed .gap .tight .namedModule :=
    (skips.behind (name.sequence partition)).sequence (skips.token _)
  exact ((skips.of_settled skips.trivia).sequence (start.choice (fragment.choice named))).sequence
    (skips.of_tight (leads_endOfLine inLine trivial))

theorem leads_definitionHead :
    (outer line blanks).Leads grammar Outer.Signed .gap .tight .definitionHead := by
  have skips : (outer line blanks).Skips grammar Outer.Signed .gap .tight .behind :=
    skips_outer inLine trivial
  exact (skips.behind (leads_directiveHead inLine trivial)).sequence (skips.token _)

omit inLine trivial in
theorem leads_replacement :
    (outer line blanks).Leads grammar Outer.Signed .gap .behind (.rule .replacementList) :=
  .rule (.inr ⟨rfl, rfl, rfl⟩)

theorem leads_functionlikeMacroDefinition :
    (outer line blanks).Leads grammar Outer.Signed .gap .ended .functionlikeMacroDefinition := by
  have skips : (outer line blanks).Skips grammar Outer.Signed .gap .tight .behind :=
    skips_outer inLine trivial
  have opening : (outer line blanks).Leads grammar Outer.Signed .tight .tight
      (.symbol .leftParen) :=
    .step rfl fun _ _ here =>
      Here.read_of_refuses inLine trivial here fun _ => Token.isTrivia_of_isPunctuator
  have parameters : (outer line blanks).Leads grammar Outer.Signed .gap .behind
      (.optional (.rule .parameterList)) :=
    skips.optional (leads_operand_outer (by decide))
  have head : (outer line blanks).Leads grammar Outer.Signed .gap .gap
      (.definitionHead ++ .symbol .leftParen ++ .trivia) :=
    skips.behind ((leads_definitionHead inLine trivial).sequence opening)
  exact ((skips.behind (((head.sequence parameters).sequence skips.trivia).sequence
    (skips.token _))).sequence leads_replacement).sequence (leads_endOfLine inLine trivial)

theorem leads_objectlikeMacroDefinition :
    (outer line blanks).Leads grammar Outer.Signed .gap .ended .objectlikeMacroDefinition := by
  have skips : (outer line blanks).Skips grammar Outer.Signed .gap .tight .behind :=
    skips_outer inLine trivial
  have blind : ∀ kind : TokenKind, kind.isTrivia = true →
      (kind != .punctuator .leftParen) = (TokenKind.endOfInput != .punctuator .leftParen) := by
    intro kind isTrivia
    cases kind <;> first | rfl | cases isTrivia
  have noParameters : (outer line blanks).Leads grammar Outer.Signed .tight .tight
      (.ahead fun kind => kind != .punctuator .leftParen) :=
    .step rfl fun _ _ here => Here.ahead trivial here blind
  exact ((skips.behind ((leads_definitionHead inLine trivial).sequence noParameters)).sequence
    leads_replacement).sequence (leads_endOfLine inLine trivial)

/-- What was added is read where a line ends. -/
theorem leads_line
    {rule : Rule}
    (listed : rule ∈ Outer.lines) :
    (outer line blanks).Leads grammar Outer.Signed .gap .ended rule.pattern := by
  have skips : (outer line blanks).Skips grammar Outer.Signed .gap .tight .behind :=
    skips_outer inLine trivial
  cases rule with
  | functionlikeMacroDefinition => exact leads_functionlikeMacroDefinition inLine trivial
  | objectlikeMacroDefinition => exact leads_objectlikeMacroDefinition inLine trivial
  | includeLine => exact leads_includeLine inLine trivial
  | ppImport => exact leads_ppImport inLine trivial
  | ppModule => exact leads_ppModule inLine trivial
  | ifLine => exact leads_conditionLine inLine trivial _
  | elifLine => exact leads_conditionLine inLine trivial _
  | ifdefLine => exact leads_nameLine inLine trivial
  | undefLine => exact leads_nameLine inLine trivial
  | elseLine => exact leads_freeLine inLine trivial _
  | endifLine => exact leads_freeLine inLine trivial _
  | errorLine => exact leads_freeLine inLine trivial _
  | warningLine => exact leads_freeLine inLine trivial _
  | pragmaLine => exact leads_freeLine inLine trivial _
  | lineLine =>
      exact ((skips.behind (leads_directiveHead inLine trivial)).sequence
        (skips.token _)).sequence (leads_restOfLine inLine trivial)
  | miscLine =>
      exact ((skips.of_settled skips.trivia).sequence (skips.token _)).sequence
        (leads_restOfLine inLine trivial)
  | _ => exact absurd listed (by decide)

end Leads
end Directives

/-- What was added stands behind all other tokens of a node, directly below it. -/
def Lengthened (blanks : List Token) (node other : Node) : Prop :=
  ∃ front back, Tree.tokensOf front ≠ [] ∧ Tree.tokensOf back = [] ∧
    node.children = front ++ back ∧ other = ⟨node.rule, front ++ blanks.map .leaf ++ back⟩

/-- Both nodes are of one rule and have one node below them. -/
def Wrapped (rule : Rule) (related : Node → Node → Prop) (node other : Node) : Prop :=
  ∃ below further, node = ⟨rule, [below.toTree]⟩ ∧ other = ⟨rule, [further.toTree]⟩ ∧
    related below further

/-- A line is a node to which blanks were added, or it wraps one as a definition does. -/
def Extended (blanks : List Token) (node other : Node) : Prop :=
  Lengthened blanks node other ∨ Wrapped .defineLine (Lengthened blanks) node other

theorem Lengthened.refl
    {node other : Node}
    (lengthened : Lengthened blanks node other) :
    Lengthened [] node node := by
  obtain ⟨front, back, starts, ends, children, _⟩ := lengthened
  exact ⟨front, back, starts, ends, children, by simp [← children]⟩

theorem Extended.refl {node other : Node} (extended : Extended blanks node other) :
    Extended [] node node := by
  rcases extended with lengthened | ⟨below, _, rfl, _, lengthened⟩
  · exact .inl lengthened.refl
  · exact .inr ⟨below, below, rfl, rfl, lengthened.refl⟩

/-- Both lines are over, and a node was read of each that is related to the other one. -/
def Stops
    (line blanks : List Token)
    (related : Node → Node → Prop)
    (found matching : List Tree × Cursor) : Prop :=
  Over line blanks found.2 matching.2 ∧
    ∃ node other, found.1 = [node.toTree] ∧ matching.1 = [other.toTree] ∧ related node other

theorem Stops.mono
    {related weaker : Node → Node → Prop}
    (weaken : ∀ node other, related node other → weaker node other)
    {found matching : List Tree × Cursor}
    (stops : Stops line blanks related found matching) :
    Stops line blanks weaker found matching := by
  obtain ⟨past, node, other, read, otherRead, relation⟩ := stops
  exact ⟨past, node, other, read, otherRead, weaken _ _ relation⟩

section Nodes

variable (inLine : InLine line) (trivial : ∀ token ∈ blanks, token.isTrivia = true)
variable (added : blanks ≠ []) (unmocked : grammar.mocked = [])
include added

/-- From a gap, the nodes of a line get what was added. -/
theorem lengthened_build
    {rule : Rule}
    {cursor place after last : Cursor}
    {trees others : List Tree}
    (keeps : rule.collapses = false)
    (consumes : (grammar.pattern rule).consumes = true)
    (starts : (outer line blanks).Starts .gap cursor place)
    (derived : grammar.Derives (grammar.pattern rule) cursor trees after)
    (otherDerived : grammar.Derives (grammar.pattern rule) place others last)
    (ended : Ended line blanks (trees, after) (others, last)) :
    Stops line blanks (Lengthened blanks) ([(rule.build trees).toTree], after)
      ([(rule.build others).toTree], last) := by
  have nonempty := derived.tokensOf_ne_nil consumes
  obtain ⟨⟨rfl, rfl⟩, read⟩ := ended
  refine ⟨⟨rfl, rfl⟩, _, _, rfl, rfl, ?_⟩
  rw [build_eq keeps, build_eq keeps]
  rcases starts with ⟨⟨_, equal⟩, _⟩ | ⟨⟨rfl, _⟩, _⟩
  · cases equal
    have passed := derived.advances.rest
    have otherPassed := otherDerived.advances.rest
    rw [List.append_nil] at passed otherPassed
    simp only at passed otherPassed
    rcases read with same | ⟨front, back, whole, nothing, longer⟩
    · rw [passed, show others = trees from same] at otherPassed
      simp [added] at otherPassed
    · refine ⟨front, back, ?_, nothing, whole, by rw [show others = _ from longer]⟩
      rwa [show trees = _ from whole, Tree.tokensOf_append, nothing, List.append_nil] at nonempty
  · exact absurd (eq_of_advances derived.advances).1 nonempty

/-- Wrapping a node in a node of another rule adds nothing. -/
theorem corresponds_wrapped
    {rule : Rule}
    {related : Node → Node → Prop}
    (keeps : rule.collapses = false)
    (body : ∀ levels, grammar.Corresponds levels (Remembers line blanks)
      ((outer line blanks).Starts .gap) (Stops line blanks related) (grammar.pattern rule))
    (levels : Nat) :
    grammar.Corresponds levels (Remembers line blanks) ((outer line blanks).Starts .gap)
      (Stops line blanks (Wrapped rule related)) (.rule rule) := by
  refine .of_pattern (fun starts remembers => remembers _ _ _ (Outer.settled starts))
    (fun starts remembers => Remembers.insert added remembers (Outer.settled starts) _)
    body ?_ levels
  rintro cursor place trees after others last _ _ _ ⟨past, node, other, read, otherRead, relation⟩
  simp only at past read otherRead
  rw [read, otherRead, build_eq keeps, build_eq keeps]
  exact ⟨past, _, _, rfl, rfl, node, other, rfl, rfl, relation⟩

include inLine trivial unmocked

/-- A rule for lines reads both lines alike, but for what was added at the end. -/
theorem corresponds_line
    {rule : Rule}
    (listed : rule ∈ Outer.lines)
    (levels : Nat) :
    grammar.Corresponds levels (Remembers line blanks) ((outer line blanks).Starts .gap)
      (Stops line blanks (Lengthened blanks)) (.rule rule) := by
  have facts : ∀ rule ∈ Outer.lines, rule.collapses = false ∧ rule ≠ .replacementList := by
    decide
  obtain ⟨keeps, notReplacement⟩ := facts rule listed
  have body (levels : Nat) : grammar.Corresponds levels (Remembers line blanks)
      ((outer line blanks).Starts .gap) ((outer line blanks).meets .ended)
      (grammar.pattern rule) := by
    rw [pattern_eq unmocked]
    exact corresponds_of_leads_outer inLine trivial added unmocked levels
      (leads_line inLine trivial listed)
  exact .of_pattern (fun starts remembers => remembers _ _ _ (Outer.settled starts))
    (fun starts remembers => Remembers.insert added remembers (Outer.settled starts) _)
    body (lengthened_build added keeps (consumes_pattern notReplacement)) levels

theorem corresponds_defineLine (levels : Nat) :
    grammar.Corresponds levels (Remembers line blanks) ((outer line blanks).Starts .gap)
      (Stops line blanks (Wrapped .defineLine (Lengthened blanks))) (.rule .defineLine) := by
  refine corresponds_wrapped added rfl (fun levels => ?_) levels
  rw [pattern_eq unmocked]
  refine Corresponds.firstOf fun rule listed => ?_
  refine corresponds_line inLine trivial added unmocked ?_ levels
  revert rule
  decide

/-- The same line rule reads both lines. -/
theorem corresponds_preprocessorLine (levels : Nat) :
    grammar.Corresponds levels (Remembers line blanks) ((outer line blanks).Starts .gap)
      (Stops line blanks (Wrapped .preprocessorLine (Extended blanks)))
      (.rule .preprocessorLine) := by
  refine corresponds_wrapped added rfl (fun levels => ?_) levels
  rw [pattern_eq unmocked]
  refine Corresponds.firstOf fun rule listed => ?_
  rcases List.mem_cons.1 listed with rfl | further
  · exact (corresponds_defineLine inLine trivial added unmocked levels).mono fun _ _ =>
      Stops.mono fun _ _ => .inr
  · refine (corresponds_line inLine trivial added unmocked ?_ levels).mono fun _ _ =>
      Stops.mono fun _ _ => .inl
    revert rule
    decide

/-- Something may be added behind a directive line. -/
theorem exists_parseTokens_append_of_ne
    {root : Node}
    (parsed : grammar.parseTokens .preprocessorLine line = some root) :
    ∃ (leading : List Token) (node other : Node),
      root = ⟨.preprocessorLine, leading.map .leaf ++ [node.toTree]⟩ ∧
      grammar.parseTokens .preprocessorLine (line ++ blanks) =
        some ⟨.preprocessorLine, leading.map .leaf ++ [other.toTree]⟩ ∧
      Extended blanks node other := by
  obtain ⟨node, after, trailing, reading, closed, rfl, _⟩ := exists_of_rootOf? parsed
  have here : Here line blanks ([], Cursor.ofTokens line) ([], Cursor.ofTokens (line ++ blanks)) :=
    ⟨⟨[], .refl _⟩, rfl⟩
  have nothing : Remembers line blanks .empty .empty := fun _ _ _ _ => by simp
  rcases here.skip trivial with ⟨started, faces⟩ | ended
  · have alike := (corresponds_preprocessorLine inLine trivial added unmocked grammar.maxDepth
      _ _ _ _ (.inl ⟨started.forget, faces⟩) nothing).1
    rw [Pattern.read_rule, Pattern.read_rule, reading] at alike
    generalize otherReading : (grammar.readRule grammar.maxDepth .preprocessorLine
      (Cursor.ofTokens (line ++ blanks)).trivia.2 .empty).1 = result at alike
    rcases result with _ | ⟨otherNode, last⟩
    · cases alike
    · cases alike with
      | some stops =>
        obtain ⟨⟨rfl, rfl⟩, _, _, read, otherRead, below, further, rfl, rfl, extended⟩ := stops
        obtain rfl := Node.toTree_injective (List.singleton_inj.1 read)
        obtain rfl := Node.toTree_injective (List.singleton_inj.1 otherRead)
        cases closed
        have sameLeading : (Cursor.ofTokens (line ++ blanks)).trivia.1.map Tree.leaf =
            (Cursor.ofTokens line).trivia.1.map .leaf :=
          congrArg Prod.fst started.2
        refine ⟨(Cursor.ofTokens line).trivia.1, below, further, ?_, ?_, extended⟩
        · simp
        · rw [parseTokens, rootOf?_eq_some otherReading rfl, sameLeading]
          simp
  · have derived := derives_of_readRule grammar.maxDepth (Prod.ext reading rfl)
    rw [ended.1.1] at derived
    exact absurd (eq_of_advances derived.advances).1 (derived.tokensOf_ne_nil rfl)

omit added in
/--
White space and comments may be added behind a directive line.  The line is read
by the same rules, and what was added stands behind all its other tokens.
-/
theorem exists_parseTokens_append
    {root : Node}
    (parsed : grammar.parseTokens .preprocessorLine line = some root) :
    ∃ (leading : List Token) (node other : Node),
      root = ⟨.preprocessorLine, leading.map .leaf ++ [node.toTree]⟩ ∧
      grammar.parseTokens .preprocessorLine (line ++ blanks) =
        some ⟨.preprocessorLine, leading.map .leaf ++ [other.toTree]⟩ ∧
      Extended blanks node other := by
  by_cases added : blanks = []
  · -- that the line has this form is known only if something else is added
    let space : Token := ⟨.whitespace, " ", .unknown⟩
    obtain ⟨leading, node, _, rfl, _, extended⟩ :=
      exists_parseTokens_append_of_ne inLine (show ∀ token ∈ [space], _ by decide) (by decide)
        unmocked parsed
    subst added
    rw [List.append_nil]
    exact ⟨leading, node, node, rfl, parsed, extended.refl⟩
  · exact exists_parseTokens_append_of_ne inLine trivial added unmocked parsed

end Nodes
end Trailing
end Grammar
end PreprocessorSyntax
