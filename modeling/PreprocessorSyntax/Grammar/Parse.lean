import PreprocessorSyntax.Grammar.Failures
import PreprocessorSyntax.Grammar.Rules
import PreprocessorSyntax.Lexer

/-!
# Parsing

`Grammar.readRule` ties the knot between rules and patterns: it reads a rule
by reading its pattern, in which other rules are read in the same way with
one level of nesting less.  A rule that is reached when no level is left
counts as not matching, and like every failure this one is remembered.

A parse covers the whole token list.  White space and comments around the
construct, and one line feed behind it, are added to the children of the root.
-/

namespace PreprocessorSyntax

/-- A configuration of the grammar. -/
structure Grammar where
  /-- How deeply rules may be nested. -/
  maxDepth : Nat
  /-- Rules that match nothing but an identifier spelled like the rule. -/
  mocked : List Rule
  deriving DecidableEq, Repr

namespace Grammar

/-- The grammar of directive lines, with the usual limit on nesting. -/
def standard : Grammar :=
  { maxDepth := 1024, mocked := [] }

/-- What a rule accepts in a configuration. -/
def pattern (grammar : Grammar) (rule : Rule) : Pattern :=
  if grammar.mocked.contains rule then .word [rule.name] else rule.pattern

/-- Read a rule with a given number of levels of nesting left. -/
def readRule (grammar : Grammar) : Nat → Rule → Pattern.Reader Failures Node
  | levels, rule, cursor, failures =>
    if failures.contains rule cursor.position then (none, failures)
    else match levels with
      | 0 => (none, failures.insert rule cursor.position)
      | levels + 1 =>
        match (grammar.pattern rule).read (grammar.readRule levels) cursor failures with
        | (some (children, after), failures) => (some (rule.build children, after), failures)
        | (none, failures) => (none, failures.insert rule cursor.position)

/-- What may stand between a construct and the end of the input. -/
def closing? (cursor : Cursor) : Option (List Token) :=
  let (before, behind) := cursor.trivia
  match behind.bump? with
  | none => some before
  | some (token, last) =>
    if token.kind = .newline then
      let (after, finish) := last.trivia
      if finish.atEnd then some (before ++ token :: after) else none
    else none

/--
The root of a parse, given the reading of its rule: the whole token list, with
what stands around the construct as children of the root.
-/
def rootOf? (rule : Rule) (tokens : List Token) (read : Cursor → Pattern.Reading Node) :
    Option Node :=
  let (leading, start) := (Cursor.ofTokens tokens).trivia
  match read start with
  | none => none
  | some (node, after) =>
    match closing? after with
    | none => none
    | some trailing =>
      let children := if node.rule = rule then node.children else [node.toTree]
      some ⟨rule, leading.map .leaf ++ children ++ trailing.map .leaf⟩

/-- The tree of one rule that covers a whole token list. -/
def parseTokens (grammar : Grammar) (rule : Rule) (tokens : List Token) : Option Node :=
  rootOf? rule tokens fun start => (grammar.readRule grammar.maxDepth rule start .empty).1

end Grammar
end PreprocessorSyntax
