import PreprocessorSyntax.CommandLine.Program

/-!
# Command lines with an output file

An output file can be put in front of the arguments of any command line that has
none.  All other options are then read as they were.
-/

namespace PreprocessorSyntax
namespace CommandLine

/-- The same options with the output in a file. -/
def Options.withOutput (options : Options) (path : String) : Options :=
  { options with output := some path }

/--
What can be read without giving an output file can be read in the same way if there
is one already.
-/
def Unconcerned (read : Options → Except Stop Options) : Prop :=
  ∀ options result, read options = .ok result → result.output = none →
    options.output = none ∧
      ∀ path, read (options.withOutput path) = .ok (result.withOutput path)

theorem Unconcerned.bind {first second : Options → Except Stop Options}
    (unconcerned : Unconcerned first)
    (unconcernedToo : Unconcerned second) :
    Unconcerned fun options =>
      match first options with
      | .error stop => .error stop
      | .ok options => second options := by
  intro options result read unset
  dsimp only at read ⊢
  split at read
  next => cases read
  next middle taken =>
    obtain ⟨unsetBefore, behind⟩ := unconcernedToo middle result read unset
    obtain ⟨unsetFirst, front⟩ := unconcerned options middle taken unsetBefore
    refine ⟨unsetFirst, fun path => ?_⟩
    rw [front path]
    exact behind path

/-- An option that can be given once, and has nothing to do with the output. -/
theorem unconcerned_once
    (taken : Options → Bool)
    (change : Options → Options)
    (same : ∀ options path, taken (options.withOutput path) = taken options)
    (keeps : ∀ options, (change options).output = options.output)
    (commutes : ∀ options path,
      change (options.withOutput path) = (change options).withOutput path) :
    Unconcerned fun options => if taken options then .error .usage else .ok (change options) := by
  intro options result read unset
  dsimp only at read ⊢
  split at read
  next => cases read
  next free =>
    cases read
    refine ⟨(keeps options).symm.trans unset, fun path => ?_⟩
    rw [same, if_neg free, commutes]

theorem unconcerned_takeInput (path : String) : Unconcerned (takeInput · path) := by
  have once := unconcerned_once (fun options => options.input.isSome || path.isEmpty)
    (fun options => { options with input := some path })
    (fun _ _ => rfl) (fun _ => rfl) (fun _ _ => rfl)
  have same : (takeInput · path) = fun options =>
      if options.input.isSome || path.isEmpty then .error .usage
      else .ok { options with input := some path } := by
    funext options
    rw [takeInput, givePath]
    split <;> rfl
  rw [same]
  exact once

theorem unconcerned_turnOn (switch : Switch) : Unconcerned (turnOn · switch) := by
  cases switch with
  | json =>
      exact unconcerned_once (·.json) ({ · with json := true })
        (fun _ _ => rfl) (fun _ => rfl) (fun _ _ => rfl)
  | compact =>
      exact unconcerned_once (·.compact) ({ · with compact := true })
        (fun _ _ => rfl) (fun _ => rfl) (fun _ _ => rfl)
  | trivia =>
      exact unconcerned_once (·.trivia) ({ · with trivia := true })
        (fun _ _ => rfl) (fun _ => rfl) (fun _ _ => rfl)
  | listMacros =>
      exact unconcerned_once (·.listMacros) ({ · with listMacros := true })
        (fun _ _ => rfl) (fun _ => rfl) (fun _ _ => rfl)

theorem unconcerned_give (option : ValueOption) (value : String) :
    Unconcerned (give · option value) := by
  cases option with
  | expression =>
      exact unconcerned_once (·.expression.isSome) ({ · with expression := some value })
        (fun _ _ => rfl) (fun _ => rfl) (fun _ _ => rfl)
  | rule =>
      exact unconcerned_once (·.rule.isSome) ({ · with rule := some value })
        (fun _ _ => rfl) (fun _ => rfl) (fun _ _ => rfl)
  | maxDepth =>
      simp only [give]
      cases depth? value with
      | none => exact fun _ _ read _ => nomatch read
      | some depth =>
          exact unconcerned_once (·.maxDepth.isSome) ({ · with maxDepth := some depth })
            (fun _ _ => rfl) (fun _ => rfl) (fun _ _ => rfl)
  | output =>
      intro options result read unset
      dsimp only [give, givePath] at read
      split at read
      next => cases read
      next => cases read; cases unset

theorem unconcerned_ok : Unconcerned .ok := by
  intro options result read unset
  cases read
  exact ⟨unset, fun _ => rfl⟩

theorem unconcerned_error (stop : Stop) : Unconcerned fun _ => .error stop :=
  fun _ _ read _ => nomatch read

theorem unconcerned_takeInputs (paths : List String) : Unconcerned (takeInputs · paths) := by
  induction paths with
  | nil => exact unconcerned_ok
  | cons path paths inductionHypothesis =>
      exact (unconcerned_takeInput path).bind inductionHypothesis

theorem unconcerned_readArguments :
    (arguments : List String) → Unconcerned (readArguments · arguments)
  | [] => unconcerned_ok
  | text :: rest => by
      simp only [readArguments]
      cases Argument.ofString text with
      | escape => exact unconcerned_takeInputs rest
      | stop stop => exact unconcerned_error stop
      | input path => exact (unconcerned_takeInput path).bind (unconcerned_readArguments rest)
      | switch switch => exact (unconcerned_turnOn switch).bind (unconcerned_readArguments rest)
      | attached option value =>
          exact (unconcerned_give option value).bind (unconcerned_readArguments rest)
      | awaiting option =>
          match rest with
          | [] => exact unconcerned_error .usage
          | value :: rest =>
              dsimp only
              split
              · exact unconcerned_error .usage
              · exact (unconcerned_give option value).bind (unconcerned_readArguments rest)

theorem parse_eq_ok_iff {arguments : List String} {options : Options} :
    libraries.parse arguments = .ok options ↔ Options.ofArguments arguments = .ok options := by
  change (Options.ofArguments arguments).mapError Stop.outcome = .ok options ↔ _
  cases Options.ofArguments arguments with
  | error stop => constructor <;> (intro parsed; cases parsed)
  | ok found => constructor <;> (intro parsed; cases parsed; rfl)

/-- An output file in front of a command line that has none is the only difference. -/
theorem parse_output_cons
    {arguments : List String}
    {options : Options}
    {path : String}
    (parsed : libraries.parse arguments = .ok options)
    (unset : options.output = none)
    (nonempty : path.isEmpty = false)
    (isValue : startsWithDash path = false) :
    libraries.parse ("-o" :: path :: arguments) = .ok (options.withOutput path) := by
  have awaits : Argument.ofString "-o" = .awaiting .output := rfl
  have given : give .initial .output path = .ok (Options.initial.withOutput path) := by
    rw [give, givePath, nonempty]
    rfl
  rw [parse_eq_ok_iff] at parsed ⊢
  rw [Options.ofArguments, readArguments, awaits]
  dsimp only
  rw [if_neg (by rw [isValue]; decide), given]
  exact (unconcerned_readArguments arguments .initial options parsed unset).2 path

end CommandLine
end PreprocessorSyntax
