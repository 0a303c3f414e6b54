import PreprocessorSyntax.FileSystem
import PreprocessorSyntax.Proofs.CommandLine.Redirection

/-!
# Output in a file

A run with an output file is the run without one, in a directory in which this file
is empty, with the text put into the file in place of being printed.  So the text is
the same unless the file is the one that is read, and a run that fails leaves the
file empty, whatever was in it, or with a part of the text if it fails while it writes.

All this holds whatever reads the command lines and writes JSON documents, as long as
the command lines are read as they say, and whatever becomes of texts that are written.
-/

namespace PreprocessorSyntax

namespace FileSystem

variable {system created : FileSystem} {path : String}

theorem file?_put_self (system : FileSystem) (route : List PathComponent) (text : String) :
    (system.put route text).file? route = some (some text) := by
  rw [file?, put, List.lookup_cons_self]

/-- Leaving out one route does not matter to the others. -/
theorem lookup_filter_of_ne
    {route other : List PathComponent}
    (differs : other ≠ route)
    (files : List (List PathComponent × Option String)) :
    (files.filter fun file => file.1 != route).lookup other = files.lookup other := by
  induction files with
  | nil => rfl
  | cons file files inductionHypothesis =>
      obtain ⟨found, content⟩ := file
      rw [List.lookup_cons, List.filter_cons]
      cases same : other == found with
      | false =>
          split
          · rw [List.lookup_cons, same]
            exact inductionHypothesis
          · exact inductionHypothesis
      | true =>
          have isOther : other = found := beq_iff_eq.1 same
          have kept : (found != route) = true := bne_iff_ne.2 (isOther ▸ differs)
          rw [if_pos kept, List.lookup_cons, same]

theorem file?_put_of_ne (system : FileSystem) {route other : List PathComponent} (text : String)
    (differs : other ≠ route) :
    (system.put route text).file? other = system.file? other := by
  have passed : (other == route) = false := beq_false_of_ne differs
  rw [file?, put, List.lookup_cons, passed]
  exact lookup_filter_of_ne differs system.files

/-- A file can be read if it is there, is text, and is not named as a directory. -/
theorem read_eq_ok_iff {source : String} :
    system.read path = .ok source ↔
      path.isEmpty = false ∧ namesDirectory path = false ∧
        system.file? (route path) = some (some source) := by
  unfold read
  constructor
  · intro reads
    split at reads
    next => cases reads
    next nonempty =>
      split at reads
      next content found =>
        split at reads
        next => cases reads
        next notDirectory =>
          cases content with
          | none => cases reads
          | some text =>
              cases reads
              exact ⟨Bool.eq_false_iff.2 nonempty,
                Bool.eq_false_iff.2 notDirectory, found⟩
      next => split at reads <;> cases reads
  · rintro ⟨nonempty, notDirectory, found⟩
    simp [nonempty, notDirectory, found]

/-- A file that can be created has a name, and is empty then. -/
theorem create_eq_ok (creatable : system.create path = .ok created) :
    path.isEmpty = false ∧ created = system.put (route path) "" := by
  simp only [create] at creatable
  generalize (if endsInDot path then route path else (route path).dropLast) = parent at creatable
  split at creatable
  next => cases creatable
  next nonempty =>
    split at creatable
    next => cases creatable
    next =>
      split at creatable
      next => cases creatable
      next =>
        cases creatable
        exact ⟨Bool.eq_false_iff.2 nonempty, rfl⟩

/-- If all files but one are kept, nothing is lost unless something else was in that file. -/
theorem keeps_iff
    {written : FileSystem}
    {target : List PathComponent}
    {left : String}
    (elsewhere : ∀ route, route ≠ target → written.file? route = system.file? route)
    (stands : written.file? target = some (some left)) :
    (∀ route content, system.file? route = some content → written.file? route = some content) ↔
      ∀ content, system.file? target = some content → content = some left := by
  constructor
  · intro keeps content present
    exact (Option.some.inj (stands.symm.trans (keeps target content present))).symm
  · intro nothing route content present
    by_cases isTarget : route = target
    · rw [isTarget] at present ⊢
      rw [stands, nothing content present]
    · exact (elsewhere route isTarget).trans present

end FileSystem

namespace CommandLine

variable {libraries : Libraries} {pretty : Json → String} {medium : FileSystem.Medium}
  {options : Options} {path text : String} {system created : FileSystem}

/-- The text that some options ask for, or the reason why there is none. -/
def Options.reply (pretty : Json → String) (options : Options) (system : FileSystem) :
    Except String String :=
  match options.expression, options.input with
  | some text, _ => options.parseText pretty text
  | none, none => .error "Input file or --expr is required"
  | none, some path => options.scanContent pretty path (system.read path)

/-- Whether the file with some route is the one that is read. -/
def Options.Reads (options : Options) (route : List PathComponent) : Prop :=
  options.expression = none ∧ ∃ path, options.input = some path ∧ FileSystem.route path = route

/-- What a run with some options leaves behind, together with the files. -/
def Options.runOn (pretty : Json → String) (medium : FileSystem.Medium) (options : Options)
    (system : FileSystem) : Outcome × FileSystem :=
  (options.run pretty (FileSystem.accessOn medium)).run system

theorem respond_accessOn (options : Options) (system : FileSystem) :
    (respond pretty (FileSystem.accessOn medium) options).run system =
      (options.reply pretty system, system) := by
  unfold respond Options.reply
  cases options.expression with
  | some text => rfl
  | none => cases options.input <;> rfl

theorem run_eq_runOn
    {arguments : List String}
    (parsed : libraries.parse arguments = .ok options)
    (system : FileSystem) :
    (libraries.run (FileSystem.accessOn medium) arguments).run system =
      options.runOn libraries.pretty medium system := by
  rw [Libraries.run, parsed]
  rfl

/-- A run without an output file prints what it found and leaves all files alone. -/
theorem runOn_of_unset (unset : options.output = none) (system : FileSystem) :
    options.runOn pretty medium system =
      (match options.reply pretty system with
        | .error message => .failure message
        | .ok text => .ofWriting (written text (medium none text)) (medium none text), system) := by
  rw [Options.runOn, Options.run, unset]
  dsimp only
  rw [StateT.run_bind, respond_accessOn]
  cases options.reply pretty system <;> rfl

/-- A run with an output file finds what it would find with this file emptied. -/
theorem runOn_withOutput (creatable : system.create path = .ok created) :
    (options.withOutput path).runOn pretty medium system =
      match options.reply pretty created with
      | .error message => (.failure message, created)
      | .ok text =>
        (.ofWriting "" (medium (some path) text),
          created.put (FileSystem.route path) (written text (medium (some path) text))) := by
  have creates : ((FileSystem.accessOn medium).create path).run system = (.ok (), created) := by
    simp only [StateT.run, FileSystem.accessOn, creatable]
  have same : (options.withOutput path).reply pretty created = options.reply pretty created := rfl
  rw [Options.runOn, Options.run]
  change StateT.run ((FileSystem.accessOn medium).create path >>= _) system = _
  rw [StateT.run_bind, creates]
  change StateT.run (respond pretty (FileSystem.accessOn medium) (options.withOutput path) >>= _)
    created = _
  rw [StateT.run_bind, respond_accessOn, same]
  cases options.reply pretty created <;> rfl

/-- The only file of a run has the number zero. -/
theorem scanContent_ok (options : Options) (path source : String) :
    options.scanContent pretty path (.ok source) =
      match scanSource options.grammar source 0 with
      | .error fault => .error (fault.describe (FileRegistry.empty.register path).2)
      | .ok directives => .ok (options.report pretty directives) := by
  have first : (FileRegistry.empty.register path).1 = 0 := by
    simp [FileRegistry.register, FileRegistry.empty]
  rw [Options.scanContent, scanFile]
  dsimp only
  rw [first]
  cases scanSource options.grammar source 0 <;> rfl

/-- What is said about a file depends on what is read from it. -/
theorem reply_eq_ok_iff
    (unexpressed : options.expression = none)
    {input : String}
    (takesInput : options.input = some input) :
    options.reply pretty system = .ok text ↔
      ∃ source directives, system.read input = .ok source ∧
        scanSource options.grammar source 0 = .ok directives ∧
        text = options.report pretty directives := by
  rw [Options.reply, unexpressed, takesInput]
  dsimp only
  cases reads : system.read input with
  | error fault => simp [Options.scanContent, scanFile]
  | ok source =>
      rw [scanContent_ok]
      cases scanned : scanSource options.grammar source 0 with
      | error fault => simp [scanned]
      | ok directives => simp [scanned, @eq_comm _ text]

/-- A change to a file that is not read changes nothing in what is found. -/
theorem reply_put_eq_ok_iff
    {route : List PathComponent}
    (differs : ¬options.Reads route)
    (content : String) :
    options.reply pretty (system.put route content) = .ok text ↔
      options.reply pretty system = .ok text := by
  cases unexpressed : options.expression with
  | some expression => simp only [Options.reply, unexpressed]
  | none =>
      cases takesInput : options.input with
      | none => simp only [Options.reply, unexpressed, takesInput]
      | some input =>
          have elsewhere : FileSystem.route input ≠ route := fun same =>
            differs ⟨unexpressed, input, takesInput, same⟩
          simp only [reply_eq_ok_iff unexpressed takesInput, FileSystem.read_eq_ok_iff,
            FileSystem.file?_put_of_ne _ _ elsewhere]

theorem scanSource_empty (grammar : Grammar) (file : FileId) :
    scanSource grammar "" file = .ok [] := by
  have noLines : logicalLines "" = [] := by decide +kernel
  rw [scanSource, noLines, scanLines]

/-- In the file that is read nothing is found once it is empty. -/
theorem reply_put_empty
    {route : List PathComponent}
    (reads : options.Reads route)
    (found : options.reply pretty system = .ok text) :
    options.reply pretty (system.put route "") = .ok (options.report pretty []) := by
  obtain ⟨unexpressed, input, takesInput, rfl⟩ := reads
  obtain ⟨source, _, readable, _, _⟩ := (reply_eq_ok_iff unexpressed takesInput).1 found
  obtain ⟨nonempty, notDirectory, _⟩ := FileSystem.read_eq_ok_iff.1 readable
  refine (reply_eq_ok_iff unexpressed takesInput).2 ⟨"", [], ?_, scanSource_empty _ _, rfl⟩
  exact FileSystem.read_eq_ok_iff.2 ⟨nonempty, notDirectory, FileSystem.file?_put_self _ _ _⟩

/-- A run that writes succeeds if all of the text is written. -/
theorem status_ofWriting_iff {output : String} {result : Except WriteFault Unit} :
    (Outcome.ofWriting output result).status = 0 ↔ result = .ok () := by
  rcases result with broken | ⟨⟩
  · constructor <;> (intro impossible; cases impossible)
  · exact ⟨fun _ => rfl, fun _ => rfl⟩

/-- A run without an output file succeeds if it finds something and can print all of it. -/
theorem reply_of_succeeds
    (unset : options.output = none)
    (succeeds : (options.runOn pretty medium system).1.status = 0) :
    options.reply pretty system = .ok (options.runOn pretty medium system).1.output := by
  rw [runOn_of_unset unset] at succeeds ⊢
  cases found : options.reply pretty system with
  | error message =>
      rw [found] at succeeds
      cases succeeds
  | ok text =>
      rw [found] at succeeds
      have printed := status_ofWriting_iff.1 succeeds
      simp only [printed, written, Outcome.ofWriting, Outcome.success]

/-- A run with an output file changes no other file. -/
theorem file?_runOn_withOutput
    (creatable : system.create path = .ok created)
    (route : List PathComponent)
    (differs : route ≠ FileSystem.route path) :
    ((options.withOutput path).runOn pretty medium system).2.file? route =
      system.file? route := by
  obtain ⟨-, isPut⟩ := FileSystem.create_eq_ok creatable
  have untouched : created.file? route = system.file? route := by
    rw [isPut]
    exact FileSystem.file?_put_of_ne _ _ differs
  rw [runOn_withOutput creatable]
  cases options.reply pretty created with
  | error message => exact untouched
  | ok text => exact (FileSystem.file?_put_of_ne _ _ differs).trans untouched

/-- What is found once the output file is empty is put into it, as far as it can be written. -/
theorem runOn_withOutput_of_found
    (creatable : system.create path = .ok created)
    (found : options.reply pretty created = .ok text) :
    (((options.withOutput path).runOn pretty medium system).1.status = 0 ↔
        medium (some path) text = .ok ()) ∧
      (((options.withOutput path).runOn pretty medium system).1.status = 0 →
        ((options.withOutput path).runOn pretty medium system).2.file? (FileSystem.route path) =
          some (some text)) := by
  rw [runOn_withOutput creatable, found]
  refine ⟨status_ofWriting_iff, fun succeeds => ?_⟩
  have taken := status_ofWriting_iff.1 succeeds
  simp only [taken, written]
  exact FileSystem.file?_put_self _ _ _

/-- Where all texts can be written, it does not matter for the status where they go. -/
theorem status_runOn_withOutput
    (unset : options.output = none)
    (creatable : system.create path = .ok created)
    (notRead : ¬options.Reads (FileSystem.route path))
    (takesAll : ∀ place text, medium place text = .ok ()) :
    ((options.withOutput path).runOn pretty medium system).1.status =
      (options.runOn pretty medium system).1.status := by
  obtain ⟨-, isPut⟩ := FileSystem.create_eq_ok creatable
  have agrees : ∀ text, options.reply pretty created = .ok text ↔
      options.reply pretty system = .ok text := by
    intro text
    rw [isPut]
    exact reply_put_eq_ok_iff notRead ""
  rw [runOn_of_unset unset, runOn_withOutput creatable]
  cases found : options.reply pretty system with
  | ok text =>
      rw [(agrees text).2 found]
      simp only [takesAll]
      rfl
  | error message =>
      cases foundToo : options.reply pretty created with
      | ok text => cases found.symm.trans ((agrees text).1 foundToo)
      | error message => rfl

/-- A run that fails leaves its output file empty, or with what it could write. -/
theorem file?_runOn_withOutput_of_fails
    (creatable : system.create path = .ok created)
    (fails : ((options.withOutput path).runOn pretty medium system).1.status = 1) :
    ∃ left, ((options.withOutput path).runOn pretty medium system).2.file?
        (FileSystem.route path) = some (some left) ∧
      ((∀ place text, medium place text = .ok ()) → left = "") := by
  obtain ⟨-, isPut⟩ := FileSystem.create_eq_ok creatable
  rw [runOn_withOutput creatable] at fails ⊢
  cases found : options.reply pretty created with
  | ok text =>
      refine ⟨_, FileSystem.file?_put_self _ _ _, fun takesAll => ?_⟩
      rw [found] at fails
      simp only [takesAll] at fails
      cases fails
  | error message =>
      rw [isPut]
      exact ⟨"", FileSystem.file?_put_self _ _ _, fun _ => rfl⟩

/--
A run with an output file, compared with the same run without one, for any libraries
and on any medium.  No other file is changed.  The text in the file is the text that
would be printed, unless the file is the one that is read; then it is what is printed
for no directives.  The run succeeds if this text can be written.  A run that fails
leaves the file empty, or with a part of the text if that could not be written to its
end, so nothing is lost if and only if just this was in the file before.
-/
theorem run_output_file
    (medium : FileSystem.Medium)
    {arguments redirected : List String}
    (parsed : libraries.parse arguments = .ok options)
    (unset : options.output = none)
    (parsedToo : libraries.parse redirected = .ok (options.withOutput path))
    (creatable : system.create path = .ok created) :
    let plain := (libraries.run (FileSystem.accessOn medium) arguments).run system
    let redirected := (libraries.run (FileSystem.accessOn medium) redirected).run system
    let target := FileSystem.route path
    let nothing := options.report libraries.pretty []
    let takesAll := ∀ place text, medium place text = .ok ()
    plain.2 = system ∧
      (∀ route, route ≠ target → redirected.2.file? route = system.file? route) ∧
      (¬options.Reads target →
        (takesAll → redirected.1.status = plain.1.status) ∧
          (plain.1.status = 0 →
            (redirected.1.status = 0 ↔ medium (some path) plain.1.output = .ok ()) ∧
              (redirected.1.status = 0 →
                redirected.2.file? target = some (some plain.1.output)))) ∧
      (options.Reads target → plain.1.status = 0 →
        (redirected.1.status = 0 ↔ medium (some path) nothing = .ok ()) ∧
          (redirected.1.status = 0 → redirected.2.file? target = some (some nothing))) ∧
      (redirected.1.status = 1 →
        ∃ left, redirected.2.file? target = some (some left) ∧ (takesAll → left = "") ∧
          ((∀ route content, system.file? route = some content →
              redirected.2.file? route = some content) ↔
            ∀ content, system.file? target = some content → content = some left)) := by
  intro plain redirected target nothing takesAll
  have isPlain : plain = options.runOn libraries.pretty medium system :=
    run_eq_runOn parsed system
  have isRedirected : redirected = (options.withOutput path).runOn libraries.pretty medium system :=
    run_eq_runOn parsedToo system
  obtain ⟨-, isPut⟩ := FileSystem.create_eq_ok creatable
  have elsewhere : ∀ route, route ≠ target →
      ((options.withOutput path).runOn libraries.pretty medium system).2.file? route =
        system.file? route :=
    file?_runOn_withOutput creatable
  rw [isPlain, isRedirected]
  refine ⟨?_, elsewhere, fun notRead => ⟨status_runOn_withOutput unset creatable notRead,
    fun succeeds => ?_⟩, fun isRead succeeds => ?_, fun fails => ?_⟩
  · rw [runOn_of_unset unset]
  · have found := reply_of_succeeds unset succeeds
    have foundToo := (reply_put_eq_ok_iff notRead "").2 found
    rw [← isPut] at foundToo
    exact runOn_withOutput_of_found creatable foundToo
  · have found := reply_put_empty isRead (reply_of_succeeds unset succeeds)
    rw [← isPut] at found
    exact runOn_withOutput_of_found creatable found
  · obtain ⟨left, stands, empty⟩ := file?_runOn_withOutput_of_fails creatable fails
    exact ⟨left, stands, empty, FileSystem.keeps_iff elsewhere stands⟩

/-- The options that ask for the directives of a file and nothing else. -/
def Options.ofInput (input : String) : Options :=
  { Options.initial with input := some input }

theorem exists_reply_ofInput :
    ∃ text, text ≠ "" ∧
      (Options.ofInput "a.h").reply Json.pretty ⟨[([.named "a.h".toList], some "#else\n")]⟩ =
        .ok text := by
  have readable : FileSystem.read ⟨[([.named "a.h".toList], some "#else\n")]⟩ "a.h" =
      .ok "#else\n" :=
    FileSystem.read_eq_ok_iff.2 (by decide +kernel)
  have visible : (scanSource .standard "#else\n" 0).toOption.map
      ((Options.ofInput "a.h").report Json.pretty · == "") = some false := by
    decide +kernel
  cases scanned : scanSource .standard "#else\n" 0 with
  | error fault =>
      rw [scanned] at visible
      cases visible
  | ok directives =>
      rw [scanned] at visible
      refine ⟨_, ?_, (reply_eq_ok_iff rfl rfl).2 ⟨_, _, readable, scanned, rfl⟩⟩
      exact ne_of_beq_false (Option.some.inj visible)

theorem run_output_file_elsewhere :
    let system : FileSystem := ⟨[([.named "a.h".toList], some "#else\n")]⟩
    let plain := (run FileSystem.access ["a.h"]).run system
    let redirected := (run FileSystem.access ["-o", "b", "a.h"]).run system
    plain.1.status = 0 ∧ redirected.1.status = 0 ∧
      redirected.2.file? [.named ['b']] = some (some plain.1.output) ∧
      redirected.2.file? [.named "a.h".toList] = some (some "#else\n") := by
  intro system plain redirected
  have parsed : libraries.parse ["a.h"] = .ok (.ofInput "a.h") := rfl
  have parsedToo : libraries.parse ["-o", "b", "a.h"] = .ok (Options.withOutput _ "b") :=
    parse_output_cons parsed rfl rfl rfl
  have creatable : system.create "b" = .ok (system.put [.named ['b']] "") := rfl
  have succeeds : plain.1.status = 0 := by
    obtain ⟨text, -, found⟩ := exists_reply_ofInput
    have isPlain : plain =
        (Options.ofInput "a.h").runOn Json.pretty (fun _ _ => .ok ()) system :=
      run_eq_runOn parsed system
    rw [isPlain, runOn_of_unset rfl, found]
    rfl
  obtain ⟨-, elsewhere, other, -⟩ :=
    run_output_file (fun _ _ => .ok ()) parsed rfl parsedToo creatable
  have target : FileSystem.route "b" = [.named ['b']] := by decide +kernel
  rw [target] at elsewhere other
  have notRead : ¬(Options.ofInput "a.h").Reads [.named ['b']] := by
    rintro ⟨-, input, takesInput, isTarget⟩
    cases takesInput
    revert isTarget
    decide +kernel
  obtain ⟨succeedsToo, printed⟩ := (other notRead).2 succeeds
  exact ⟨succeeds, succeedsToo.2 rfl, printed (succeedsToo.2 rfl), elsewhere _ (by decide)⟩

/-- The text is lost if the file is the one that is read, and so is what a failing run finds. -/
theorem run_output_file_lost :
    let system : FileSystem := ⟨[([.named "a.h".toList], some "#else\n")]⟩
    let plain := (run FileSystem.access ["a.h"]).run system
    let redirected := (run FileSystem.access ["-o", "a.h", "a.h"]).run system
    let failed := (run FileSystem.access ["-o", "a.h", "--expr", "x", "--rule", "y"]).run system
    (plain.1.status = 0 ∧ plain.1.output ≠ "" ∧ redirected.1.status = 0 ∧
        redirected.2.file? [.named "a.h".toList] = some (some "")) ∧
      failed.1.status = 1 ∧ failed.2.file? [.named "a.h".toList] = some (some "") := by
  intro system plain redirected failed
  have parsed : libraries.parse ["a.h"] = .ok (.ofInput "a.h") := rfl
  have parsedToo : libraries.parse ["-o", "a.h", "a.h"] = .ok (Options.withOutput _ "a.h") :=
    parse_output_cons parsed rfl rfl rfl
  have creatable : system.create "a.h" = .ok (system.put [.named "a.h".toList] "") := rfl
  have isRead : (Options.ofInput "a.h").Reads [.named "a.h".toList] :=
    ⟨rfl, "a.h", rfl, by decide +kernel⟩
  obtain ⟨text, something, found⟩ := exists_reply_ofInput
  have isPlain : plain = (Options.ofInput "a.h").runOn Json.pretty (fun _ _ => .ok ()) system :=
    run_eq_runOn parsed system
  have isRedirected : redirected =
      (Options.withOutput (.ofInput "a.h") "a.h").runOn Json.pretty (fun _ _ => .ok ()) system :=
    run_eq_runOn parsedToo system
  obtain ⟨succeeds, left⟩ := runOn_withOutput_of_found creatable (reply_put_empty isRead found)
  refine ⟨⟨?_, ?_, ?_, ?_⟩, by decide +kernel⟩
  · rw [isPlain, runOn_of_unset rfl, found]
    rfl
  · rw [isPlain, runOn_of_unset rfl, found]
    exact something
  · rw [isRedirected]
    exact succeeds.2 rfl
  · rw [isRedirected]
    exact left (succeeds.2 rfl)

end CommandLine
end PreprocessorSyntax
