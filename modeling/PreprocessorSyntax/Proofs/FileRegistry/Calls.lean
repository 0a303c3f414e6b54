import PreprocessorSyntax.Proofs.FileRegistry.Scanning

/-!
# Runs of a registry

A registry is used by registering paths and by scanning files, in any order.
Whatever has been done, what is left are the records of the paths that were
registered, by a scan or by name, and a scan that follows speaks of the number of
its path.
-/

namespace PreprocessorSyntax
namespace FileRegistry

/-- A use of a registry. -/
inductive Call where
  /-- Register a path. -/
  | register (path : String)
  /-- Scan a file, given what comes of reading it. -/
  | scan (grammar : Grammar) (path : String) (content : Except FileFault String)

/-- The path that a call registers; a file that cannot be read is not registered. -/
def Call.path? : Call → Option String
  | .register path => some path
  | .scan _ path (.ok _) => some path
  | .scan _ _ (.error _) => none

/-- The registry after a call. -/
def after (registry : FileRegistry) : Call → FileRegistry
  | .register path => (registry.register path).2
  | .scan grammar path content => (scanFile grammar registry path content).2

/-- The registry after some calls. -/
def afterCalls (registry : FileRegistry) (calls : List Call) : FileRegistry :=
  calls.foldl after registry

/-- The paths that some calls register, with the numbers they get. -/
def registrations (registry : FileRegistry) : List Call → List (String × FileId)
  | [] => []
  | call :: calls =>
    (call.path?.map fun path => (path, (registry.register path).1)).toList ++
      registrations (registry.after call) calls

variable {registry : FileRegistry} {given : List (String × FileId)}

/-- A call registers its path, or it changes nothing. -/
theorem after_eq (registry : FileRegistry) (call : Call) :
    registry.after call =
      (call.path?.map fun path => (registry.register path).2).getD registry := by
  rcases call with path | ⟨grammar, path, fault | source⟩ <;> rfl

theorem Records.after (records : registry.Records given) (call : Call) :
    (registry.after call).Records
      (given ++ (call.path?.map fun path => (path, (registry.register path).1)).toList) := by
  rw [after_eq]
  cases call.path? with
  | none =>
      simp only [Option.map_none, Option.toList_none, List.append_nil]
      exact records
  | some path => exact records.register path

theorem Records.afterCalls (records : registry.Records given) (calls : List Call) :
    (registry.afterCalls calls).Records (given ++ registry.registrations calls) := by
  induction calls generalizing registry given with
  | nil =>
      rw [registrations, List.append_nil]
      exact records
  | cons call calls inductionHypothesis =>
      rw [registrations, ← List.append_assoc]
      exact inductionHypothesis (records.after call)

theorem extends_after (registry : FileRegistry) (call : Call) :
    (registry.after call).Extends registry := by
  rw [after_eq]
  cases call.path? with
  | none => exact .refl registry
  | some path => exact registry.extends_register path

/-- Nothing that is done with a registry changes what it knows. -/
theorem extends_afterCalls (registry : FileRegistry) (calls : List Call) :
    (registry.afterCalls calls).Extends registry := by
  induction calls generalizing registry with
  | nil => exact .refl registry
  | cons call calls inductionHypothesis =>
      exact (inductionHypothesis (registry.after call)).trans (registry.extends_after call)

/-- What a scan of a file returns is about the file with the number of its path. -/
theorem file_of_scanFile
    (grammar : Grammar)
    (registry : FileRegistry)
    (path source : String) :
    ∀ location ∈ scannedLocations (scanFile grammar registry path (.ok source)).1,
      location.file = (registry.register path).1 :=
  fun _ listed => file_of_scanSource listed

end FileRegistry

/--
Numbers and paths correspond, whatever calls a registry has gone through.  A path has
the number of its place among the registered paths, each of which counts once, whatever
its spelling: zero, one, two and so on, in 32 bits.  The registry holds as many paths as
different ones were registered.  A number stands for the first spelling that was
registered under it, and neither this nor the number of a path is changed by any further
calls.  As long as 32 bits give each path a number of its own, the row of paths and the
map of numbers are inverse to each other, so numbers are the same if and only if the
paths have the same components.

A scan that cannot read its file reports it and leaves the registry as it is.  Any
other scan has its path registered, even if it fails, and all that it returns is in
the file with the number of the path.
-/
theorem numbers_correspond_to_paths (calls : List FileRegistry.Call) :
    let registry := FileRegistry.empty.afterCalls calls
    let given := FileRegistry.empty.registrations calls
    let row := (given.map fun entry => Path.components entry.1).eraseDups
    registry.paths.toList.map Path.components = row ∧
      registry.size = (given.map fun entry => Path.components entry.1).toFinset.card ∧
      (∀ entry ∈ given,
        entry.2 = UInt32.ofNat (row.idxOf (Path.components entry.1)) ∧
          registry.numbers[Path.components entry.1]? = some entry.2) ∧
      (∀ file, registry.path? file =
        (given.find? fun entry => entry.2 == file).map Prod.fst) ∧
      (∀ later, (registry.afterCalls later).Extends registry) ∧
      (registry.size ≤ UInt32.size →
        (∀ (key : List PathComponent) (file : FileId), registry.numbers[key]? = some file ↔
          ∃ spelling, registry.path? file = some spelling ∧ Path.components spelling = key) ∧
        ∀ first ∈ given, ∀ second ∈ given,
          first.2 = second.2 ↔ Path.components first.1 = Path.components second.1) ∧
      ∀ grammar path,
        (∀ fault, scanFile grammar registry path (.error fault) =
          (.error (.unreadable path fault), registry)) ∧
        ∀ source,
          let scanned := scanFile grammar registry path (.ok source)
          scanned.2 = (registry.register path).2 ∧
          scanned.2.numbers[Path.components path]? = some (registry.register path).1 ∧
          Path.components path ∈ scanned.2.paths.toList.map Path.components ∧
          ∀ location ∈ scannedLocations scanned.1, location.file = (registry.register path).1 := by
  intro registry given row
  have records : registry.Records given := FileRegistry.records_empty.afterCalls calls
  refine ⟨records.row, records.size_eq_card, fun entry listed => ?_, records.first,
    registry.extends_afterCalls, fun enough => ?_,
    fun grammar path => ⟨fun _ => rfl, fun source => ?_⟩⟩
  · exact ⟨records.number_eq_idxOf listed, records.known entry listed⟩
  · exact ⟨fun key file => records.consistent.getElem?_numbers_eq_some_iff enough,
      fun first listed second listedToo => records.number_eq_iff enough listed listedToo⟩
  · have longer := records.register path
    exact ⟨rfl, registry.getElem?_numbers_register path, longer.mem_row_iff.2 (by simp),
      registry.file_of_scanFile grammar path source⟩

/-- A path in another spelling, a file that cannot be read, and a path with a dot in front. -/
theorem numbers_correspond_to_paths_respelled :
    let calls : List FileRegistry.Call :=
      [.register "a/b", .scan .standard "c" (.error .notFound), .register "a//b/",
        .register "./a/b"]
    let given := FileRegistry.empty.registrations calls
    given.map Prod.fst = ["a/b", "a//b/", "./a/b"] ∧ given.map Prod.snd = [0, 0, 1] ∧
      (FileRegistry.empty.afterCalls calls).size ≤ UInt32.size ∧
      ∀ first ∈ given, ∀ second ∈ given,
        first.2 = second.2 ↔ Path.components first.1 = Path.components second.1 := by
  intro calls given
  obtain ⟨-, counted, numbered, -, -, inverse, -⟩ := numbers_correspond_to_paths calls
  have paths : given.map Prod.fst = ["a/b", "a//b/", "./a/b"] := rfl
  have components : given.map (fun entry => Path.components entry.1) =
      ["a/b", "a//b/", "./a/b"].map Path.components := rfl
  rw [components] at counted
  have few : (FileRegistry.empty.afterCalls calls).size ≤ UInt32.size := by
    rw [counted]
    exact (List.toFinset_card_le _).trans (by decide)
  have numbers : given.map Prod.snd = given.map fun entry => UInt32.ofNat
      ((["a/b", "a//b/", "./a/b"].map Path.components).eraseDups.idxOf
        (Path.components entry.1)) :=
    List.map_congr_left fun entry listed => (numbered entry listed).1
  refine ⟨paths, ?_, few, (inverse few).2⟩
  have places : ["a/b", "a//b/", "./a/b"].map (fun path => UInt32.ofNat
      ((["a/b", "a//b/", "./a/b"].map Path.components).eraseDups.idxOf (Path.components path))) =
        [0, 0, 1] := by
    decide +kernel
  rw [numbers, ← places, ← paths, List.map_map]
  rfl

end PreprocessorSyntax
