import Mathlib.Data.Finset.Card
import Mathlib.Data.List.Induction
import PreprocessorSyntax.Scan

/-!
# Numbers and paths

A registry numbers paths in the order in which they come up for the first time.  It
holds each path in a row and its number in a map, and every registration has to keep
the two in step: the map says of a path in which place of the row it stands, as far as
32 bits tell, and it knows no other paths.  What is registered later changes nothing in
what a number stands for.
-/

namespace PreprocessorSyntax
namespace FileRegistry

variable {registry : FileRegistry} {given : List (String × FileId)}

/-- The registry with one more path, in the row and in the map. -/
def extend (registry : FileRegistry) (path : String) : FileRegistry :=
  ⟨registry.paths.push path,
    registry.numbers.insert (Path.components path) (UInt32.ofNat registry.size)⟩

@[simp] theorem toList_paths_extend (registry : FileRegistry) (path : String) :
    (registry.extend path).paths.toList = registry.paths.toList ++ [path] :=
  Array.toList_push

theorem getElem?_paths_extend (registry : FileRegistry) (path : String) (place : Nat) :
    (registry.extend path).paths[place]? =
      if place = registry.size then some path else registry.paths[place]? :=
  Array.getElem?_push

theorem getElem?_numbers_extend
    (registry : FileRegistry)
    (path : String)
    (key : List PathComponent) :
    (registry.extend path).numbers[key]? =
      if Path.components path = key then some (UInt32.ofNat registry.size)
      else registry.numbers[key]? := by
  simp only [extend, Std.HashMap.getElem?_insert, beq_iff_eq]

/-- A path that the map does not know takes no number away from another one. -/
theorem getElem?_numbers_extend_of_known
    {path : String}
    {key : List PathComponent}
    {file : FileId}
    (unknown : registry.numbers[Path.components path]? = none)
    (known : registry.numbers[key]? = some file) :
    (registry.extend path).numbers[key]? = some file := by
  have differs : Path.components path ≠ key := by
    rintro rfl
    rw [known] at unknown
    cases unknown
  rw [getElem?_numbers_extend, if_neg differs]
  exact known

/-- A path is known to the map, or the registry is extended by it. -/
theorem register_cases (registry : FileRegistry) (path : String) :
    (∃ file, registry.register path = (file, registry) ∧
        registry.numbers[Path.components path]? = some file) ∨
      (registry.register path = (UInt32.ofNat registry.size, registry.extend path) ∧
        registry.numbers[Path.components path]? = none) := by
  unfold register
  split
  next known found => exact .inl ⟨known, rfl, found⟩
  next unknown => exact .inr ⟨rfl, unknown⟩

/-- The map knows a registered path under its number. -/
theorem getElem?_numbers_register (registry : FileRegistry) (path : String) :
    (registry.register path).2.numbers[Path.components path]? =
      some (registry.register path).1 := by
  rcases registry.register_cases path with ⟨_, registered, found⟩ | ⟨registered, _⟩
  · rw [registered]
    exact found
  · rw [registered, getElem?_numbers_extend, if_pos rfl]

/-- A later registry still knows what an earlier one knew. -/
structure Extends (later registry : FileRegistry) : Prop where
  /-- A number stands for the same spelling. -/
  spelling_eq : ∀ file spelling, registry.path? file = some spelling →
    later.path? file = some spelling
  /-- A path has the same number. -/
  number_eq : ∀ (key : List PathComponent) (file : FileId), registry.numbers[key]? = some file →
    later.numbers[key]? = some file

theorem Extends.refl (registry : FileRegistry) : registry.Extends registry where
  spelling_eq _ _ known := known
  number_eq _ _ known := known

theorem Extends.trans {last later : FileRegistry}
    (second : last.Extends later)
    (first : later.Extends registry) :
    last.Extends registry where
  spelling_eq file spelling known :=
    second.spelling_eq file spelling (first.spelling_eq file spelling known)
  number_eq key file known := second.number_eq key file (first.number_eq key file known)

theorem extends_register (registry : FileRegistry) (path : String) :
    (registry.register path).2.Extends registry := by
  rcases registry.register_cases path with ⟨_, registered, _⟩ | ⟨registered, unknown⟩
  · rw [registered]
    exact .refl registry
  · rw [registered]
    refine ⟨fun file spelling known => ?_, fun key file known => ?_⟩
    · have below : file.toNat < registry.size := (Array.getElem?_eq_some_iff.1 known).1
      rw [path?, getElem?_paths_extend, if_neg (Nat.ne_of_lt below)]
      exact known
    · exact getElem?_numbers_extend_of_known unknown known

/-- The row of a registry and its map say the same. -/
structure Consistent (registry : FileRegistry) : Prop where
  /-- No two paths in the row are the same. -/
  distinct : (registry.paths.toList.map Path.components).Nodup
  /-- The map knows the paths in the row and no others, each under the number of its place. -/
  getElem?_numbers_iff : ∀ key file, registry.numbers[key]? = some file ↔
    ∃ place spelling, registry.paths[place]? = some spelling ∧
      Path.components spelling = key ∧ UInt32.ofNat place = file

theorem consistent_empty : Consistent empty where
  distinct := List.nodup_nil
  getElem?_numbers_iff := by simp [empty]

namespace Consistent

/-- A path that the map does not know can be put into both. -/
theorem extend {path : String}
    (consistent : registry.Consistent)
    (unknown : registry.numbers[Path.components path]? = none) :
    (registry.extend path).Consistent where
  distinct := by
    rw [toList_paths_extend, List.map_append]
    refine consistent.distinct.append (List.nodup_singleton _) ?_
    rw [List.map_singleton, List.disjoint_singleton]
    intro present
    obtain ⟨spelling, listed, same⟩ := List.mem_map.1 present
    obtain ⟨place, stands⟩ := List.getElem?_of_mem listed
    rw [Array.getElem?_toList] at stands
    have known := (consistent.getElem?_numbers_iff _ _).2 ⟨place, spelling, stands, same, rfl⟩
    rw [unknown] at known
    cases known
  getElem?_numbers_iff key file := by
    constructor
    · intro known
      rw [getElem?_numbers_extend] at known
      split at known
      next same =>
        refine ⟨registry.size, path, ?_, same, Option.some.inj known⟩
        rw [getElem?_paths_extend, if_pos rfl]
      next =>
        obtain ⟨place, spelling, stands, same, number⟩ :=
          (consistent.getElem?_numbers_iff key file).1 known
        refine ⟨place, spelling, ?_, same, number⟩
        have below : place < registry.size := (Array.getElem?_eq_some_iff.1 stands).1
        rw [getElem?_paths_extend, if_neg (Nat.ne_of_lt below), stands]
    · rintro ⟨place, spelling, stands, rfl, rfl⟩
      rw [getElem?_paths_extend] at stands
      split at stands
      next last =>
        cases stands
        rw [getElem?_numbers_extend, if_pos rfl, last]
      next =>
        exact getElem?_numbers_extend_of_known unknown
          ((consistent.getElem?_numbers_iff _ _).2 ⟨place, spelling, stands, rfl, rfl⟩)

/-- As long as there is a number for each path, the row and the map are inverse to each other. -/
theorem getElem?_numbers_eq_some_iff
    (consistent : registry.Consistent)
    (enough : registry.size ≤ UInt32.size)
    {key : List PathComponent}
    {file : FileId} :
    registry.numbers[key]? = some file ↔
      ∃ spelling, registry.path? file = some spelling ∧ Path.components spelling = key := by
  rw [consistent.getElem?_numbers_iff]
  constructor
  · rintro ⟨place, spelling, stands, same, rfl⟩
    have below : place < registry.size := (Array.getElem?_eq_some_iff.1 stands).1
    refine ⟨spelling, ?_, same⟩
    rw [path?, UInt32.toNat_ofNat', Nat.mod_eq_of_lt (below.trans_le enough)]
    exact stands
  · rintro ⟨spelling, stands, same⟩
    exact ⟨file.toNat, spelling, stands, same, UInt32.ofNat_toNat⟩

/-- A number of the map is one of the places in the row. -/
theorem toNat_lt_size
    (consistent : registry.Consistent)
    {key : List PathComponent}
    {file : FileId}
    (known : registry.numbers[key]? = some file) :
    file.toNat < registry.size := by
  obtain ⟨place, spelling, stands, _, rfl⟩ := (consistent.getElem?_numbers_iff key file).1 known
  rw [UInt32.toNat_ofNat']
  exact (Nat.mod_le _ _).trans_lt (Array.getElem?_eq_some_iff.1 stands).1

end Consistent

/-- A registry is what is left of some registrations, given with their numbers. -/
structure Records (registry : FileRegistry) (given : List (String × FileId)) : Prop where
  /-- The row and the map say the same. -/
  consistent : registry.Consistent
  /-- The row holds the registered paths, each in the place where it came up first. -/
  row : registry.paths.toList.map Path.components =
    (given.map fun entry => Path.components entry.1).eraseDups
  /-- The map holds the numbers that were given. -/
  known : ∀ entry ∈ given, registry.numbers[Path.components entry.1]? = some entry.2
  /-- A number stands for the first path that was registered under it, as it was spelled then. -/
  first : ∀ file, registry.path? file =
    (given.find? fun entry => entry.2 == file).map Prod.fst

theorem records_empty : Records empty [] where
  consistent := consistent_empty
  row := rfl
  known := List.forall_mem_nil _
  first _ := rfl

namespace Records

/-- The numbers that were given are the places in the row. -/
theorem mem_numbers_iff {file : FileId} (records : registry.Records given) :
    file ∈ given.map Prod.snd ↔ file.toNat < registry.size := by
  have stands : (registry.path? file).isSome = true ↔ file.toNat < registry.size := by
    rw [Option.isSome_iff_ne_none, path?, Ne, Array.getElem?_eq_none_iff, Nat.not_le, size]
  rw [← stands, records.first, Option.isSome_map, List.find?_isSome, List.mem_map]
  simp only [beq_iff_eq]

theorem mem_row_iff {key : List PathComponent} (records : registry.Records given) :
    key ∈ registry.paths.toList.map Path.components ↔
      key ∈ given.map fun entry => Path.components entry.1 := by
  rw [records.row, List.mem_eraseDups]

/-- Where a number was given before, it stands for the same path if it is given again. -/
theorem find?_concat_of_mem {path : String} {file other : FileId}
    (present : file ∈ given.map Prod.snd) :
    (given ++ [(path, file)]).find? (fun entry => entry.2 == other) =
      given.find? fun entry => entry.2 == other := by
  rw [List.find?_append]
  cases searched : given.find? fun entry => entry.2 == other with
  | some entry => rfl
  | none =>
      obtain ⟨entry, listed, isFile⟩ := List.mem_map.1 present
      have differs := List.find?_eq_none.1 searched entry listed
      rw [isFile] at differs
      exact List.find?_eq_none.2 (List.forall_mem_singleton.2 differs)

theorem concat_known {path : String} {file : FileId}
    (records : registry.Records given)
    (found : registry.numbers[Path.components path]? = some file) :
    registry.Records (given ++ [(path, file)]) where
  consistent := records.consistent
  row := by
    obtain ⟨place, spelling, stands, same, _⟩ :=
      (records.consistent.getElem?_numbers_iff _ _).1 found
    have present : Path.components path ∈ given.map fun entry => Path.components entry.1 := by
      rw [← records.mem_row_iff, ← same]
      exact List.mem_map_of_mem (Array.mem_toList_iff.2 (Array.mem_of_getElem? stands))
    rw [List.map_append, List.eraseDups_append, ← records.row]
    simp [List.removeAll, present]
  known := by
    rw [List.forall_mem_append, List.forall_mem_singleton]
    exact ⟨records.known, found⟩
  first other := by
    have present := records.mem_numbers_iff.2 (records.consistent.toNat_lt_size found)
    rw [records.first, find?_concat_of_mem present]

theorem concat_new {path : String}
    (records : registry.Records given)
    (unknown : registry.numbers[Path.components path]? = none) :
    (registry.extend path).Records (given ++ [(path, UInt32.ofNat registry.size)]) where
  consistent := records.consistent.extend unknown
  row := by
    have fresh : Path.components path ∉ given.map fun entry => Path.components entry.1 := by
      intro present
      obtain ⟨entry, listed, same⟩ := List.mem_map.1 present
      have known := records.known entry listed
      rw [same, unknown] at known
      cases known
    rw [toList_paths_extend, List.map_append, records.row, List.map_append,
      List.eraseDups_append]
    simp only [List.removeAll, List.map_cons, List.map_nil, List.elem_eq_mem, fresh, decide_false,
      Bool.not_false, List.filter_cons_of_pos, List.filter_nil]
    rfl
  known := by
    rw [List.forall_mem_append, List.forall_mem_singleton]
    refine ⟨fun entry listed => ?_, ?_⟩
    · exact getElem?_numbers_extend_of_known unknown (records.known entry listed)
    · rw [getElem?_numbers_extend, if_pos rfl]
  first other := by
    have before := records.first other
    rw [path?, getElem?_paths_extend, List.find?_append]
    cases searched : given.find? fun entry => entry.2 == other with
    | some entry =>
        rw [searched] at before
        have below : other.toNat < registry.size := (Array.getElem?_eq_some_iff.1 before).1
        rw [if_neg (Nat.ne_of_lt below)]
        exact before
    | none =>
        rw [searched] at before
        -- No number is left over unless the next one still has 32 bits.
        have beyond : registry.size ≤ other.toNat := Array.getElem?_eq_none_iff.1 before
        have next : (UInt32.ofNat registry.size).toNat = registry.size := by
          rw [UInt32.toNat_ofNat']
          exact Nat.mod_eq_of_lt (beyond.trans_lt other.toNat_lt)
        by_cases isNext : other.toNat = registry.size
        · have same : UInt32.ofNat registry.size = other := by
            rw [← isNext, UInt32.ofNat_toNat]
          simp [isNext, same]
        · have differs : UInt32.ofNat registry.size ≠ other := by
            rintro rfl
            exact isNext next
          have before : registry.paths[other.toNat]? = none := before
          simp [isNext, differs, before]

theorem register (records : registry.Records given) (path : String) :
    (registry.register path).2.Records (given ++ [(path, (registry.register path).1)]) := by
  rcases registry.register_cases path with ⟨file, registered, found⟩ | ⟨registered, unknown⟩
  · rw [registered]
    exact records.concat_known found
  · rw [registered]
    exact records.concat_new unknown

/-- There are as many paths in the row as different ones were registered. -/
theorem size_eq_card (records : registry.Records given) :
    registry.size = (given.map fun entry => Path.components entry.1).toFinset.card := by
  have same : (given.map fun entry => Path.components entry.1).toFinset =
      (registry.paths.toList.map Path.components).toFinset := by
    ext key
    rw [List.mem_toFinset, List.mem_toFinset, records.mem_row_iff]
  rw [same, List.toFinset_card_of_nodup records.consistent.distinct, List.length_map]
  rfl

/-- A path has the number of its place among the paths that were registered. -/
theorem number_eq_idxOf {entry : String × FileId}
    (records : registry.Records given)
    (listed : entry ∈ given) :
    entry.2 = UInt32.ofNat
      ((given.map fun entry => Path.components entry.1).eraseDups.idxOf
        (Path.components entry.1)) := by
  obtain ⟨place, spelling, stands, same, number⟩ :=
    (records.consistent.getElem?_numbers_iff _ _).1 (records.known entry listed)
  have inRow : (registry.paths.toList.map Path.components)[place]? =
      some (Path.components entry.1) := by
    rw [List.getElem?_map, Array.getElem?_toList, stands, Option.map_some, same]
  obtain ⟨bound, here⟩ := List.getElem?_eq_some_iff.1 inRow
  rw [← records.row, ← here, records.consistent.distinct.idxOf_getElem, number]

/-- Numbers are the same if the paths are, component by component. -/
theorem number_eq_iff {first second : String × FileId}
    (records : registry.Records given)
    (enough : registry.size ≤ UInt32.size)
    (listed : first ∈ given)
    (listedToo : second ∈ given) :
    first.2 = second.2 ↔ Path.components first.1 = Path.components second.1 := by
  have known := records.known first listed
  have knownToo := records.known second listedToo
  constructor
  · intro equal
    rw [records.consistent.getElem?_numbers_eq_some_iff enough] at known knownToo
    obtain ⟨spelling, stands, same⟩ := known
    obtain ⟨spellingToo, standsToo, sameToo⟩ := knownToo
    rw [equal, standsToo] at stands
    cases stands
    rw [← same, sameToo]
  · intro equal
    rw [equal, knownToo] at known
    exact (Option.some.inj known).symm

end Records

end FileRegistry
end PreprocessorSyntax
