import Mathlib.Data.List.Basic
import Mathlib.Data.List.Induction
import PreprocessorSyntax.Proofs.MacroTable.ByteOrder
import PreprocessorSyntax.Scan

/-!
# Replaying definitions

A macro table is what is left of a sequence of definitions and removals.  For
each name only the last of them counts: the table holds the definition if that
is one, and nothing if it is a removal.
-/

namespace PreprocessorSyntax

/-- The definition of a directive, if it is one. -/
def Directive.definition? : Directive → Option MacroDefinition
  | .define definition => some definition
  | _ => none

theorem Directive.eq_define_of_definition?
    {directive : Directive}
    {definition : MacroDefinition}
    (defines : directive.definition? = some definition) :
    directive = .define definition := by
  cases directive <;> cases defines
  rfl

/-- Whether a directive defines a name or removes its definition. -/
def Directive.concerns (name : String) : Directive → Bool
  | .define definition => definition.name == name
  | .undefine removed => removed == name
  | _ => false

/-- The last of some directives that defines a name or removes its definition. -/
def lastConcerning? (name : String) (directives : List ScannedDirective) :
    Option ScannedDirective :=
  (directives.filter fun scanned => scanned.directive.concerns name).getLast?

theorem getLast?_filter_concat
    {Item : Type}
    (test : Item → Bool)
    (items : List Item)
    (item : Item) :
    ((items ++ [item]).filter test).getLast? =
      if test item then some item else (items.filter test).getLast? := by
  cases tested : test item <;> simp [tested]

namespace MacroTable

/-- A change of a table. -/
inductive Edit where
  | define (definition : MacroDefinition) (location : Location)
  | undefine (name : String)

/-- The name that a change concerns. -/
def Edit.name : Edit → String
  | .define definition _ => definition.name
  | .undefine name => name

/-- What a change leaves under its name. -/
def Edit.entry? : Edit → Option (MacroDefinition × Location)
  | .define definition location => some (definition, location)
  | .undefine _ => none

/-- Change a table; the definition that was current before is returned with the new table. -/
def edit (table : MacroTable) : Edit → Option MacroDefinition × MacroTable
  | .define definition location => table.define definition location
  | .undefine name => table.undefine name

/-- The table after some changes. -/
def afterEdits (edits : List Edit) : MacroTable :=
  edits.foldl (fun table change => (table.edit change).2) .empty

/-- The last of some changes that concerns a name. -/
def lastEdit? (name : String) (edits : List Edit) : Option Edit :=
  (edits.filter fun change => change.name == name).getLast?

variable {table : MacroTable} {edits : List Edit} {change : Edit} {name : String}

/-- A change is seen under its own name only. -/
theorem getElem?_edit (table : MacroTable) (change : Edit) (name : String) :
    (table.edit change).2.entries[name]? =
      if change.name = name then change.entry? else table.entries[name]? := by
  cases change with
  | define definition location =>
      simp only [edit, define, Edit.name, Edit.entry?, Std.HashMap.getElem?_insert, beq_iff_eq]
      congr
  | undefine removed =>
      simp only [edit, undefine, Edit.name, Edit.entry?, Std.HashMap.getElem?_erase, beq_iff_eq]
      congr

/-- A change answers with the definition under its name. -/
theorem edit_fst (table : MacroTable) (change : Edit) :
    (table.edit change).1 = table.get? change.name := by
  cases change <;> rfl

theorem afterEdits_concat (edits : List Edit) (change : Edit) :
    afterEdits (edits ++ [change]) = ((afterEdits edits).edit change).2 := by
  rw [afterEdits, List.foldl_append]
  rfl

theorem lastEdit?_concat (name : String) (edits : List Edit) (change : Edit) :
    lastEdit? name (edits ++ [change]) =
      if change.name = name then some change else lastEdit? name edits := by
  rw [lastEdit?, getLast?_filter_concat]
  simp only [beq_iff_eq, lastEdit?]

/-- Under a name there is what the last change that concerns it has left. -/
theorem getElem?_afterEdits (edits : List Edit) (name : String) :
    (afterEdits edits).entries[name]? = (lastEdit? name edits).bind Edit.entry? := by
  induction edits using List.reverseRecOn with
  | nil => simp [afterEdits, empty, lastEdit?]
  | append_singleton edits change inductionHypothesis =>
      rw [afterEdits_concat, getElem?_edit, lastEdit?_concat, inductionHypothesis]
      split <;> rfl

/-- A change leaves a definition under the name of that definition. -/
theorem Edit.name_of_entry?
    {definition : MacroDefinition}
    {location : Location}
    (left : change.entry? = some (definition, location)) :
    change.name = definition.name := by
  cases change with
  | define => cases left; rfl
  | undefine => cases left

/-- Every definition is stored under its own name. -/
theorem name_of_getElem?_afterEdits
    {definition : MacroDefinition}
    {location : Location}
    (stored : (afterEdits edits).entries[name]? = some (definition, location)) :
    definition.name = name := by
  rw [getElem?_afterEdits, Option.bind_eq_some_iff] at stored
  obtain ⟨change, last, left⟩ := stored
  have concerned := List.mem_filter.1 (List.mem_of_getLast? last)
  rw [← Edit.name_of_entry? left]
  exact beq_iff_eq.1 concerned.2

theorem entry_mem_toList_iff {entry : String × MacroDefinition × Location} :
    entry ∈ table.entries.toList ↔ table.entries[entry.1]? = some entry.2 :=
  Std.HashMap.mem_toList_iff_getElem?_eq_some

/-- The sorted definitions are the stored ones. -/
theorem sorted_perm (table : MacroTable) :
    table.sorted.Perm (table.entries.toList.map fun entry => entry.2.1) := by
  have stored : table.values.map Prod.fst = table.entries.toList.map fun entry => entry.2.1 :=
    List.map_map
  rw [sorted, stored]
  exact List.mergeSort_perm _ _

/-- The names of the sorted definitions are those under which they are stored. -/
theorem map_name_sorted_afterEdits (edits : List Edit) :
    ((afterEdits edits).sorted.map MacroDefinition.name).Perm
      ((afterEdits edits).entries.toList.map Prod.fst) := by
  have own : (afterEdits edits).entries.toList.map (fun entry => entry.2.1.name) =
      (afterEdits edits).entries.toList.map Prod.fst :=
    List.map_congr_left fun entry present =>
      name_of_getElem?_afterEdits (entry_mem_toList_iff.1 present)
  rw [← own]
  simpa [Function.comp_def] using (sorted_perm (afterEdits edits)).map MacroDefinition.name

theorem mem_sorted_iff {definition : MacroDefinition} :
    definition ∈ (afterEdits edits).sorted ↔
      (afterEdits edits).get? definition.name = some definition := by
  rw [(sorted_perm _).mem_iff, List.mem_map, get?, Option.map_eq_some_iff]
  constructor
  · rintro ⟨⟨name, stored, location⟩, present, rfl⟩
    have found := entry_mem_toList_iff.1 present
    have own := name_of_getElem?_afterEdits found
    exact ⟨(stored, location), own ▸ found, rfl⟩
  · rintro ⟨⟨stored, location⟩, found, rfl⟩
    exact ⟨(_, stored, location), entry_mem_toList_iff.2 found, rfl⟩

/-- Names do not fall from one of the sorted definitions to the next. -/
theorem pairwise_isLE_sorted (table : MacroTable) :
    table.sorted.Pairwise fun first second => (compare first.name second.name).isLE = true := by
  refine List.pairwise_mergeSort ?_ ?_ _
  · exact fun first second third => Std.TransCmp.isLE_trans
  · intro first second
    have swaps : compare second.name first.name = (compare first.name second.name).swap :=
      Std.OrientedCmp.eq_swap
    rw [swaps]
    cases compare first.name second.name <;> rfl

/-- No name is stored twice, so the names rise. -/
theorem pairwise_sorted (edits : List Edit) :
    (afterEdits edits).sorted.Pairwise fun first second =>
      encoded first.name < encoded second.name := by
  have keys : ((afterEdits edits).entries.toList.map Prod.fst).Nodup :=
    List.pairwise_map.2 (Std.HashMap.distinct_keys_toList.imp ne_of_beq_false)
  have names : (afterEdits edits).sorted.Pairwise fun first second => first.name ≠ second.name :=
    List.pairwise_map.1 ((map_name_sorted_afterEdits edits).nodup_iff.2 keys)
  refine ((pairwise_isLE_sorted _).and names).imp fun ⟨isLE, differ⟩ => encoded_lt ?_
  rcases Ordering.isLE_iff_eq_lt_or_eq_eq.1 isLE with lt | eq
  · exact compareOfLessAndEq_eq_lt.1 lt
  · exact absurd (Std.LawfulEqCmp.compare_eq_iff_eq.1 eq) differ

/-- The definitions are listed with their locations in the order in which they are sorted. -/
theorem map_fst_toList (edits : List Edit) :
    (afterEdits edits).toList.map Prod.fst = (afterEdits edits).sorted := by
  have stored : ∀ definition ∈ (afterEdits edits).sorted,
      (afterEdits edits).entries[definition.name]?.map Prod.fst = some definition :=
    fun definition => mem_sorted_iff.1
  rw [toList, List.map_filterMap, List.filterMap_congr stored, List.filterMap_some]

theorem length_sorted (table : MacroTable) : table.sorted.length = table.size := by
  rw [(sorted_perm table).length_eq, List.length_map, Std.HashMap.length_toList, size]

/-- A table is what some changes leave, and its views tell the same. -/
structure Replays (table : MacroTable) (edits : List Edit) : Prop where
  /-- A further change answers with what the last one of the same name has left. -/
  answers : ∀ change : Edit, (table.edit change).1 =
    ((lastEdit? change.name edits).bind Edit.entry?).map Prod.fst
  /-- Every definition is stored under its own name. -/
  named : ∀ entry ∈ table.entries.toList, entry.2.1.name = entry.1
  /-- Names rise strictly in the order of their bytes. -/
  ordered : table.sorted.Pairwise fun first second => encoded first.name < encoded second.name
  /-- The names of the sorted definitions are the defined ones. -/
  listed : ∀ name, name ∈ table.sorted.map MacroDefinition.name ↔ table.isDefined name = true
  /-- The sorted definitions are the current ones. -/
  current : ∀ definition,
    definition ∈ table.sorted ↔ table.get? definition.name = some definition
  counted : table.sorted.length = table.size

theorem isDefined_iff (table : MacroTable) (name : String) :
    table.isDefined name = true ↔ ∃ entry, table.entries[name]? = some entry := by
  rw [isDefined, ← Option.isSome_iff_exists, Std.HashMap.isSome_getElem?_eq_contains]

theorem replays_afterEdits (edits : List Edit) : (afterEdits edits).Replays edits where
  answers change := by
    rw [edit_fst, get?, getElem?_afterEdits]
  named entry present := name_of_getElem?_afterEdits (entry_mem_toList_iff.1 present)
  ordered := pairwise_sorted edits
  listed name := by
    rw [(map_name_sorted_afterEdits edits).mem_iff, isDefined_iff, List.mem_map]
    constructor
    · rintro ⟨entry, present, rfl⟩
      exact ⟨entry.2, entry_mem_toList_iff.1 present⟩
    · rintro ⟨entry, stored⟩
      exact ⟨(name, entry), entry_mem_toList_iff.2 stored, rfl⟩
  current _ := mem_sorted_iff
  counted := length_sorted _

end MacroTable

open MacroTable

/-- What a directive changes in a table. -/
def ScannedDirective.edit? (scanned : ScannedDirective) : Option Edit :=
  match scanned.directive with
  | .define definition => some (.define definition scanned.location)
  | .undefine name => some (.undefine name)
  | _ => none

namespace ScannedDirective

variable {scanned : ScannedDirective} {name : String}

theorem concerns_eq (name : String) (scanned : ScannedDirective) :
    scanned.directive.concerns name = scanned.edit?.any fun change => change.name == name := by
  obtain ⟨location, node, directive⟩ := scanned
  cases directive <;> rfl

theorem bind_entry?_edit? (scanned : ScannedDirective) :
    scanned.edit?.bind Edit.entry? =
      scanned.directive.definition?.map fun definition => (definition, scanned.location) := by
  obtain ⟨location, node, directive⟩ := scanned
  cases directive <;> rfl

end ScannedDirective

/-- The macros of some directives are what their changes leave. -/
theorem collectMacros_eq (directives : List ScannedDirective) :
    collectMacros directives = afterEdits (directives.filterMap ScannedDirective.edit?) := by
  rw [collectMacros, afterEdits, List.foldl_filterMap]
  congr 1
  funext table scanned
  obtain ⟨location, node, directive⟩ := scanned
  cases directive <;> rfl

theorem lastConcerning?_concat
    (name : String)
    (directives : List ScannedDirective)
    (scanned : ScannedDirective) :
    lastConcerning? name (directives ++ [scanned]) =
      if scanned.directive.concerns name then some scanned
      else lastConcerning? name directives :=
  getLast?_filter_concat _ directives scanned

/-- The last change of a name is that of the last directive that concerns it. -/
theorem lastEdit?_filterMap (name : String) (directives : List ScannedDirective) :
    lastEdit? name (directives.filterMap ScannedDirective.edit?) =
      (lastConcerning? name directives).bind ScannedDirective.edit? := by
  induction directives using List.reverseRecOn with
  | nil => rfl
  | append_singleton directives scanned inductionHypothesis =>
      rw [List.filterMap_append, lastConcerning?_concat, scanned.concerns_eq]
      cases changes : scanned.edit? with
      | none => simp [changes, inductionHypothesis]
      | some change =>
          rw [List.filterMap_cons_some changes, List.filterMap_nil, lastEdit?_concat,
            inductionHypothesis]
          by_cases concerned : change.name = name <;> simp [concerned, changes]

theorem getElem?_collectMacros (directives : List ScannedDirective) (name : String) :
    (collectMacros directives).entries[name]? =
      (lastConcerning? name directives).bind fun last =>
        last.directive.definition?.map fun definition => (definition, last.location) := by
  rw [collectMacros_eq, getElem?_afterEdits, lastEdit?_filterMap, Option.bind_assoc]
  simp only [ScannedDirective.bind_entry?_edit?]

/-- A name is defined after some directives if the last one that concerns it is a definition. -/
theorem isDefined_collectMacros_iff (directives : List ScannedDirective) (name : String) :
    (collectMacros directives).isDefined name = true ↔
      ∃ last ∈ lastConcerning? name directives, ∃ definition,
        last.directive = .define definition := by
  rw [isDefined_iff, getElem?_collectMacros]
  constructor
  · rintro ⟨entry, stored⟩
    obtain ⟨last, here, left⟩ := Option.bind_eq_some_iff.1 stored
    obtain ⟨definition, defines, _⟩ := Option.map_eq_some_iff.1 left
    exact ⟨last, here, definition, Directive.eq_define_of_definition? defines⟩
  · rintro ⟨last, here, definition, defines⟩
    exact ⟨(definition, last.location), by rw [here, Option.bind_some, defines]; rfl⟩

/--
A macro table is the replay of a file.  A name is defined if the last directive that
concerns it is a definition, and then with this definition and the location of this
directive.  Whatever changes have been made to a table, every further one answers with
what the last change of the same name has left, every definition is stored under its
own name, and the sorted definitions are those that are current, one for each defined
name and in the order of the bytes of their names.
-/
theorem macros_replay (directives : List ScannedDirective) (edits : List Edit) :
    (∀ name,
      ((collectMacros directives).isDefined name = true ↔
        ∃ last ∈ lastConcerning? name directives, ∃ definition,
          last.directive = .define definition) ∧
      (collectMacros directives).get? name =
        (lastConcerning? name directives).bind (·.directive.definition?) ∧
      (collectMacros directives).location? name =
        (lastConcerning? name directives).bind fun last =>
          last.directive.definition?.map fun _ => last.location) ∧
    (afterEdits edits).Replays edits := by
  refine ⟨fun name => ⟨isDefined_collectMacros_iff directives name, ?_, ?_⟩,
    replays_afterEdits edits⟩
  · rw [get?, getElem?_collectMacros, Option.map_bind]
    simp only [Function.comp_def, Option.map_map, Option.map_id']
  · rw [location?, getElem?_collectMacros, Option.map_bind]
    simp only [Function.comp_def, Option.map_map]

end PreprocessorSyntax
