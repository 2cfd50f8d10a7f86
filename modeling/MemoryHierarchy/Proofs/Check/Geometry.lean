import MemoryHierarchy.Proofs.Artifact.Wiring

/-!
# Numbers of sets are powers of two

A number of sets has to be a power of two, and the checks look for it by a path through the mappings
of a record. Types are read by rules of their own, which meet the same value: caches and walkers
hold their numbers of sets under the key that was checked, and so does an instruction buffer that is
a mapping (`powersOfTwo_of_emit`).

An instruction buffer may also be written as a list of its sizes. No path leads into a list, so
nothing is checked there and the sizes are emitted as they stand.
-/

namespace MemoryHierarchy

/-! ## Checks of attributes

A check looks a value up by a path with dots, while the typed record reads it under a key. The two
meet here: a path without dots is a key, one with a dot leads into the mapping of the instruction
buffer. -/

theorem isPowerOfTwo_iff {n : Nat} : isPowerOfTwo n = true ↔ n.isPowerOfTwo := by
  unfold isPowerOfTwo Nat.isPowerOfTwo
  rw [decide_eq_true_eq, Nat.one_shiftLeft]
  constructor
  · intro hlog
    exact ⟨n.log2, hlog.symm⟩
  · rintro ⟨k, rfl⟩
    rw [Nat.log2_two_pow]

/-- A path that has no dots is a key. -/
theorem Document.at?_of_key {path : String}
    (hpath : (path.toList.splitOn '.').map String.ofList = [path]) (doc : Document) :
    doc.at? path = doc.get? path := by
  rw [at?, hpath]
  cases hget : doc.get? path with
  | none => simp [descend, Json.object?, hget]
  | some value => simp [descend, Json.object?, hget]

/-- A path of two keys leads into a mapping. -/
theorem Document.at?_of_keys {path key inner : String}
    (hpath : (path.toList.splitOn '.').map String.ofList = [key, inner]) {doc fields : Document}
    (hget : doc.get? key = some (.object fields)) : doc.at? path = fields.get? inner := by
  rw [at?, hpath]
  cases hinner : fields.get? inner with
  | none => simp [descend, Json.object?, hget, hinner]
  | some value => simp [descend, Json.object?, hget, hinner]

section

variable {kind : String} {checks : List AttributeCheck} {record : Document} {value : Json}

/-- A record that passes its checks has values of which all predicates hold. -/
theorem holds_of_checkRecord (hchecked : checkRecord kind checks record = [])
    {check : AttributeCheck} (hcheck : check ∈ checks) (hvalue : record.at? check.path = some value)
    {predicate : Predicate} (hpredicate : predicate ∈ check.predicates) :
    predicate.holds value = true := by
  have hpassed := List.flatMap_eq_nil_iff.mp hchecked check hcheck
  unfold AttributeCheck.diagnostics at hpassed
  rw [hvalue] at hpassed
  simp only [List.map_eq_nil_iff, List.filter_eq_nil_iff] at hpassed
  simpa using hpassed predicate hpredicate

/-- A number of sets that has been checked and is then read is a power of two. -/
theorem isPowerOfTwo_of_geometry (hchecked : checkRecord kind checks record = []) {path : String}
    (hcheck : .geometry path ∈ checks) (hvalue : record.at? path = some value) {n : Nat}
    (hread : Reader.word value = .ok n) : n.isPowerOfTwo := by
  have hholds : Predicate.powerOfTwo.holds value = true :=
    holds_of_checkRecord hchecked hcheck hvalue (by simp [AttributeCheck.geometry])
  obtain ⟨rfl, hrange⟩ := Reader.eq_ofNat_of_word hread
  rw [Predicate.holds, Json.natural?_ofNat hrange] at hholds
  exact isPowerOfTwo_iff.mp hholds

theorem isPowerOfTwo_of_read (hchecked : checkRecord kind checks record = []) {key : String}
    (hcheck : .geometry key ∈ checks)
    (hkey : (key.toList.splitOn '.').map String.ofList = [key]) {n : Nat}
    (hread : record.read .word key = .ok n) : n.isPowerOfTwo := by
  obtain ⟨value, hget, hread⟩ := Document.read_eq_ok_iff.mp hread
  rw [← Document.at?_of_key hkey] at hget
  exact isPowerOfTwo_of_geometry hchecked hcheck hget hread

end

/-- Nothing is found in the records iff nothing is found in any of them. -/
theorem Hierarchy.checkRecords_eq_nil_iff {h : Hierarchy} : h.checkRecords = [] ↔
    (∀ core ∈ h.cores, checkRecord RecordKind.core.name AttributeCheck.core core = []) ∧
    (∀ (name : String) (record : Document), h.caches[name]? = some record →
      checkRecord RecordKind.cache.name AttributeCheck.cache record = []) ∧
    ∀ (name : String) (record : Document), h.walkers[name]? = some record →
      checkRecord RecordKind.walker.name AttributeCheck.walker record = [] := by
  have hvalues : ∀ (records : RecordMap) (passes : Document → Prop),
      (∀ record ∈ records.values, passes record) ↔
        ∀ (name : String) (record : Document), records[name]? = some record → passes record := by
    intro records passes
    simp only [NameMap.mem_values_iff, forall_exists_index]
    exact forall_comm
  unfold checkRecords checkKind
  simp only [List.append_eq_nil_iff, List.flatMap_eq_nil_iff, hvalues, and_assoc]
  rfl

/-! ## Records

What is read is the number that has been checked, so it is a power of two. The buffer of a core may
be written as a list instead, in which the path of the check finds nothing. -/

variable {record : Document}

theorem Cache.isPowerOfTwo_sets {c : Cache} (hread : Cache.ofDocument record = .ok c)
    (hchecked : checkRecord RecordKind.cache.name AttributeCheck.cache record = []) :
    c.sets.isPowerOfTwo :=
  isPowerOfTwo_of_read hchecked (by decide) (by decide) (Cache.readFrom_of_ofDocument hread).sets

/-- The numbers of sets of a walker, one for each level. -/
def Walker.levelSets (w : Walker) : List Nat :=
  [w.level5Sets, w.level4Sets, w.level3Sets, w.level2Sets]

theorem Walker.isPowerOfTwo_levelSets {w : Walker} (hread : Walker.ofDocument record = .ok w)
    (hchecked : checkRecord RecordKind.walker.name AttributeCheck.walker record = []) :
    ∀ sets ∈ w.levelSets, sets.isPowerOfTwo := by
  have hfrom := Walker.readFrom_of_ofDocument hread
  simp only [levelSets, List.forall_mem_cons]
  exact ⟨isPowerOfTwo_of_read hchecked (by decide) (by decide) hfrom.level5Sets,
    isPowerOfTwo_of_read hchecked (by decide) (by decide) hfrom.level4Sets,
    isPowerOfTwo_of_read hchecked (by decide) (by decide) hfrom.level3Sets,
    isPowerOfTwo_of_read hchecked (by decide) (by decide) hfrom.level2Sets, by simp⟩

/-- How the instruction buffer of a core is written: as a mapping, whose sizes are checked, or as a
list of its sizes, which are not. -/
inductive InstructionBuffer.Written (core : Document) (buffer : InstructionBuffer) : Prop
  | mapping {fields : Document} (hget : core.get? "DIB" = some (.object fields))
      (window : buffer.window.isPowerOfTwo) (sets : buffer.sets.isPowerOfTwo)
  | list (hget : core.get? "DIB" =
      some (.array [.ofNat buffer.window, .ofNat buffer.sets, .ofNat buffer.ways]))

theorem Core.written_buffer {c : Core} (hread : Core.ofDocument record = .ok c)
    (hchecked : checkRecord RecordKind.core.name AttributeCheck.core record = []) :
    c.instructionBuffer.Written record := by
  obtain ⟨value, hget, hbuffer⟩ :=
    Document.read_eq_ok_iff.mp (Core.readFrom_of_ofDocument hread).instructionBuffer
  -- a mapping is what the checks look into; a list passes them by and is what it is
  cases value with
  | object fields =>
    obtain ⟨hwindow, hsets, _⟩ := InstructionBuffer.readFrom_of_ofDocument hbuffer
    obtain ⟨window, hgetWindow, hwindow⟩ := Document.read_eq_ok_iff.mp hwindow
    obtain ⟨sets, hgetSets, hsets⟩ := Document.read_eq_ok_iff.mp hsets
    have hwindowAt : record.at? "DIB.window_size" = some window :=
      (Document.at?_of_keys (by decide) hget).trans hgetWindow
    have hsetsAt : record.at? "DIB.sets" = some sets :=
      (Document.at?_of_keys (by decide) hget).trans hgetSets
    exact .mapping hget (isPowerOfTwo_of_geometry hchecked (by decide) hwindowAt hwindow)
      (isPowerOfTwo_of_geometry hchecked (by decide) hsetsAt hsets)
  | array items =>
    rw [InstructionBuffer.eq_of_ofItems hbuffer] at hget
    exact .list hget
  | _ => cases hbuffer

/-! ## Models

A model is read record by record, and each of its records is one that has been checked. -/

/-- The numbers of sets of a model are powers of two, but for instruction buffers that are written
as lists. The check of a buffer looks its fields up by key, and a list has no keys. -/
structure Model.PowersOfTwo (r : ResolvedConfiguration) (m : Model) : Prop where
  caches : ∀ c ∈ m.caches.values, c.sets.isPowerOfTwo
  walkers : ∀ w ∈ m.walkers.values, ∀ sets ∈ w.levelSets, sets.isPowerOfTwo
  cores : List.Forall₂ (fun record core => core.instructionBuffer.Written record) r.cores m.cores

theorem Model.powersOfTwo_of_checkRecords {r : ResolvedConfiguration} {m : Model}
    (hmodel : ofResolved r = .ok m) (hchecked : r.hierarchy.checkRecords = []) :
    PowersOfTwo r m := by
  have htyped := typed_of_ofResolved hmodel
  obtain ⟨hcores, hcaches, hwalkers⟩ := Hierarchy.checkRecords_eq_nil_iff.mp hchecked
  constructor
  · intro c hc
    -- what is typed was a record under the same name, and that record was checked
    obtain ⟨name, hget⟩ := NameMap.mem_values_iff.mp hc
    obtain ⟨record, hrecord, hread⟩ := htyped.caches.exists_before hget
    exact Cache.isPowerOfTwo_sets hread (hcaches name record hrecord)
  · intro w hw
    obtain ⟨name, hget⟩ := NameMap.mem_values_iff.mp hw
    obtain ⟨record, hrecord, hread⟩ := htyped.walkers.exists_before hget
    exact Walker.isPowerOfTwo_levelSets hread (hwalkers name record hrecord)
  · refine List.forall₂_iff_get.mpr ⟨htyped.cores.length_eq, fun i hi hi' => ?_⟩
    exact Core.written_buffer ((List.forall₂_iff_get.mp htyped.cores).2 i hi hi')
      (hcores _ (List.get_mem _ _))

/-- **Where something is emitted, numbers of sets are powers of two**, but for instruction buffers
that are written as lists. This is about whatever has been written: emission is refused otherwise,
and the model of what is emitted is given along with the property. -/
theorem powersOfTwo_of_emit {r : ResolvedConfiguration} {artifacts : Artifacts}
    (hemit : r.emit = .ok artifacts) :
    ∃ m, Model.ofResolved r = .ok m ∧ artifacts.wiring = textOfLines m.wiring.lines ∧
      m.PowersOfTwo r := by
  obtain ⟨m, hmodel, _, _, htext⟩ := ResolvedConfiguration.exists_model_of_emit hemit
  have hdiagnostics := ResolvedConfiguration.diagnostics_eq_nil_of_emit hemit
  have hchecked := (List.append_eq_nil_iff.mp hdiagnostics).1
  exact ⟨m, hmodel, htext, Model.powersOfTwo_of_checkRecords hmodel hchecked⟩

open NormalizedConfiguration in
theorem powersOfTwo_of_renamedMemory :
    ∃ n artifacts m, ofDocuments renamedMemory = .ok n ∧
      (n.resolve {} .nothing).configuration.emit = .ok artifacts ∧
      Model.ofResolved (n.resolve {} .nothing).configuration = .ok m ∧
      artifacts.wiring = textOfLines m.wiring.lines ∧
      m.PowersOfTwo (n.resolve {} .nothing).configuration := by
  obtain ⟨n, hread, artifacts, hemit⟩ := emit_renamedMemory
  obtain ⟨m, hmodel, htext, hpowers⟩ := powersOfTwo_of_emit hemit
  exact ⟨n, artifacts, m, hread, hemit, hmodel, htext, hpowers⟩

/-- One core with an instruction buffer that is written as a list. -/
def listedBuffer : List Document :=
  [[("DIB", .array [.ofNat 3, .ofNat 5, .ofNat 7])]]

open NormalizedConfiguration in
/-- The sizes in the list are emitted, although they are no powers of two. -/
theorem not_isPowerOfTwo_of_listedBuffer :
    ∃ n artifacts m, ofDocuments listedBuffer = .ok n ∧
      (n.resolve {} .nothing).configuration.emit = .ok artifacts ∧
      Model.ofResolved (n.resolve {} .nothing).configuration = .ok m ∧
      artifacts.wiring = textOfLines m.wiring.lines ∧
      ∃ core ∈ m.cores, ¬core.instructionBuffer.window.isPowerOfTwo ∧
        ¬core.instructionBuffer.sets.isPowerOfTwo := by
  have hcomputed : ∃ n, ofDocuments listedBuffer = .ok n ∧
      (∃ m, Model.ofResolved (n.resolve {} .nothing).configuration = .ok m ∧
        ∃ core ∈ m.cores, core.instructionBuffer = ⟨3, 5, 7⟩) ∧
      ∃ artifacts, (n.resolve {} .nothing).configuration.emit = .ok artifacts := by
    simp -zeta only [resolve_eq_sorting, ResolvedConfiguration.emit_eq_sorting]
    decide +kernel
  obtain ⟨n, hread, ⟨m, hmodel, core, hcore, hbuffer⟩, artifacts, hemit⟩ := hcomputed
  obtain ⟨m', hmodel', _, _, htext⟩ := ResolvedConfiguration.exists_model_of_emit hemit
  rw [hmodel, Except.ok.injEq] at hmodel'
  subst hmodel'
  refine ⟨n, artifacts, m, hread, hemit, hmodel, htext, core, hcore, ?_⟩
  -- neither three nor five is one
  rw [hbuffer, ← isPowerOfTwo_iff, ← isPowerOfTwo_iff]
  decide

end MemoryHierarchy
