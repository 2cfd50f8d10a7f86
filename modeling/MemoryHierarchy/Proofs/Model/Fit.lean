import MemoryHierarchy.Check.Predicate
import MemoryHierarchy.Proofs.Graph.Cycle
import MemoryHierarchy.Proofs.Model.Basic

/-!
# What fits a typed record

A document is checked against the schema of its type before any field of it is read. `Schema.Fits`
says the same without an order: every field that is there has a value that its reader accepts, and
no required field is missing. For a document without repeated keys this is all that reading asks for
(`Cache.exists_ofDocument_iff` and its like), so a configuration without cycles has a model exactly
when its records fit (`Model.exists_ofResolved_iff`), and otherwise the error names a record that
does not (`Model.exists_of_ofResolved_eq_error`).
-/

namespace MemoryHierarchy

/-! ## Fields and schemas

A schema lists the keys of a record with the types of their values. Checking it first and reading
the fields afterwards succeeds just where every field fits, whatever the order of the fields. -/

/-- A document has what a field asks for: a value that the field accepts, or none where it may be
left out. Fields are judged one by one, and no field depends on another one. -/
def Field.Fits (field : Field) (doc : Document) : Prop :=
  match doc.get? field.key with
  | some value => field.check value = .ok ()
  | none => field.required = false

/-- A document has what all fields of a schema ask for. -/
def Schema.Fits (schema : Schema) (doc : Document) : Prop := ∀ field ∈ schema, field.Fits doc

variable {doc : Document} {key : String}

/-- An entry of a document without repeated keys is its value under that key. -/
theorem Document.get?_eq_some_iff (hdistinct : doc.Distinct) {value : Json} :
    doc.get? key = some value ↔ (key, value) ∈ doc := by
  have hvalues : value ∈ doc.valuesAt key ↔ (key, value) ∈ doc := by
    simp [valuesAt]
  rw [← hvalues, valuesAt_of_distinct hdistinct, Option.mem_toList]

namespace Field

theorem fits_iff {field : Field} : field.Fits doc ↔
    (∀ value, doc.get? field.key = some value → field.check value = .ok ()) ∧
      (field.required = true → doc.contains field.key = true) := by
  unfold Fits Document.contains
  cases doc.get? field.key with
  | none => simp
  | some value => simp

variable {α : Type}

theorem map_unit_eq_ok_iff {result : Except ConversionError α} :
    result.map (fun _ => ()) = .ok () ↔ ∃ a, result = .ok a := by
  simp only [map_eq_ok_iff, and_true]

/-- A required field fits when it is read. -/
theorem fits_field_iff {reader : Reader α} :
    (reader.field key).Fits doc ↔ ∃ a, doc.read reader key = .ok a := by
  show (match doc.get? key with
    | some value => (reader value).map (fun _ => ()) = .ok ()
    | none => true = false) ↔ _
  unfold Document.read
  cases doc.get? key with
  | none => simp
  | some value => exact map_unit_eq_ok_iff

/-- A field that may be left out and fits is read. -/
theorem Fits.exists_readOptional {reader : Reader (Option α)}
    (hfits : (reader.optionalField key).Fits doc) : ∃ a, doc.readOptional reader key = .ok a := by
  unfold Document.readOptional
  cases hget : doc.get? key with
  | none => exact ⟨none, rfl⟩
  | some value => exact map_unit_eq_ok_iff.mp ((fits_iff.mp hfits).1 value hget)

end Field

namespace Schema

variable {schema : Schema}

theorem checkPresent_eq_ok_iff {field : Field} : checkPresent doc field = .ok () ↔
    (field.required = true → doc.contains field.key = true) := by
  unfold checkPresent
  split
  · next hmissing => simp [hmissing]
  · next hthere =>
    exact iff_of_true rfl fun hrequired => not_not.mp fun habsent => hthere ⟨hrequired, habsent⟩

/-- The entries of a document pass when its values under the keys of the fields do. -/
theorem checkValues_eq_ok_iff (hkeys : schema.keys.Nodup) (hdistinct : doc.Distinct) :
    (∀ entry ∈ doc, schema.checkValue entry = .ok ()) ↔
      ∀ field ∈ schema, ∀ value, doc.get? field.key = some value → field.check value = .ok () := by
  unfold checkValue
  constructor
  · intro hall field hfield value hvalue
    have hentry := hall (field.key, value) ((Document.get?_eq_some_iff hdistinct).mp hvalue)
    -- a schema has one field for each key, so the field that is found is this one
    have hfind : schema.find? (·.key = field.key) = some field := by
      cases hfound : schema.find? (·.key = field.key) with
      | none => simpa using List.find?_eq_none.mp hfound field hfield
      | some known =>
        have hkey : known.key = field.key := by simpa using List.find?_some hfound
        rw [List.inj_on_of_nodup_map hkeys (List.mem_of_find?_eq_some hfound) hfield hkey]
    rw [hfind] at hentry
    exact hentry
  · rintro hall ⟨key, value⟩ hentry
    cases hfound : schema.find? (·.key = key) with
    | none => rfl
    | some known =>
      have hkey : known.key = key := by simpa using List.find?_some hfound
      subst hkey
      exact hall known (List.mem_of_find?_eq_some hfound) value
        ((Document.get?_eq_some_iff hdistinct).mpr hentry)

/-- **The check of a schema passes what fits it**, where no key comes twice. The check goes through
the document and then through the fields that are missing, while fitting is said field by field. -/
theorem check_eq_ok_iff (hkeys : schema.keys.Nodup) (hdistinct : doc.Distinct) :
    schema.check doc = .ok () ↔ schema.Fits doc := by
  unfold check Fits
  simp only [Field.fits_iff, forall₂_and]
  rw [check_bind_eq_ok_iff, ← checkValues_eq_ok_iff hkeys hdistinct]
  refine and_congr forM_eq_ok_iff ?_
  simp only [← checkPresent_eq_ok_iff]
  exact forM_eq_ok_iff

/-- A record that is checked and then read by the fields of its schema. -/
theorem exists_read_iff {α : Type} {fields : Unit → Except ConversionError α}
    (hkeys : schema.keys.Nodup) (hdistinct : doc.Distinct)
    (hfields : schema.Fits doc → ∃ a, fields () = .ok a) :
    (∃ a, schema.check doc >>= fields = .ok a) ↔ schema.Fits doc := by
  simp only [check_bind_eq_ok_iff, exists_and_left, check_eq_ok_iff hkeys hdistinct]
  exact and_iff_left_of_imp hfields

end Schema

/-! ## Records

The readers of the five kinds of records are instances of this, each with its own schema. -/

-- In each of the proofs below the fields are read in the order of the schema, as long as there is
-- one that is required; so none of them counts fields.

theorem Core.exists_ofDocument_iff (hdistinct : doc.Distinct) :
    (∃ record, Core.ofDocument doc = .ok record) ↔ Core.schema.Fits doc := by
  unfold Core.ofDocument
  refine Schema.exists_read_iff (by decide) hdistinct fun hfits => ?_
  repeat
    obtain ⟨hfield, hfits⟩ := List.forall_mem_cons.mp hfits
    refine exists_bind_eq_ok (Field.fits_field_iff.mp hfield) fun _ => ?_
  exact ⟨_, rfl⟩

theorem Cache.exists_ofDocument_iff (hdistinct : doc.Distinct) :
    (∃ record, Cache.ofDocument doc = .ok record) ↔ Cache.schema.Fits doc := by
  unfold Cache.ofDocument
  refine Schema.exists_read_iff (by decide) hdistinct fun hfits => ?_
  repeat
    obtain ⟨hfield, hfits⟩ := List.forall_mem_cons.mp hfits
    refine exists_bind_eq_ok (Field.fits_field_iff.mp hfield) fun _ => ?_
  -- only the translator may be left out
  obtain ⟨htranslate, hfits⟩ := List.forall_mem_cons.mp hfits
  refine exists_bind_eq_ok htranslate.exists_readOptional fun _ => ?_
  repeat
    obtain ⟨hfield, hfits⟩ := List.forall_mem_cons.mp hfits
    refine exists_bind_eq_ok (Field.fits_field_iff.mp hfield) fun _ => ?_
  exact ⟨_, rfl⟩

theorem Walker.exists_ofDocument_iff (hdistinct : doc.Distinct) :
    (∃ record, Walker.ofDocument doc = .ok record) ↔ Walker.schema.Fits doc := by
  unfold Walker.ofDocument
  refine Schema.exists_read_iff (by decide) hdistinct fun hfits => ?_
  repeat
    obtain ⟨hfield, hfits⟩ := List.forall_mem_cons.mp hfits
    refine exists_bind_eq_ok (Field.fits_field_iff.mp hfield) fun _ => ?_
  exact ⟨_, rfl⟩

theorem PhysicalMemory.exists_ofDocument_iff (hdistinct : doc.Distinct) :
    (∃ record, PhysicalMemory.ofDocument doc = .ok record) ↔ PhysicalMemory.schema.Fits doc := by
  unfold PhysicalMemory.ofDocument
  refine Schema.exists_read_iff (by decide) hdistinct fun hfits => ?_
  repeat
    obtain ⟨hfield, hfits⟩ := List.forall_mem_cons.mp hfits
    refine exists_bind_eq_ok (Field.fits_field_iff.mp hfield) fun _ => ?_
  exact ⟨_, rfl⟩

theorem VirtualMemory.exists_ofDocument_iff (hdistinct : doc.Distinct) :
    (∃ record, VirtualMemory.ofDocument doc = .ok record) ↔ VirtualMemory.schema.Fits doc := by
  unfold VirtualMemory.ofDocument
  refine Schema.exists_read_iff (by decide) hdistinct fun hfits => ?_
  repeat
    obtain ⟨hfield, hfits⟩ := List.forall_mem_cons.mp hfits
    refine exists_bind_eq_ok (Field.fits_field_iff.mp hfield) fun _ => ?_
  exact ⟨_, rfl⟩

/-! ## Models

A model is typed kind by kind. What stands in the way is a cycle, or a record that does not fit; the
error names the record that comes first, which depends on the order of the kinds. -/

/-- The fields of the records of a kind. -/
def RecordKind.schema : RecordKind → Schema
  | .core => Core.schema
  | .cache => Cache.schema
  | .walker => Walker.schema

/-- Every record of a configuration has what the schema of its kind asks for, and the memories have
what their types ask for. -/
structure ResolvedConfiguration.Fits (schemas : RecordKind → Schema) (r : ResolvedConfiguration) :
    Prop where
  cores : ∀ core ∈ r.cores, (schemas .core).Fits core
  caches : ∀ (name : String) (record : Document), r.caches[name]? = some record →
    (schemas .cache).Fits record
  walkers : ∀ (name : String) (record : Document), r.walkers[name]? = some record →
    (schemas .walker).Fits record
  physicalMemory : PhysicalMemory.schema.Fits r.physicalMemory
  virtualMemory : VirtualMemory.schema.Fits r.virtualMemory

/-- Schemas that ask for the same of each record ask for the same of the configuration. -/
theorem ResolvedConfiguration.fits_congr {r : ResolvedConfiguration}
    {schemas schemas' : RecordKind → Schema}
    (hcores : ∀ core ∈ r.cores, ((schemas .core).Fits core ↔ (schemas' .core).Fits core))
    (hcaches : ∀ (name : String) (record : Document), r.caches[name]? = some record →
      ((schemas .cache).Fits record ↔ (schemas' .cache).Fits record))
    (hwalkers : ∀ (name : String) (record : Document), r.walkers[name]? = some record →
      ((schemas .walker).Fits record ↔ (schemas' .walker).Fits record)) :
    r.Fits schemas ↔ r.Fits schemas' := by
  constructor
  · rintro ⟨cores, caches, walkers, physicalMemory, virtualMemory⟩
    exact ⟨fun core hcore => (hcores core hcore).mp (cores core hcore),
      fun name record hget => (hcaches name record hget).mp (caches name record hget),
      fun name record hget => (hwalkers name record hget).mp (walkers name record hget),
      physicalMemory, virtualMemory⟩
  · rintro ⟨cores, caches, walkers, physicalMemory, virtualMemory⟩
    exact ⟨fun core hcore => (hcores core hcore).mpr (cores core hcore),
      fun name record hget => (hcaches name record hget).mpr (caches name record hget),
      fun name record hget => (hwalkers name record hget).mpr (walkers name record hget),
      physicalMemory, virtualMemory⟩

/-- What goes by a name in errors does not fit its type. Cores are shown by their names or places,
and records by the names under which they are found. -/
inductive ResolvedConfiguration.Misfit (r : ResolvedConfiguration) (name : String) : Prop where
  | core {core : Document} {index : Nat} (hcore : r.cores[index]? = some core)
      (hname : Model.shownCore core index = name) (hmisfit : ¬Core.schema.Fits core)
  | cache {record : Document} (hget : r.caches[name]? = some record)
      (hmisfit : ¬Cache.schema.Fits record)
  | walker {record : Document} (hget : r.walkers[name]? = some record)
      (hmisfit : ¬Walker.schema.Fits record)
  | physicalMemory (hname : r.physicalMemory.name?.getD "physical_memory" = name)
      (hmisfit : ¬PhysicalMemory.schema.Fits r.physicalMemory)
  | virtualMemory (hname : virtualMemoryName = name)
      (hmisfit : ¬VirtualMemory.schema.Fits r.virtualMemory)

theorem ResolvedConfiguration.Misfit.not_fits {r : ResolvedConfiguration} {name : String}
    (hmisfit : r.Misfit name) : ¬r.Fits RecordKind.schema := by
  intro hfits
  cases hmisfit with
  | core hcore _ hmisfit => exact hmisfit (hfits.cores _ (List.mem_of_getElem? hcore))
  | cache hget hmisfit => exact hmisfit (hfits.caches name _ hget)
  | walker hget hmisfit => exact hmisfit (hfits.walkers name _ hget)
  | physicalMemory _ hmisfit => exact hmisfit hfits.physicalMemory
  | virtualMemory _ hmisfit => exact hmisfit hfits.virtualMemory

/-- No record of a configuration has a key twice. -/
structure ResolvedConfiguration.Distinct (r : ResolvedConfiguration) : Prop where
  hierarchy : r.hierarchy.Distinct
  physicalMemory : r.physicalMemory.Distinct
  virtualMemory : r.virtualMemory.Distinct

namespace Model

section

variable {α : Type}

theorem exists_convert_iff {record : String} {result : Except ConversionError α} :
    (∃ a, convert record result = .ok a) ↔ ∃ a, result = .ok a :=
  exists_congr fun _ => convert_eq_ok_iff

theorem exists_of_convert_eq_error {record : String} {result : Except ConversionError α}
    {e : CompileError} (herror : convert record result = .error e) :
    ∃ cause, e = .model record cause ∧ ¬∃ a, result = .ok a := by
  cases result with
  | error cause => exact ⟨cause, (Except.error.inj herror).symm, by simp⟩
  | ok a => cases herror

variable {read : Document → Except ConversionError α} {records : RecordMap}

theorem exists_typedMap_iff : (∃ typed, typedMap read records = .ok typed) ↔
    ∀ (name : String) (record : Document), records[name]? = some record →
      ∃ a, read record = .ok a := by
  unfold typedMap
  constructor
  · rintro ⟨typed, htyped⟩ name record hget
    obtain ⟨entries, hentries, _⟩ := bind_eq_ok_iff.mp htyped
    obtain ⟨entry, hentry⟩ := exists_mapM_eq_ok_iff.mp ⟨entries, hentries⟩ _
      (Std.ExtTreeMap.mem_toList_iff_getElem?_eq_some.mpr hget)
    obtain ⟨a, ha, _⟩ := bind_eq_ok_iff.mp hentry
    exact ⟨a, convert_eq_ok_iff.mp ha⟩
  · intro hread
    refine exists_bind_eq_ok (exists_mapM_eq_ok_iff.mpr ?_) fun _ => ⟨_, rfl⟩
    -- no record stands in the way of another
    rintro ⟨name, record⟩ hmem
    have hget := Std.ExtTreeMap.mem_toList_iff_getElem?_eq_some.mp hmem
    exact exists_bind_eq_ok (exists_convert_iff.mpr (hread name record hget)) fun _ => ⟨_, rfl⟩

theorem exists_of_typedMap_eq_error {e : CompileError}
    (herror : typedMap read records = .error e) :
    ∃ name record, records[name]? = some record ∧
      ∃ cause, e = .model name cause ∧ ¬∃ a, read record = .ok a := by
  unfold typedMap at herror
  rcases bind_eq_error_iff.mp herror with hentries | ⟨_, _, hpure⟩
  · obtain ⟨⟨name, record⟩, hmem, hentry⟩ := exists_of_mapM_eq_error hentries
    have hget := Std.ExtTreeMap.mem_toList_iff_getElem?_eq_some.mp hmem
    rcases bind_eq_error_iff.mp hentry with hconvert | ⟨_, _, hpure⟩
    · exact ⟨name, record, hget, exists_of_convert_eq_error hconvert⟩
    · cases hpure
  · cases hpure

end

variable {r : ResolvedConfiguration}

theorem firstCycle?_eq_none (hacyclic : r.hierarchy.system.Acyclic lowerLevel) :
    firstCycle? r.hierarchy.system = none := by
  unfold firstCycle?
  rw [List.findSome?_eq_none_iff]
  intro start hstart
  rw [Std.ExtTreeMap.mem_keys] at hstart
  rw [RecordMap.acyclic_iff.mp hacyclic start hstart, Option.map_none]

/-- The cores are typed in their order; the index of each only stands in errors. -/
theorem exists_cores_iff (hdistinct : ∀ core ∈ r.cores, core.Distinct) :
    (∃ cores, (r.cores.zipIdx.mapM fun (core, index) =>
      convert (shownCore core index) (Core.ofDocument core)) = .ok cores) ↔
        ∀ core ∈ r.cores, Core.schema.Fits core := by
  rw [exists_mapM_eq_ok_iff]
  simp only [exists_convert_iff]
  constructor
  · intro hall core hcore
    -- the index of a core is only there for errors
    have hindexed : core ∈ r.cores.zipIdx.map Prod.fst := by
      rw [List.zipIdx_map_fst]
      exact hcore
    obtain ⟨entry, hentry, rfl⟩ := List.mem_map.mp hindexed
    exact (Core.exists_ofDocument_iff (hdistinct _ hcore)).mp (hall entry hentry)
  · rintro hall ⟨core, index⟩ hmem
    have hcore := List.fst_mem_of_mem_zipIdx hmem
    exact (Core.exists_ofDocument_iff (hdistinct core hcore)).mpr (hall core hcore)

/-- **A configuration without cycles has a model exactly when its records fit.** A model is read
part by part, and each part is read just in case it fits. -/
theorem exists_ofResolved_iff (hacyclic : r.hierarchy.system.Acyclic lowerLevel)
    (hdistinct : r.Distinct) : (∃ m, ofResolved r = .ok m) ↔ r.Fits RecordKind.schema := by
  -- each kind of records by itself
  have hcores := exists_cores_iff hdistinct.hierarchy.cores
  have hcaches : (∃ typed, typedMap Cache.ofDocument r.caches = .ok typed) ↔
      ∀ (name : String) (record : Document), r.caches[name]? = some record →
        Cache.schema.Fits record :=
    exists_typedMap_iff.trans <| forall₂_congr fun name record => forall_congr' fun hget =>
      Cache.exists_ofDocument_iff (hdistinct.hierarchy.caches name record hget)
  have hwalkers : (∃ typed, typedMap Walker.ofDocument r.walkers = .ok typed) ↔
      ∀ (name : String) (record : Document), r.walkers[name]? = some record →
        Walker.schema.Fits record :=
    exists_typedMap_iff.trans <| forall₂_congr fun name record => forall_congr' fun hget =>
      Walker.exists_ofDocument_iff (hdistinct.hierarchy.walkers name record hget)
  have hphysical := PhysicalMemory.exists_ofDocument_iff hdistinct.physicalMemory
  have hvirtual := VirtualMemory.exists_ofDocument_iff hdistinct.virtualMemory
  -- the kinds are read one after the other, and each of them whatever the others are
  unfold ofResolved
  rw [firstCycle?_eq_none hacyclic]
  constructor
  · rintro ⟨m, hmodel⟩
    obtain ⟨cores, hcores', hmodel⟩ := bind_eq_ok_iff.mp hmodel
    obtain ⟨caches, hcaches', hmodel⟩ := bind_eq_ok_iff.mp hmodel
    obtain ⟨walkers, hwalkers', hmodel⟩ := bind_eq_ok_iff.mp hmodel
    obtain ⟨physical, hphysical', hmodel⟩ := bind_eq_ok_iff.mp hmodel
    obtain ⟨virtual, hvirtual', _⟩ := bind_eq_ok_iff.mp hmodel
    exact {
      cores := hcores.mp ⟨cores, hcores'⟩
      caches := hcaches.mp ⟨caches, hcaches'⟩
      walkers := hwalkers.mp ⟨walkers, hwalkers'⟩
      physicalMemory := hphysical.mp (exists_convert_iff.mp ⟨physical, hphysical'⟩)
      virtualMemory := hvirtual.mp (exists_convert_iff.mp ⟨virtual, hvirtual'⟩) }
  · intro hfits
    refine exists_bind_eq_ok (hcores.mpr hfits.cores) fun _ => ?_
    refine exists_bind_eq_ok (hcaches.mpr hfits.caches) fun _ => ?_
    refine exists_bind_eq_ok (hwalkers.mpr hfits.walkers) fun _ => ?_
    have hphysical' := hphysical.mpr hfits.physicalMemory
    have hvirtual' := hvirtual.mpr hfits.virtualMemory
    refine exists_bind_eq_ok (exists_convert_iff.mpr hphysical') fun _ => ?_
    refine exists_bind_eq_ok (exists_convert_iff.mpr hvirtual') fun _ => ?_
    exact ⟨_, rfl⟩

/-- **Without cycles an error names a record that does not fit.** The error is that of the first
part that is not read. -/
theorem exists_of_ofResolved_eq_error (hacyclic : r.hierarchy.system.Acyclic lowerLevel)
    (hdistinct : r.Distinct) {e : CompileError} (herror : ofResolved r = .error e) :
    ∃ name cause, e = .model name cause ∧ r.Misfit name := by
  unfold ofResolved at herror
  rw [firstCycle?_eq_none hacyclic] at herror
  -- the error is that of the first kind with a record that does not fit
  rcases bind_eq_error_iff.mp herror with hcores | ⟨_, _, herror⟩
  · obtain ⟨⟨core, index⟩, hmem, hcore⟩ := exists_of_mapM_eq_error hcores
    obtain ⟨cause, he, hmisfit⟩ := exists_of_convert_eq_error hcore
    have hget := List.mem_zipIdx_iff_getElem?.mp hmem
    rw [Core.exists_ofDocument_iff
      (hdistinct.hierarchy.cores core (List.mem_of_getElem? hget))] at hmisfit
    exact ⟨_, cause, he, .core hget rfl hmisfit⟩
  rcases bind_eq_error_iff.mp herror with hcaches | ⟨_, _, herror⟩
  · obtain ⟨name, record, hget, cause, he, hmisfit⟩ := exists_of_typedMap_eq_error hcaches
    rw [Cache.exists_ofDocument_iff (hdistinct.hierarchy.caches name record hget)] at hmisfit
    exact ⟨name, cause, he, .cache hget hmisfit⟩
  rcases bind_eq_error_iff.mp herror with hwalkers | ⟨_, _, herror⟩
  · obtain ⟨name, record, hget, cause, he, hmisfit⟩ := exists_of_typedMap_eq_error hwalkers
    rw [Walker.exists_ofDocument_iff (hdistinct.hierarchy.walkers name record hget)] at hmisfit
    exact ⟨name, cause, he, .walker hget hmisfit⟩
  rcases bind_eq_error_iff.mp herror with hphysical | ⟨_, _, herror⟩
  · obtain ⟨cause, he, hmisfit⟩ := exists_of_convert_eq_error hphysical
    rw [PhysicalMemory.exists_ofDocument_iff hdistinct.physicalMemory] at hmisfit
    exact ⟨_, cause, he, .physicalMemory rfl hmisfit⟩
  rcases bind_eq_error_iff.mp herror with hvirtual | ⟨_, _, hpure⟩
  · obtain ⟨cause, he, hmisfit⟩ := exists_of_convert_eq_error hvirtual
    rw [VirtualMemory.exists_ofDocument_iff hdistinct.virtualMemory] at hmisfit
    exact ⟨_, cause, he, .virtualMemory rfl hmisfit⟩
  · cases hpure

end Model

end MemoryHierarchy
