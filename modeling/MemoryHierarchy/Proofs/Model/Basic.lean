import MemoryHierarchy.Artifact.Order
import MemoryHierarchy.Proofs.Hierarchy
import MemoryHierarchy.Proofs.Model.Record

/-!
# What a model was read from

A model has one typed record for each record of the configuration, read from it, `Model.Typed`.
`Model.ReadFrom` says what is left of that for the order of declarations, in which caches and
walkers are alike: a name, a depth and a lower level.
-/

namespace MemoryHierarchy

namespace Model

/-! ## Typed maps

Each record of a map is read by itself, and the names stay. An error names the record that it is
about. -/

theorem convert_eq_ok_iff {α : Type} {record : String} {result : Except ConversionError α}
    {value : α} : convert record result = .ok value ↔ result = .ok value := by
  unfold convert
  cases result with
  | error e => simp [Except.mapError]
  | ok a => simp [Except.mapError]

/-- **Typing a map types each of its records.** Records are read one after the other, and the map of
the results is built along. -/
theorem pointwise_typedMap {α : Type} {read : Document → Except ConversionError α}
    {records : RecordMap} {typed : NameMap α} (htyped : typedMap read records = .ok typed) :
    NameMap.Pointwise (fun _ record value => read record = .ok value) records typed := by
  intro name
  unfold typedMap at htyped
  simp only [bind_eq_ok_iff, pure_eq_ok_iff, mapM_eq_ok_iff, convert_eq_ok_iff] at htyped
  obtain ⟨entries, hentries, rfl⟩ := htyped
  have hread : List.Forall₂ (fun entry typed => typed.1 = entry.1 ∧ read entry.2 = .ok typed.2)
      records.toList entries := by
    refine hentries.imp ?_
    rintro _ _ ⟨value, hvalue, rfl⟩
    exact ⟨rfl, hvalue⟩
  have hkeys : entries.map Prod.fst = records.keys := by
    rw [← Std.ExtTreeMap.map_fst_toList_eq_keys, ← List.forall₂_eq_eq_eq,
      List.forall₂_map_left_iff, List.forall₂_map_right_iff]
    exact (hread.imp fun _ _ h => h.1).flip
  -- the keys are those of the map, so none of them comes twice and no value is lost
  have hdistinct : entries.Pairwise fun a b => ¬compare a.1 b.1 = .eq := by
    have hnodup : (entries.map Prod.fst).Nodup := by
      rw [hkeys]
      exact Std.ExtTreeMap.nodup_keys
    simpa only [Std.compare_eq_iff_eq] using List.pairwise_map.mp hnodup
  cases hget : records[name]? with
  | none =>
    have habsent : name ∉ records := by
      rw [NameMap.mem_iff_exists, hget]
      simp
    rw [Std.ExtTreeMap.getElem?_ofList_of_contains_eq_false]
    · exact .none
    · rw [hkeys]
      simpa using habsent
  | some record =>
    have hmem := Std.ExtTreeMap.mem_toList_iff_getElem?_eq_some.mpr hget
    obtain ⟨⟨key, value⟩, hentry, hkey, hvalue⟩ := exists_of_mem_right hread.flip hmem
    rw [Std.ExtTreeMap.getElem?_ofList_of_mem (Std.compare_eq_iff_eq.mpr hkey) hdistinct hentry]
    exact .some hvalue

/-! ## Elements

Caches, walkers, cores and the memory are elements of one kind when it comes to their order and
their declarations. The name, the level and the link of an element are read from its record. -/

variable {r : ResolvedConfiguration} {m : Model} {element : Element} {name : String}
  {record : Document}

/-- The name, the depth and the lower level of an element are those of a record. -/
structure ReadFrom (element : Element) (record : Document) : Prop where
  name : record.name? = some element.name
  level : record.read .halfWord "fill_level" = .ok element.fillLevel
  references : ∀ reference ∈ element.references,
    record.string? lowerLevel = some reference ∨ reference = virtualMemoryName

namespace ReadFrom

theorem cache {c : Cache} (hread : Cache.ofDocument record = .ok c) :
    ReadFrom (.cache c) record := by
  have hfrom := Cache.readFrom_of_ofDocument hread
  refine ⟨hfrom.name, hfrom.fillLevel, fun reference hreference => ?_⟩
  rw [Element.references, List.mem_singleton] at hreference
  exact Or.inl (hreference ▸ hfrom.lowerLevel)

theorem walker {w : Walker} (hread : Walker.ofDocument record = .ok w) :
    ReadFrom (.walker w) record := by
  have hfrom := Walker.readFrom_of_ofDocument hread
  refine ⟨hfrom.name, hfrom.fillLevel, fun reference hreference => ?_⟩
  simp only [Element.references, List.mem_cons, List.not_mem_nil, or_false] at hreference
  rcases hreference with rfl | rfl
  · exact Or.inl hfrom.lowerLevel
  · exact Or.inr rfl

end ReadFrom

/-- A model whose records are those of a configuration, each with its type. Reading has one result,
so the records of such a model are determined by the configuration. -/
structure Typed (r : ResolvedConfiguration) (m : Model) : Prop where
  cores : List.Forall₂ (fun record core => Core.ofDocument record = .ok core) r.cores m.cores
  caches : NameMap.Pointwise (fun _ record cache => Cache.ofDocument record = .ok cache)
    r.caches m.caches
  walkers : NameMap.Pointwise (fun _ record walker => Walker.ofDocument record = .ok walker)
    r.walkers m.walkers
  physicalMemory : PhysicalMemory.ofDocument r.physicalMemory = .ok m.physicalMemory

theorem typed_of_ofResolved (hmodel : ofResolved r = .ok m) : Typed r m := by
  unfold ofResolved at hmodel
  cases hcycle : firstCycle? r.hierarchy.system with
  | some found => rw [hcycle] at hmodel; cases hmodel
  | none =>
    rw [hcycle] at hmodel
    simp only [bind_eq_ok_iff, pure_eq_ok_iff, mapM_eq_ok_iff, convert_eq_ok_iff] at hmodel
    obtain ⟨cores, hcores, caches, hcaches, walkers, hwalkers, memory, hmemory, _, _, rfl⟩ := hmodel
    -- the indices only stand in errors
    have hread : List.Forall₂ (fun record core => Core.ofDocument record = .ok core)
        (r.cores.zipIdx.map Prod.fst) cores := List.forall₂_map_left_iff.mpr hcores
    rw [List.zipIdx_map_fst] at hread
    exact ⟨hread, pointwise_typedMap hcaches, pointwise_typedMap hwalkers, hmemory⟩

/-- What is not typed is taken as it is. -/
theorem untyped_of_ofResolved (hmodel : ofResolved r = .ok m) :
    m.constants = r.constants ∧ m.modules = r.modules := by
  unfold ofResolved at hmodel
  cases hcycle : firstCycle? r.hierarchy.system with
  | some found => rw [hcycle] at hmodel; cases hmodel
  | none =>
    rw [hcycle] at hmodel
    simp only [bind_eq_ok_iff, pure_eq_ok_iff] at hmodel
    obtain ⟨_, _, _, _, _, _, _, _, _, _, rfl⟩ := hmodel
    exact ⟨rfl, rfl⟩

theorem constants_of_ofResolved (hmodel : ofResolved r = .ok m) : m.constants = r.constants :=
  (untyped_of_ofResolved hmodel).1

theorem modules_of_ofResolved (hmodel : ofResolved r = .ok m) : m.modules = r.modules :=
  (untyped_of_ofResolved hmodel).2

theorem exists_record (hmodel : ofResolved r = .ok m) (helement : element ∈ m.records) :
    ∃ (name : String) (record : Document),
      (r.caches[name]? = some record ∨ r.walkers[name]? = some record) ∧
        ReadFrom element record := by
  have htyped := typed_of_ofResolved hmodel
  rw [records, List.mem_append, List.mem_map, List.mem_map] at helement
  rcases helement with ⟨c, hc, rfl⟩ | ⟨w, hw, rfl⟩
  · obtain ⟨name, hget⟩ := NameMap.mem_values_iff.mp hc
    obtain ⟨record, hrecord, hread⟩ := htyped.caches.exists_before hget
    exact ⟨name, record, Or.inl hrecord, .cache hread⟩
  · obtain ⟨name, hget⟩ := NameMap.mem_values_iff.mp hw
    obtain ⟨record, hrecord, hread⟩ := htyped.walkers.exists_before hget
    exact ⟨name, record, Or.inr hrecord, .walker hread⟩

/-- Each record of the system is that of an element of the same name. -/
theorem exists_element (hmodel : ofResolved r = .ok m) (hnamed : r.hierarchy.system.Named)
    (hget : r.hierarchy.system[name]? = some record) :
    ∃ element ∈ m.records, element.name = name ∧ ReadFrom element record := by
  have htyped := typed_of_ofResolved hmodel
  -- an element is named as its record is, and a record as it is found
  have hname : ∀ element, ReadFrom element record → element.name = name := by
    intro element hfrom
    rw [← Option.some.injEq, ← hfrom.name]
    exact hnamed name record hget
  unfold records
  rcases Hierarchy.getElem?_or_of_system hget with hcache | hwalker
  · obtain ⟨c, hc, hread⟩ := htyped.caches.exists_after hcache
    have hmem : c ∈ m.caches.values := NameMap.mem_values_iff.mpr ⟨name, hc⟩
    exact ⟨.cache c, List.mem_append_left _ (List.mem_map_of_mem hmem), hname _ (.cache hread),
      .cache hread⟩
  · obtain ⟨w, hw, hread⟩ := htyped.walkers.exists_after hwalker
    have hmem : w ∈ m.walkers.values := NameMap.mem_values_iff.mpr ⟨name, hw⟩
    exact ⟨.walker w, List.mem_append_right _ (List.mem_map_of_mem hmem), hname _ (.walker hread),
      .walker hread⟩

/-- The slots of a typed core are those of the record it was read from. -/
theorem exists_slot_of_mem_references {core : Core} (hread : Core.ofDocument record = .ok core)
    (hname : name ∈ (Element.core core).references) :
    ∃ slot ∈ Slot.firstLevel, record.slot? slot = some name := by
  have hfrom := Core.readFrom_of_ofDocument hread
  simp only [Element.references, List.mem_cons, List.not_mem_nil, or_false] at hname
  rcases hname with rfl | rfl | rfl | rfl
  · exact ⟨.itlb, by decide, hfrom.itlb⟩
  · exact ⟨.dtlb, by decide, hfrom.dtlb⟩
  · exact ⟨.l1i, by decide, hfrom.l1i⟩
  · exact ⟨.l1d, by decide, hfrom.l1d⟩

end Model

end MemoryHierarchy
