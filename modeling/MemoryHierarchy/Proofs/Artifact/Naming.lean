import MemoryHierarchy.Proofs.Artifact.Wiring

/-!
# Names of declarations

The elements of a wiring are declared under one name each, in one namespace. Caches and walkers are
kept by name, so two records of one kind never have the same one. Nothing does this for the names
that are written into records and not looked up: those of the cores and of the physical memory, and
the fixed one of the virtual memory. And the two maps of records do not know of each other.
`ResolvedConfiguration.NamesApart` says what is left to be so; the names of the declarations are
distinct exactly then.
-/

namespace MemoryHierarchy

/-- The names under which elements are declared. -/
def Wiring.names (w : Wiring) : List String := w.declarations.map (·.name)

namespace ResolvedConfiguration

/-- The names by which nothing is looked up: those of the memories and of the cores. Records are
kept in maps by their names and cannot clash within a kind; these can. -/
def freeNames (r : ResolvedConfiguration) : List String :=
  r.physicalMemory.name?.toList ++ virtualMemoryName :: r.cores.filterMap Document.name?

/-- No name stands for two elements. The three fields are the three ways in which two elements can
come to have one name. -/
structure NamesApart (r : ResolvedConfiguration) : Prop where
  /-- Memories and cores have names of their own. -/
  free : r.freeNames.Nodup
  /-- None of them is the name of a record. -/
  records : ∀ name ∈ r.freeNames, name ∉ r.hierarchy.system
  /-- No cache has the name of a walker. -/
  kinds : r.hierarchy.Disjoint

instance (r : ResolvedConfiguration) : Decidable r.NamesApart :=
  decidable_of_iff (r.freeNames.Nodup ∧ (∀ name ∈ r.freeNames, name ∉ r.hierarchy.system) ∧
      r.hierarchy.Disjoint)
    ⟨fun ⟨free, records, kinds⟩ => ⟨free, records, kinds⟩,
      fun ⟨free, records, kinds⟩ => ⟨free, records, kinds⟩⟩

end ResolvedConfiguration

namespace Model

variable {r : ResolvedConfiguration} {m : Model}

/-! ## Names that are read

An element is declared under the name in its record. Records of caches and walkers are kept under
that name, so within a kind it is distinct; cores and memories are kept by place, and have whatever
names they are given. -/

/-- Typed records are kept under their names. -/
theorem map_values_eq_keys {α : Type} {nameOf : α → String}
    {read : Document → Except ConversionError α} {records : RecordMap} {typed : NameMap α}
    (htyped : NameMap.Pointwise (fun _ record value => read record = .ok value) records typed)
    (hname : ∀ record value, read record = .ok value → record.name? = some (nameOf value))
    (hnamed : records.Named) : typed.values.map nameOf = typed.keys := by
  rw [NameMap.values_eq, List.map_map, ← Std.ExtTreeMap.map_fst_toList_eq_keys]
  refine List.map_congr_left ?_
  rintro ⟨key, value⟩ hentry
  have hget := Std.ExtTreeMap.mem_toList_iff_getElem?_eq_some.mp hentry
  obtain ⟨record, hrecord, hread⟩ := htyped.exists_before hget
  have hkey := hnamed key record hrecord
  rw [hname record value hread, Option.some.injEq] at hkey
  exact hkey

/-- The names of the memories and cores of a model are those that nothing is looked up by. -/
theorem freeNames_eq (htyped : Typed r m) :
    r.freeNames =
      m.physicalMemory.name :: virtualMemoryName :: m.cores.map (·.name) := by
  have hcores : r.cores.filterMap Document.name? = m.cores.map (·.name) := by
    have hread := htyped.cores
    generalize r.cores = records at hread
    generalize m.cores = cores at hread
    induction hread with
    | nil => rfl
    | cons hcore _ ih =>
      have hname := (Core.readFrom_of_ofDocument hcore).name
      rw [List.filterMap_cons, hname, ih, List.map_cons]
  rw [ResolvedConfiguration.freeNames, PhysicalMemory.name?_of_ofDocument htyped.physicalMemory,
    hcores]
  rfl

theorem map_name_records (htyped : Typed r m) (hnamed : r.hierarchy.Named) :
    m.records.map Element.name = m.caches.keys ++ m.walkers.keys := by
  have hcaches := map_values_eq_keys htyped.caches
    (fun _ _ hread => (Cache.readFrom_of_ofDocument hread).name) hnamed.caches
  have hwalkers := map_values_eq_keys htyped.walkers
    (fun _ _ hread => (Walker.readFrom_of_ofDocument hread).name) hnamed.walkers
  rw [records, List.map_append, List.map_map, List.map_map, ← hcaches, ← hwalkers]
  rfl

/-! ## Names that are declared

So two declarations share a name where a core or a memory has the name of another element, or where
a cache and a walker have one name. -/

/-- **The names that are declared** are those of the memories and cores, and those that caches and
walkers are kept under. The order of the declarations does not matter for this, so they are compared
up to a permutation. -/
theorem names_wiring_perm (htyped : Typed r m) (hnamed : r.hierarchy.Named) :
    m.wiring.names.Perm (r.freeNames ++ (m.caches.keys ++ m.walkers.keys)) := by
  have hnames : m.wiring.names = m.elements.map Element.name := by
    rw [Wiring.names, wiring, Wiring.ofOrder, List.map_map]
    exact List.map_congr_left fun e _ => e.declaration_name _
  have hrecords : ((m.records.mergeSort Element.before).map Element.name).Perm
      (m.caches.keys ++ m.walkers.keys) := by
    rw [← map_name_records htyped hnamed]
    exact (List.mergeSort_perm _ _).map _
  have hcores : (m.cores.map Element.core).map Element.name = m.cores.map (·.name) := by
    rw [List.map_map]
    rfl
  rw [hnames, elements, freeNames_eq htyped, List.map_append, List.map_append, hcores]
  -- the memories stand first in both, and the cores and the records change places
  refine List.Perm.cons _ (List.Perm.cons _ ?_)
  exact (hrecords.append_right _).trans List.perm_append_comm

/-- **The names that are declared are distinct** iff no name stands for two elements. The keys of a
map are distinct by themselves, so what is left are the free names and clashes between the maps. -/
theorem nodup_names_wiring_iff (htyped : Typed r m) (hnamed : r.hierarchy.Named) :
    m.wiring.names.Nodup ↔ r.NamesApart := by
  have hsystem : ∀ name, name ∈ r.hierarchy.system ↔ name ∈ m.caches.keys ++ m.walkers.keys := by
    intro name
    rw [Hierarchy.mem_system_iff, List.mem_append, Std.ExtTreeMap.mem_keys,
      Std.ExtTreeMap.mem_keys, ← htyped.caches.mem_iff, ← htyped.walkers.mem_iff, or_comm]
    rfl
  have hkinds : (m.caches.keys ++ m.walkers.keys).Nodup ↔ r.hierarchy.Disjoint := by
    -- each of the maps has a name once
    simp only [List.nodup_append, Std.ExtTreeMap.nodup_keys, true_and, Std.ExtTreeMap.mem_keys,
      ← htyped.caches.mem_iff, ← htyped.walkers.mem_iff]
    exact ⟨fun h name hcache hwalker => h name hcache name hwalker rfl,
      fun h name hcache other hwalker heq => h name hcache (heq ▸ hwalker)⟩
  rw [(names_wiring_perm htyped hnamed).nodup_iff, List.nodup_append, hkinds]
  constructor
  · rintro ⟨hfree, hdisjoint, hapart⟩
    exact ⟨hfree, fun name hname hmem => hapart name hname name ((hsystem name).mp hmem) rfl,
      hdisjoint⟩
  · intro h
    refine ⟨h.free, h.kinds, ?_⟩
    rintro name hname _ hmem rfl
    exact h.records name hname ((hsystem name).mpr hmem)

end Model

open NormalizedConfiguration in
/-- **Where something is emitted, the declared names are distinct** iff no name stands for two
elements. Nothing in the checks sees to this, so it depends on the names that are written. -/
theorem nodup_names_iff_of_emit {docs : List Document} {n : NormalizedConfiguration}
    (hread : ofDocuments docs = .ok n) (options : Options) (lookups : ModuleLookups)
    {artifacts : Artifacts}
    (hemit : (n.resolve options lookups).configuration.emit = .ok artifacts) :
    ∃ m, Model.ofResolved (n.resolve options lookups).configuration = .ok m ∧
      artifacts.wiring = textOfLines m.wiring.lines ∧
      (m.wiring.names.Nodup ↔ (n.resolve options lookups).configuration.NamesApart) := by
  obtain ⟨m, hmodel, _, _, htext⟩ := ResolvedConfiguration.exists_model_of_emit hemit
  have hnamed : (n.resolve options lookups).configuration.hierarchy.Named :=
    hierarchy_named_resolved (closed_of_ofDocuments hread) lookups
  have htyped := Model.typed_of_ofResolved hmodel
  exact ⟨m, hmodel, htext, Model.nodup_names_wiring_iff htyped hnamed⟩

open NormalizedConfiguration in
theorem nodup_names_of_renamedMemory :
    ∃ n artifacts m, ofDocuments renamedMemory = .ok n ∧
      (n.resolve {} .nothing).configuration.emit = .ok artifacts ∧
      Model.ofResolved (n.resolve {} .nothing).configuration = .ok m ∧
      artifacts.wiring = textOfLines m.wiring.lines ∧ m.wiring.names.Nodup := by
  have hapart : ∃ n, ofDocuments renamedMemory = .ok n ∧
      (n.resolve {} .nothing).configuration.NamesApart := by
    simp -zeta only [resolve_eq_sorting]
    decide +kernel
  obtain ⟨n, hread, artifacts, hemit⟩ := emit_renamedMemory
  obtain ⟨n', hread', hapart⟩ := hapart
  rw [hread, Except.ok.injEq] at hread'
  rw [← hread'] at hapart
  obtain ⟨m, hmodel, htext, hnodup⟩ := nodup_names_iff_of_emit hread {} .nothing hemit
  exact ⟨n, artifacts, m, hread, hemit, hmodel, htext, hnodup.mpr hapart⟩

/-- Two cores from one template that has a name. The template is repeated with its name, so that
both cores are declared under it. -/
def namedTemplate : List Document :=
  [[("num_cores", .ofNat 2), ("ooo_cpu", .array [.object [("name", .string "c")]])]]

open NormalizedConfiguration in
/-- Both cores are declared under the name of the template. -/
theorem not_nodup_names_of_namedTemplate :
    ∃ n artifacts m, ofDocuments namedTemplate = .ok n ∧
      (n.resolve {} .nothing).configuration.emit = .ok artifacts ∧
      Model.ofResolved (n.resolve {} .nothing).configuration = .ok m ∧
      artifacts.wiring = textOfLines m.wiring.lines ∧ ¬m.wiring.names.Nodup := by
  have hcomputed : ∃ n, ofDocuments namedTemplate = .ok n ∧
      (n.resolve {} .nothing).configuration.cores.filterMap Document.name? = ["c", "c"] ∧
      ∃ artifacts, (n.resolve {} .nothing).configuration.emit = .ok artifacts := by
    simp -zeta only [resolve_eq_sorting, ResolvedConfiguration.emit_eq_sorting]
    decide +kernel
  obtain ⟨n, hread, hcores, artifacts, hemit⟩ := hcomputed
  obtain ⟨m, hmodel, _, _, htext⟩ := ResolvedConfiguration.exists_model_of_emit hemit
  have hnamed := hierarchy_named_resolved (closed_of_ofDocuments hread) .nothing
  have htyped := Model.typed_of_ofResolved hmodel
  refine ⟨n, artifacts, m, hread, hemit, hmodel, htext, fun hnodup => ?_⟩
  have hfree := ((Model.nodup_names_wiring_iff htyped hnamed).mp hnodup).free
  rw [ResolvedConfiguration.freeNames, hcores, List.nodup_append] at hfree
  exact absurd hfree.2.1 (by decide)

end MemoryHierarchy
