import MemoryHierarchy.Proofs.Check.Settled
import MemoryHierarchy.Proofs.Check.Topology
import MemoryHierarchy.Proofs.Configuration.SelfContained
import MemoryHierarchy.Proofs.Resolution.Distinct
import MemoryHierarchy.Proofs.Resolution.Frequency

/-!
# What a check says about compilation

A configuration can be checked without being compiled. When the checks find nothing, no compilation
fails for a diagnostic or a cycle. It fails for a record that does not fit its type, which it names,
or where a name is that of a cache and of a walker, which may have no order of declaration
(`Previewed`).

The checks and the types overlap but do not agree. Where names are apart, what the checks leave open
are the memories and the open fields of the other records: the records are complete, a cache that is
nowhere linked further would end a path, and everything that is left has a frequency. So what passes
its checks is compiled if and only if the open fields fit (`previewed_resolved`).
-/

namespace MemoryHierarchy

/-! ## Next levels

A cache without a next level can stand below the first level only as long as nobody follows its
links. The checks follow them from every core, so a cache without one would end a path in front of
the memory. -/

namespace Hierarchy

variable {h : Hierarchy} {name upper : String}

/-- A cache directly below the first level links on: no path from the first level ends there without
having met a walker. -/
theorem exists_target_of_below_root (hnamed : h.system.Named) (hdisjoint : h.Disjoint)
    (hempty : h.checkTopology = []) (hroot : upper ∈ h.roots)
    (hop : h.system.target? lowerLevel upper = some name) (hcache : name ∈ h.caches) :
    ∃ next, h.system.target? lowerLevel name = some next := by
  obtain ⟨hreferences, hacyclic, hpaths⟩ := checks_of_checkTopology_eq_nil hempty
  obtain ⟨hslots, _⟩ := checkReferences_eq_nil_iff.mp hreferences
  obtain ⟨hdata, htranslation⟩ := (checkPaths_eq_nil_iff hnamed hacyclic hslots).mp hpaths
  obtain ⟨core, hcore, slot, hslot, hstart⟩ := mem_roots_iff.mp hroot
  by_contra hnone
  have hends : ∀ next, h.system.target? lowerLevel name ≠ some next := not_exists.mp hnone
  -- the path from the first level would be over here
  have hpath : h.system.MaximalPath lowerLevel upper [upper, name] :=
    .step hop (.last (mem_system_iff.mpr (Or.inr hcache)) fun next hnext =>
      absurd hnext (hends next))
  have hkinds : ∀ slot ∈ Slot.firstLevel,
      slot ∈ [Slot.l1i, Slot.l1d] ∨ slot ∈ Slot.translation := by
    decide
  rcases hkinds slot hslot with hkind | hkind
  · obtain ⟨path, last, hpath', hlast, hmemory, _⟩ := hdata core hcore slot hkind upper hstart
    rw [hpath'.unique hpath, List.getLast?_cons_cons, List.getLast?_singleton,
      Option.some.injEq] at hlast
    subst hlast
    exact hends _ hmemory
  · obtain ⟨path, hpath', met, hmet, hwalker⟩ := htranslation core hcore slot hkind upper hstart
    rw [hpath'.unique hpath, List.mem_cons, List.mem_singleton] at hmet
    rcases hmet with rfl | rfl
    · exact hdisjoint _ (hslots core hcore slot hslot _ hstart) hwalker
    · exact hdisjoint _ hcache hwalker

end Hierarchy

namespace NormalizedConfiguration

variable {n : NormalizedConfiguration} {lookups : ModuleLookups} {name : String} {record : Document}

theorem disjoint_resolved (hclosed : n.Closed) (hdisjoint : n.hierarchy.Disjoint)
    (lookups : ModuleLookups) : (n.applyDefaults lookups).hierarchy.Disjoint :=
  (n.agreesOff_resolved lookups).disjoint
    (Completion.disjoint_complete hclosed.hierarchy hdisjoint)

/-- **Every cache of a topology that passes its checks has a next level.** A cache without one would
be directly below the first level, and some data path would end there, away from the memory. -/
theorem contains_lowerLevel_of_checkTopology (hclosed : n.Closed)
    (hdisjoint : n.hierarchy.Disjoint) (hmemory : memorySentinel ∉ n.hierarchy.system)
    (hempty : (n.applyDefaults lookups).hierarchy.checkTopology = [])
    (hget : (n.applyDefaults lookups).caches[name]? = some record) :
    record.contains lowerLevel = true := by
  rcases contains_lowerLevel_resolved hclosed hdisjoint hmemory lookups hget with
    hlower | ⟨upper, hroot, hop⟩
  · exact hlower
  · obtain ⟨next, hnext⟩ := Hierarchy.exists_target_of_below_root (named_resolved hclosed lookups)
      (disjoint_resolved hclosed hdisjoint lookups) hempty hroot hop
      (NameMap.mem_iff_exists.mpr ⟨record, hget⟩)
    have hsystem : (n.applyDefaults lookups).hierarchy.system[name]? = some record :=
      Hierarchy.getElem?_system_of_cache hget
    rw [RecordMap.target?_of_getElem? hsystem] at hnext
    obtain ⟨value, hvalue, _⟩ := Option.bind_eq_some_iff.mp hnext
    exact Document.contains_iff.mpr ⟨value, hvalue⟩

/-! ## Cores

The fields of a core that no check is about are those by which it is known; they are written when
the core is read, and kept. -/

/-- A core keeps its name, its index and its slots. -/
theorem identified_core_resolved (hclosed : n.Closed) (hcontained : n.SelfContained)
    (lookups : ModuleLookups) {core : Document}
    (hcore : core ∈ (n.applyDefaults lookups).cores) :
    (∃ name, core.name? = some name) ∧ (∃ i, core.natural? "index" = some i) ∧
      ∀ slot, ∃ name, core.slot? slot = some name := by
  obtain ⟨written, hwritten, hkept⟩ := exists_of_mem_right (coreKept_resolved hclosed lookups) hcore
  have hkeeps := hkept.attributes
  refine ⟨?_, ?_, fun slot => ?_⟩
  · obtain ⟨name, hname⟩ := hcontained.titled written hwritten
    exact ⟨name, hkeeps.bind (by decide) hname⟩
  · obtain ⟨i, hi, rfl⟩ := List.getElem_of_mem hwritten
    exact ⟨i, hkeeps.bind (by decide) (hcontained.indexed i hi)⟩
  · obtain ⟨name, hname, _⟩ := hcontained.slots written hwritten slot
    exact ⟨name, hkeeps.bind (by cases slot <;> decide) hname⟩

/-! ## Open fields

For each kind of records it is known which fields a passed check settles. What is left is asked for
by name. -/

/-- **What the checks leave open.** Records that pass their checks fit where their open fields do.
Completeness gives the attributes, the checks give their types, and what is left are the fields that
neither of them speaks of. -/
theorem fits_iff_openFields_resolved {docs : List Document} (hread : ofDocuments docs = .ok n)
    (hdisjoint : n.hierarchy.Disjoint) (hmemory : memorySentinel ∉ n.hierarchy.system)
    (options : Options) (lookups : ModuleLookups)
    (hclean : (n.resolve options lookups).configuration.diagnostics = []) :
    (n.resolve options lookups).configuration.Fits RecordKind.schema ↔
      (n.resolve options lookups).configuration.Fits RecordKind.openFields := by
  have hclosed := closed_of_ofDocuments hread
  have hcontained := selfContained_of_ofDocuments hread
  obtain ⟨hrecords, htopology⟩ := List.append_eq_nil_iff.mp hclean
  obtain ⟨hcores, hcaches, hwalkers⟩ := Hierarchy.checkRecords_eq_nil_iff.mp hrecords
  obtain ⟨_, hacyclic, _⟩ := Hierarchy.checks_of_checkTopology_eq_nil htopology
  -- a record has each settled field because a check has passed it or a pass has written it
  have hnamed := hierarchy_named_resolved hclosed lookups
  have hcore : ∀ core ∈ (n.applyDefaults lookups).cores,
      (Core.schema.Fits core ↔ RecordKind.core.openFields.Fits core) := by
    intro core hcore
    obtain ⟨hname, hindex, hslots⟩ := identified_core_resolved hclosed hcontained lookups hcore
    exact Core.fits_iff_openFields (hcores core hcore) hname hindex hslots
      (hasAll_core_resolved hclosed lookups hcore)
  have hcache : ∀ (name : String) (record : Document),
      (n.applyDefaults lookups).caches[name]? = some record →
        (Cache.schema.Fits record ↔ RecordKind.cache.openFields.Fits record) := by
    intro name record hget
    exact Cache.fits_iff_openFields (hcaches name record hget)
      ⟨name, hnamed.caches name record hget⟩
      (contains_frequency_resolved hclosed hacyclic (Or.inl hget))
      (contains_lowerLevel_of_checkTopology hclosed hdisjoint hmemory htopology hget)
      (exists_translates_resolved hget)
      (hasAll_cache_resolved hclosed hdisjoint hmemory lookups hget)
  have hwalker : ∀ (name : String) (record : Document),
      (n.applyDefaults lookups).walkers[name]? = some record →
        (Walker.schema.Fits record ↔ RecordKind.walker.openFields.Fits record) := by
    intro name record hget
    exact Walker.fits_iff_openFields (hwalkers name record hget)
      ⟨name, hnamed.walkers name record hget⟩
      (contains_frequency_resolved hclosed hacyclic (Or.inr hget))
      (hasAll_walker_resolved hclosed hdisjoint hmemory lookups hget)
  exact ResolvedConfiguration.fits_congr hcore hcache hwalker

end NormalizedConfiguration

/-! ## Compilation

With the checks passed, the types settled and an order found, nothing is left that could fail. Where
two elements share a name, the order may fail, and this is the one case that is left open. -/

/-- How compilation ends where the checks have found nothing: with texts when all records fit their
types, and otherwise with the name of one that does not. Only where a name is that of a cache and of
a walker, records that fit may have no order. -/
def ResolvedConfiguration.Previewed (r : ResolvedConfiguration) :
    Except CompileError Artifacts → Prop
  | .ok _ => r.Fits RecordKind.schema
  | .error (.model name _) => r.Misfit name
  | .error (.forwardReference _ _) => r.Fits RecordKind.schema ∧ ¬r.hierarchy.Disjoint
  | .error _ => False

/-- A model has its texts, or a name that is declared too late. -/
theorem Artifacts.ofModel_cases (m : Model) :
    (∃ artifacts, ofModel m = .ok artifacts ∧ declarationOrder m = .ok m.elements) ∨
      ∃ element name, ofModel m = .error (.forwardReference element name) ∧
        declarationOrder m = .error (.forwardReference element name) := by
  unfold ofModel declarationOrder
  split
  · exact Or.inr ⟨_, _, rfl, rfl⟩
  · exact Or.inl ⟨_, rfl, rfl⟩

namespace ResolvedConfiguration

variable {r : ResolvedConfiguration}

theorem previewed_emit (hclean : r.diagnostics = []) (hdistinct : r.Distinct)
    (hnamed : r.hierarchy.system.Named)
    (hgrow : r.hierarchy.system.Acyclic lowerLevel → r.hierarchy.LevelsGrow) :
    r.Previewed r.emit := by
  obtain ⟨_, htopology⟩ := List.append_eq_nil_iff.mp hclean
  obtain ⟨hreferences, hacyclic, _⟩ := Hierarchy.checks_of_checkTopology_eq_nil htopology
  rw [emit_of_diagnostics_eq_nil hclean]
  -- without a cycle the types are the first thing that can fail
  cases hmodel : Model.ofResolved r with
  | error e =>
    obtain ⟨name, cause, rfl, hmisfit⟩ :=
      Model.exists_of_ofResolved_eq_error hacyclic hdistinct hmodel
    exact hmisfit
  | ok m =>
    have hfits := (Model.exists_ofResolved_iff hacyclic hdistinct).mp ⟨m, hmodel⟩
    show r.Previewed (Artifacts.ofModel m)
    rcases Artifacts.ofModel_cases m with ⟨artifacts, htexts, _⟩ | ⟨element, name, htexts, hlate⟩
    · rw [htexts]
      exact hfits
    · rw [htexts]
      refine ⟨hfits, fun hdisjoint => ?_⟩
      -- with names apart the order cannot, as levels grow along links
      have horder : declarationOrder m = .ok m.elements :=
        declarationOrder_of_deeper
          (fun _ hmem _ hname => deeper_of_levelsGrow hmodel hnamed hreferences hdisjoint
            (hgrow hacyclic) hmem hname)
          fun _ hcore _ hname => exists_element_of_core hmodel hnamed hreferences hcore hname
      rw [horder] at hlate
      cases hlate

/-- Where names are apart, records that fit have texts. -/
theorem Previewed.exists_ok_iff {result : Except CompileError Artifacts}
    (hpreviewed : r.Previewed result) (hdisjoint : r.hierarchy.Disjoint) :
    (∃ artifacts, result = .ok artifacts) ↔ r.Fits RecordKind.schema := by
  cases result with
  | ok artifacts => exact iff_of_true ⟨artifacts, rfl⟩ hpreviewed
  | error e =>
    refine iff_of_false (by simp) fun hfits => ?_
    cases e with
    | model name cause => exact hpreviewed.not_fits hfits
    | forwardReference element name => exact hpreviewed.2 hdisjoint
    | _ => exact hpreviewed

end ResolvedConfiguration

open NormalizedConfiguration in
/-- **A check previews compilation up to the types of the records.** When nothing is reported of
what documents resolve to, compilation fails for records that do not fit their types only, or where
a name is that of a cache and of a walker. When no name is, and no record goes by the name of the
memory, it succeeds exactly when the memories and the open fields of the other records fit. -/
theorem previewed_resolved {docs : List Document} {n : NormalizedConfiguration}
    (hread : ofDocuments docs = .ok n) (options : Options) (lookups : ModuleLookups)
    (hclean : (n.resolve options lookups).configuration.diagnostics = []) :
    (n.resolve options lookups).configuration.Previewed
        (n.resolve options lookups).configuration.emit ∧
      ((memorySentinel ∉ n.caches ∧ memorySentinel ∉ n.walkers) →
        (∀ name ∈ n.caches, name ∉ n.walkers) →
        ((∃ artifacts, (n.resolve options lookups).configuration.emit = .ok artifacts) ↔
          (n.resolve options lookups).configuration.Fits RecordKind.openFields)) := by
  have hclosed := closed_of_ofDocuments hread
  have hdistinct := distinct_configuration hclosed options lookups
  have hpreviewed := ResolvedConfiguration.previewed_emit hclean hdistinct
    (named_resolved hclosed lookups) (levelsGrow_resolved hclosed)
  refine ⟨hpreviewed, fun hmemory hdisjoint => ?_⟩
  have hsystem : memorySentinel ∉ n.hierarchy.system := by
    rw [Hierarchy.mem_system_iff]
    exact fun hmem => hmem.elim hmemory.2 hmemory.1
  -- without a name of two records the types are all that is left to fail
  rw [hpreviewed.exists_ok_iff (disjoint_resolved hclosed hdisjoint lookups)]
  exact fits_iff_openFields_resolved hread hdisjoint hsystem options lookups hclean

open NormalizedConfiguration in
/-- One core whose memory has a name of its own passes its checks, and is compiled because the open
fields of its records fit. -/
theorem previewed_renamedMemory :
    ∃ n artifacts, ofDocuments renamedMemory = .ok n ∧
      (n.resolve {} .nothing).configuration.diagnostics = [] ∧
      (n.resolve {} .nothing).configuration.emit = .ok artifacts ∧
      (n.resolve {} .nothing).configuration.Previewed (.ok artifacts) ∧
      (n.resolve {} .nothing).configuration.Fits RecordKind.openFields := by
  have hapart : ∃ n, ofDocuments renamedMemory = .ok n ∧
      (memorySentinel ∉ n.caches ∧ memorySentinel ∉ n.walkers) ∧
      n.hierarchy.Disjoint := by
    decide +kernel
  obtain ⟨n, hread, artifacts, hemit⟩ := emit_renamedMemory
  obtain ⟨n', hread', hmemory, hdisjoint⟩ := hapart
  rw [hread, Except.ok.injEq] at hread'
  subst hread'
  have hclean := ResolvedConfiguration.diagnostics_eq_nil_of_emit hemit
  obtain ⟨hpreviewed, hopen⟩ := previewed_resolved hread {} .nothing hclean
  rw [hemit] at hpreviewed
  exact ⟨n, artifacts, hread, hclean, hemit, hpreviewed,
    (hopen hmemory hdisjoint).mp ⟨artifacts, hemit⟩⟩

/-- One core whose memory has its number of channels in words. Attributes of memories are not
checked in advance, so the word is found out only when the model is typed. -/
def spelledChannels : List Document :=
  [[("physical_memory", .object [("channels", .string "two")])]]

open NormalizedConfiguration in
/-- Nothing is checked of the memory, so nothing is reported; but there is no model of it. -/
theorem not_emit_spelledChannels :
    ∃ n, ofDocuments spelledChannels = .ok n ∧
      (n.resolve {} .nothing).configuration.diagnostics = [] ∧
      (n.resolve {} .nothing).configuration.emit =
        .error (.model memorySentinel (.wrongType (.string "two") .word)) := by
  simp -zeta only [resolve_eq_sorting, ResolvedConfiguration.emit_eq_sorting]
  decide +kernel

end MemoryHierarchy
