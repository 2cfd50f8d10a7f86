import MemoryHierarchy.Proofs.Module.Resolution
import MemoryHierarchy.Proofs.Resolution.Template

/-!
# What is written is kept

Defaults go below what a configuration says. Completion puts layers below records, and the passes
after it write where nothing is, or under keys that are theirs: `computedKeys` for caches and
walkers, `computedCoreKeys` for cores. A frequency is written again, but it is the record's own
where it has one (`eq_of_getElem?_frequencies`).

Layers hold nothing but scalars, the access types of caches and the instruction buffer of cores
apart, so nothing is merged into a value that is there. The access types are joined, and a buffer
that is a mapping gains the keys it lacks (`CoreKept`).

Some keys are in no layer (`unlayeredKeys`): under them completion leaves everything as it is
written, also that nothing is.
-/

namespace MemoryHierarchy

open Document (Keeps Layered ScalarOff)

/-- The keys of caches and walkers whose values are computed, whatever is written there. The access
types are among them because templates are joined to them. -/
def computedKeys : List String :=
  ["fill_level", "needs_translate", "clock_scale", "prefetcher", "replacement", "prefetch_activate"]

/-- The keys of cores whose values are computed, whatever is written there. -/
def computedCoreKeys : List String := ["clock_scale", "branch_predictor", "btb"]

/-! ## Layers

Layers hold scalars, but for the access types of caches and the instruction buffer of cores. A merge
leaves a value alone unless both sides have a list or a mapping there. -/

theorem scalarOff_document (links : SlotLinks) (core : Document) :
    ScalarOff [] (links.document core) := by
  obtain ⟨slot, lower, translate⟩ := links
  cases translate with
  | none => exact of_decide_eq_true rfl
  | some slot => exact of_decide_eq_true rfl

theorem scalarOff_walkerPointer (core : Document) : ScalarOff [] (Completion.walkerPointer core) :=
  of_decide_eq_true rfl

theorem scalarOff_firstLevel (template : Template.FirstLevel) :
    ScalarOff computedKeys template.document :=
  of_decide_eq_true rfl

theorem scalarOff_shared (role : Role) (n : Nat) :
    ScalarOff computedKeys ((Template.shared role).document n) := by
  cases role <;> exact of_decide_eq_true rfl

theorem scalarOff_walker (n : Nat) : ScalarOff computedKeys (Template.walker n) :=
  of_decide_eq_true rfl

theorem scalarOff_core : ScalarOff ["DIB"] Template.core := of_decide_eq_true rfl

namespace Completion

variable {h : Hierarchy} {name : String} {record : Document}

theorem scalarOff_of_mem_cacheLayers {cores : List Document} {layer : Document}
    (hlayer : layer ∈ cacheLayers cores name) : ScalarOff computedKeys layer := by
  obtain ⟨core, _, links, _, _, hlayer⟩ := mem_cacheLayers_iff.mp hlayer
  rcases mem_slotLayers_iff.mp hlayer with rfl | ⟨_, template, _, _, rfl⟩
  · exact (scalarOff_document links core).mono (List.nil_subset _)
  · exact scalarOff_firstLevel template

end Completion

/-! ## Keys that no layer has

Some keys are written by passes only. Below such a key a merge brings nothing. -/

/-- A document has none of some keys. -/
def Document.Lacks (keys : List String) (d : Document) : Prop :=
  ∀ key ∈ keys, d.contains key = false

instance (keys : List String) (d : Document) : Decidable (d.Lacks keys) :=
  inferInstanceAs (Decidable (∀ key ∈ keys, d.contains key = false))

/-- Keys under which completion puts nothing below caches and walkers. -/
def unlayeredKeys : List String := ["frequency", "offset_bits", "cpu"]

theorem lacks_document (links : SlotLinks) (core : Document) :
    (links.document core).Lacks unlayeredKeys := by
  obtain ⟨slot, lower, translate⟩ := links
  cases translate with
  | none => exact of_decide_eq_true rfl
  | some slot => exact of_decide_eq_true rfl

theorem lacks_shared (role : Role) (n : Nat) :
    ((Template.shared role).document n).Lacks unlayeredKeys := by
  cases role <;> exact of_decide_eq_true rfl

namespace Completion

variable {h : Hierarchy} {name : String} {layer : Document}

theorem lacks_of_mem_cacheLayers {cores : List Document}
    (hlayer : layer ∈ cacheLayers cores name) : layer.Lacks unlayeredKeys := by
  obtain ⟨core, _, links, _, _, hlayer⟩ := mem_cacheLayers_iff.mp hlayer
  rcases mem_slotLayers_iff.mp hlayer with rfl | ⟨_, template, _, _, rfl⟩
  · exact lacks_document links core
  · exact of_decide_eq_true rfl

theorem lacks_of_mem_walkerLayers {cores : List Document}
    (hlayer : layer ∈ walkerLayers cores name) : layer.Lacks unlayeredKeys := by
  obtain ⟨core, _, _, rfl⟩ := mem_walkerLayers_iff.mp hlayer
  exact of_decide_eq_true rfl

end Completion

/-! ## Passes after completion

Each pass either writes a computed key or fills one that is absent. Both leave what is written under
any other key. -/

theorem keeps_withHitLatency (cache : Document) : Keeps [] cache (withHitLatency cache) := by
  unfold withHitLatency
  split
  · exact .refl [] cache
  · next habsent =>
    rw [Bool.not_eq_true] at habsent
    split
    · exact .set_of_absent [] habsent _
    · exact .refl [] cache

theorem keeps_withAddressing (bits : Nat) (cache : Document) :
    Keeps computedKeys cache (withAddressing bits cache) :=
  (Keeps.setIfAbsent computedKeys cache _ _).trans (Document.AgreesOff.set (by decide) _ _).keeps

namespace Hierarchy

variable {h : Hierarchy} {levels : NameMap Nat} {name : String} {record : Document}

/-- Finding the frequency of a record gives no other one to a record that has its own. -/
theorem eq_of_getElem?_inheritFrequency {clocks : List CoreClock} {system : RecordMap}
    {uppers : NameMap (List Document)} {known : NameMap Json} {own frequency : Json}
    (hget : system[name]? = some record) (hown : record.get? "frequency" = some own)
    (hknown : ∀ value, known[name]? = some value → value = own) (other : String)
    (hfrequency : (inheritFrequency clocks system uppers known other)[name]? = some frequency) :
    frequency = own := by
  unfold inheritFrequency at hfrequency
  split at hfrequency
  · exact hknown frequency hfrequency
  · next record' hget' =>
    dsimp only at hfrequency
    split at hfrequency
    · next found hfound =>
      rw [Std.ExtTreeMap.getElem?_insert] at hfrequency
      simp only [Std.compare_eq_iff_eq] at hfrequency
      -- a visit of another record leaves this one alone, and its own visit finds its own frequency
      by_cases hname : other = name
      · subst hname
        rw [hget, Option.some.injEq] at hget'
        rw [← hget', hown, Option.some_or, Option.some.injEq] at hfound
        rw [if_pos rfl, Option.some.injEq] at hfrequency
        rw [← hfrequency, hfound]
      · rw [if_neg hname] at hfrequency
        exact hknown frequency hfrequency
    · exact hknown frequency hfrequency

/-- **The frequency that is found for a record is its own where it has one.** The visit of a record
prefers its own frequency, and no other visit writes one for it. -/
theorem eq_of_getElem?_frequencies {own frequency : Json} (hget : h.system[name]? = some record)
    (hown : record.get? "frequency" = some own)
    (hfrequency : (h.frequencies levels)[name]? = some frequency) : frequency = own := by
  unfold frequencies at hfrequency
  dsimp only at hfrequency
  generalize levels.byNumber.map Prod.fst = names at hfrequency
  -- from the last name that was visited back to the first, nothing else has been found
  induction names using List.reverseRecOn generalizing frequency with
  | nil => cases hfrequency
  | append_singleton names last ih =>
    rw [List.foldl_append] at hfrequency
    exact eq_of_getElem?_inheritFrequency hget hown (fun _ => ih) last hfrequency

theorem keeps_clocked (hget : h.system[name]? = some record) (reference : Float) :
    Keeps computedKeys record (withClockScale reference
      (match (h.frequencies levels)[name]? with
      | some frequency => record.set "frequency" frequency
      | none => record)) := by
  refine Keeps.trans ?_ (agreesOff_withClockScale (by decide) reference _).keeps
  split
  · next frequency hfrequency =>
    exact .set computedKeys fun own hown => eq_of_getElem?_frequencies hget hown hfrequency
  · exact .refl computedKeys record

/-- Two hierarchies have the same names, and the records of the second one keep what those of the
first one have. -/
structure KeepsRecords (before after : Hierarchy) : Prop where
  caches : before.caches.Pointwise (fun _ => Keeps computedKeys) after.caches
  walkers : before.walkers.Pointwise (fun _ => Keeps computedKeys) after.walkers

namespace KeepsRecords

theorem refl (h : Hierarchy) : KeepsRecords h h where
  caches := .refl fun _ record _ => .refl computedKeys record
  walkers := .refl fun _ record _ => .refl computedKeys record

theorem trans {before middle after : Hierarchy} (hfirst : KeepsRecords before middle)
    (hsecond : KeepsRecords middle after) : KeepsRecords before after where
  caches := hfirst.caches.trans hsecond.caches fun _ _ _ _ => .trans
  walkers := hfirst.walkers.trans hsecond.walkers fun _ _ _ _ => .trans

theorem disjoint {before after : Hierarchy} (h : KeepsRecords before after)
    (hdisjoint : before.Disjoint) : after.Disjoint := by
  intro name hcache hwalker
  exact hdisjoint name ((h.caches.mem_iff name).mpr hcache) ((h.walkers.mem_iff name).mpr hwalker)

theorem withHitLatency (h : Hierarchy) :
    KeepsRecords h (h.mapCaches fun _ cache => MemoryHierarchy.withHitLatency cache) :=
  { refl h with
    caches := NameMap.pointwise_map (fun _ cache =>
      (keeps_withHitLatency cache).mono (List.nil_subset _)) _ }

theorem withClocks (hdisjoint : h.Disjoint) (levels : NameMap Nat) (reference : Float) :
    KeepsRecords h (h.withClocks levels reference) := by
  -- frequencies are found in the system, which has the records of both maps
  constructor
  · exact NameMap.pointwise_map_of_mem fun name cache hget =>
      keeps_clocked (getElem?_system_of_cache hget) reference
  · exact NameMap.pointwise_map_of_mem fun name walker hget =>
      keeps_clocked (hdisjoint.getElem?_system_of_walker hget) reference

theorem withAddresses (h : Hierarchy) (levels : NameMap Nat) (bits : AddressBits) :
    KeepsRecords h (h.withAddresses levels bits) := by
  have hlevel : ∀ name record, Keeps computedKeys record (withLevel levels name record) :=
    fun name record => (agreesOff_withLevel (by decide) levels name record).keeps
  have howners : h.walkers.Pointwise (fun _ => Keeps computedKeys)
      (TranslationWalks.ofHierarchy h).walkers :=
    TranslationWalks.pointwise_ofHierarchy (.refl computedKeys) (fun _ _ _ => .trans)
      (fun record cpu => .setIfAbsent computedKeys record "cpu" cpu) h
  constructor
  · exact .trans (NameMap.pointwise_map (fun _ cache => keeps_withAddressing _ cache) h.caches)
      (NameMap.pointwise_map hlevel _) fun _ _ _ _ => .trans
  · exact howners.trans (NameMap.pointwise_map hlevel _) fun _ _ _ _ => .trans

theorem withModules (h : Hierarchy) {catalog : ModuleCatalog}
    (hprefetcher : catalog.prefetcher.kind.slot ∈ computedKeys)
    (hreplacement : catalog.replacement.kind.slot ∈ computedKeys) :
    KeepsRecords h (h.withModules catalog) :=
  { refl h with
    caches := NameMap.pointwise_map (fun _ cache =>
      (agreesOff_withModuleNames hprefetcher cache).keeps.trans
        (agreesOff_withModuleNames hreplacement _).keeps) _ }

end KeepsRecords

end Hierarchy

namespace NormalizedConfiguration

variable {n : NormalizedConfiguration}

theorem kind_resolveModules (h : Hierarchy) (lookups : ModuleLookups) (kind : ModuleKind) :
    (h.resolveModules lookups kind).set.kind = kind :=
  (ModuleResolution.answered_resolve _ _ _ _ _).1.kind_eq

/-- The hierarchy once its records have their clocks. -/
def clockedHierarchy (n : NormalizedConfiguration) : Hierarchy :=
  (n.hierarchy.complete.mapCaches fun _ cache => withHitLatency cache).withClocks
    n.hierarchy.complete.levels n.referenceClock

/-- Addresses and modules change nothing that is written in caches and walkers. -/
theorem keepsRecords_clocked (n : NormalizedConfiguration) (lookups : ModuleLookups) :
    Hierarchy.KeepsRecords n.clockedHierarchy (n.applyDefaults lookups).hierarchy := by
  have haddressed := Hierarchy.KeepsRecords.withAddresses n.clockedHierarchy
    n.hierarchy.complete.levels ⟨n.constants.log2BlockSize, n.constants.log2PageSize⟩
  refine haddressed.trans (.withModules n.completedHierarchy ?_ ?_)
  · rw [kind_resolveModules]
    decide
  · rw [kind_resolveModules]
    decide

/-- No pass after completion changes what is written in caches and walkers. -/
theorem keepsRecords_resolved (hdisjoint : n.hierarchy.complete.Disjoint)
    (lookups : ModuleLookups) :
    Hierarchy.KeepsRecords n.hierarchy.complete (n.applyDefaults lookups).hierarchy := by
  have htimed := Hierarchy.KeepsRecords.withHitLatency n.hierarchy.complete
  exact (htimed.trans (.withClocks (htimed.disjoint hdisjoint) _ _)).trans
    (n.keepsRecords_clocked lookups)

end NormalizedConfiguration

/-! ## Cores

A core gains keys in its instruction buffer, as mappings are merged. What has been written there
comes first and is kept. -/

/-- A core keeps what is written in it, and its instruction buffer may gain keys. The buffer is the
one attribute that defaults are merged into. -/
structure CoreKept (written core : Document) : Prop where
  attributes : Keeps ("DIB" :: computedCoreKeys) written core
  /-- A buffer that is no mapping is kept as it is. -/
  buffer : ∀ value, written.get? "DIB" = some value → value.object? = none →
    core.get? "DIB" = some value
  /-- A buffer that is a mapping is kept at the front of what it becomes. -/
  fields : ∀ fields, written.get? "DIB" = some (.object fields) →
    ∃ gained : Document, core.get? "DIB" = some (.object (fields ++ gained)) ∧
      ∀ key ∈ gained.keys, key ∉ Document.keys fields

namespace CoreKept

variable {written middle core : Document}

theorem of_agreesOff (h : CoreKept written middle)
    (hagrees : Document.AgreesOff computedCoreKeys middle core) : CoreKept written core := by
  have hbuffer : core.get? "DIB" = middle.get? "DIB" := hagrees "DIB" (by decide)
  constructor
  · exact h.attributes.trans (hagrees.keeps.mono (List.subset_cons_self _ _))
  · rw [hbuffer]
    exact h.buffer
  · rw [hbuffer]
    exact h.fields

/-- The template of a core goes below what is written. -/
theorem template (hdistinct : written.Distinct) :
    CoreKept written (Document.mergeAll [written, Template.core]) := by
  have hmerged := Document.mergeAll_pair hdistinct Template.core
  have htemplate : Template.core.Distinct := of_decide_eq_true rfl
  let buffer : Document := [("window_size", .ofNat 16), ("sets", .ofNat 32), ("ways", .ofNat 8)]
  have hbuffer : Template.core.get? "DIB" = some (.object buffer) := rfl
  have hscalar : buffer.ScalarOff [] := of_decide_eq_true rfl
  -- the template has one buffer, which meets the one that is written
  have hget : ∀ value, written.get? "DIB" = some value →
      (Document.mergeAll [written, Template.core]).get? "DIB" =
        some (value.merge (.object buffer)) := by
    intro value hvalue
    rw [hmerged, Document.get?_mergeWith_of_distinct _ _ htemplate, hbuffer, hvalue]
    rfl
  constructor
  · rw [hmerged]
    exact (Keeps.mergeWith scalarOff_core).mono (List.cons_subset_cons _ (List.nil_subset _))
  · intro value hvalue hobject
    rw [hget value hvalue]
    cases value with
    | object fields => cases hobject
    | _ => rfl
  · intro fields hfields
    obtain ⟨gained, hgained, hnew⟩ := Document.exists_mergeInto_eq_append fields hscalar
    refine ⟨gained, ?_, hnew⟩
    rw [hget _ hfields, Json.merge, hgained]

end CoreKept

namespace NormalizedConfiguration

variable {n : NormalizedConfiguration} {name : String} {record : Document}

/-- Cores keep what completion has left, but for their clock and their modules. -/
theorem agreesOff_core_resolved (n : NormalizedConfiguration) (lookups : ModuleLookups) :
    List.Forall₂ (Document.AgreesOff computedCoreKeys) n.hierarchy.complete.cores
      (n.applyDefaults lookups).cores := by
  show List.Forall₂ _ n.hierarchy.complete.cores
    ((n.hierarchy.complete.cores.map (withClockScale n.referenceClock)).map _)
  rw [List.map_map, List.forall₂_map_right_iff, List.forall₂_same]
  intro core _
  refine ((agreesOff_withClockScale (by decide) n.referenceClock core).trans
    (agreesOff_withModuleNames ?_ _)).trans (agreesOff_withModuleNames ?_ _)
  · rw [kind_resolveModules]
    decide
  · rw [kind_resolveModules]
    decide

theorem coreKept_resolved (hclosed : n.Closed) (lookups : ModuleLookups) :
    List.Forall₂ CoreKept n.cores (n.applyDefaults lookups).cores := by
  have hlate := n.agreesOff_core_resolved lookups
  rw [Completion.cores_complete hclosed.hierarchy, NormalizedConfiguration.hierarchy,
    List.forall₂_map_left_iff] at hlate
  have hboth := (List.forall₂_and_left _ _).mpr ⟨hclosed.cores_distinct, hlate⟩
  exact hboth.imp fun _ _ ⟨hdistinct, hagrees⟩ =>
    (CoreKept.template hdistinct).of_agreesOff hagrees

theorem keeps_cache_resolved (hclosed : n.Closed) (hdisjoint : n.hierarchy.Disjoint)
    (lookups : ModuleLookups) (hget : (n.applyDefaults lookups).caches[name]? = some record) :
    ∃ written, n.caches[name]? = some written ∧ Keeps computedKeys written record := by
  have hkept := keepsRecords_resolved
    (Completion.disjoint_complete hclosed.hierarchy hdisjoint) lookups
  obtain ⟨completed, hcompleted, hlate⟩ := hkept.caches.exists_before hget
  obtain ⟨written, hwritten, hlayered⟩ :=
    Completion.exists_layered_of_complete_cache hclosed.hierarchy hdisjoint hcompleted
  have hdistinct := hclosed.caches_distinct name written hwritten
  refine ⟨written, hwritten, (hlayered.keeps hdistinct fun layer hlayer => ?_).trans hlate⟩
  rcases hlayer with hlayer | ⟨role, count, rfl⟩
  · exact Completion.scalarOff_of_mem_cacheLayers hlayer
  · exact scalarOff_shared role count

theorem keeps_walker_resolved (hclosed : n.Closed) (hdisjoint : n.hierarchy.Disjoint)
    (lookups : ModuleLookups) (hget : (n.applyDefaults lookups).walkers[name]? = some record) :
    ∃ written, n.walkers[name]? = some written ∧ Keeps computedKeys written record := by
  have hkept := keepsRecords_resolved
    (Completion.disjoint_complete hclosed.hierarchy hdisjoint) lookups
  obtain ⟨completed, hcompleted, hlate⟩ := hkept.walkers.exists_before hget
  obtain ⟨written, hwritten, hlayered⟩ :=
    Completion.exists_layered_of_complete_walker hclosed.hierarchy hdisjoint hcompleted
  have hdistinct := hclosed.walkers_distinct name written hwritten
  refine ⟨written, hwritten, (hlayered.keeps hdistinct fun layer hlayer => ?_).trans hlate⟩
  rcases hlayer with hlayer | ⟨count, rfl⟩
  · obtain ⟨core, _, _, rfl⟩ := Completion.mem_walkerLayers_iff.mp hlayer
    exact (scalarOff_walkerPointer core).mono (List.nil_subset _)
  · exact scalarOff_walker count

/-- Completion leaves what is written under a key that no layer has. -/
theorem get?_complete_cache (hclosed : n.Closed) (hdisjoint : n.hierarchy.Disjoint)
    {key : String} (hkey : key ∈ unlayeredKeys)
    (hget : n.hierarchy.complete.caches[name]? = some record) :
    ∃ written, n.caches[name]? = some written ∧ record.get? key = written.get? key := by
  obtain ⟨written, hwritten, hlayered⟩ :=
    Completion.exists_layered_of_complete_cache hclosed.hierarchy hdisjoint hget
  refine ⟨written, hwritten, hlayered.get?_eq (hclosed.caches_distinct name written hwritten) ?_⟩
  rintro layer (hlayer | ⟨role, count, rfl⟩)
  · exact Completion.lacks_of_mem_cacheLayers hlayer key hkey
  · exact lacks_shared role count key hkey

theorem get?_complete_walker (hclosed : n.Closed) (hdisjoint : n.hierarchy.Disjoint)
    {key : String} (hkey : key ∈ unlayeredKeys)
    (hget : n.hierarchy.complete.walkers[name]? = some record) :
    ∃ written, n.walkers[name]? = some written ∧ record.get? key = written.get? key := by
  obtain ⟨written, hwritten, hlayered⟩ :=
    Completion.exists_layered_of_complete_walker hclosed.hierarchy hdisjoint hget
  refine ⟨written, hwritten, hlayered.get?_eq (hclosed.walkers_distinct name written hwritten) ?_⟩
  rintro layer (hlayer | ⟨count, rfl⟩)
  · exact Completion.lacks_of_mem_walkerLayers hlayer key hkey
  · have hlacks : (Template.walker count).Lacks unlayeredKeys := of_decide_eq_true rfl
    exact hlacks key hkey

end NormalizedConfiguration

open NormalizedConfiguration in
/-- **Defaults overwrite nothing that is written.** Of the caches and walkers that are left, each
keeps all that is not computed anyway, and so does every core, whose instruction buffer may gain
keys where it is a mapping. -/
theorem keeps_of_written {docs : List Document} {n : NormalizedConfiguration}
    (hread : ofDocuments docs = .ok n) (lookups : ModuleLookups)
    (hdisjoint : ∀ name ∈ n.caches, name ∉ n.walkers) :
    (∀ (name : String) (record : Document),
      (n.applyDefaults lookups).caches[name]? = some record →
      ∃ written, n.caches[name]? = some written ∧ Keeps computedKeys written record) ∧
    (∀ (name : String) (record : Document),
      (n.applyDefaults lookups).walkers[name]? = some record →
      ∃ written, n.walkers[name]? = some written ∧ Keeps computedKeys written record) ∧
    List.Forall₂ CoreKept n.cores (n.applyDefaults lookups).cores := by
  have hclosed := closed_of_ofDocuments hread
  refine ⟨fun name record hget => ?_, fun name record hget => ?_, ?_⟩
  · exact keeps_cache_resolved hclosed hdisjoint lookups hget
  · exact keeps_walker_resolved hclosed hdisjoint lookups hget
  · exact coreKept_resolved hclosed lookups

/-- Two cores with an instruction buffer of their own above a last-level cache with a clock of its
own, and with a mapping where a number is expected. -/
def writtenValues : List Document :=
  [[("num_cores", .ofNat 2),
    ("DIB", .object [("ways", .ofNat 4), ("banks", .ofNat 2)]),
    ("caches", .array [.object [("name", .string lastLevelName), ("frequency", .ofNat 1500),
      ("latency", .object [("cycles", .ofNat 9)])]])]]

open NormalizedConfiguration in
/-- The clock and the latency of the last-level cache stay, and the buffers of both cores begin with
the keys that are written. -/
theorem keeps_of_writtenValues :
    ∃ n, ofDocuments writtenValues = .ok n ∧ (∀ name ∈ n.caches, name ∉ n.walkers) ∧
      (∃ record, (n.applyDefaults .nothing).caches[lastLevelName]? = some record ∧
        record.get? "frequency" = some (.ofNat 1500) ∧
        record.get? "latency" = some (.object [("cycles", .ofNat 9)])) ∧
      (n.applyDefaults .nothing).cores.length = 2 ∧
      ∀ core ∈ (n.applyDefaults .nothing).cores, ∃ gained,
        core.get? "DIB" =
          some (.object ([("ways", .ofNat 4), ("banks", .ofNat 2)] ++ gained)) := by
  have hcomputed : ∃ n, ofDocuments writtenValues = .ok n ∧ n.hierarchy.Disjoint ∧
      lastLevelName ∈ (n.applyDefaults .nothing).caches ∧
      (n.caches[lastLevelName]?.getD []).get? "frequency" = some (.ofNat 1500) ∧
      (n.caches[lastLevelName]?.getD []).get? "latency" =
        some (.object [("cycles", .ofNat 9)]) ∧
      n.cores.length = 2 ∧
      ∀ core ∈ n.cores, core.get? "DIB" =
        some (.object [("ways", .ofNat 4), ("banks", .ofNat 2)]) := by
    simp -zeta only [applyDefaults_eq_sorting]
    decide +kernel
  obtain ⟨n, hread, hdisjoint, hmem, hfrequency, hlatency, hlength, hbuffers⟩ := hcomputed
  obtain ⟨hcaches, _, hcores⟩ := keeps_of_written hread .nothing hdisjoint
  obtain ⟨record, hget⟩ := NameMap.mem_iff_exists.mp hmem
  obtain ⟨written, hwritten, hkept⟩ := hcaches lastLevelName record hget
  rw [hwritten, Option.getD_some] at hfrequency hlatency
  refine ⟨n, hread, hdisjoint, ⟨record, hget, ?_, ?_⟩, ?_, fun core hcore => ?_⟩
  · exact hkept "frequency" (by decide) _ hfrequency
  · exact hkept "latency" (by decide) _ hlatency
  · rw [← hcores.length_eq, hlength]
  · obtain ⟨before, hbefore, hcore⟩ := exists_of_mem_right hcores hcore
    -- the buffer begins with what was written
    obtain ⟨gained, hgained, _⟩ := hcore.fields _ (hbuffers before hbefore)
    exact ⟨gained, hgained⟩

end MemoryHierarchy
