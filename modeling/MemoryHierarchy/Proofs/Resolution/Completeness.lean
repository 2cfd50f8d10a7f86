import MemoryHierarchy.Check.Topology
import MemoryHierarchy.Proofs.Resolution.Kept
import MemoryHierarchy.Proofs.Resolution.Level

/-!
# Records are complete

Templates are handed out by four passes: seeding completes what cores name on the first level, then
come the records below it, those below these, and at last everything that has a depth. A record that
is left is met by one of them, however it is linked: it is named on the first level, or it is
reached from there and has a depth (`hasAll_complete_cache`, `hasAll_complete_walker`).

What no template holds is written by later passes, to all records alike. So every record has all
attributes of its kind (`hasAll_resolved`), cycles or not. A next level is different: only links and
the template of a last-level cache have one, so a cache directly below the first level may have none
(`contains_lowerLevel_resolved`).
-/

namespace MemoryHierarchy

/-! ## Documents with some keys

A document with a key keeps it through merges and writes. What has to be shown is where a key comes
from. -/

namespace Document

variable {keys keys' : List String} {d before after : Document}

/-- A document has a value under each of some keys. -/
def HasAll (keys : List String) (d : Document) : Prop := ∀ key ∈ keys, d.contains key = true

instance (keys : List String) (d : Document) : Decidable (d.HasAll keys) :=
  inferInstanceAs (Decidable (∀ key ∈ keys, d.contains key = true))

theorem hasAll_singleton {key : String} : d.HasAll [key] ↔ d.contains key = true := by
  simp [HasAll]

namespace HasAll

theorem mono (h : d.HasAll keys) (hsub : keys' ⊆ keys) : d.HasAll keys' :=
  fun key hkey => h key (hsub hkey)

theorem append (h : d.HasAll keys) (h' : d.HasAll keys') : d.HasAll (keys ++ keys') := by
  intro key hkey
  rcases List.mem_append.mp hkey with hkey | hkey
  · exact h key hkey
  · exact h' key hkey

/-- A written key is there with those that were there before. -/
theorem set (h : d.HasAll keys) (key : String) (value : Json) :
    (d.set key value).HasAll (key :: keys) := by
  intro other hother
  rw [contains_iff, get?_set]
  by_cases hkey : key = other
  · exact ⟨value, if_pos hkey⟩
  · rw [if_neg hkey]
    exact contains_iff.mp (h other (List.mem_of_ne_of_mem (Ne.symm hkey) hother))

theorem of_agreesOff (h : before.HasAll keys) {off : List String}
    (hagrees : AgreesOff off before after) (hkeys : ∀ key ∈ keys, key ∉ off) :
    after.HasAll keys := by
  intro key hkey
  rw [contains_iff, hagrees key (hkeys key hkey)]
  exact contains_iff.mp (h key hkey)

/-- A merge has the keys of each document that goes into it. -/
theorem mergeAll {docs : List Document} (hmem : d ∈ docs) (h : d.HasAll keys) :
    (Document.mergeAll docs).HasAll keys := by
  intro key hkey
  rw [contains_mergeAll, List.any_eq_true]
  exact ⟨d, hmem, h key hkey⟩

theorem of_layered {allowed : Document → Prop} (h : before.HasAll keys)
    (hlayered : Layered allowed before after) : after.HasAll keys := by
  obtain ⟨layers, _, rfl⟩ := hlayered
  exact h.mergeAll List.mem_cons_self

end HasAll

end Document

open Document (HasAll)

/-! ## Templates

Which keys a template has is computed from the template, for each role once and for all. -/

/-- The attributes of a cache that every template holds and no later pass writes. -/
def templateKeys : List String :=
  sharedKeys ++ ["fill_latency", "prefetch_as_load", "wq_check_full_addr", "virtual_prefetch",
    "prefetch_activate"]

/-- The attributes of a cache that are written after the templates, whatever they hold. -/
def addressKeys : List String :=
  ["offset_bits", "needs_translate", "prefetcher", "replacement", "fill_level"]

/-- The numbers of sets and ways for each level of a walker. -/
def walkerLevelKeys : List String :=
  ["pscl5_set", "pscl5_way", "pscl4_set", "pscl4_way", "pscl3_set", "pscl3_way", "pscl2_set",
    "pscl2_way"]

theorem templateKeys_not_mem : ∀ key ∈ templateKeys, key ∉ lateKeys := by decide

theorem walkerKeys_not_mem_lateKeys : ∀ key ∈ walkerLevelKeys ++ walkerKeys, key ∉ lateKeys := by
  decide

theorem hasAll_firstLevel (template : Template.FirstLevel) :
    template.document.HasAll templateKeys :=
  of_decide_eq_true rfl

theorem hasAll_shared (role : Role) (n : Nat) :
    ((Template.shared role).document n).HasAll templateKeys := by
  cases role <;> exact of_decide_eq_true rfl

theorem hasAll_walker (n : Nat) : (Template.walker n).HasAll (walkerLevelKeys ++ walkerKeys) :=
  of_decide_eq_true rfl

theorem hasAll_core : Template.core.HasAll Template.coreAttributes := of_decide_eq_true rfl

/-! ## The completed hierarchy

A record that is left has a template: from seeding if a core names it on the first level, and else
from the request that gave it its role. Cyclic maps are no exception, as roles are given level by
level and every level is visited. -/

namespace Completion

variable {h : Hierarchy} {name : String} {record : Document}

/-- The links of a first-level slot come with a template. -/
theorem exists_firstLevel_of_slot {slot : Slot} (hslot : slot ∈ Slot.firstLevel) (core : Document) :
    ∃ links ∈ SlotLinks.all, links.slot = slot ∧
      ∃ template : Template.FirstLevel, template.document ∈ slotLayers core links := by
  have hall : ∀ slot ∈ Slot.firstLevel, ∃ links ∈ SlotLinks.all, links.slot = slot ∧
      ((Role.ofSlot? slot).bind Template.firstLevel?).isSome = true := by
    decide
  obtain ⟨links, hlinks, rfl, hsome⟩ := hall slot hslot
  obtain ⟨template, htemplate⟩ := Option.isSome_iff_exists.mp hsome
  refine ⟨links, hlinks, rfl, template, ?_⟩
  rw [slotLayers, htemplate]
  exact List.mem_cons_of_mem _ (List.mem_singleton.mpr rfl)

/-- Among the layers of a record that a core names on the first level are links and a template. -/
theorem exists_layers_of_root (hclosed : h.Closed) (hroot : name ∈ h.roots) :
    ∃ (core : Document) (links : SlotLinks) (template : Template.FirstLevel),
      links.document core ∈ cacheLayers h.cores name ∧
        template.document ∈ cacheLayers h.cores name := by
  obtain ⟨core, hcore, slot, hslot, hname⟩ := Hierarchy.mem_roots_iff.mp hroot
  obtain ⟨links, hlinks, rfl, template, hlayer⟩ := exists_firstLevel_of_slot hslot core
  have hnamed := (slotName_eq_iff hclosed hcore _).mpr hname
  refine ⟨core, links, template, ?_, ?_⟩
  · exact mem_cacheLayers_iff.mpr ⟨core, hcore, links, hlinks, hnamed, List.mem_cons_self⟩
  · exact mem_cacheLayers_iff.mpr ⟨core, hcore, links, hlinks, hnamed, hlayer⟩

/-- What seeding has put below a cache is there in the end. -/
theorem hasAll_complete_of_layer (hclosed : h.Closed) (hdisjoint : h.Disjoint)
    (hget : h.complete.caches[name]? = some record) {layer : Document}
    (hlayer : layer ∈ cacheLayers h.cores name) {keys : List String}
    (hkeys : layer.HasAll keys) : record.HasAll keys := by
  have hserved := served_finished hclosed hdisjoint
  rw [← prune_finished, Hierarchy.getElem?_prune_caches] at hget
  obtain ⟨_, hget⟩ := Option.ite_none_right_eq_some.mp hget
  obtain ⟨seeded, hseeded, hlayered⟩ :=
    (hserved.caches_layered ((seeding_seed hclosed).closed hclosed)).exists_before hget
  rw [(layeredBy_seed hclosed).caches, Option.map_eq_some_iff] at hseeded
  obtain ⟨original, _, rfl⟩ := hseeded
  exact (hkeys.mergeAll (List.mem_cons_of_mem _ hlayer)).of_layered hlayered

section

variable (hclosed : h.Closed) (hdisjoint : h.Disjoint) (hmemory : memorySentinel ∉ h.system)

include hclosed hdisjoint hmemory

/-- **A cache that is left holds a template**: that of its slot on the first level, and a shared one
below it. Whatever is left is reached from a core, and everything that is reached is asked for at
some depth. -/
theorem hasAll_complete_cache (hget : h.complete.caches[name]? = some record) :
    record.HasAll templateKeys := by
  -- on the first level the template comes from seeding, and below it from a request
  by_cases hroot : name ∈ h.roots
  · obtain ⟨_, _, template, _, hlayer⟩ := exists_layers_of_root hclosed hroot
    exact hasAll_complete_of_layer hclosed hdisjoint hget hlayer (hasAll_firstLevel template)
  · obtain ⟨_, seeded, _, _, _, rfl⟩ :=
      exists_of_complete_cache hclosed hdisjoint hmemory hget hroot
    exact (hasAll_shared _ _).mergeAll (List.mem_cons_of_mem _ List.mem_cons_self)

/-- The links of a slot have a next level, and so has the template of a last-level cache. -/
theorem contains_lowerLevel_complete (hget : h.complete.caches[name]? = some record)
    (hrole : roleBelow ((seed h).rolesAbove name) = .llc) :
    record.contains lowerLevel = true := by
  have hlast : ∀ n, ((Template.shared .llc).document n).HasAll [lowerLevel] :=
    fun n => of_decide_eq_true rfl
  rw [← Document.hasAll_singleton]
  by_cases hroot : name ∈ h.roots
  · obtain ⟨core, links, _, hlayer, _⟩ := exists_layers_of_root hclosed hroot
    exact hasAll_complete_of_layer hclosed hdisjoint hget hlayer (of_decide_eq_true rfl)
  · obtain ⟨_, seeded, _, _, _, rfl⟩ :=
      exists_of_complete_cache hclosed hdisjoint hmemory hget hroot
    rw [hrole]
    exact (hlast _).mergeAll (List.mem_cons_of_mem _ List.mem_cons_self)

/-- **A walker that is left holds a template.** Walkers have no roles, but every walker that is
reached is asked for as well. -/
theorem hasAll_complete_walker (hget : h.complete.walkers[name]? = some record) :
    record.HasAll (walkerLevelKeys ++ walkerKeys) := by
  obtain ⟨_, seeded, _, _, rfl⟩ := exists_of_complete_walker hclosed hdisjoint hmemory hget
  exact (hasAll_walker _).mergeAll (List.mem_cons_of_mem _ List.mem_cons_self)

end

end Completion

/-! ## Passes after completion

Some attributes are not in templates because they depend on other records. Each of these passes
writes its keys into every record that is left. -/

namespace Hierarchy

variable {h : Hierarchy} {levels : NameMap Nat} {bits : AddressBits} {catalog : ModuleCatalog}
  {name : String} {record : Document}

/-- A cache has had its addressing written, then its level. -/
theorem exists_of_cache_withAddresses
    (hget : (h.withAddresses levels bits).caches[name]? = some record) :
    ∃ size cache, record = withLevel levels name (withAddressing size cache) := by
  unfold withAddresses mapRecords mapCaches at hget
  rw [Std.ExtTreeMap.getElem?_map, Option.map_eq_some_iff, Std.ExtTreeMap.getElem?_map] at hget
  obtain ⟨_, haddressed, rfl⟩ := hget
  obtain ⟨cache, _, rfl⟩ := Option.map_eq_some_iff.mp haddressed
  exact ⟨_, cache, rfl⟩

/-- A cache has had the names of its modules written last. -/
theorem exists_of_cache_withModules (hget : (h.withModules catalog).caches[name]? = some record) :
    ∃ cache, h.caches[name]? = some cache ∧
      record = withModuleNames catalog.replacement (withModuleNames catalog.prefetcher cache) := by
  unfold withModules mapCores mapCaches at hget
  rw [Std.ExtTreeMap.getElem?_map, Option.map_eq_some_iff] at hget
  obtain ⟨cache, hcache, rfl⟩ := hget
  exact ⟨cache, hcache, rfl⟩

theorem hasAll_withAddressing (size : Nat) (cache : Document) :
    (withAddressing size cache).HasAll ["needs_translate", "offset_bits"] := by
  have hsize : (cache.setIfAbsent "offset_bits" (.ofNat size)).HasAll ["offset_bits"] := by
    rw [Document.hasAll_singleton]
    unfold Document.setIfAbsent
    split
    · next hpresent => exact hpresent
    · exact Document.contains_iff.mpr ⟨_, (Document.get?_set _ _ _ _).trans (if_pos rfl)⟩
  exact hsize.set _ _

theorem hasAll_withModuleNames {keys : List String} (hrecord : record.HasAll keys)
    (set : ModuleSet) : (withModuleNames set record).HasAll (set.kind.slot :: keys) :=
  hrecord.set _ _

end Hierarchy

namespace NormalizedConfiguration

open Hierarchy

variable {n : NormalizedConfiguration} {lookups : ModuleLookups} {name : String} {record : Document}

/-- What is left has a depth, which has been written into it. -/
theorem hasAll_fillLevel_resolved (hclosed : n.Closed)
    (hget : (n.applyDefaults lookups).caches[name]? = some record ∨
      (n.applyDefaults lookups).walkers[name]? = some record) : record.HasAll ["fill_level"] := by
  obtain ⟨level, hlevel⟩ := exists_level_resolved hclosed hget
  exact Document.hasAll_singleton.mpr
    (Document.contains_iff.mpr ⟨_, get?_fillLevel_resolved hget hlevel⟩)

/-- Whether a cache translates is written, and is a truth value. -/
theorem exists_translates_resolved (hget : (n.applyDefaults lookups).caches[name]? = some record) :
    ∃ b, record.get? "needs_translate" = some (.bool b) := by
  obtain ⟨_, hcompleted, rfl⟩ := exists_of_cache_withModules hget
  obtain ⟨size, cache, rfl⟩ := exists_of_cache_withAddresses hcompleted
  have hslots : ∀ kind : ModuleKind, kind.slot ≠ "needs_translate" := by
    intro kind
    cases kind <;> decide
  have hnames : ∀ (set : ModuleSet) (record : Document),
      (withModuleNames set record).get? "needs_translate" = record.get? "needs_translate" :=
    fun set record => (Document.get?_set _ _ _ _).trans (if_neg (hslots set.kind))
  have hlevel : ∀ levels record, (withLevel levels name record).get? "needs_translate" =
      record.get? "needs_translate" := fun levels record =>
    agreesOff_withLevel (List.mem_singleton.mpr rfl) levels name record _ (by decide)
  rw [hnames, hnames, hlevel, withAddressing, Document.get?_set, if_pos rfl]
  exact ⟨_, rfl⟩

/-- Every cache has its addressing, its modules and its depth. -/
theorem hasAll_addressKeys_resolved (hclosed : n.Closed)
    (hget : (n.applyDefaults lookups).caches[name]? = some record) :
    record.HasAll addressKeys := by
  have hlevel := hasAll_fillLevel_resolved hclosed (Or.inl hget)
  obtain ⟨_, hcompleted, rfl⟩ := exists_of_cache_withModules hget
  obtain ⟨size, cache, rfl⟩ := exists_of_cache_withAddresses hcompleted
  have hleveled : (withLevel n.hierarchy.complete.levels name (withAddressing size cache)).HasAll
      ["needs_translate", "offset_bits"] :=
    (hasAll_withAddressing size cache).of_agreesOff
      (agreesOff_withLevel (List.mem_singleton.mpr rfl) _ _ _) (by decide)
  have hmodules := hasAll_withModuleNames (hasAll_withModuleNames hleveled
    (n.completedHierarchy.resolveModules lookups .prefetcher).set)
    (n.completedHierarchy.resolveModules lookups .replacement).set
  rw [kind_resolveModules, kind_resolveModules] at hmodules
  exact (hmodules.append hlevel).mono (by decide)

end NormalizedConfiguration

/-! ## Complete configurations

The two lists together are the attributes that a document can leave out. -/

/-- The attributes of a cache that never have to be written. -/
def cacheAttributes : List String :=
  ["sets", "ways", "rq_size", "wq_size", "pq_size", "mshr_size", "latency", "fill_latency",
    "max_tag_check", "max_fill", "offset_bits", "prefetch_as_load", "wq_check_full_addr",
    "virtual_prefetch", "needs_translate", "prefetch_activate", "prefetcher", "replacement",
    "fill_level"]

/-- The attributes of a walker that never have to be written. -/
def walkerAttributes : List String :=
  ["pscl5_set", "pscl5_way", "pscl4_set", "pscl4_way", "pscl3_set", "pscl3_way", "pscl2_set",
    "pscl2_way", "rq_size", "mshr_size", "max_read", "max_write", "fill_level"]

namespace NormalizedConfiguration

variable {n : NormalizedConfiguration} {name : String} {record : Document}

theorem hasAll_cache_resolved (hclosed : n.Closed) (hdisjoint : n.hierarchy.Disjoint)
    (hmemory : memorySentinel ∉ n.hierarchy.system) (lookups : ModuleLookups)
    (hget : (n.applyDefaults lookups).caches[name]? = some record) :
    record.HasAll cacheAttributes := by
  obtain ⟨completed, hcompleted, hlate⟩ :=
    (n.agreesOff_resolved lookups).caches.exists_before hget
  have htemplate :=
    Completion.hasAll_complete_cache hclosed.hierarchy hdisjoint hmemory hcompleted
  exact ((htemplate.of_agreesOff hlate templateKeys_not_mem).append
    (hasAll_addressKeys_resolved hclosed hget)).mono (by decide)

theorem hasAll_walker_resolved (hclosed : n.Closed) (hdisjoint : n.hierarchy.Disjoint)
    (hmemory : memorySentinel ∉ n.hierarchy.system) (lookups : ModuleLookups)
    (hget : (n.applyDefaults lookups).walkers[name]? = some record) :
    record.HasAll walkerAttributes := by
  obtain ⟨completed, hcompleted, hlate⟩ :=
    (n.agreesOff_resolved lookups).walkers.exists_before hget
  have htemplate :=
    Completion.hasAll_complete_walker hclosed.hierarchy hdisjoint hmemory hcompleted
  exact ((htemplate.of_agreesOff hlate walkerKeys_not_mem_lateKeys).append
    (hasAll_fillLevel_resolved hclosed (Or.inr hget))).mono (by decide)

/-- **A cache has a next level**, unless it is directly below the first level. -/
theorem contains_lowerLevel_resolved (hclosed : n.Closed) (hdisjoint : n.hierarchy.Disjoint)
    (hmemory : memorySentinel ∉ n.hierarchy.system) (lookups : ModuleLookups)
    (hget : (n.applyDefaults lookups).caches[name]? = some record) :
    record.contains lowerLevel = true ∨ ∃ upper ∈ (n.applyDefaults lookups).hierarchy.roots,
      (n.applyDefaults lookups).hierarchy.system.target? lowerLevel upper = some name := by
  have hagrees := n.agreesOff_resolved lookups
  obtain ⟨completed, hcompleted, hlate⟩ := hagrees.caches.exists_before hget
  -- below nothing of the first level a cache has the template of a last-level cache, which links to
  -- the memory
  by_cases habove : (n.applyDefaults lookups).hierarchy.slotsAbove name = []
  · have hmem : name ∈ (n.applyDefaults lookups).hierarchy.system :=
      Hierarchy.mem_system_iff.mpr (Or.inr (NameMap.mem_iff_exists.mpr ⟨record, hget⟩))
    have hrole := Hierarchy.sharedRole_resolved hclosed.hierarchy hmemory hagrees hmem
    rw [Hierarchy.sharedRole, if_pos habove] at hrole
    have hlower := Completion.contains_lowerLevel_complete hclosed.hierarchy hdisjoint hmemory
      hcompleted hrole.symm
    rw [Document.contains_iff, ← hlate lowerLevel (by decide), ← Document.contains_iff] at hlower
    exact Or.inl hlower
  · obtain ⟨slot, hslot⟩ := List.exists_mem_of_ne_nil _ habove
    obtain ⟨upper, hop, hfirst⟩ := Hierarchy.mem_slotsAbove_iff.mp hslot
    have hroot : upper ∈ (n.applyDefaults lookups).hierarchy.roots :=
      Hierarchy.isSome_firstSlot?_iff.mp (by rw [hfirst]; rfl)
    exact Or.inr ⟨upper, hroot, hop⟩

/-- Cores have the attributes of their template, to which clocks and modules are written. -/
theorem hasAll_core_resolved (hclosed : n.Closed) (lookups : ModuleLookups) {core : Document}
    (hcore : core ∈ (n.applyDefaults lookups).cores) :
    core.HasAll Template.coreAttributes := by
  -- templates first, then clocks, then modules, and nothing is taken away
  have hcores : (n.applyDefaults lookups).cores =
      (n.hierarchy.complete.cores.map (withClockScale n.referenceClock)).map fun record =>
        Hierarchy.withModuleNames (n.completedHierarchy.resolveModules lookups .btb).set
          (Hierarchy.withModuleNames (n.completedHierarchy.resolveModules lookups .branch).set
            record) := rfl
  rw [hcores, Completion.cores_complete hclosed.hierarchy, List.mem_map] at hcore
  obtain ⟨_, hclocked, rfl⟩ := hcore
  obtain ⟨_, hmerged, rfl⟩ := List.mem_map.mp hclocked
  obtain ⟨written, _, rfl⟩ := List.mem_map.mp hmerged
  have htemplate : (Document.mergeAll [written, Template.core]).HasAll Template.coreAttributes :=
    hasAll_core.mergeAll (List.mem_cons_of_mem _ List.mem_cons_self)
  have hclock := htemplate.of_agreesOff
    (agreesOff_withClockScale (List.mem_singleton.mpr rfl) n.referenceClock _) (by decide)
  exact (Hierarchy.hasAll_withModuleNames (Hierarchy.hasAll_withModuleNames hclock _) _).mono
    fun _ hkey => List.mem_cons_of_mem _ (List.mem_cons_of_mem _ hkey)

end NormalizedConfiguration

open NormalizedConfiguration in
/-- **What is left is complete.** When no record goes by the name of the memory, and no name is that
of a cache and of a walker, every cache, walker and core that defaults leave has all attributes of
its kind, whatever was written and however the records are linked. -/
theorem hasAll_resolved {docs : List Document} {n : NormalizedConfiguration}
    (hread : ofDocuments docs = .ok n) (lookups : ModuleLookups)
    (hmemory : memorySentinel ∉ n.caches ∧ memorySentinel ∉ n.walkers)
    (hdisjoint : ∀ name ∈ n.caches, name ∉ n.walkers) :
    (∀ (name : String) (record : Document),
      (n.applyDefaults lookups).caches[name]? = some record → record.HasAll cacheAttributes) ∧
    (∀ (name : String) (record : Document),
      (n.applyDefaults lookups).walkers[name]? = some record → record.HasAll walkerAttributes) ∧
    ∀ core ∈ (n.applyDefaults lookups).cores, core.HasAll Template.coreAttributes := by
  have hclosed := closed_of_ofDocuments hread
  have hsystem : memorySentinel ∉ n.hierarchy.system := by
    rw [Hierarchy.mem_system_iff]
    exact fun hmem => hmem.elim hmemory.2 hmemory.1
  refine ⟨fun name record hget => ?_, fun name record hget => ?_, fun core hcore => ?_⟩
  · exact hasAll_cache_resolved hclosed hdisjoint hsystem lookups hget
  · exact hasAll_walker_resolved hclosed hdisjoint hsystem lookups hget
  · exact hasAll_core_resolved hclosed lookups hcore

/-- One core whose last-level cache links back to the second-level cache above it. Completion has to
end and to fill in all attributes in spite of the cycle. -/
def loopedLevels : List Document :=
  [[("caches", .array [.object [("name", .string lastLevelName),
    (lowerLevel, .string "cpu0_L2C")]])]]

open NormalizedConfiguration in
/-- The caches on the loop are as complete as those above it. -/
theorem hasAll_loopedLevels :
    ∃ n, ofDocuments loopedLevels = .ok n ∧
      (memorySentinel ∉ n.caches ∧ memorySentinel ∉ n.walkers) ∧
      (∀ name ∈ n.caches, name ∉ n.walkers) ∧
      Hierarchy.loops (n.applyDefaults .nothing).hierarchy.system =
        [["LLC", "cpu0_L2C", "LLC"]] ∧
      ((n.applyDefaults .nothing).caches.size = 7 ∧ (n.applyDefaults .nothing).walkers.size = 1) ∧
      (∀ (name : String) (record : Document),
        (n.applyDefaults .nothing).caches[name]? = some record → record.HasAll cacheAttributes) ∧
      (∀ (name : String) (record : Document),
        (n.applyDefaults .nothing).walkers[name]? = some record →
          record.HasAll walkerAttributes) ∧
      ∀ core ∈ (n.applyDefaults .nothing).cores, core.HasAll Template.coreAttributes := by
  have hcomputed : ∃ n, ofDocuments loopedLevels = .ok n ∧
      (memorySentinel ∉ n.caches ∧ memorySentinel ∉ n.walkers) ∧ n.hierarchy.Disjoint ∧
      Hierarchy.loops (n.applyDefaults .nothing).hierarchy.system =
        [["LLC", "cpu0_L2C", "LLC"]] ∧
      (n.applyDefaults .nothing).caches.size = 7 ∧
        (n.applyDefaults .nothing).walkers.size = 1 := by
    simp -zeta only [applyDefaults_eq_sorting]
    decide +kernel
  obtain ⟨n, hread, hmemory, hdisjoint, hloops, hsizes⟩ := hcomputed
  exact ⟨n, hread, hmemory, hdisjoint, hloops, hsizes,
    hasAll_resolved hread .nothing hmemory hdisjoint⟩

end MemoryHierarchy
