import MemoryHierarchy.Proofs.Check.Attribute
import MemoryHierarchy.Proofs.Resolution.Completeness
import MemoryHierarchy.Proofs.Resolution.Layer

/-!
# Slots of modules are never reported

The values in the slots of modules have to be lists of strings, and the checks ask for that. But the
checks come last, and by then each slot has been rewritten: what it holds is the list of the modules
that were found for the names in it, where a value that is no name is passed over. So a slot passes
whatever is written there, and nothing is ever said of it (`attribute_ne_slot_of_mem_diagnostics`).
-/

namespace MemoryHierarchy

open Document (Keeps)

/-! ## Rewritten slots

When modules have been looked up, each slot that is there is overwritten with the names that were
found for it. A core and a cache have two slots each, and writing the second one must not disturb
the first. -/

theorem ModuleKind.slot_injective {kind kind' : ModuleKind} (hslot : kind.slot = kind'.slot) :
    kind = kind' := by
  cases kind <;> cases kind' <;> first | rfl | exact absurd hslot (by decide)

namespace Hierarchy

/-- A slot that is rewritten holds the modules that were found for its names. -/
theorem get?_withModuleNames {set : ModuleSet} {kind : ModuleKind} (hset : set.kind = kind)
    (record : Document) : (withModuleNames set record).get? kind.slot =
      some (.ofStrings (set.enabledFor (record.names kind.slot))) := by
  subst hset
  exact (Document.get?_set _ _ _ _).trans (if_pos rfl)

theorem get?_withModuleNames_of_ne {set : ModuleSet} {kind : ModuleKind} (hne : set.kind ≠ kind)
    (record : Document) : (withModuleNames set record).get? kind.slot = record.get? kind.slot :=
  (Document.get?_set _ _ _ _).trans (if_neg fun hslot => hne (ModuleKind.slot_injective hslot))

end Hierarchy

/-- The slots of a record hold the modules that were found for the names in the slots of another
one. What had been there is gone, names or not. -/
def SlotsFrom (catalog : ModuleCatalog) (host : Host) (before record : Document) : Prop :=
  ∀ kind ∈ host.kinds, record.get? kind.slot =
    some (.ofStrings ((catalog.get kind).enabledFor (before.names kind.slot)))

/-- The two slots of a record are rewritten one after the other, and the first one does not change
the names in the second one. -/
theorem slotsFrom_withModuleNames {catalog : ModuleCatalog}
    (hkinds : ∀ kind, (catalog.get kind).kind = kind) {host : Host} {first second : ModuleKind}
    (hhost : host.kinds = [first, second]) (hne : first ≠ second) (before : Document) :
    SlotsFrom catalog host before (Hierarchy.withModuleNames (catalog.get second)
      (Hierarchy.withModuleNames (catalog.get first) before)) := by
  intro kind hkind
  simp only [hhost, List.mem_cons, List.not_mem_nil, or_false] at hkind
  -- the slot that is written first is not touched by the second, and the second one sees what was
  -- there before
  rcases hkind with rfl | rfl
  · have hother : (catalog.get second).kind ≠ kind := by
      rw [hkinds]
      exact hne.symm
    rw [Hierarchy.get?_withModuleNames_of_ne hother,
      Hierarchy.get?_withModuleNames (hkinds kind)]
  · have hother : (catalog.get first).kind ≠ kind := by
      rw [hkinds]
      exact hne
    rw [Hierarchy.get?_withModuleNames (hkinds kind), Document.names, Document.names,
      Hierarchy.get?_withModuleNames_of_ne hother]

/-- The slots of a record hold the modules that were found for the names that are written there.
Values that are no names are not among them and leave no trace. -/
def SlotsWritten (catalog : ModuleCatalog) (host : Host) (written record : Document) : Prop :=
  ∀ kind ∈ host.kinds, ∀ value, written.get? kind.slot = some value →
    record.get? kind.slot = some (.ofStrings ((catalog.get kind).enabledFor value.names))

theorem SlotsFrom.written {catalog : ModuleCatalog} {host : Host} {written before record : Document}
    (h : SlotsFrom catalog host before record)
    (hkept : ∀ kind ∈ host.kinds, ∀ value, written.get? kind.slot = some value →
      before.get? kind.slot = some value) : SlotsWritten catalog host written record := by
  intro kind hkind value hvalue
  rw [h kind hkind, Document.names, hkept kind hkind value hvalue]

namespace NormalizedConfiguration

open Hierarchy

variable {n : NormalizedConfiguration} {lookups : ModuleLookups} {name : String}
  {record core : Document}

/-- The sets of the modules that were found are those of their categories. -/
theorem kind_modules_resolved (n : NormalizedConfiguration) (lookups : ModuleLookups)
    (kind : ModuleKind) : ((n.applyDefaults lookups).modules.get kind).kind = kind := by
  have hkind := kind_resolveModules n.completedHierarchy lookups kind
  cases kind <;> exact hkind

theorem slotsFrom_cache (hget : (n.applyDefaults lookups).caches[name]? = some record) :
    ∃ before, n.completedHierarchy.caches[name]? = some before ∧
      SlotsFrom (n.applyDefaults lookups).modules .cache before record := by
  obtain ⟨before, hbefore, rfl⟩ := exists_of_cache_withModules hget
  have hne : ModuleKind.prefetcher ≠ .replacement := by decide
  exact ⟨before, hbefore,
    slotsFrom_withModuleNames (n.kind_modules_resolved lookups) rfl hne before⟩

theorem slotsFrom_core (n : NormalizedConfiguration) (lookups : ModuleLookups)
    (before : Document) :
    let modules := (n.applyDefaults lookups).modules
    SlotsFrom modules .core before
      (withModuleNames (modules.get .btb) (withModuleNames (modules.get .branch) before)) := by
  have hne : ModuleKind.branch ≠ .btb := by decide
  exact slotsFrom_withModuleNames (n.kind_modules_resolved lookups) rfl hne before

/-! ## What is written in slots

Between the documents and the lookup, templates fill a slot that is left out, and nothing else is
written there. -/

/-- The keys that are written after completion and before modules are looked up. None of them is a
module slot, so the names in the slots come from the completed record. -/
def passKeys : List String :=
  ["hit_latency", "frequency", "clock_scale", "cpu", "offset_bits", "needs_translate", "fill_level"]

theorem slot_not_mem_passKeys (kind : ModuleKind) : kind.slot ∉ passKeys := by
  cases kind <;> decide

theorem agreesOff_completed (n : NormalizedConfiguration) :
    Hierarchy.AgreesOff passKeys n.hierarchy.complete n.completedHierarchy :=
  ((agreesOff_mapCaches (fun _ => agreesOff_withHitLatency (by decide)) _).trans
    (agreesOff_withClocks (by decide) (by decide) _ _ _)).trans
    (agreesOff_withAddresses (by decide) (by decide) (by decide) (by decide) _ _ _)

theorem slotsWritten_cache (hclosed : n.Closed)
    (hget : (n.applyDefaults lookups).caches[name]? = some record) :
    ∃ written, n.caches[name]? = some written ∧
      SlotsWritten (n.applyDefaults lookups).modules .cache written record := by
  obtain ⟨before, hbefore, hslots⟩ := slotsFrom_cache hget
  obtain ⟨completed, hcompleted, hagrees⟩ := n.agreesOff_completed.caches.exists_before hbefore
  obtain ⟨written, hwritten, hkept⟩ := keeps_complete_cache hclosed hcompleted
  refine ⟨written, hwritten, hslots.written fun kind _ value hvalue => ?_⟩
  have hslot : kind.slot ∉ ["prefetch_activate"] := by cases kind <;> decide
  rw [hagrees _ (slot_not_mem_passKeys kind)]
  exact hkept _ hslot value hvalue

theorem slotsWritten_cores (hclosed : n.Closed) (lookups : ModuleLookups) :
    List.Forall₂ (SlotsWritten (n.applyDefaults lookups).modules .core) n.cores
      (n.applyDefaults lookups).cores := by
  have hlate := n.agreesOff_completed.cores
  rw [Completion.cores_complete hclosed.hierarchy, NormalizedConfiguration.hierarchy,
    List.forall₂_map_left_iff] at hlate
  have hboth := (List.forall₂_and_left _ _).mpr ⟨hclosed.cores_distinct, hlate⟩
  refine List.forall₂_map_right_iff.mpr (hboth.imp ?_)
  rintro written before ⟨hdistinct, hagrees⟩
  refine (n.slotsFrom_core lookups before).written fun kind _ value hvalue => ?_
  have hslot : kind.slot ∉ ["DIB"] := by cases kind <;> decide
  rw [hagrees _ (slot_not_mem_passKeys kind), Document.mergeAll_pair hdistinct Template.core]
  exact Keeps.mergeWith scalarOff_core _ hslot value hvalue

/-! ## The report

The checks come after the slots have been overwritten. So they see lists of names, and a value that
was no name has been dropped before anything could be said of it. -/

/-- A slot of modules is checked in records of its host only, and to be a list of strings. -/
theorem predicates_of_slot {kind : RecordKind} {slot : ModuleKind} {check : AttributeCheck}
    (hcheck : check ∈ AttributeCheck.ofKind kind) (hpath : check.path = slot.slot) :
    check.predicates = [.strings] ∧
      (kind = .core ∧ slot ∈ Host.core.kinds ∨ kind = .cache ∧ slot ∈ Host.cache.kinds) := by
  have hall : ∀ kind ∈ [RecordKind.core, .cache, .walker], ∀ check ∈ AttributeCheck.ofKind kind,
      ∀ slot ∈ ModuleKind.all, check.path = slot.slot → check.predicates = [.strings] ∧
        (kind = .core ∧ slot ∈ Host.core.kinds ∨ kind = .cache ∧ slot ∈ Host.cache.kinds) := by
    decide
  have hkind : kind ∈ [RecordKind.core, .cache, .walker] := by cases kind <;> decide
  exact hall kind hkind check hcheck slot slot.mem_all hpath

theorem strings_holds_ofStrings (names : List String) :
    Predicate.strings.holds (.ofStrings names) = true := by
  refine List.all_eq_true.mpr fun item hitem => ?_
  obtain ⟨name, _, rfl⟩ := List.mem_map.mp hitem
  rfl

/-- Every slot of a record that is checked has been rewritten: it holds the modules that some names
stand for. -/
theorem exists_slot_eq_enabledFor (n : NormalizedConfiguration) (lookups : ModuleLookups)
    {slot : ModuleKind} {kind : RecordKind}
    (hhost : kind = .core ∧ slot ∈ Host.core.kinds ∨ kind = .cache ∧ slot ∈ Host.cache.kinds)
    (hrecord : record ∈ (n.applyDefaults lookups).hierarchy.recordsOf kind) :
    ∃ requested, record.get? slot.slot =
      some (.ofStrings (((n.applyDefaults lookups).modules.get slot).enabledFor requested)) := by
  rcases hhost with ⟨rfl, hslot⟩ | ⟨rfl, hslot⟩
  · obtain ⟨before, _, rfl⟩ := List.mem_map.mp hrecord
    exact ⟨_, n.slotsFrom_core lookups before slot hslot⟩
  · obtain ⟨name, hget⟩ := NameMap.mem_values_iff.mp hrecord
    obtain ⟨_, _, hslots⟩ := slotsFrom_cache hget
    exact ⟨_, hslots slot hslot⟩

/-- **Nothing that is written in a slot of modules is reported.** No diagnostic is about a slot,
whatever it is written with: a slot that is written is resolved as the list of the modules that were
found for the names in its value, which is empty for a value without names. -/
theorem attribute_ne_slot_of_mem_diagnostics {docs : List Document} {n : NormalizedConfiguration}
    (hread : ofDocuments docs = .ok n) (options : Options) (lookups : ModuleLookups) :
    let r := (n.resolve options lookups).configuration
    (∀ slot : ModuleKind, ∀ d ∈ r.diagnostics, d.attribute? ≠ some slot.slot) ∧
    (∀ (name : String) (record : Document), r.caches[name]? = some record →
      ∃ written, n.caches[name]? = some written ∧
        SlotsWritten r.modules .cache written record) ∧
    List.Forall₂ (SlotsWritten r.modules .core) n.cores r.cores := by
  have hclosed := closed_of_ofDocuments hread
  refine ⟨fun slot => ?_, fun name record hget => slotsWritten_cache hclosed hget,
    slotsWritten_cores hclosed lookups⟩
  have hlinks : slot.slot ∉ linkAttributes := by cases slot <;> decide
  have hkey : ∀ record : Document, record.at? slot.slot = record.get? slot.slot :=
    Document.at?_of_key (by cases slot <;> decide)
  -- the one check of a slot asks for strings, and strings are what it now holds
  refine ResolvedConfiguration.attribute_ne_of_mem_diagnostics hlinks ?_
  intro kind record hrecord check hcheck hpath value hvalue predicate hpredicate
  obtain ⟨hpredicates, hhost⟩ := predicates_of_slot hcheck hpath
  obtain ⟨_, hnames⟩ := exists_slot_eq_enabledFor n lookups hhost hrecord
  rw [hpredicates, List.mem_singleton] at hpredicate
  rw [hkey, hnames] at hvalue
  obtain rfl := Option.some.inj hvalue
  rw [hpredicate]
  exact strings_holds_ofStrings _

/-- A prefetcher beside a value that is no name, and a number for a branch predictor. The number is
replaced by an empty list of modules, which no check minds. -/
def strayValues : List Document :=
  [[("ooo_cpu", .array [.object [("branch_predictor", .ofNat 7)]]),
    ("caches", .array [.object [("name", .string lastLevelName),
      ("prefetcher", .array [.ofNat 7, .string "stride"])]])]]

theorem attribute_ne_slot_of_strayValues :
    let lookups : ModuleLookups := ⟨fun _ => threePrefetchers, false⟩
    ∃ n record core, ofDocuments strayValues = .ok n ∧
      (n.applyDefaults lookups).caches[lastLevelName]? = some record ∧
      record.get? "prefetcher" = some (.ofStrings ["prefetcherDstride"]) ∧
      (n.applyDefaults lookups).cores = [core] ∧
      core.get? "branch_predictor" = some (.ofStrings []) ∧
      ∀ d ∈ (n.applyDefaults lookups).diagnostics,
        d.attribute? ≠ some "prefetcher" ∧ d.attribute? ≠ some "branch_predictor" := by
  intro lookups
  have hcomputed : ∃ n, ofDocuments strayValues = .ok n ∧
      lastLevelName ∈ (n.applyDefaults lookups).caches ∧
      (n.caches[lastLevelName]?.getD []).get? "prefetcher" =
        some (.array [.ofNat 7, .string "stride"]) ∧
      n.cores.map (·.get? "branch_predictor") = [some (.ofNat 7)] ∧
      (n.applyDefaults lookups).modules.prefetcher.enabledFor ["stride"] =
        ["prefetcherDstride"] := by
    simp -zeta only [applyDefaults_eq_sorting]
    decide +kernel
  obtain ⟨n, hread, hcache, hprefetcher, hpredictor, henabled⟩ := hcomputed
  obtain ⟨hnever, hcaches, hcores⟩ := attribute_ne_slot_of_mem_diagnostics hread {} lookups
  obtain ⟨record, hrecord⟩ := NameMap.mem_iff_exists.mp hcache
  obtain ⟨written, hwritten, hslots⟩ := hcaches lastLevelName record hrecord
  rw [hwritten, Option.getD_some] at hprefetcher
  obtain ⟨writtenCore, hcore, hnumber⟩ := List.map_eq_singleton_iff.mp hpredictor
  rw [hcore] at hcores
  obtain ⟨core, _, hslot, hrest, heq⟩ := List.forall₂_cons_left_iff.mp hcores
  rw [List.forall₂_nil_left_iff.mp hrest] at heq
  have hvalue := hslots .prefetcher (by decide) _ hprefetcher
  have hnames : (Json.array [.ofNat 7, .string "stride"]).names = ["stride"] := rfl
  rw [hnames] at hvalue
  refine ⟨n, record, core, hread, hrecord, hvalue.trans ?_, heq,
    hslot .branch (by decide) _ hnumber, fun d hd =>
      ⟨hnever .prefetcher d hd, hnever .branch d hd⟩⟩
  exact congrArg (fun names => some (Json.ofStrings names)) henabled

/-- A last-level cache with a number for a prefetcher. -/
def numberedPrefetcher : List Document :=
  [[("caches", .array [.object [("name", .string lastLevelName), ("prefetcher", .ofNat 7)]])]]

/-- A value that is neither a name nor a list of names is dropped without a word. -/
theorem diagnostics_of_numberedPrefetcher :
    ∃ n written value, ofDocuments numberedPrefetcher = .ok n ∧
      n.caches[lastLevelName]? = some written ∧ written.get? "prefetcher" = some value ∧
      value.string? = none ∧ Predicate.strings.holds value = false ∧
      lastLevelName ∈ (n.applyDefaults .nothing).caches ∧
      (n.applyDefaults .nothing).diagnostics = [] := by
  have hcomputed : ∃ n, ofDocuments numberedPrefetcher = .ok n ∧ lastLevelName ∈ n.caches ∧
      (n.caches[lastLevelName]?.getD []).get? "prefetcher" = some (.ofNat 7) ∧
      lastLevelName ∈ (n.applyDefaults .nothing).caches ∧
      (n.applyDefaults .nothing).diagnostics = [] := by
    simp -zeta only [applyDefaults_eq_sorting]
    decide +kernel
  obtain ⟨n, hread, hmem, hnumber, hsurvives, hclean⟩ := hcomputed
  obtain ⟨written, hwritten⟩ := NameMap.mem_iff_exists.mp hmem
  rw [hwritten, Option.getD_some] at hnumber
  exact ⟨n, written, _, hread, hwritten, hnumber, rfl, rfl, hsurvives, hclean⟩

end NormalizedConfiguration

end MemoryHierarchy
