import MemoryHierarchy.Configuration.Resolved
import MemoryHierarchy.Proofs.Hierarchy

/-!
# What the passes after completion leave alone

Once its records are complete, a hierarchy is given latencies, clocks, owners, addresses, levels and
modules. All of this is written under a few keys, `lateKeys`; no slot, link or name is among them,
so roots, links and what can be reached are settled by then (`agreesOff_resolved`).

The level of a record is written after everything that reads records, and only modules come later.
-/

namespace MemoryHierarchy

/-- The keys that are written after the records have been completed. Outside them a resolved record
is a completed one, so links and templates can be studied on the completion. -/
def lateKeys : List String :=
  ["hit_latency", "frequency", "clock_scale", "cpu", "offset_bits", "needs_translate", "fill_level",
    "prefetcher", "replacement", "branch_predictor", "btb"]

theorem slot_mem_lateKeys (kind : ModuleKind) : kind.slot ∈ lateKeys := by
  cases kind <;> decide

/-! ## Records

For each pass there is the list of keys that it writes. Outside of them a record is the same. -/

open Document (AgreesOff)

variable {keys : List String}

theorem agreesOff_withHitLatency (hkey : "hit_latency" ∈ keys) (cache : Document) :
    AgreesOff keys cache (withHitLatency cache) := by
  unfold withHitLatency
  split
  · exact .refl _ _
  · split
    · exact .set hkey _ _
    · exact .refl _ _

theorem agreesOff_withClockScale (hkey : "clock_scale" ∈ keys) (reference : Float)
    (record : Document) : AgreesOff keys record (withClockScale reference record) := by
  unfold withClockScale
  split
  · split
    · exact .set hkey _ _
    · exact .refl _ _
  · exact .refl _ _

theorem agreesOff_withAddressing (hoffset : "offset_bits" ∈ keys)
    (htranslate : "needs_translate" ∈ keys) (bits : Nat) (cache : Document) :
    AgreesOff keys cache (withAddressing bits cache) :=
  (AgreesOff.setIfAbsent hoffset _ _).trans (.set htranslate _ _)

theorem agreesOff_withLevel (hkey : "fill_level" ∈ keys) (levels : NameMap Nat) (name : String)
    (record : Document) : AgreesOff keys record (withLevel levels name record) := by
  unfold withLevel
  split
  · exact .set hkey _ _
  · exact .refl _ _

theorem agreesOff_withModuleNames {set : ModuleSet} (hkey : set.kind.slot ∈ keys)
    (record : Document) : AgreesOff keys record (Hierarchy.withModuleNames set record) :=
  .set hkey _ _

/-! ## Walkers and their owners

Owners are written while walks are followed, so here the frame is that of a fold. -/

namespace TranslationWalks

section

variable {R : Document → Document → Prop} (hrefl : ∀ record, R record record)
  (htrans : ∀ a b c, R a b → R b c → R a c)
  (howner : ∀ record cpu, R record (record.setIfAbsent "cpu" cpu))

include hrefl howner

theorem pointwise_claim (core : Document) (walkers : RecordMap) (path : List Document) :
    NameMap.Pointwise (fun _ => R) walkers (claim core walkers path) := by
  have hkept : NameMap.Pointwise (fun _ => R) walkers walkers :=
    .refl fun _ record _ => hrefl record
  unfold claim
  split
  · exact hkept
  · split
    · exact NameMap.pointwise_modify (fun record _ => howner record _)
        fun _ record _ => hrefl record
    · exact hkept

theorem pointwise_follow (system : RecordMap) (core : Document) (t : TranslationWalks)
    (slot : Slot) :
    NameMap.Pointwise (fun _ => R) t.walkers (follow system core t slot).walkers := by
  unfold follow
  split
  · exact .refl fun _ record _ => hrefl record
  · exact pointwise_claim hrefl howner _ _ _

omit howner

include htrans

theorem pointwise_foldl {α : Type} {step : TranslationWalks → α → TranslationWalks}
    (hstep : ∀ t item, NameMap.Pointwise (fun _ => R) t.walkers (step t item).walkers)
    (items : List α) (t : TranslationWalks) :
    NameMap.Pointwise (fun _ => R) t.walkers (items.foldl step t).walkers := by
  induction items generalizing t with
  | nil => exact .refl fun _ record _ => hrefl record
  | cons item items ih => exact (hstep t item).trans (ih _) fun _ => htrans

include howner

/-- Following walks writes nothing but owners, where there are none. -/
theorem pointwise_ofHierarchy (h : Hierarchy) :
    NameMap.Pointwise (fun _ => R) h.walkers (ofHierarchy h).walkers := by
  unfold ofHierarchy
  refine pointwise_foldl hrefl htrans (fun t core => ?_) h.cores ⟨∅, h.walkers⟩
  exact pointwise_foldl hrefl htrans
    (fun t slot => pointwise_follow hrefl howner h.system core t slot) Slot.translation t

end

end TranslationWalks

/-! ## Hierarchies

The frame of a pass over a hierarchy is the frame of what it does to each record. Names, links and
slots are outside of all frames, which is why passes do not disturb each other. -/

namespace Hierarchy

theorem AgreesOff.refl (keys : List String) (h : Hierarchy) : AgreesOff keys h h where
  cores := List.forall₂_same.mpr fun _ _ => .refl _ _
  caches := .refl fun _ _ _ => .refl _ _
  walkers := .refl fun _ _ _ => .refl _ _

theorem agreesOff_mapCaches {f : String → Document → Document}
    (hf : ∀ name record, Document.AgreesOff keys record (f name record)) (h : Hierarchy) :
    AgreesOff keys h (h.mapCaches f) :=
  { AgreesOff.refl keys h with caches := NameMap.pointwise_map hf _ }

theorem agreesOff_mapRecords {f : String → Document → Document}
    (hf : ∀ name record, Document.AgreesOff keys record (f name record)) (h : Hierarchy) :
    AgreesOff keys h (h.mapRecords f) :=
  { AgreesOff.refl keys h with
    caches := NameMap.pointwise_map hf _
    walkers := NameMap.pointwise_map hf _ }

theorem agreesOff_mapCores {f : Document → Document}
    (hf : ∀ core, Document.AgreesOff keys core (f core)) (h : Hierarchy) :
    AgreesOff keys h (h.mapCores f) :=
  { AgreesOff.refl keys h with
    cores := List.forall₂_map_right_iff.mpr (List.forall₂_same.mpr fun core _ => hf core) }

theorem agreesOff_withClocks (hfrequency : "frequency" ∈ keys) (hscale : "clock_scale" ∈ keys)
    (h : Hierarchy) (levels : NameMap Nat) (reference : Float) :
    AgreesOff keys h (h.withClocks levels reference) := by
  unfold withClocks
  refine (agreesOff_mapRecords (fun name record => ?_) h).trans
    (agreesOff_mapCores (agreesOff_withClockScale hscale reference) _)
  refine Document.AgreesOff.trans ?_ (agreesOff_withClockScale hscale reference _)
  split
  · exact .set hfrequency _ _
  · exact .refl _ _

theorem agreesOff_withAddresses (howner : "cpu" ∈ keys) (hoffset : "offset_bits" ∈ keys)
    (htranslate : "needs_translate" ∈ keys) (hlevel : "fill_level" ∈ keys) (h : Hierarchy)
    (levels : NameMap Nat) (bits : AddressBits) :
    AgreesOff keys h (h.withAddresses levels bits) := by
  have howners : AgreesOff keys h
      { h with walkers := (TranslationWalks.ofHierarchy h).walkers } :=
    { AgreesOff.refl keys h with
      walkers := TranslationWalks.pointwise_ofHierarchy (.refl keys) (fun _ _ _ => .trans)
        (fun _ _ => .setIfAbsent howner _ _) h }
  unfold withAddresses
  -- owners, then addresses, then levels
  refine (howners.trans (agreesOff_mapCaches (fun name cache => ?_) _)).trans
    (agreesOff_mapRecords (agreesOff_withLevel hlevel levels) _)
  exact agreesOff_withAddressing hoffset htranslate _ cache

theorem agreesOff_withModules (hslots : ∀ kind : ModuleKind, kind.slot ∈ keys) (h : Hierarchy)
    (catalog : ModuleCatalog) : AgreesOff keys h (h.withModules catalog) := by
  unfold withModules
  refine (agreesOff_mapCores (fun core => ?_) h).trans (agreesOff_mapCaches (fun _ cache => ?_) _)
  · exact (agreesOff_withModuleNames (hslots _) core).trans
      (agreesOff_withModuleNames (hslots _) _)
  · exact (agreesOff_withModuleNames (hslots _) cache).trans
      (agreesOff_withModuleNames (hslots _) _)

/-! ## Levels

A level is a depth, and it is written into the record with its addressing. No later pass writes it
again, so it can be read off the result. -/

variable {h : Hierarchy} {levels : NameMap Nat} {name : String} {record : Document} {level : Nat}

theorem get?_withLevel (hlevel : levels[name]? = some level) (record : Document) :
    (withLevel levels name record).get? "fill_level" = some (.ofNat level) := by
  rw [withLevel, hlevel]
  exact (Document.get?_set _ _ _ _).trans (if_pos rfl)

theorem get?_fillLevel_withAddresses {bits : AddressBits}
    (hget : (h.withAddresses levels bits).caches[name]? = some record ∨
      (h.withAddresses levels bits).walkers[name]? = some record)
    (hlevel : levels[name]? = some level) : record.get? "fill_level" = some (.ofNat level) := by
  unfold withAddresses mapRecords at hget
  rw [Std.ExtTreeMap.getElem?_map, Std.ExtTreeMap.getElem?_map, Option.map_eq_some_iff,
    Option.map_eq_some_iff] at hget
  rcases hget with ⟨before, _, rfl⟩ | ⟨before, _, rfl⟩
  · exact get?_withLevel hlevel before
  · exact get?_withLevel hlevel before

theorem get?_fillLevel_withModuleNames (set : ModuleSet) (record : Document) :
    (withModuleNames set record).get? "fill_level" = record.get? "fill_level" := by
  have hslot : set.kind.slot ≠ "fill_level" := by
    cases set.kind <;> decide
  exact (Document.get?_set _ _ _ _).trans (if_neg hslot)

theorem get?_fillLevel_withModules {catalog : ModuleCatalog}
    (hlevel : ∀ record, h.caches[name]? = some record ∨ h.walkers[name]? = some record →
      record.get? "fill_level" = some (.ofNat level))
    (hget : (h.withModules catalog).caches[name]? = some record ∨
      (h.withModules catalog).walkers[name]? = some record) :
    record.get? "fill_level" = some (.ofNat level) := by
  unfold withModules mapCaches mapCores at hget
  rw [Std.ExtTreeMap.getElem?_map, Option.map_eq_some_iff] at hget
  -- modules are written to caches only
  rcases hget with ⟨before, hbefore, rfl⟩ | hget
  · rw [get?_fillLevel_withModuleNames, get?_fillLevel_withModuleNames]
    exact hlevel before (Or.inl hbefore)
  · exact hlevel record (Or.inr hget)

end Hierarchy

namespace NormalizedConfiguration

open Hierarchy

/-- **All that comes after completion is written under the late keys.** Each later pass writes some
of these keys, and passes compose. -/
theorem agreesOff_resolved (n : NormalizedConfiguration) (lookups : ModuleLookups) :
    Hierarchy.AgreesOff lateKeys n.hierarchy.complete (n.applyDefaults lookups).hierarchy := by
  -- latencies, clocks, addresses and modules, in the order in which they are written
  have htimed : Hierarchy.AgreesOff lateKeys n.hierarchy.complete
      (n.hierarchy.complete.mapCaches fun _ cache => withHitLatency cache) :=
    agreesOff_mapCaches (fun _ => agreesOff_withHitLatency (by decide)) _
  have hclocked := htimed.trans (agreesOff_withClocks (by decide) (by decide) _
    n.hierarchy.complete.levels n.referenceClock)
  have haddressed := hclocked.trans (agreesOff_withAddresses (by decide) (by decide) (by decide)
    (by decide) _ n.hierarchy.complete.levels ⟨n.constants.log2BlockSize, n.constants.log2PageSize⟩)
  exact haddressed.trans (agreesOff_withModules slot_mem_lateKeys _ _)

/-- The level of a record is its depth in the completed hierarchy. -/
theorem get?_fillLevel_resolved {n : NormalizedConfiguration} {lookups : ModuleLookups}
    {name : String} {record : Document} {level : Nat}
    (hget : (n.applyDefaults lookups).caches[name]? = some record ∨
      (n.applyDefaults lookups).walkers[name]? = some record)
    (hlevel : n.hierarchy.complete.levels[name]? = some level) :
    record.get? "fill_level" = some (.ofNat level) :=
  get?_fillLevel_withModules (fun _ hget => get?_fillLevel_withAddresses hget hlevel) hget

end NormalizedConfiguration

/-- Where no directory has modules, nothing is found. -/
def ModuleLookups.nothing : ModuleLookups where
  lookup _ := ⟨fun _ => none, []⟩
  compileAll := false

end MemoryHierarchy
