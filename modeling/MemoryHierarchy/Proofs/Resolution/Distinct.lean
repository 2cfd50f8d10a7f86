import MemoryHierarchy.Proofs.Model.Fit
import MemoryHierarchy.Proofs.Resolution.Kept
import MemoryHierarchy.Proofs.Resolution.Level

/-!
# No key comes twice

Normalization and merging leave records without repeated keys, and every later pass writes a key in
its place, so what defaults leave has no key twice (`distinct_configuration`). Only such records are
read by key alone.
-/

namespace MemoryHierarchy

/-! ## Records

Writing under a key replaces what is there, so keys stay distinct one pass after the other. -/

section

variable {record : Document} (hdistinct : record.Distinct)

include hdistinct

theorem distinct_setIfAbsent (key : String) (value : Json) :
    (record.setIfAbsent key value).Distinct := by
  unfold Document.setIfAbsent
  split
  · exact hdistinct
  · exact Document.distinct_set hdistinct _ _

theorem distinct_withHitLatency : (withHitLatency record).Distinct := by
  unfold withHitLatency
  split
  · exact hdistinct
  · split
    · exact Document.distinct_set hdistinct _ _
    · exact hdistinct

theorem distinct_withClockScale (reference : Float) :
    (withClockScale reference record).Distinct := by
  unfold withClockScale
  split
  · split
    · exact Document.distinct_set hdistinct _ _
    · exact hdistinct
  · exact hdistinct

theorem distinct_withLevel (levels : NameMap Nat) (name : String) :
    (withLevel levels name record).Distinct := by
  unfold withLevel
  split
  · exact Document.distinct_set hdistinct _ _
  · exact hdistinct

end

/-! ## Passes

The same holds of the passes over all records, and then of a resolution. -/

namespace Hierarchy.Distinct

variable {h : Hierarchy}

theorem withClocks (hdistinct : h.Distinct) (levels : NameMap Nat) (reference : Float) :
    (h.withClocks levels reference).Distinct := by
  unfold Hierarchy.withClocks
  refine (hdistinct.mapRecords fun name record hrecord => ?_).mapCores
    fun core hcore => distinct_withClockScale hcore reference
  refine distinct_withClockScale ?_ reference
  split
  · exact Document.distinct_set hrecord _ _
  · exact hrecord

theorem withAddresses (hdistinct : h.Distinct) (levels : NameMap Nat) (bits : AddressBits) :
    (h.withAddresses levels bits).Distinct := by
  -- an owner is written where there is none, which repeats no key
  have howners : h.walkers.Pointwise (fun _ before after => before.Distinct → after.Distinct)
      (TranslationWalks.ofHierarchy h).walkers :=
    TranslationWalks.pointwise_ofHierarchy
      (R := fun before after => before.Distinct → after.Distinct) (fun _ => id)
      (fun _ _ _ hfirst hsecond => hsecond ∘ hfirst)
      (fun _ cpu hrecord => distinct_setIfAbsent hrecord "cpu" cpu) h
  have howned : Hierarchy.Distinct { h with walkers := (TranslationWalks.ofHierarchy h).walkers } :=
    { hdistinct with
      walkers := by
        intro name walker hget
        obtain ⟨before, hbefore, hkept⟩ := howners.exists_before hget
        exact hkept (hdistinct.walkers name before hbefore) }
  unfold Hierarchy.withAddresses
  refine (howned.mapCaches fun name cache hcache => ?_).mapRecords
    fun name record hrecord => distinct_withLevel hrecord levels name
  exact Document.distinct_set (distinct_setIfAbsent hcache _ _) _ _

theorem withModules (hdistinct : h.Distinct) (catalog : ModuleCatalog) :
    (h.withModules catalog).Distinct := by
  have hnames : ∀ (set : ModuleSet) (record : Document), record.Distinct →
      (withModuleNames set record).Distinct :=
    fun set record hrecord => Document.distinct_set hrecord _ _
  unfold Hierarchy.withModules
  exact (hdistinct.mapCores fun core hcore => hnames _ _ (hnames _ core hcore)).mapCaches
    fun _ cache hcache => hnames _ _ (hnames _ cache hcache)

end Hierarchy.Distinct

theorem Hierarchy.distinct_complete {h : Hierarchy} (hclosed : h.Closed)
    (hcores : ∀ core ∈ h.cores, core.Distinct) : h.complete.Distinct := by
  have hcompleted := Completion.closed_completed hclosed (Completion.seed h).hierarchy.levels
  constructor
  · rw [Completion.cores_complete hclosed]
    exact hcores
  · intro name record hget
    exact hcompleted.caches_distinct name record
      (Option.ite_none_right_eq_some.mp (getElem?_prune_caches.symm.trans hget)).2
  · intro name record hget
    exact hcompleted.walkers_distinct name record
      (Option.ite_none_right_eq_some.mp (getElem?_prune_walkers.symm.trans hget)).2

namespace NormalizedConfiguration

variable {n : NormalizedConfiguration}

/-- No pass writes a key a second time. -/
theorem distinct_resolved (hclosed : n.Closed) (lookups : ModuleLookups) :
    (n.applyDefaults lookups).hierarchy.Distinct := by
  have hcores : ∀ core ∈ n.hierarchy.cores, core.Distinct := by
    intro _ hcore
    obtain ⟨core, _, rfl⟩ := List.mem_map.mp hcore
    exact Document.distinct_mergeAllWith _ _
  have htimed := (Hierarchy.distinct_complete hclosed.hierarchy hcores).mapCaches
    fun _ _ => distinct_withHitLatency
  have hclocked := htimed.withClocks n.hierarchy.complete.levels n.referenceClock
  exact (hclocked.withAddresses n.hierarchy.complete.levels
    ⟨n.constants.log2BlockSize, n.constants.log2PageSize⟩).withModules _

/-- Records and memories have no key twice. -/
theorem distinct_configuration (hclosed : n.Closed) (options : Options) (lookups : ModuleLookups) :
    (n.resolve options lookups).configuration.Distinct := by
  constructor
  · exact distinct_resolved hclosed lookups
  · simp only [resolve]
    exact Document.distinct_mergeAllWith _ _
  · simp only [resolve]
    exact Document.distinct_mergeAllWith _ _

end NormalizedConfiguration

end MemoryHierarchy
