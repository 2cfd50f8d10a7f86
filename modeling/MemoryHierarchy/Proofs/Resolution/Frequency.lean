import MemoryHierarchy.Proofs.Resolution.Completeness

/-!
# Every record has a frequency

Every core has a frequency, and a record without one of its own takes it from what is above. Records
are visited by increasing level, and where there is no cycle a record that no core names on the
first level is below one with a smaller level, which has been visited before. So nothing that is
left goes without a frequency (`contains_frequency_resolved`).
-/

namespace MemoryHierarchy

/-- Among some frequencies there is a greatest one. -/
theorem exists_greatestFrequency? {frequencies : List Json} (hne : frequencies ≠ []) :
    ∃ greatest, greatestFrequency? frequencies = some greatest := by
  unfold greatestFrequency?
  cases frequencies with
  | nil => exact absurd rfl hne
  | cons first rest =>
    rw [List.foldl_cons]
    dsimp only
    -- what has been found is replaced, never lost
    induction rest generalizing first with
    | nil => exact ⟨first, rfl⟩
    | cons value rest ih =>
      rw [List.foldl_cons]
      dsimp only
      split
      · exact ih value (List.cons_ne_nil _ _)
      · exact ih first (List.cons_ne_nil _ _)

namespace Hierarchy

variable {h : Hierarchy} {clocks : List CoreClock} {system : RecordMap}
  {uppers : NameMap (List Document)} {known : NameMap Json} {levels : NameMap Nat}
  {name upper : String} {record : Document}

/-! ## One visit

A visit finds a frequency for one record: its own, or else the greatest one known above it. -/

theorem mem_inheritFrequency (hmem : name ∈ known) (other : String) :
    name ∈ inheritFrequency clocks system uppers known other := by
  unfold inheritFrequency
  split
  · exact hmem
  · dsimp only
    split
    · exact Std.ExtTreeMap.mem_insert.mpr (Or.inr hmem)
    · exact hmem

/-- A record that inherits anything has a frequency after its visit. -/
theorem mem_inheritFrequency_self (hget : system[name]? = some record)
    (hinherits : upperFrequencies uppers known name ++ coreFrequencies clocks name ≠ []) :
    name ∈ inheritFrequency clocks system uppers known name := by
  obtain ⟨inherited, hinherited⟩ := exists_greatestFrequency? hinherits
  unfold inheritFrequency
  rw [hget]
  dsimp only
  rw [hinherited]
  cases record.get? "frequency" with
  | none => exact Std.ExtTreeMap.mem_insert_self
  | some own => exact Std.ExtTreeMap.mem_insert_self

theorem upperFrequencies_ne_nil (hnamed : system.Named) (hmem : name ∈ system)
    (hop : system.target? lowerLevel upper = some name) (hknown : upper ∈ known) :
    upperFrequencies (Record.uppers system.contains lowerLevel system.values) known name ≠ [] := by
  obtain ⟨record, hget, hlink⟩ := RecordMap.target?_eq_some_iff.mp hop
  obtain ⟨frequency, hfrequency⟩ := NameMap.mem_iff_exists.mp hknown
  have hlinks : linksTo name record = true := decide_eq_true hlink
  have hvalue : record ∈ system.values := NameMap.mem_values_iff.mpr ⟨upper, hget⟩
  -- the record above is among those that link to the name, so the list of these is not empty
  have hcount : system.values.countP (linksTo name) ≠ 0 := by
    have := List.countP_pos_iff.mpr ⟨record, hvalue, hlinks⟩
    omega
  have habove : record ∈
      (Record.uppers system.contains lowerLevel system.values).getD name [] := by
    rw [Std.ExtTreeMap.getD_eq_getD_getElem?, getElem?_uppers,
      if_pos ⟨Std.ExtTreeMap.contains_iff_mem.mpr hmem, hcount⟩, Option.getD_some, List.mem_filter]
    exact ⟨hvalue, hlinks⟩
  refine List.ne_nil_of_mem (List.mem_filterMap.mpr ⟨upper, ?_, hfrequency⟩)
  exact List.mem_filterMap.mpr ⟨record, habove, hnamed upper record hget⟩

theorem coreFrequencies_ne_nil (hcores : ∀ core ∈ h.cores, core.contains "frequency" = true)
    (hroot : name ∈ h.roots) : coreFrequencies h.coreClocks name ≠ [] := by
  obtain ⟨core, hcore, hslot⟩ := List.mem_flatMap.mp hroot
  obtain ⟨frequency, hfrequency⟩ := Document.contains_iff.mp (hcores core hcore)
  have hclock : ⟨coreRoots core, frequency⟩ ∈ h.coreClocks :=
    List.mem_filterMap.mpr ⟨core, hcore, by rw [hfrequency, Option.map_some]⟩
  exact List.ne_nil_of_mem (List.mem_map_of_mem
    (List.mem_filter.mpr ⟨hclock, decide_eq_true hslot⟩))

/-! ## All visits

Records are visited by level. A record that is not on the first level is below one of a smaller
level, which has been visited; so there is something to inherit, whatever the order within a level.
-/

/-- Levels by which each record is named on the first level or below one with a smaller level. A
record that no core names is then visited after one of those above it. -/
def LevelsDescend (h : Hierarchy) (levels : NameMap Nat) : Prop :=
  ∀ (name : String) (level : Nat), levels[name]? = some level → name ∈ h.system ∧
    (name ∈ h.roots ∨ ∃ (upper : String) (above : Nat), levels[upper]? = some above ∧
      above < level ∧ h.system.target? lowerLevel upper = some name)

theorem levelsDescend_levels (hnamed : h.system.Named) (hacyclic : h.system.Acyclic lowerLevel) :
    h.LevelsDescend h.levels := by
  intro name level hlevel
  have hreached := (mem_reachable_iff hnamed).mp
    ((mem_levels_iff hnamed).mp (NameMap.mem_iff_exists.mpr ⟨level, hlevel⟩))
  refine ⟨hreached.mem, ?_⟩
  by_cases hroot : name ∈ h.roots
  · exact Or.inl hroot
  -- what is reached and is in no slot is below something that is reached, whose level is smaller
  · obtain ⟨upper, hupper, hop⟩ := hreached.exists_upper hroot
    obtain ⟨above, habove⟩ := NameMap.mem_iff_exists.mp
      ((mem_levels_iff hnamed).mpr ((mem_reachable_iff hnamed).mpr hupper))
    obtain ⟨deeper, hdeeper, hlt⟩ :=
      RecordMap.exists_fillLevel_gt hnamed hacyclic habove hop hreached.mem
    rw [levels, hdeeper, Option.some.injEq] at hlevel
    exact Or.inr ⟨upper, above, habove, hlevel ▸ hlt, hop⟩

/-- A record has a frequency after its visit, if those with smaller levels have been visited. -/
theorem mem_inheritFrequency_of_levelsDescend (hnamed : h.system.Named)
    (hcores : ∀ core ∈ h.cores, core.contains "frequency" = true)
    (hlevels : h.LevelsDescend levels) {level : Nat} (hlevel : levels[name]? = some level)
    (hvisited : ∀ (upper : String) (above : Nat), levels[upper]? = some above → above < level →
      upper ∈ known) :
    name ∈ inheritFrequency h.coreClocks h.system
      (Record.uppers h.system.contains lowerLevel h.system.values) known name := by
  obtain ⟨hmem, habove⟩ := hlevels name level hlevel
  obtain ⟨record, hget⟩ := NameMap.mem_iff_exists.mp hmem
  refine mem_inheritFrequency_self hget ?_
  rw [Ne, List.append_eq_nil_iff, not_and_or]
  rcases habove with hroot | ⟨upper, above, hupper, hlt, hop⟩
  · exact Or.inr (coreFrequencies_ne_nil hcores hroot)
  · exact Or.inl (upperFrequencies_ne_nil hnamed hmem hop (hvisited upper above hupper hlt))

/-- A smaller level comes earlier in the order of levels. -/
theorem mem_before_of_byNumber {before after : List (String × Nat)} {entry other : String × Nat}
    (hsplit : levels.byNumber = before ++ entry :: after)
    (hother : levels[other.1]? = some other.2) (hlt : other.2 < entry.2) : other ∈ before := by
  have hsorted := NameMap.pairwise_byNumber levels
  have hmem : other ∈ levels.byNumber := NameMap.mem_byNumber_iff.mpr hother
  rw [hsplit] at hmem hsorted
  obtain ⟨hbehind, _⟩ := List.pairwise_cons.mp (List.pairwise_append.mp hsorted).2.1
  rcases List.mem_append.mp hmem with hmem | hmem
  · exact hmem
  rcases List.mem_cons.mp hmem with rfl | hmem
  · omega
  · have := hbehind other hmem
    omega

/-- **Every record with a level has a frequency.** The visits go down the levels, so that above each
record a frequency is known, that of a core at the least. -/
theorem mem_frequencies (hnamed : h.system.Named)
    (hcores : ∀ core ∈ h.cores, core.contains "frequency" = true)
    (hlevels : h.LevelsDescend levels) (hmem : name ∈ levels) : name ∈ h.frequencies levels := by
  -- the names that have been visited are known
  suffices ∀ before after, levels.byNumber = before ++ after → ∀ entry ∈ before,
      entry.1 ∈ (before.map Prod.fst).foldl (inheritFrequency h.coreClocks h.system
        (Record.uppers h.system.contains lowerLevel h.system.values)) ∅ by
    obtain ⟨level, hlevel⟩ := NameMap.mem_iff_exists.mp hmem
    exact this levels.byNumber [] (List.append_nil _).symm (name, level)
      (NameMap.mem_byNumber_iff.mpr hlevel)
  intro before
  induction before using List.reverseRecOn with
  | nil => intro _ _ entry hentry; cases hentry
  | append_singleton before last ih =>
    intro after hsplit entry hentry
    rw [List.append_assoc, List.singleton_append] at hsplit
    have hvisited := ih _ hsplit
    rw [List.map_append, List.foldl_append]
    rcases List.mem_append.mp hentry with hentry | hentry
    · exact mem_inheritFrequency (hvisited entry hentry) last.1
    · obtain rfl := List.mem_singleton.mp hentry
      have hlast : entry ∈ levels.byNumber := by
        rw [hsplit]
        exact List.mem_append_right _ List.mem_cons_self
      exact mem_inheritFrequency_of_levelsDescend hnamed hcores hlevels
        (NameMap.mem_byNumber_iff.mp hlast) fun upper above hupper hlt =>
          hvisited (upper, above) (mem_before_of_byNumber hsplit hupper hlt)

/-! ## The resolved hierarchy

Frequencies are found after latencies are written and before addresses are. Neither changes a link,
so the levels are those of the result. -/

theorem LevelsDescend.of_agreesOff {after : Hierarchy} (hlevels : h.LevelsDescend levels)
    (hagrees : AgreesOff lateKeys h after) : after.LevelsDescend levels := by
  intro name level hlevel
  obtain ⟨hknown, habove⟩ := hlevels name level hlevel
  refine ⟨((hagrees.walkers.union hagrees.caches).mem_iff name).mp hknown, ?_⟩
  rw [hagrees.roots (by decide)]
  simp only [hagrees.target?_eq (by decide : lowerLevel ∉ lateKeys)]
  exact habove

/-- A record has the frequency that was found for it once clocks have been given. -/
theorem get?_frequency_withClocks {frequency : Json} {reference : Float}
    (hfrequency : (h.frequencies levels)[name]? = some frequency)
    (hget : (h.withClocks levels reference).caches[name]? = some record ∨
      (h.withClocks levels reference).walkers[name]? = some record) :
    record.get? "frequency" = some frequency := by
  have hclocked : ∃ unclocked : Document,
      record = withClockScale reference (unclocked.set "frequency" frequency) := by
    unfold withClocks mapCores mapRecords at hget
    simp only [Std.ExtTreeMap.getElem?_map, hfrequency] at hget
    rcases hget with hget | hget
    · obtain ⟨unclocked, _, rfl⟩ := Option.map_eq_some_iff.mp hget
      exact ⟨unclocked, rfl⟩
    · obtain ⟨unclocked, _, rfl⟩ := Option.map_eq_some_iff.mp hget
      exact ⟨unclocked, rfl⟩
  obtain ⟨unclocked, rfl⟩ := hclocked
  -- the clock scale is written last and leaves the frequency alone
  rw [agreesOff_withClockScale (List.mem_singleton.mpr rfl) reference
    (unclocked.set "frequency" frequency) "frequency" (by decide)]
  exact (Document.get?_set _ _ _ _).trans (if_pos rfl)

end Hierarchy

namespace NormalizedConfiguration

variable {n : NormalizedConfiguration} {lookups : ModuleLookups} {name : String} {record : Document}

/-- The hierarchy once its caches have their hit latencies. -/
def timedHierarchy (n : NormalizedConfiguration) : Hierarchy :=
  n.hierarchy.complete.mapCaches fun _ cache => withHitLatency cache

/-- The frequencies that are found for caches and walkers. -/
def foundFrequencies (n : NormalizedConfiguration) : NameMap Json :=
  n.timedHierarchy.frequencies n.hierarchy.complete.levels

theorem agreesOff_timed (n : NormalizedConfiguration) :
    Hierarchy.AgreesOff ["hit_latency"] n.hierarchy.complete n.timedHierarchy :=
  Hierarchy.agreesOff_mapCaches (fun _ => agreesOff_withHitLatency List.mem_cons_self) _

theorem named_timed (hclosed : n.Closed) : n.timedHierarchy.system.Named :=
  (n.agreesOff_timed.named (by decide) (Hierarchy.named_complete hclosed.hierarchy)).system

theorem contains_frequency_core (hclosed : n.Closed) :
    ∀ core ∈ n.timedHierarchy.cores, core.contains "frequency" = true := by
  show ∀ core ∈ n.hierarchy.complete.cores, core.contains "frequency" = true
  rw [Completion.cores_complete hclosed.hierarchy]
  intro _ hcore
  obtain ⟨core, _, rfl⟩ := List.mem_map.mp hcore
  exact hasAll_core.mergeAll (List.mem_cons_of_mem _ List.mem_cons_self) "frequency" (by decide)

/-- What is left has the frequency that was found for it; addresses and modules leave it alone. -/
theorem get?_frequency_resolved {frequency : Json}
    (hfrequency : n.foundFrequencies[name]? = some frequency)
    (hget : (n.applyDefaults lookups).caches[name]? = some record ∨
      (n.applyDefaults lookups).walkers[name]? = some record) :
    record.get? "frequency" = some frequency := by
  have hkept := n.keepsRecords_clocked lookups
  -- the record had this frequency when clocks had been given, and keeps it
  have hclocked : ∃ clocked : Document, (n.clockedHierarchy.caches[name]? = some clocked ∨
      n.clockedHierarchy.walkers[name]? = some clocked) ∧
        Document.Keeps computedKeys clocked record := by
    rcases hget with hget | hget
    · obtain ⟨clocked, hclocked, hkeeps⟩ := hkept.caches.exists_before hget
      exact ⟨clocked, Or.inl hclocked, hkeeps⟩
    · obtain ⟨clocked, hclocked, hkeeps⟩ := hkept.walkers.exists_before hget
      exact ⟨clocked, Or.inr hclocked, hkeeps⟩
  obtain ⟨clocked, hclocked, hkeeps⟩ := hclocked
  exact hkeeps "frequency" (by decide) frequency
    (Hierarchy.get?_frequency_withClocks hfrequency hclocked)

theorem acyclic_complete
    (hacyclic : (n.applyDefaults lookups).hierarchy.system.Acyclic lowerLevel) :
    n.hierarchy.complete.system.Acyclic lowerLevel :=
  ((n.agreesOff_resolved lookups).sameLinks (by decide)).symm.acyclic hacyclic

theorem levelsDescend_timed (hclosed : n.Closed)
    (hacyclic : (n.applyDefaults lookups).hierarchy.system.Acyclic lowerLevel) :
    n.timedHierarchy.LevelsDescend n.hierarchy.complete.levels := by
  have htimed : Hierarchy.AgreesOff lateKeys n.hierarchy.complete n.timedHierarchy :=
    Hierarchy.agreesOff_mapCaches (fun _ => agreesOff_withHitLatency (by decide)) _
  have hnamed := (Hierarchy.named_complete hclosed.hierarchy).system
  exact (Hierarchy.levelsDescend_levels hnamed (acyclic_complete hacyclic)).of_agreesOff htimed

/-- Without cycles a frequency is found for everything that has a level. -/
theorem exists_foundFrequency (hclosed : n.Closed)
    (hacyclic : (n.applyDefaults lookups).hierarchy.system.Acyclic lowerLevel)
    {level : Nat} (hlevel : n.hierarchy.complete.levels[name]? = some level) :
    ∃ frequency, n.foundFrequencies[name]? = some frequency :=
  NameMap.mem_iff_exists.mp (Hierarchy.mem_frequencies (named_timed hclosed)
    (contains_frequency_core hclosed) (levelsDescend_timed hclosed hacyclic)
    (NameMap.mem_iff_exists.mpr ⟨level, hlevel⟩))

/-- **Without cycles everything that is left has a frequency.** What is left is reached, and what is
reached has a level. -/
theorem contains_frequency_resolved (hclosed : n.Closed)
    (hacyclic : (n.applyDefaults lookups).hierarchy.system.Acyclic lowerLevel)
    (hget : (n.applyDefaults lookups).caches[name]? = some record ∨
      (n.applyDefaults lookups).walkers[name]? = some record) :
    record.contains "frequency" = true := by
  obtain ⟨level, hlevel⟩ := exists_level_resolved hclosed hget
  obtain ⟨frequency, hfrequency⟩ := exists_foundFrequency hclosed hacyclic hlevel
  exact Document.contains_iff.mpr ⟨frequency, get?_frequency_resolved hfrequency hget⟩

end NormalizedConfiguration

end MemoryHierarchy
