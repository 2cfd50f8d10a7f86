import MemoryHierarchy.Proofs.Check.Topology
import MemoryHierarchy.Proofs.Resolution.Frequency
import MemoryHierarchy.Proofs.Resolution.TotalOrder

/-!
# Frequencies are inherited from above

A record without a frequency of its own takes the greatest one above it, in a single pass by
increasing level. Without cycles the levels grow along links, so whatever links to a record has been
visited before it, and the frequencies that are found satisfy the equation by which one of them is
inherited (`getElem?_frequencies`). `frequency_resolved` says this of the frequencies that the
records have in the end.
-/

namespace MemoryHierarchy

/-! ## The greatest of several frequencies

Frequencies are compared by the total order of doubles, of which the usual order is a part. -/

/-- What is found is among the frequencies, and none of them has a greater rank. -/
theorem greatestFrequency?_eq_some {frequencies : List Json} {greatest : Json}
    (h : greatestFrequency? frequencies = some greatest) :
    greatest ∈ frequencies ∧
      ∀ other ∈ frequencies, frequencyRank other ≤ frequencyRank greatest := by
  unfold greatestFrequency? at h
  induction frequencies using List.reverseRecOn generalizing greatest with
  | nil => cases h
  | append_singleton frequencies last ih =>
    rw [List.foldl_append] at h
    simp only [List.foldl_cons, List.foldl_nil] at h
    simp only [List.mem_append, List.mem_singleton]
    split at h
    · next hnone =>
      -- nothing has been found before, so there was nothing
      rw [Option.some.injEq] at h
      subst h
      have hempty : frequencies = [] := by
        by_contra hne
        obtain ⟨best, hbest⟩ := exists_greatestFrequency? hne
        unfold greatestFrequency? at hbest
        rw [hbest] at hnone
        cases hnone
      subst hempty
      exact ⟨Or.inr rfl, by simp⟩
    next best hbest =>
    obtain ⟨hmem, hrank⟩ := ih hbest
    split at h
    · next hle =>
      rw [Option.some.injEq] at h
      subst h
      refine ⟨Or.inr rfl, ?_⟩
      rintro other (hother | rfl)
      · exact (hrank other hother).trans hle
      · exact le_rfl
    · next hlt =>
      rw [Option.some.injEq] at h
      subst h
      refine ⟨Or.inl hmem, ?_⟩
      rintro other (hother | rfl)
      · exact hrank other hother
      · omega

namespace Hierarchy

variable {h : Hierarchy} {clocks : List CoreClock} {system : RecordMap}
  {uppers : NameMap (List Document)} {known known' : NameMap Json} {levels : NameMap Nat}
  {name other : String} {record : Document} {value : Json}

/-! ## One visit

A record is visited once, and what a visit finds depends on what is known of the records above. -/

/-- A visit leaves the frequencies of other names alone. -/
theorem getElem?_inheritFrequency_of_ne (hne : other ≠ name) :
    (inheritFrequency clocks system uppers known other)[name]? = known[name]? := by
  unfold inheritFrequency
  split
  · rfl
  · dsimp only
    split
    · rw [Std.ExtTreeMap.getElem?_insert, if_neg (by simpa using hne)]
    · rfl

/-- The first visit of a record gives it its own frequency, or else the greatest one that is known
above it. -/
theorem getElem?_inheritFrequency_self (hget : system[name]? = some record)
    (hknown : known[name]? = none) :
    (inheritFrequency clocks system uppers known name)[name]? =
      (record.get? "frequency").or (greatestFrequency?
        (upperFrequencies uppers known name ++ coreFrequencies clocks name)) := by
  unfold inheritFrequency
  rw [hget]
  dsimp only
  split
  · next frequency hfrequency => rw [hfrequency, Std.ExtTreeMap.getElem?_insert_self]
  · next hnone => rw [hnone, hknown]

/-- The names above a record are those of the records that link to it. -/
theorem mem_upperNames (hnamed : system.Named) (hmem : name ∈ system) {upper : String} :
    upper ∈ ((Record.uppers system.contains lowerLevel system.values).getD name []).filterMap
        Document.name? ↔
      system.target? lowerLevel upper = some name := by
  have habove : (Record.uppers system.contains lowerLevel system.values).getD name [] =
      system.values.filter (linksTo name) := by
    rw [Std.ExtTreeMap.getD_eq_getD_getElem?, getElem?_uppers]
    split
    · rw [Option.getD_some]
    · next hnone =>
      -- nothing links to the name, since the name itself is a target
      rw [Std.ExtTreeMap.contains_iff_mem, not_and_not_right] at hnone
      rw [Option.getD_none, List.filter_eq_nil_iff.mpr (List.countP_eq_zero.mp (hnone hmem))]
  rw [habove, List.mem_filterMap, RecordMap.target?_eq_some_iff]
  constructor
  · rintro ⟨record, hrecord, hname⟩
    obtain ⟨hvalue, hlinks⟩ := List.mem_filter.mp hrecord
    obtain ⟨key, hget⟩ := NameMap.mem_values_iff.mp hvalue
    have hkey : key = upper := Option.some.inj ((hnamed key record hget).symm.trans hname)
    exact ⟨record, hkey ▸ hget, of_decide_eq_true hlinks⟩
  · rintro ⟨record, hget, hlink⟩
    have hvalue : record ∈ system.values := NameMap.mem_values_iff.mpr ⟨upper, hget⟩
    exact ⟨record, List.mem_filter.mpr ⟨hvalue, decide_eq_true hlink⟩, hnamed upper record hget⟩

/-- The frequencies that a record can inherit: those that are known of the records that link to it,
and those of the cores that name it in a first-level slot. -/
def inheritable (h : Hierarchy) (known : NameMap Json) (name : String) : List Json :=
  upperFrequencies (Record.uppers h.system.contains lowerLevel h.system.values) known name ++
    coreFrequencies h.coreClocks name

theorem mem_inheritable (hnamed : h.system.Named) (hmem : name ∈ h.system) :
    value ∈ h.inheritable known name ↔
      (∃ upper, h.system.target? lowerLevel upper = some name ∧ known[upper]? = some value) ∨
      ∃ core ∈ h.cores, name ∈ coreRoots core ∧ core.get? "frequency" = some value := by
  rw [inheritable, List.mem_append]
  refine or_congr ?_ ?_
  · rw [upperFrequencies, List.mem_filterMap]
    exact exists_congr fun upper => and_congr_left fun _ => mem_upperNames hnamed hmem
  · simp only [coreFrequencies, coreClocks, List.mem_map, List.mem_filter, List.mem_filterMap,
      Option.map_eq_some_iff, decide_eq_true_eq]
    constructor
    · rintro ⟨clock, ⟨⟨core, hcore, frequency, hfrequency, rfl⟩, hroot⟩, rfl⟩
      exact ⟨core, hcore, hroot, hfrequency⟩
    · rintro ⟨core, hcore, hroot, hvalue⟩
      exact ⟨⟨coreRoots core, value⟩, ⟨⟨core, hcore, value, hvalue, rfl⟩, hroot⟩, rfl⟩

/-- What a record can inherit depends on the records that link to it only. -/
theorem inheritable_congr (hnamed : h.system.Named) (hmem : name ∈ h.system)
    (hknown : ∀ upper, h.system.target? lowerLevel upper = some name →
      known[upper]? = known'[upper]?) :
    h.inheritable known name = h.inheritable known' name := by
  have huppers := fun upper hupper => hknown upper ((mem_upperNames hnamed hmem).mp hupper)
  rw [inheritable, inheritable, upperFrequencies, upperFrequencies,
    List.filterMap_congr huppers]

/-! ## All visits

When levels grow along links, all records above have been visited. So the frequencies in the end are
a solution of the equation, which says nothing of an order. -/

/-- Levels that grow along the links to the records that have one. All records above another one are
then visited before it, and their frequencies are known. -/
def LevelsAscend (h : Hierarchy) (levels : NameMap Nat) : Prop :=
  ∀ (upper name : String) (level : Nat), levels[name]? = some level →
    h.system.target? lowerLevel upper = some name →
    ∃ above, levels[upper]? = some above ∧ above < level

theorem levelsAscend_levels (hnamed : h.system.Named) (hacyclic : h.system.Acyclic lowerLevel)
    (hlevels : ∀ name ∈ h.system, name ∈ h.levels) : h.LevelsAscend h.levels := by
  intro upper name level hlevel hop
  have hmem : name ∈ h.system := ((mem_reachable_iff hnamed).mp
    ((mem_levels_iff hnamed).mp (NameMap.mem_iff_exists.mpr ⟨level, hlevel⟩))).mem
  obtain ⟨above, habove⟩ := NameMap.mem_iff_exists.mp (hlevels upper (RecordMap.mem_of_target? hop))
  obtain ⟨deeper, hdeeper, hlt⟩ := RecordMap.exists_fillLevel_gt hnamed hacyclic habove hop hmem
  rw [levels, hdeeper, Option.some.injEq] at hlevel
  exact ⟨above, habove, hlevel ▸ hlt⟩

theorem nodup_map_byNumber (levels : NameMap Nat) : (levels.byNumber.map Prod.fst).Nodup := by
  have hperm := (List.mergeSort_perm levels.toList fun a b => a.2 ≤ b.2).map Prod.fst
  rw [NameMap.byNumber, hperm.nodup_iff, Std.ExtTreeMap.map_fst_toList_eq_keys]
  exact Std.ExtTreeMap.nodup_keys

/-- One record after the other gets its frequency. The order matters, since a record inherits from
those above it. -/
def visits (h : Hierarchy) (known : NameMap Json) (names : List String) : NameMap Json :=
  names.foldl (inheritFrequency h.coreClocks h.system
    (Record.uppers h.system.contains lowerLevel h.system.values)) known

/-- A visit leaves the frequencies of other names alone. -/
theorem getElem?_visits_of_not_mem {names : List String} (hnot : name ∉ names) :
    (h.visits known names)[name]? = known[name]? := by
  unfold visits
  induction names generalizing known with
  | nil => rfl
  | cons first names ih =>
    rw [List.mem_cons, not_or] at hnot
    rw [List.foldl_cons, ih hnot.2, getElem?_inheritFrequency_of_ne (Ne.symm hnot.1)]

/-- **The frequencies that are found satisfy the equation of inheritance.** A record is visited
once, and after the records that link to it, so what is known above it does not change any more. -/
theorem getElem?_frequencies (hnamed : h.system.Named) (hlevels : h.LevelsAscend levels)
    {level : Nat} (hlevel : levels[name]? = some level) (hget : h.system[name]? = some record) :
    (h.frequencies levels)[name]? = (record.get? "frequency").or
      (greatestFrequency? (h.inheritable (h.frequencies levels) name)) := by
  have hmem : name ∈ h.system := NameMap.mem_iff_exists.mpr ⟨record, hget⟩
  have hentry : (name, level) ∈ levels.byNumber := NameMap.mem_byNumber_iff.mpr hlevel
  obtain ⟨before, after, hsplit⟩ := List.append_of_mem hentry
  have hnodup := nodup_map_byNumber levels
  rw [hsplit, List.map_append, List.map_cons, List.nodup_append, List.nodup_cons] at hnodup
  obtain ⟨_, ⟨hafter, _⟩, hapart⟩ := hnodup
  have hbefore : name ∉ before.map Prod.fst := fun hmem =>
    hapart name hmem name List.mem_cons_self rfl
  have hfrequencies : h.frequencies levels =
      h.visits (h.visits ∅ (before.map Prod.fst)) (name :: after.map Prod.fst) := by
    rw [frequencies, hsplit, List.map_append, List.foldl_append]
    rfl
  -- what was known above the record when it was visited is what is known in the end
  have hknown : ∀ upper, h.system.target? lowerLevel upper = some name →
      (h.visits ∅ (before.map Prod.fst))[upper]? = (h.frequencies levels)[upper]? := by
    intro upper hop
    obtain ⟨above, habove, hlt⟩ := hlevels upper name level hlevel hop
    have hvisited : (upper, above) ∈ before := mem_before_of_byNumber hsplit habove hlt
    have hmap : upper ∈ before.map Prod.fst := List.mem_map.mpr ⟨(upper, above), hvisited, rfl⟩
    rw [hfrequencies, getElem?_visits_of_not_mem fun hmem => hapart upper hmap upper hmem rfl]
  rw [← inheritable_congr hnamed hmem hknown, hfrequencies, visits, List.foldl_cons]
  rw [← visits, getElem?_visits_of_not_mem hafter]
  refine getElem?_inheritFrequency_self hget ?_
  rw [getElem?_visits_of_not_mem hbefore]
  exact Std.ExtTreeMap.getElem?_empty

/-! ## The frequencies above a record

The equation is then told in the records of the result, in which each frequency has been written. -/

/-- The frequencies of the records that link to a record and of the cores that name it in a
first-level slot. -/
def frequenciesAbove (h : Hierarchy) (name : String) : List Json :=
  (h.system.values.filter (linksTo name) ++
    h.cores.filter fun core => name ∈ coreRoots core).filterMap (·.get? "frequency")

theorem mem_frequenciesAbove :
    value ∈ h.frequenciesAbove name ↔
      (∃ (upper : String) (record : Document), h.system[upper]? = some record ∧
        record.string? lowerLevel = some name ∧ record.get? "frequency" = some value) ∨
      ∃ core ∈ h.cores, name ∈ coreRoots core ∧ core.get? "frequency" = some value := by
  simp only [frequenciesAbove, List.mem_filterMap, List.mem_append, List.mem_filter,
    NameMap.mem_values_iff, linksTo, decide_eq_true_eq, or_and_right, exists_or]
  refine or_congr ?_ (exists_congr fun core => and_assoc)
  constructor
  · rintro ⟨record, ⟨⟨upper, hget⟩, hlink⟩, hvalue⟩
    exact ⟨upper, record, hget, hlink, hvalue⟩
  · rintro ⟨upper, record, hget, hlink, hvalue⟩
    exact ⟨record, ⟨⟨upper, hget⟩, hlink⟩, hvalue⟩

theorem coreRoots_eq_of_agreesOff {keys : List String} {core core' : Document}
    (hagrees : Document.AgreesOff keys core core')
    (hslots : ∀ slot ∈ Slot.firstLevel, slot.key ∉ keys) : coreRoots core' = coreRoots core :=
  List.filterMap_congr fun slot hslot => hagrees.string? (hslots slot hslot)

end Hierarchy

/-- A frequency as a double; what is not a number counts as zero. -/
def frequencyValue (frequency : Json) : Float := frequency.float?.getD 0.0

namespace NormalizedConfiguration

variable {n : NormalizedConfiguration} {lookups : ModuleLookups} {name : String} {record : Document}
  {value : Json}

/-- What a record can inherit are the frequencies that are above it in the end. -/
theorem mem_frequenciesAbove_resolved (hclosed : n.Closed)
    (hacyclic : (n.applyDefaults lookups).hierarchy.system.Acyclic lowerLevel)
    (hmem : name ∈ n.timedHierarchy.system) :
    value ∈ (n.applyDefaults lookups).hierarchy.frequenciesAbove name ↔
      value ∈ n.timedHierarchy.inheritable n.foundFrequencies name := by
  rw [Hierarchy.mem_frequenciesAbove, Hierarchy.mem_inheritable (named_timed hclosed) hmem]
  have htarget : ∀ upper, (n.applyDefaults lookups).hierarchy.system.target? lowerLevel upper =
      n.timedHierarchy.system.target? lowerLevel upper := by
    intro upper
    rw [(n.agreesOff_resolved lookups).target?_eq (by decide),
      n.agreesOff_timed.target?_eq (by decide)]
  -- above a record are records that link to it, and cores that name it in a slot
  refine or_congr (exists_congr fun upper => ?_) ?_
  · rw [← htarget, RecordMap.target?_eq_some_iff]
    constructor
    · rintro ⟨record, hget, hlink, hvalue⟩
      obtain ⟨level, hlevel⟩ :=
        exists_level_resolved hclosed (Hierarchy.getElem?_or_of_system hget)
      obtain ⟨frequency, hfound⟩ := exists_foundFrequency hclosed hacyclic hlevel
      have hfrequency := get?_frequency_resolved hfound (Hierarchy.getElem?_or_of_system hget)
      exact ⟨⟨record, hget, hlink⟩, by rw [hfound, ← hfrequency, hvalue]⟩
    · rintro ⟨⟨record, hget, hlink⟩, hfound⟩
      exact ⟨record, hget, hlink,
        get?_frequency_resolved hfound (Hierarchy.getElem?_or_of_system hget)⟩
  · have hslots : ∀ slot ∈ Slot.firstLevel, slot.key ∉ computedCoreKeys := by decide
    have hcores := n.agreesOff_core_resolved lookups
    constructor
    · rintro ⟨core, hcore, hroot, hvalue⟩
      obtain ⟨before, hbefore, hagrees⟩ := exists_of_mem_right hcores hcore
      rw [Hierarchy.coreRoots_eq_of_agreesOff hagrees hslots] at hroot
      exact ⟨before, hbefore, hroot, by rw [← hagrees "frequency" (by decide), hvalue]⟩
    · rintro ⟨before, hbefore, hroot, hvalue⟩
      obtain ⟨core, hcore, hagrees⟩ := exists_of_mem_right hcores.flip hbefore
      refine ⟨core, hcore, ?_, by rw [hagrees "frequency" (by decide), hvalue]⟩
      rw [Hierarchy.coreRoots_eq_of_agreesOff hagrees hslots]
      exact hroot

theorem levelsAscend_timed (hclosed : n.Closed)
    (hacyclic : (n.applyDefaults lookups).hierarchy.system.Acyclic lowerLevel) :
    n.timedHierarchy.LevelsAscend n.hierarchy.complete.levels := by
  intro upper name level hlevel hop
  rw [n.agreesOff_timed.target?_eq (by decide)] at hop
  exact Hierarchy.levelsAscend_levels (Hierarchy.named_complete hclosed.hierarchy).system
    (acyclic_complete hacyclic) (fun _ => Hierarchy.mem_levels_complete hclosed.hierarchy)
    upper name level hlevel hop

/-- Without cycles there is something to inherit for everything that has a level. -/
theorem inheritable_ne_nil (hclosed : n.Closed)
    (hacyclic : (n.applyDefaults lookups).hierarchy.system.Acyclic lowerLevel)
    {level : Nat} (hlevel : n.hierarchy.complete.levels[name]? = some level) :
    n.timedHierarchy.inheritable n.foundFrequencies name ≠ [] := by
  obtain ⟨hmem, habove⟩ := levelsDescend_timed hclosed hacyclic name level hlevel
  rw [Hierarchy.inheritable, Ne, List.append_eq_nil_iff, not_and_or]
  rcases habove with hroot | ⟨upper, above, hupper, _, hop⟩
  · exact Or.inr (Hierarchy.coreFrequencies_ne_nil (contains_frequency_core hclosed) hroot)
  · obtain ⟨frequency, hfound⟩ := exists_foundFrequency hclosed hacyclic hupper
    exact Or.inl (Hierarchy.upperFrequencies_ne_nil (named_timed hclosed) hmem hop
      (NameMap.mem_iff_exists.mpr ⟨frequency, hfound⟩))

/-- What is left comes from a record that is written, and the record whose frequency is asked for
has the frequency that is written. -/
theorem exists_timed_of_resolved (hclosed : n.Closed) (hdisjoint : n.hierarchy.Disjoint)
    (hget : (n.applyDefaults lookups).caches[name]? = some record ∨
      (n.applyDefaults lookups).walkers[name]? = some record) :
    ∃ written timed : Document, (n.caches[name]? = some written ∨ n.walkers[name]? = some written) ∧
      n.timedHierarchy.system[name]? = some timed ∧
      timed.get? "frequency" = written.get? "frequency" := by
  have hagrees := n.agreesOff_resolved lookups
  -- no template has a frequency and no latency is one, so the record has what was written
  rcases hget with hget | hget
  · obtain ⟨completed, hcompleted, _⟩ := hagrees.caches.exists_before hget
    obtain ⟨written, hwritten, hsame⟩ :=
      get?_complete_cache hclosed hdisjoint (by decide : "frequency" ∈ unlayeredKeys) hcompleted
    obtain ⟨timed, htimed, hkept⟩ := n.agreesOff_timed.caches.exists_after hcompleted
    exact ⟨written, timed, Or.inl hwritten, Hierarchy.getElem?_system_of_cache htimed,
      (hkept "frequency" (by decide)).trans hsame⟩
  · obtain ⟨completed, hcompleted, _⟩ := hagrees.walkers.exists_before hget
    obtain ⟨written, hwritten, hsame⟩ :=
      get?_complete_walker hclosed hdisjoint (by decide : "frequency" ∈ unlayeredKeys) hcompleted
    obtain ⟨timed, htimed, hkept⟩ := n.agreesOff_timed.walkers.exists_after hcompleted
    have hapart := n.agreesOff_timed.disjoint
      (Completion.disjoint_complete hclosed.hierarchy hdisjoint)
    exact ⟨written, timed, Or.inr hwritten, hapart.getElem?_system_of_walker htimed,
      (hkept "frequency" (by decide)).trans hsame⟩

end NormalizedConfiguration

open NormalizedConfiguration in
/-- **Frequencies are inherited from above.** Where no name is that of a cache and of a walker and
there is no cycle, there are frequencies above everything that is left; a record with a frequency of
its own keeps it, and any other one has in the end one of the frequencies above it, of which no
other one is greater, neither by rank nor as a number. -/
theorem frequency_resolved {docs : List Document} {n : NormalizedConfiguration}
    (hread : ofDocuments docs = .ok n) (lookups : ModuleLookups)
    (hdisjoint : ∀ name ∈ n.caches, name ∉ n.walkers)
    (hacyclic : (n.applyDefaults lookups).hierarchy.system.Acyclic lowerLevel)
    (name : String) (record : Document)
    (hget : (n.applyDefaults lookups).caches[name]? = some record ∨
      (n.applyDefaults lookups).walkers[name]? = some record) :
    let above := (n.applyDefaults lookups).hierarchy.frequenciesAbove name
    above ≠ [] ∧
      ∃ written, (n.caches[name]? = some written ∨ n.walkers[name]? = some written) ∧
        (∀ own, written.get? "frequency" = some own → record.get? "frequency" = some own) ∧
        (written.get? "frequency" = none →
          ∃ frequency ∈ above, record.get? "frequency" = some frequency ∧
            ∀ other ∈ above, frequencyRank other ≤ frequencyRank frequency ∧
              ((frequencyValue other).isNaN = false → (frequencyValue frequency).isNaN = false →
                frequencyValue other ≤ frequencyValue frequency)) := by
  intro above
  have hclosed := closed_of_ofDocuments hread
  -- the record is followed back to where its frequency was looked for
  obtain ⟨written, timed, hwritten, htimed, hsame⟩ :=
    exists_timed_of_resolved hclosed hdisjoint hget
  obtain ⟨level, hlevel⟩ := exists_level_resolved hclosed hget
  have habove : ∀ value, value ∈ above ↔
      value ∈ n.timedHierarchy.inheritable n.foundFrequencies name := fun value =>
    mem_frequenciesAbove_resolved hclosed hacyclic (NameMap.mem_iff_exists.mpr ⟨timed, htimed⟩)
  have hinherits := inheritable_ne_nil hclosed hacyclic hlevel
  -- the equation holds of what was found; it is read in the result through what is above
  have hequation : n.foundFrequencies[name]? = (timed.get? "frequency").or
      (greatestFrequency? (n.timedHierarchy.inheritable n.foundFrequencies name)) :=
    Hierarchy.getElem?_frequencies (named_timed hclosed) (levelsAscend_timed hclosed hacyclic)
      hlevel htimed
  rw [hsame] at hequation
  refine ⟨?_, written, hwritten, fun own hown => ?_, fun hnone => ?_⟩
  · obtain ⟨frequency, hfrequency⟩ := List.exists_mem_of_ne_nil _ hinherits
    exact List.ne_nil_of_mem ((habove frequency).mpr hfrequency)
  · rw [hown, Option.some_or] at hequation
    exact get?_frequency_resolved hequation hget
  · obtain ⟨frequency, hgreatest⟩ := exists_greatestFrequency? hinherits
    rw [hnone, Option.none_or, hgreatest] at hequation
    obtain ⟨hmem, hrank⟩ := greatestFrequency?_eq_some hgreatest
    refine ⟨frequency, (habove frequency).mpr hmem, get?_frequency_resolved hequation hget, ?_⟩
    intro other hother
    have hle := hrank other ((habove other).mp hother)
    exact ⟨hle, fun hnumber hnumber' => le_of_totalRank_le hnumber hnumber' hle⟩

/-- Two cores with clocks of their own, one of them above a cache that is slower. -/
def twoClocks : List Document :=
  [[("num_cores", .ofNat 2),
    ("ooo_cpu", .array [.object [("frequency", .ofNat 2000)],
      .object [("frequency", .ofNat 3000)]]),
    ("caches", .array [.object [("name", .string "cpu1_L2C"), ("frequency", .ofNat 1500)]])]]

open NormalizedConfiguration in
/-- The last-level cache runs at the clock of the first core, which reaches it through its
second-level cache, while the second core is cut off by the slower cache. -/
theorem frequency_twoClocks :
    ∃ n record, ofDocuments twoClocks = .ok n ∧ (∀ name ∈ n.caches, name ∉ n.walkers) ∧
      (n.applyDefaults .nothing).hierarchy.system.Acyclic lowerLevel ∧
      (n.applyDefaults .nothing).caches[lastLevelName]? = some record ∧
      record.get? "frequency" = some (.ofNat 2000) ∧
      .ofNat 2000 ∈ (n.applyDefaults .nothing).hierarchy.frequenciesAbove lastLevelName ∧
      ∀ other ∈ (n.applyDefaults .nothing).hierarchy.frequenciesAbove lastLevelName,
        frequencyRank other ≤ frequencyRank (.ofNat 2000) := by
  have hcomputed : ∃ n, ofDocuments twoClocks = .ok n ∧ n.hierarchy.Disjoint ∧
      (n.applyDefaults .nothing).hierarchy.checkTopology = [] ∧
      lastLevelName ∈ (n.applyDefaults .nothing).caches ∧ lastLevelName ∉ n.walkers ∧
      (n.caches[lastLevelName]?.getD []).get? "frequency" = none ∧
      ((n.applyDefaults .nothing).caches[lastLevelName]?.getD []).get? "frequency" =
        some (.ofNat 2000) := by
    simp -zeta only [applyDefaults_eq_sorting]
    decide +kernel
  obtain ⟨n, hread, hdisjoint, hcheck, hmem, hwalker, hnone, hfrequency⟩ := hcomputed
  -- a clean report says that there is no cycle
  obtain ⟨_, hacyclic, _⟩ := Hierarchy.checks_of_checkTopology_eq_nil hcheck
  obtain ⟨record, hget⟩ := NameMap.mem_iff_exists.mp hmem
  rw [hget, Option.getD_some] at hfrequency
  obtain ⟨_, written, hwritten, _, hinherited⟩ :=
    frequency_resolved hread .nothing hdisjoint hacyclic lastLevelName record (Or.inl hget)
  rcases hwritten with hwritten | hwritten
  · rw [hwritten, Option.getD_some] at hnone
    obtain ⟨frequency, habove, hsame, hgreatest⟩ := hinherited hnone
    rw [hfrequency, Option.some.injEq] at hsame
    subst hsame
    exact ⟨n, record, hread, hdisjoint, hacyclic, hget, hfrequency, habove,
      fun other hother => (hgreatest other hother).1⟩
  · exact absurd (NameMap.mem_iff_exists.mpr ⟨written, hwritten⟩) hwalker

end MemoryHierarchy
