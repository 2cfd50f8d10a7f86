import MemoryHierarchy.Proofs.Graph.Reachable

/-!
# Levels grow along links

The level of a record is raised to each depth at which a walk from a root meets it, so in the end it
is the greatest of these depths. `GreatestDepths` says this of the levels while they are raised.

Without cycles a record is met at one depth on each walk, and the record it links to one step later:
the level of a record is below that of the one it links to (`exists_fillLevel_gt`).
-/

namespace MemoryHierarchy

namespace RecordMap

variable {records : RecordMap} {link : String} {roots : List String} {levels : NameMap Nat}
  {met : String → Nat → Prop}

/-- The level of each name is the greatest depth at which the name has been met. A pass over the
records raises levels one by one and keeps this with more and more depths met. -/
structure GreatestDepths (levels : NameMap Nat) (met : String → Nat → Prop) : Prop where
  attained : ∀ (name : String) (level : Nat), levels[name]? = some level → met name level
  bounded : ∀ (name : String) (depth : Nat), met name depth →
    ∃ level, levels[name]? = some level ∧ depth ≤ level

namespace GreatestDepths

theorem congr {met' : String → Nat → Prop} (h : GreatestDepths levels met)
    (hmet : ∀ name depth, met name depth ↔ met' name depth) : GreatestDepths levels met' where
  attained := fun name level hlevel => (hmet name level).mp (h.attained name level hlevel)
  bounded := fun name depth hdepth => h.bounded name depth ((hmet name depth).mpr hdepth)

theorem empty : GreatestDepths ∅ fun _ _ => False where
  attained := fun _ _ hlevel => absurd hlevel (by simp)
  bounded := fun _ _ hmet => hmet.elim

/-- Raising a level keeps what has been met and meets one name at one more depth. -/
theorem raiseLevel (h : GreatestDepths levels met) (key : String) (new : Nat) :
    GreatestDepths (raiseLevel levels key new)
      fun name depth => met name depth ∨ (name = key ∧ depth = new) := by
  unfold RecordMap.raiseLevel
  constructor
  · intro name level hlevel
    rw [Std.ExtTreeMap.getElem?_insert] at hlevel
    simp only [Std.compare_eq_iff_eq] at hlevel
    split at hlevel
    · next heq =>
      subst heq
      rw [Std.ExtTreeMap.getD_eq_getD_getElem?, Option.some.injEq] at hlevel
      -- the name has the greater one of the level it had and the new depth
      cases hold : levels[key]? with
      | none =>
        rw [hold, Option.getD_none, Nat.max_self] at hlevel
        exact Or.inr ⟨rfl, hlevel.symm⟩
      | some old =>
        rw [hold, Option.getD_some] at hlevel
        rcases Nat.le_total new old with hle | hle
        · rw [Nat.max_eq_right hle] at hlevel
          exact Or.inl (h.attained key level (hlevel ▸ hold))
        · rw [Nat.max_eq_left hle] at hlevel
          exact Or.inr ⟨rfl, hlevel.symm⟩
    · exact Or.inl (h.attained name level hlevel)
  · intro name depth hmet
    rw [Std.ExtTreeMap.getElem?_insert]
    simp only [Std.compare_eq_iff_eq]
    by_cases heq : key = name
    · subst heq
      rw [if_pos rfl, Std.ExtTreeMap.getD_eq_getD_getElem?]
      refine ⟨_, rfl, ?_⟩
      rcases hmet with hmet | ⟨_, rfl⟩
      · obtain ⟨old, hold, hle⟩ := h.bounded key depth hmet
        rw [hold, Option.getD_some]
        omega
      · omega
    · rw [if_neg heq]
      rcases hmet with hmet | ⟨rfl, _⟩
      · exact h.bounded name depth hmet
      · exact absurd rfl heq

/-- Raising along a path meets each record of the path at its place. -/
theorem raiseAlong (h : GreatestDepths levels met) {path : List (String × Document)}
    (hnamed : ∀ entry ∈ path, entry.2.name? = some entry.1) :
    GreatestDepths (raiseAlong levels path) fun name depth =>
      met name depth ∨ ∃ record, path[depth]? = some (name, record) := by
  unfold RecordMap.raiseAlong
  have hentries : ∀ entry ∈ path.zipIdx, entry.1.2.name? = some entry.1.1 :=
    fun entry hentry => hnamed entry.1 (List.fst_mem_of_mem_zipIdx hentry)
  simp only [← List.mk_mem_zipIdx_iff_getElem?]
  -- the induction is over the numbered entries, as distances do not start over in the rest
  generalize path.zipIdx = entries at hentries
  induction entries generalizing levels met with
  | nil => exact h.congr fun name depth => by simp
  | cons entry entries ih =>
    obtain ⟨⟨key, record⟩, new⟩ := entry
    have hkey : record.name? = some key := hentries _ List.mem_cons_self
    simp only [List.foldl_cons, hkey]
    refine (ih (h.raiseLevel key new) fun e he => hentries e (List.mem_cons_of_mem _ he)).congr ?_
    intro name depth
    simp only [List.mem_cons, Prod.mk.injEq, exists_or, or_assoc]
    simp

end GreatestDepths

/-- **The level of a record is the greatest depth at which a walk from a root meets it.** The pass
goes through the walks one after the other, and each walk raises the levels of the names that it
meets. -/
theorem greatestDepths_fillLevels (hnamed : records.Named) (link : String) (roots : List String) :
    GreatestDepths (records.fillLevels link roots) fun name depth =>
      ∃ root ∈ roots, ∃ record, (records.walk link root)[depth]? = some (name, record) := by
  unfold fillLevels
  -- the roots come one after the other, so the walks so far are part of the invariant
  suffices ∀ (levels : NameMap Nat) (met : String → Nat → Prop), GreatestDepths levels met →
      GreatestDepths
        (roots.foldl (fun levels root => raiseAlong levels (records.walk link root)) levels)
        fun name depth => met name depth ∨
          ∃ root ∈ roots, ∃ record, (records.walk link root)[depth]? = some (name, record) from
    (this ∅ _ .empty).congr fun name depth => by rw [false_or]
  induction roots with
  | nil => exact fun levels met h => h.congr fun name depth => by simp
  | cons root roots ih =>
    intro levels met h
    have hpath : ∀ entry ∈ records.walk link root, entry.2.name? = some entry.1 :=
      fun entry hentry => hnamed entry.1 entry.2 (mem_walk_iff.mp hentry).2
    refine (ih _ _ (h.raiseAlong hpath)).congr fun name depth => ?_
    rw [List.exists_mem_cons_iff, or_assoc]

/-- A level is the length of a way from a root. -/
theorem exists_reachesIn_of_fillLevel (hnamed : records.Named) {name : String} {level : Nat}
    (hlevel : (records.fillLevels link roots)[name]? = some level) :
    ∃ root ∈ roots, ReachesIn records link level root name := by
  obtain ⟨root, hroot, record, hmet⟩ :=
    (greatestDepths_fillLevels hnamed link roots).attained name level hlevel
  exact ⟨root, hroot, (reachesIn_of_walk hmet).1⟩

/-- The records with a level are those that are reached. -/
theorem mem_fillLevels_iff (hnamed : records.Named) {name : String} :
    name ∈ records.fillLevels link roots ↔ ReachedFrom records link roots name := by
  rw [NameMap.mem_iff_exists]
  constructor
  · rintro ⟨level, hlevel⟩
    obtain ⟨root, hroot, hreach⟩ := exists_reachesIn_of_fillLevel hnamed hlevel
    exact ⟨root, hroot, level, hreach⟩
  · rintro ⟨root, hroot, hreach⟩
    obtain ⟨record, hget⟩ := NameMap.mem_iff_exists.mp hreach.last_mem
    obtain ⟨depth, hmet⟩ := List.getElem?_of_mem (mem_walk_iff.mpr ⟨hreach, hget⟩)
    obtain ⟨level, hlevel, _⟩ := (greatestDepths_fillLevels hnamed link roots).bounded name depth
      ⟨root, hroot, record, hmet⟩
    exact ⟨level, hlevel⟩

/-- **Without cycles the level grows along a link.** The walk that attains the level of the upper
record goes on to the lower one. -/
theorem exists_fillLevel_gt (hnamed : records.Named) (hacyclic : records.Acyclic link)
    {name next : String} {level : Nat}
    (hlevel : (records.fillLevels link roots)[name]? = some level)
    (hop : records.target? link name = some next) (known : next ∈ records) :
    ∃ deeper, (records.fillLevels link roots)[next]? = some deeper ∧ level < deeper := by
  obtain ⟨root, hroot, hreach⟩ := exists_reachesIn_of_fillLevel hnamed hlevel
  have hnext := hreach.snoc hop known
  obtain ⟨record, hget⟩ := NameMap.mem_iff_exists.mp known
  -- the walk from the same root meets the next record, and there is one depth for it
  obtain ⟨depth, hmet⟩ := List.getElem?_of_mem (mem_walk_iff.mpr ⟨⟨_, hnext⟩, hget⟩)
  have hdepth : depth = level + 1 := hacyclic.length_unique (reachesIn_of_walk hmet).1 hnext
  obtain ⟨deeper, hdeeper, hle⟩ := (greatestDepths_fillLevels hnamed link roots).bounded next depth
    ⟨root, hroot, record, hmet⟩
  refine ⟨deeper, hdeeper, ?_⟩
  omega

end RecordMap

end MemoryHierarchy
