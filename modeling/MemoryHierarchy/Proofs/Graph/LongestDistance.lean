import Mathlib.Order.Bounds.Basic
import MemoryHierarchy.Proofs.Graph.Cycle
import MemoryHierarchy.Proofs.Graph.Level

/-!
# Levels are longest distances

A walk meets a record where it is reached first. So the level of a record is a greatest one of least
numbers: the greatest, over the roots that reach it, of the fewest links that lead to it
(`fillLevels_eq_some_iff`). A record on a cycle is reached over any number of rounds, and the first
one counts.

Where the roots reach no cycle there is one number of links from each of them, and levels are the
longest distances from the roots. They then solve the equation of longest paths: a record that no
other one links to is at level 0, and another one is one level below the deepest that links to it
(`fillLevels_longest`). Records that the roots do not reach have no part in this, so they may be on
cycles, and may link to what is reached.
-/

namespace MemoryHierarchy

namespace RecordMap

variable {records : RecordMap} {link : String} {roots : List String} {name : String} {level : Nat}

/-- The numbers of links over which some root reaches a record. Along a cycle there is no end of
them, so a greatest one exists only where no cycle is reached. -/
def distances (records : RecordMap) (link : String) (roots : List String) (name : String) :
    Set Nat :=
  {n | ∃ root ∈ roots, ReachesIn records link n root name}

/-- The levels of the records that link to one. A record below others has one more than the greatest
of them, be it a root or not. -/
def upperLevels (records : RecordMap) (link : String) (roots : List String) (name : String) :
    Set Nat :=
  {level | ∃ upper, records.target? link upper = some name ∧
    (records.fillLevels link roots)[upper]? = some level}

/-! ## Fewest links

A walk from a root meets a record at one place, and this is the distance from the root. A level is
the greatest of these over all roots. -/

/-- The place of a record on a walk is the least number of links that lead to it. -/
theorem exists_getElem?_walk_iff {start : String} {depth : Nat} :
    (∃ record, (records.walk link start)[depth]? = some (name, record)) ↔
      IsLeast {n | ReachesIn records link n start name} depth := by
  have hleast : ∀ {i record}, (records.walk link start)[i]? = some (name, record) →
      IsLeast {n | ReachesIn records link n start name} i :=
    fun hmet => ⟨(reachesIn_of_walk hmet).1, fun _ hreach => le_of_getElem?_walk hmet hreach⟩
  constructor
  · rintro ⟨record, hmet⟩
    exact hleast hmet
  · intro h
    obtain ⟨record, hget⟩ := NameMap.mem_iff_exists.mp (ReachesIn.last_mem h.1)
    -- the walk meets the record somewhere, and there is one least number only
    obtain ⟨i, hmet⟩ := List.getElem?_of_mem (mem_walk_iff.mpr ⟨⟨depth, h.1⟩, hget⟩)
    obtain rfl := (hleast hmet).unique h
    exact ⟨record, hmet⟩

theorem GreatestDepths.eq_some_iff {levels : NameMap Nat} {met : String → Nat → Prop}
    (h : GreatestDepths levels met) :
    levels[name]? = some level ↔ IsGreatest {depth | met name depth} level := by
  have hgreatest : ∀ {level}, levels[name]? = some level →
      IsGreatest {depth | met name depth} level := by
    intro level hlevel
    refine ⟨h.attained name level hlevel, fun depth hdepth => ?_⟩
    obtain ⟨level', hlevel', hle⟩ := h.bounded name depth hdepth
    rw [hlevel, Option.some.injEq] at hlevel'
    rwa [hlevel']
  refine ⟨hgreatest, fun hlevel => ?_⟩
  obtain ⟨level', hlevel', _⟩ := h.bounded name level hlevel.1
  rw [hlevel', (hgreatest hlevel').unique hlevel]

/-- **The level of a record is the greatest of the fewest links** over which roots reach it. A walk
meets a record over the fewest links, also where it runs into a cycle. -/
theorem fillLevels_eq_some_iff (hnamed : records.Named) :
    (records.fillLevels link roots)[name]? = some level ↔
      IsGreatest {depth | ∃ root ∈ roots, IsLeast {n | ReachesIn records link n root name} depth}
        level := by
  simp only [(greatestDepths_fillLevels hnamed link roots).eq_some_iff, exists_getElem?_walk_iff]

/-! ## Without cycles

Where no cycle is reached, there is one way from a root to a record, so the fewest links are all
there are. The level is then the longest distance, and it satisfies the recursion along links. -/

/-- The roots reach no record that is on a cycle. Cycles among records that no root reaches do no
harm. -/
def AcyclicFrom (records : RecordMap) (link : String) (roots : List String) : Prop :=
  ∀ name, ReachedFrom records link roots name → ∀ n, ¬ReachesIn records link (n + 1) name name

theorem acyclicFrom_iff :
    AcyclicFrom records link roots ↔ ∀ root ∈ roots, records.findCycle? link root = none := by
  simp only [findCycle?_eq_none_iff]
  constructor
  · exact fun h root hroot name hreach => h name ⟨root, hroot, hreach⟩
  · rintro h name ⟨root, hroot, hreach⟩
    exact h root hroot name hreach

instance (records : RecordMap) (link : String) (roots : List String) :
    Decidable (AcyclicFrom records link roots) :=
  decidable_of_iff _ acyclicFrom_iff.symm

theorem AcyclicFrom.isLeast_iff (h : AcyclicFrom records link roots) {root : String}
    (hroot : root ∈ roots) {depth : Nat} :
    IsLeast {n | ReachesIn records link n root name} depth ↔
      ReachesIn records link depth root name := by
  refine ⟨fun hleast => hleast.1, fun hreach => ⟨hreach, fun n hn => ?_⟩⟩
  exact (hreach.length_unique hn (h name ⟨root, hroot, depth, hreach⟩)).le

/-- Where no cycle is reached, levels are longest distances. -/
theorem fillLevels_eq_some_iff_isGreatest (hnamed : records.Named)
    (hacyclic : AcyclicFrom records link roots) :
    (records.fillLevels link roots)[name]? = some level ↔
      IsGreatest (distances records link roots name) level := by
  rw [fillLevels_eq_some_iff hnamed]
  have hsets : {depth | ∃ root ∈ roots, IsLeast {n | ReachesIn records link n root name} depth} =
      distances records link roots name := by
    ext depth
    exact exists_congr fun root => and_congr_right fun hroot => hacyclic.isLeast_iff hroot
  rw [hsets]

/-- What a record links to is one link further away, if it is a record. -/
theorem succ_mem_distances {upper : String} {n : Nat}
    (hn : n ∈ distances records link roots upper)
    (hop : records.target? link upper = some name) (known : name ∈ records) :
    n + 1 ∈ distances records link roots name := by
  obtain ⟨root, hroot, hreach⟩ := hn
  exact ⟨root, hroot, hreach.snoc hop known⟩

/-- A distance that is not 0 is that of a record above, and one more link. -/
theorem exists_upper_of_succ_mem_distances {n : Nat}
    (hn : n + 1 ∈ distances records link roots name) :
    ∃ upper, records.target? link upper = some name ∧ n ∈ distances records link roots upper := by
  obtain ⟨root, hroot, hreach⟩ := hn
  obtain ⟨upper, hupper, hop⟩ := hreach.exists_last_hop
  exact ⟨upper, hop, root, hroot, hupper⟩

/-- **Levels are longest distances.** The records with a level are those that are accessible from
the roots. Where the roots reach no cycle, the level of such a record is the greatest number of
links from a root to it: 0 where no record with a level links to it, and otherwise one more than the
greatest level of those that do. -/
theorem fillLevels_longest (hnamed : records.Named) (link : String) (roots : List String) :
    (∀ name, name ∈ records.fillLevels link roots ↔ name ∈ records.accessible link roots) ∧
      (AcyclicFrom records link roots → ∀ name level,
        (records.fillLevels link roots)[name]? = some level →
          IsGreatest (distances records link roots name) level ∧
          (upperLevels records link roots name = ∅ ∧ level = 0 ∨
            ∃ greatest, IsGreatest (upperLevels records link roots name) greatest ∧
              level = greatest + 1)) := by
  refine ⟨fun name => ?_, fun hacyclic name level hlevel => ?_⟩
  · rw [mem_fillLevels_iff hnamed, mem_accessible_iff hnamed]
  have hlongest : ∀ {name level}, (records.fillLevels link roots)[name]? = some level ↔
      IsGreatest (distances records link roots name) level :=
    fillLevels_eq_some_iff_isGreatest hnamed hacyclic
  have hgreatest := hlongest.mp hlevel
  have known : name ∈ records :=
    ((mem_fillLevels_iff hnamed).mp (NameMap.mem_iff_exists.mpr ⟨level, hlevel⟩)).mem
  -- a record that links to this one is above it
  have habove : ∀ l ∈ upperLevels records link roots name, l + 1 ≤ level := by
    rintro l ⟨upper, hop, hl⟩
    exact hgreatest.2 (succ_mem_distances (hlongest.mp hl).1 hop known)
  refine ⟨hgreatest, ?_⟩
  cases level with
  | zero =>
    refine Or.inl ⟨Set.eq_empty_of_forall_notMem fun l hl => ?_, rfl⟩
    exact absurd (habove l hl) (Nat.not_succ_le_zero l)
  | succ k =>
    obtain ⟨upper, hop, hk⟩ := exists_upper_of_succ_mem_distances hgreatest.1
    obtain ⟨l, hl⟩ : ∃ l, (records.fillLevels link roots)[upper]? = some l := by
      obtain ⟨root, hroot, hreach⟩ := hk
      rw [← NameMap.mem_iff_exists, mem_fillLevels_iff hnamed]
      exact ⟨root, hroot, k, hreach⟩
    -- the longest way goes through a record that is as deep as one can be above this one
    obtain rfl : l = k :=
      Nat.le_antisymm (Nat.le_of_succ_le_succ (habove l ⟨upper, hop, hl⟩)) ((hlongest.mp hl).2 hk)
    exact Or.inr ⟨l, ⟨⟨upper, hop, hl⟩, fun l' hl' => Nat.le_of_succ_le_succ (habove l' hl')⟩, rfl⟩

/-- A chain of three records with another one above its end, and beside them two that no root leads
to: one that links to the chain, and one that links to itself. -/
def joinedChain : RecordMap :=
  Std.ExtTreeMap.ofList
    [("L1", Document.named "L1" ++ [("lower_level", .string "L2")]),
      ("L2", Document.named "L2" ++ [("lower_level", .string "LLC")]),
      ("LLC", Document.named "LLC" ++ [("lower_level", .string "DRAM")]),
      ("TLB", Document.named "TLB" ++ [("lower_level", .string "LLC")]),
      ("orphan", Document.named "orphan" ++ [("lower_level", .string "L1")]),
      ("round", Document.named "round" ++ [("lower_level", .string "round")])]

/-- A root below another one is at the level at which that one reaches it. -/
theorem fillLevels_longest_joinedChain :
    joinedChain.Named ∧ AcyclicFrom joinedChain "lower_level" ["L2", "TLB", "L1", "none"] ∧
      IsGreatest (distances joinedChain "lower_level" ["L2", "TLB", "L1", "none"] "LLC") 2 ∧
      IsGreatest (upperLevels joinedChain "lower_level" ["L2", "TLB", "L1", "none"] "LLC") 1 ∧
      "orphan" ∉ joinedChain.accessible "lower_level" ["L2", "TLB", "L1", "none"] := by
  have hnamed : joinedChain.Named := by decide +kernel
  have hacyclic : AcyclicFrom joinedChain "lower_level" ["L2", "TLB", "L1", "none"] := by
    decide +kernel
  obtain ⟨hmem, hlevels⟩ :=
    fillLevels_longest hnamed "lower_level" ["L2", "TLB", "L1", "none"]
  obtain ⟨hgreatest, hupper⟩ := hlevels hacyclic "LLC" 2 (by decide +kernel)
  refine ⟨hnamed, hacyclic, hgreatest, ?_, ?_⟩
  · rcases hupper with ⟨_, hzero⟩ | ⟨greatest, hgreatest, hlevel⟩
    · cases hzero
    · cases hlevel
      exact hgreatest
  · rw [← hmem]
    decide +kernel

end RecordMap

end MemoryHierarchy
