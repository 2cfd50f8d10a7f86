import MemoryHierarchy.Proofs.Check.Topology
import MemoryHierarchy.Proofs.Graph.Loop
import MemoryHierarchy.Proofs.Model.Fit

/-!
# Each loop is reported once

The check of a topology searches for a cycle from every name. Searches enter one loop at different
members and over different ways, so what they find is compared by the members: a loop has been found
already when one with the same members has.

`LoopsFound` is what the searches have come to after some names: they list loops, none of them
twice, and every loop that one of the names is on. After all names these are all loops there are,
and a model is refused for a cycle just in case there is one (`cycles_checkTopology`).
-/

namespace MemoryHierarchy

namespace Diagnostic

/-- The names that the report of a cycle lists. -/
def cycle? : Diagnostic → Option (List String)
  | .cycle names => some names
  | _ => none

/-- Is a diagnostic about the walk from a slot? -/
def isPath : Diagnostic → Bool
  | .openDataPath .. | .noWalker .. => true
  | _ => false

end Diagnostic

namespace Hierarchy

variable {system : RecordMap} {loop loop' : List String} {name : String}

/-! ## Listed loops

A search that comes back to a name it has met gives a chain with a tail in front of the loop. What
is listed is the loop alone, from the first member on and back to it. From whichever member a loop
is entered its members are the same, and links leave no choice of a second loop with one of them. -/

/-- The cycle that is listed by going around it once, back to where it starts. Which of its names is
listed first depends on the walk that found it, and is forgotten here. -/
def listedCycle (loop : List String) : Cycle String := (loop.dropLast : List String)

/-- A list goes around a loop once, back to where it starts. The first name stands at both ends, and
the names in between are distinct from it and from each other. -/
def Listed (system : RecordMap) (loop : List String) : Prop :=
  ∃ first rest, loop = first :: (rest ++ [first]) ∧
    system.IsLoop lowerLevel (first :: rest : List String)

theorem listedCycle_eq {first : String} {rest : List String} :
    listedCycle (first :: (rest ++ [first])) = (first :: rest : List String) := by
  rw [listedCycle, ← List.cons_append, List.dropLast_concat]

theorem loopOf_lasso {way rest : List String} {first : String}
    (hnodup : (way ++ first :: rest).Nodup) :
    loopOf (way ++ first :: (rest ++ [first])) = first :: (rest ++ [first]) := by
  have hlast : (way ++ first :: (rest ++ [first])).getLastD "" = first := by
    rw [List.getLastD_eq_getLast?, ← List.cons_append, ← List.append_assoc, List.getLast?_concat]
    rfl
  -- the way leads to the loop without meeting its first member
  have hway : ∀ seen ∈ way, decide (seen ≠ first) = true := by
    intro seen hseen
    rw [decide_eq_true_eq]
    exact (List.nodup_append.mp hnodup).2.2 seen hseen first List.mem_cons_self
  rw [loopOf, hlast, List.dropWhile_append_of_pos hway, List.dropWhile_cons_of_neg (by simp)]

theorem listed_loopOf {chain : List String}
    (hfound : system.findCycle? lowerLevel name = some chain) : Listed system (loopOf chain) := by
  obtain ⟨way, first, rest, rfl, hnodup, hlinks, _⟩ :=
    RecordMap.exists_lasso_of_findCycle? hfound
  rw [loopOf_lasso hnodup]
  exact ⟨first, rest, rfl, RecordMap.isLoop_of_lasso hnodup hlinks⟩

/-- From a member of a loop that loop is found. -/
theorem exists_loopOf_of_mem {c : Cycle String} (hloop : system.IsLoop lowerLevel c)
    (hname : name ∈ c) :
    ∃ chain, system.findCycle? lowerLevel name = some chain ∧ listedCycle (loopOf chain) = c := by
  obtain ⟨way, first, rest, hfound, hnodup, rfl⟩ := hloop.exists_findCycle? hname
  exact ⟨_, hfound, by rw [loopOf_lasso hnodup, listedCycle_eq]⟩

namespace Listed

theorem isLoop (h : Listed system loop) : system.IsLoop lowerLevel (listedCycle loop) := by
  obtain ⟨first, rest, rfl, hloop⟩ := h
  rw [listedCycle_eq]
  exact hloop

theorem mem_members_iff (h : Listed system loop) :
    name ∈ loopMembers loop ↔ name ∈ listedCycle loop := by
  obtain ⟨first, rest, rfl, _⟩ := h
  rw [listedCycle_eq, Cycle.mem_coe_iff, loopMembers, Std.ExtTreeSet.mem_ofList,
    List.contains_iff_mem]
  simp only [List.mem_cons, List.mem_append, List.not_mem_nil, or_false]
  tauto

/-- **Loops are told apart by their members.** From any member there is one way on, so a loop has no
more freedom than its members. -/
theorem members_eq_iff (h : Listed system loop) (h' : Listed system loop') :
    (loopMembers loop).toList = (loopMembers loop').toList ↔
      listedCycle loop = listedCycle loop' := by
  constructor
  · intro hmembers
    obtain ⟨member, hmember⟩ := h.isLoop.exists_mem
    refine h.isLoop.eq_of_mem h'.isLoop hmember ?_
    rw [← h.mem_members_iff, ← Std.ExtTreeSet.mem_toList, hmembers] at hmember
    rwa [← h'.mem_members_iff, ← Std.ExtTreeSet.mem_toList]
  · intro hcycle
    refine congrArg Std.ExtTreeSet.toList (Std.ExtTreeSet.ext_mem fun member => ?_)
    rw [h.mem_members_iff, h'.mem_members_iff, hcycle]

/-- A list of loops has one with the members of another iff it has that other one. -/
theorem any_members_iff {loops : List (List String)} (hloops : ∀ loop ∈ loops, Listed system loop)
    (h : Listed system loop) :
    (loops.any fun other => (loopMembers other).toList == (loopMembers loop).toList) = true ↔
      listedCycle loop ∈ loops.map listedCycle := by
  rw [List.any_eq_true, List.mem_map]
  refine exists_congr fun other => and_congr_right fun hother => ?_
  rw [beq_iff_eq]
  exact (hloops other hother).members_eq_iff h

end Listed

/-! ## The searches from all names

A search is started from every name. It adds the loop that it runs into unless a loop with those
members is there already, so each loop is found once, from the first name that leads to it. -/

/-- What has been found by searches from some names: loops, each of them once, and those among them
that one of the names is on. -/
structure LoopsFound (system : RecordMap) (names : List String) (loops : List (List String)) :
    Prop where
  listed : ∀ loop ∈ loops, Listed system loop
  nodup : (loops.map listedCycle).Nodup
  found : ∀ c, system.IsLoop lowerLevel c → (∃ name ∈ names, name ∈ c) → c ∈ loops.map listedCycle

/-- A loop that the new name is on is the one that is found from it. -/
theorem LoopsFound.mem_or_exists {names : List String} {loops : List (List String)}
    (h : LoopsFound system names loops) {name : String} {c : Cycle String}
    (hloop : system.IsLoop lowerLevel c) (hmem : ∃ other ∈ names ++ [name], other ∈ c) :
    c ∈ loops.map listedCycle ∨
      ∃ chain, system.findCycle? lowerLevel name = some chain ∧ listedCycle (loopOf chain) = c := by
  obtain ⟨other, hother, hmem⟩ := hmem
  rcases List.mem_append.mp hother with hother | hother
  · exact .inl (h.found c hloop ⟨other, hother, hmem⟩)
  · rw [List.mem_singleton] at hother
    exact .inr (exists_loopOf_of_mem hloop (hother ▸ hmem))

/-- One more search adds the loop that it leads to, unless that has been found. -/
theorem LoopsFound.addLoop {names : List String} {loops : List (List String)}
    (h : LoopsFound system names loops) (name : String) :
    LoopsFound system (names ++ [name]) (addLoop system loops name) := by
  unfold Hierarchy.addLoop
  -- a search that finds nothing adds no loop, and no loop goes through its start
  cases hfound : system.findCycle? lowerLevel name with
  | none =>
    refine ⟨h.listed, h.nodup, fun c hloop hmem => ?_⟩
    rcases h.mem_or_exists hloop hmem with hknown | ⟨chain, hchain, _⟩
    · exact hknown
    · rw [hfound] at hchain
      cases hchain
  | some chain =>
    have hlisted := listed_loopOf hfound
    -- a loop through one of the names is an old one, or the one that was just found
    have hnew : ∀ c, system.IsLoop lowerLevel c → (∃ other ∈ names ++ [name], other ∈ c) →
        c ∈ loops.map listedCycle ∨ listedCycle (loopOf chain) = c := by
      intro c hloop hmem
      refine (h.mem_or_exists hloop hmem).imp_right ?_
      rintro ⟨chain', hchain', hcycle⟩
      rw [hfound, Option.some.injEq] at hchain'
      rw [hchain', hcycle]
    dsimp only
    split
    · next hknown =>
      refine ⟨h.listed, h.nodup, fun c hloop hmem => ?_⟩
      rcases hnew c hloop hmem with hold | rfl
      · exact hold
      · exact (Listed.any_members_iff h.listed hlisted).mp hknown
    · next hunknown =>
      rw [Listed.any_members_iff h.listed hlisted] at hunknown
      refine ⟨?_, ?_, ?_⟩
      · intro loop hloop
        rcases List.mem_append.mp hloop with hold | hlast
        · exact h.listed loop hold
        · rw [List.mem_singleton.mp hlast]
          exact hlisted
      · rw [List.map_append, List.map_singleton, ← List.concat_eq_append, List.nodup_concat]
        exact ⟨hunknown, h.nodup⟩
      · intro c hloop hmem
        rw [List.map_append, List.map_singleton, List.mem_append, List.mem_singleton]
        exact (hnew c hloop hmem).imp_right Eq.symm

theorem LoopsFound.foldl {names more : List String} {loops : List (List String)}
    (h : LoopsFound system names loops) :
    LoopsFound system (names ++ more) (more.foldl (Hierarchy.addLoop system) loops) := by
  induction more generalizing names loops with
  | nil => rwa [List.append_nil]
  | cons name more ih =>
    have hstep := ih (h.addLoop name)
    rwa [List.append_assoc] at hstep

theorem loopsFound_loops (system : RecordMap) : LoopsFound system system.keys (loops system) := by
  have hstart : LoopsFound system [] [] := ⟨by simp, List.nodup_nil, by simp⟩
  exact hstart.foldl

/-- **The loops that are listed are all loops there are.** A loop is found from the first of its
members at the latest, and is not added again. -/
theorem mem_listedCycle_loops_iff {c : Cycle String} :
    c ∈ (loops system).map listedCycle ↔ system.IsLoop lowerLevel c := by
  constructor
  · intro hmem
    obtain ⟨loop, hloop, rfl⟩ := List.mem_map.mp hmem
    exact ((loopsFound_loops system).listed loop hloop).isLoop
  · intro hloop
    obtain ⟨member, hmember⟩ := hloop.exists_mem
    obtain ⟨n, hround⟩ := hloop.exists_round hmember
    exact (loopsFound_loops system).found c hloop
      ⟨member, Std.ExtTreeMap.mem_keys.mpr hround.start_mem, hmember⟩

/-! ## The report

The report has lines of other kinds before and behind those of the loops. A line that goes around a
cycle is none of these: what is said of slots, links and paths has other constructors. -/

/-- A line on references is about a slot of a core or about a link of a record. -/
theorem exists_of_mem_checkReferences {h : Hierarchy} {d : Diagnostic}
    (hd : d ∈ h.checkReferences) :
    (∃ core slot target, d = .unknownCache core slot target) ∨
      ∃ kind name target, ∃ link ∈ [lowerLevel, lowerTranslate],
        d = .unknownElement kind name link target := by
  have hslot : ∀ core slot, d ∈ h.checkSlot core slot →
      ∃ core slot target, d = .unknownCache core slot target := by
    intro core slot hd
    unfold checkSlot at hd
    split at hd
    · split at hd
      · cases hd
      · exact ⟨_, _, _, List.mem_singleton.mp hd⟩
    · cases hd
  have hlinks : ∀ system kind records, d ∈ checkLinks system kind records →
      ∃ kind name target, ∃ link ∈ [lowerLevel, lowerTranslate],
        d = .unknownElement kind name link target := by
    intro system kind records hd
    obtain ⟨⟨name, record⟩, _, hd⟩ := List.mem_flatMap.mp hd
    obtain ⟨link, hlink, hd⟩ := List.mem_flatMap.mp hd
    unfold checkLink at hd
    split at hd
    · split at hd
      · cases hd
      · exact ⟨_, _, _, link, hlink, List.mem_singleton.mp hd⟩
    · cases hd
  -- slots of cores, then links of caches, then links of walkers
  unfold checkReferences at hd
  rcases List.mem_append.mp hd with hd | hd
  · rcases List.mem_append.mp hd with hd | hd
    · obtain ⟨core, _, hd⟩ := List.mem_flatMap.mp hd
      obtain ⟨slot, _, hd⟩ := List.mem_flatMap.mp hd
      exact Or.inl (hslot core slot hd)
    · exact Or.inr (hlinks _ _ _ hd)
  · exact Or.inr (hlinks _ _ _ hd)

theorem not_cycle_of_mem_checkReferences {h : Hierarchy} {d : Diagnostic}
    (hd : d ∈ h.checkReferences) : d.cycle? = none ∧ d.isPath = false := by
  rcases exists_of_mem_checkReferences hd with ⟨_, _, _, rfl⟩ | ⟨_, _, _, _, _, rfl⟩
  · exact ⟨rfl, rfl⟩
  · exact ⟨rfl, rfl⟩

theorem isPath_of_mem_checkPaths {h : Hierarchy} {d : Diagnostic} (hd : d ∈ h.checkPaths) :
    d.isPath = true := by
  obtain ⟨core, _, hd⟩ := List.mem_flatMap.mp hd
  -- data paths first, then translation paths; each check says at most one thing
  rcases List.mem_append.mp hd with hd | hd
  · obtain ⟨slot, _, hd⟩ := List.mem_flatMap.mp hd
    unfold checkDataPath at hd
    split at hd
    · cases hd
    · split at hd
      · cases hd
      · split at hd
        · cases hd
        · rw [List.mem_singleton.mp hd]
          rfl
  · obtain ⟨slot, _, hd⟩ := List.mem_flatMap.mp hd
    unfold checkTranslationPath at hd
    split at hd
    · cases hd
    · dsimp only at hd
      split at hd
      · rw [List.mem_singleton.mp hd]
        rfl
      · cases hd

/-- The cycles of the report are the loops that are listed. -/
theorem filterMap_cycle?_checkTopology (h : Hierarchy) :
    h.checkTopology.filterMap Diagnostic.cycle? = loops h.system := by
  have hreferences : h.checkReferences.filterMap Diagnostic.cycle? = [] :=
    List.filterMap_eq_nil_iff.mpr fun d hd => (not_cycle_of_mem_checkReferences hd).1
  have hpaths : h.checkPaths.filterMap Diagnostic.cycle? = [] := by
    refine List.filterMap_eq_nil_iff.mpr fun d hd => ?_
    have hpath := isPath_of_mem_checkPaths hd
    cases d with
    | cycle names => cases hpath
    | _ => rfl
  -- only the lines in the middle are cycles
  have hloops : ((loops h.system).map Diagnostic.cycle).filterMap Diagnostic.cycle? =
      loops h.system := by
    rw [List.filterMap_map]
    exact List.filterMap_some
  unfold checkTopology
  dsimp only
  rw [List.filterMap_append, List.filterMap_append, hreferences, hloops, List.nil_append]
  split
  · rw [hpaths, List.append_nil]
  · rw [List.filterMap_nil, List.append_nil]

/-- Where there are loops, nothing is said of paths. -/
theorem isPath_eq_false_of_loops {h : Hierarchy} (hloops : loops h.system ≠ []) {d : Diagnostic}
    (hd : d ∈ h.checkTopology) : d.isPath = false := by
  unfold checkTopology at hd
  dsimp only at hd
  rw [if_neg (by simpa using hloops), List.append_nil, List.mem_append] at hd
  rcases hd with hd | hd
  · exact (not_cycle_of_mem_checkReferences hd).2
  · obtain ⟨loop, _, rfl⟩ := List.mem_map.mp hd
    rfl

end Hierarchy

/-! ## Models

Reading a model looks for a cycle before anything else, and with the same search. -/

namespace Model

variable {r : ResolvedConfiguration}

theorem firstCycle?_eq_none_iff :
    firstCycle? r.hierarchy.system = none ↔ r.hierarchy.system.Acyclic lowerLevel := by
  refine ⟨fun hnone => RecordMap.acyclic_iff.mpr fun name hname => ?_, firstCycle?_eq_none⟩
  have hsearch := List.findSome?_eq_none_iff.mp hnone name (Std.ExtTreeMap.mem_keys.mpr hname)
  rwa [Option.map_eq_none_iff] at hsearch

/-- Only a cycle is refused as a cycle: all other errors name a record that does not fit. -/
theorem ofResolved_eq_cycle_iff {start : String} {chain : List String} :
    ofResolved r = .error (.cycle start chain) ↔
      firstCycle? r.hierarchy.system = some (start, chain) := by
  unfold ofResolved
  cases firstCycle? r.hierarchy.system with
  | some found =>
    constructor
    · intro herror
      cases herror
      rfl
    · intro hfound
      cases hfound
      rfl
  | none =>
    -- past the search for a cycle each error has another cause
    refine iff_of_false (fun herror => ?_) (by simp)
    rcases bind_eq_error_iff.mp herror with hcores | ⟨_, _, herror⟩
    · obtain ⟨_, _, hcore⟩ := exists_of_mapM_eq_error hcores
      obtain ⟨_, hcause, _⟩ := exists_of_convert_eq_error hcore
      cases hcause
    rcases bind_eq_error_iff.mp herror with hcaches | ⟨_, _, herror⟩
    · obtain ⟨_, _, _, _, hcause, _⟩ := exists_of_typedMap_eq_error hcaches
      cases hcause
    rcases bind_eq_error_iff.mp herror with hwalkers | ⟨_, _, herror⟩
    · obtain ⟨_, _, _, _, hcause, _⟩ := exists_of_typedMap_eq_error hwalkers
      cases hcause
    rcases bind_eq_error_iff.mp herror with hphysical | ⟨_, _, herror⟩
    · obtain ⟨_, hcause, _⟩ := exists_of_convert_eq_error hphysical
      cases hcause
    rcases bind_eq_error_iff.mp herror with hvirtual | ⟨_, _, hpure⟩
    · obtain ⟨_, hcause, _⟩ := exists_of_convert_eq_error hvirtual
      cases hcause
    · cases hpure

end Model

open Hierarchy in
/-- **Each loop of lower levels is reported once**, by a line that goes around it and back to where
it starts; then nothing is said of paths, and there is such a line just in case the model of the
configuration is refused for a cycle. -/
theorem cycles_checkTopology (r : ResolvedConfiguration) :
    let system := r.hierarchy.system
    let report := r.hierarchy.checkTopology
    let cycles := report.filterMap Diagnostic.cycle?
    (∀ d ∈ report, ∀ names, d.cycle? = some names → ∃ first rest,
        names = first :: (rest ++ [first]) ∧
        system.IsLoop lowerLevel (first :: rest : List String) ∧
        d.message = "cycle in lower_level chain: " ++ " -> ".intercalate names) ∧
      (cycles.map listedCycle).Nodup ∧
      (∀ c : Cycle String, c ∈ cycles.map listedCycle ↔ system.IsLoop lowerLevel c) ∧
      (cycles ≠ [] → ∀ d ∈ report, d.isPath = false) ∧
      (cycles ≠ [] ↔ ∃ start chain, Model.ofResolved r = .error (.cycle start chain)) := by
  intro system report cycles
  -- the cycles of the report are the loops that the searches have found
  have hcycles : cycles = loops system := filterMap_cycle?_checkTopology _
  have hfound := loopsFound_loops system
  refine ⟨?_, ?_, ?_, ?_, ?_⟩
  · intro d hd names hnames
    have hmem : names ∈ cycles := List.mem_filterMap.mpr ⟨d, hd, hnames⟩
    obtain ⟨first, rest, hshape, hloop⟩ := hfound.listed names (hcycles ▸ hmem)
    refine ⟨first, rest, hshape, hloop, ?_⟩
    cases d with
    | cycle members =>
      cases hnames
      rfl
    | _ => cases hnames
  · rw [hcycles]
    exact hfound.nodup
  · intro c
    rw [hcycles]
    exact mem_listedCycle_loops_iff
  · intro hne d hd
    rw [hcycles] at hne
    exact isPath_eq_false_of_loops hne hd
  -- the reader of models looks for a cycle itself, from each name in turn
  · simp only [Model.ofResolved_eq_cycle_iff]
    rw [hcycles, ne_eq, loops_eq_nil_iff, ← Model.firstCycle?_eq_none_iff, ← ne_eq,
      Option.ne_none_iff_exists', Prod.exists]

end MemoryHierarchy
