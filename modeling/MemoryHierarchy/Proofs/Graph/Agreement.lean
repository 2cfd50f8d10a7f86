import MemoryHierarchy.Proofs.Graph.Loop
import MemoryHierarchy.Proofs.Graph.Reachable

/-!
# Walks and searches for cycles agree

A walk and a search for a cycle go the same way, and each of them is given a bound on the number of
its steps. `Follows` is that way without a bound: it lists the records that are met until nothing is
left to follow or a name comes again.

The crux is that every way ends (`exists_follows`). The names on it are distinct names of the map,
so with each step there is room for one name less. And a way that has ended is no longer than the
map is large, so neither bound cuts it off: the walk is the list of its records, and the search
finds the names of these records with the one that comes again (`follows_iff`).

A search that finds nothing has come to an end of the links. This is what `Ends` says, without a
word about what has been visited: an end cannot be reached from a cycle (`Ends.not_round`).
-/

namespace MemoryHierarchy

namespace RecordMap

variable {records : RecordMap} {link : String} {visited : List String} {name start : String}
  {path : List (String × Document)} {again : Option String}

/-- Links are followed from a name on, when some names have been visited. The records that are met
are listed, and at the end a name may come again. -/
inductive Follows (records : RecordMap) (link : String) :
    List String → String → List (String × Document) → Option String → Prop
  /-- The name has been visited. -/
  | again {visited : List String} {name : String} (hseen : name ∈ visited) :
      Follows records link visited name [] (some name)
  /-- The name has no record. -/
  | unknown {visited : List String} {name : String} (hnew : name ∉ visited)
      (habsent : name ∉ records) : Follows records link visited name [] none
  /-- The record of the name has no link. -/
  | unlinked {visited : List String} {name : String} {record : Document} (hnew : name ∉ visited)
      (hget : records[name]? = some record) (hlink : record.string? link = none) :
      Follows records link visited name [(name, record)] none
  /-- The record of the name links to another name. -/
  | step {visited : List String} {name next : String} {record : Document}
      {path : List (String × Document)} {again : Option String} (hnew : name ∉ visited)
      (hget : records[name]? = some record) (hlink : record.string? link = some next)
      (onward : Follows records link (name :: visited) next path again) :
      Follows records link visited name ((name, record) :: path) again

/-- Links lead from a name to one that has no record, or to a record that has no link. This is the
inductive way to say that a walk terminates, with no bound on its length. -/
inductive Ends (records : RecordMap) (link : String) : String → Prop
  | unknown {name : String} (habsent : name ∉ records) : Ends records link name
  | unlinked {name : String} {record : Document} (hget : records[name]? = some record)
      (hlink : record.string? link = none) : Ends records link name
  | step {name next : String} (hop : records.target? link name = some next)
      (onward : Ends records link next) : Ends records link name

/-! ## Every way ends

A way is followed without any bound. That it ends is a theorem: each record on it is a new one, and
there are as many as the map is large. The bounds of walks and searches are larger than that, so
they never take effect. -/

/-- **Every way ends**, whatever the links are. Visited names are records and distinct, so there
cannot be more of them than there are records. -/
theorem exists_follows {visited : List String} {name : String}
    (trail : Trail records link visited name) :
    ∃ path again, Follows records link visited name path again := by
  by_cases hseen : name ∈ visited
  · exact ⟨[], some name, .again hseen⟩
  by_cases known : name ∈ records
  · obtain ⟨record, hget⟩ := NameMap.mem_iff_exists.mp known
    cases hlink : record.string? link with
    | none => exact ⟨_, none, .unlinked hseen hget hlink⟩
    | some next =>
      have trail' := trail.step hseen ((target?_of_getElem? hget).trans hlink)
      -- one name more has been visited, and no more names than there are records
      have hroom : visited.length < records.size :=
        NameMap.length_le_size trail'.nodup trail'.known
      obtain ⟨path, again, onward⟩ := exists_follows trail'
      exact ⟨_, again, .step hseen hget hlink onward⟩
  · exact ⟨[], none, .unknown hseen known⟩
termination_by records.size - visited.length
decreasing_by
  rw [List.length_cons]
  omega

/-- So does every way from a start. -/
theorem exists_follows_start (records : RecordMap) (link start : String) :
    ∃ path again, Follows records link [] start path again :=
  exists_follows (Trail.start start)

namespace Follows

/-- A walk with as many steps as there are records on the way meets them all. -/
theorem walkFrom_eq (h : Follows records link visited name path again) {fuel : Nat}
    (hfuel : path.length ≤ fuel) : records.walkFrom link fuel visited name = path := by
  induction h generalizing fuel with
  | again hseen => exact walkFrom_of_visited hseen
  | unknown hnew habsent => exact walkFrom_of_not_mem habsent
  | unlinked hnew hget hlink =>
    obtain ⟨fuel, rfl⟩ := Nat.exists_eq_add_of_le' hfuel
    rw [List.length_singleton, walkFrom_succ hnew hget, target?_of_getElem? hget, hlink]
  | step hnew hget hlink onward ih =>
    obtain ⟨fuel, rfl⟩ := Nat.exists_eq_add_of_le' hfuel
    rw [List.length_cons, ← Nat.add_assoc, walkFrom_succ hnew hget, target?_of_getElem? hget, hlink]
    exact congrArg _ (ih (Nat.le_add_left _ _))

/-- A search with one step more finds the names on the way and the one that comes again, if one
does. -/
theorem cycleFrom_eq (h : Follows records link visited name path again) {fuel : Nat}
    (hfuel : path.length < fuel) :
    records.cycleFrom link fuel visited.reverse name =
      again.map fun name => visited.reverse ++ pathNames path ++ [name] := by
  obtain ⟨fuel, rfl⟩ := Nat.exists_eq_add_of_lt hfuel
  clear hfuel
  -- the search keeps its names in the order of the way, while a way collects them in reverse
  induction h with
  | again hseen =>
    rw [cycleFrom, if_pos (List.mem_reverse.mpr hseen)]
    simp [pathNames]
  | unknown hnew habsent =>
    rw [cycleFrom, if_neg (mt List.mem_reverse.mp hnew), Std.ExtTreeMap.getElem?_eq_none habsent]
    rfl
  | unlinked hnew hget hlink =>
    rw [cycleFrom_succ (mt List.mem_reverse.mp hnew) (NameMap.mem_iff_exists.mpr ⟨_, hget⟩),
      target?_of_getElem? hget, hlink]
    rfl
  | step hnew hget hlink onward ih =>
    rw [cycleFrom_succ (mt List.mem_reverse.mp hnew) (NameMap.mem_iff_exists.mpr ⟨_, hget⟩),
      target?_of_getElem? hget, hlink]
    rw [List.length_cons, Nat.add_right_comm]
    dsimp only
    rw [← List.reverse_cons, ih]
    simp [pathNames]

/-- A way is no longer than the map is large. -/
theorem length_le (h : Follows records link visited name path again) :
    path.length ≤ records.size := by
  have hwalk := h.walkFrom_eq (Nat.le_refl _)
  have hnodup : (pathNames (records.walkFrom link path.length visited name)).Nodup :=
    (nodup_walkFrom path.length visited name).1
  rw [hwalk] at hnodup
  rw [← List.length_map Prod.fst]
  refine NameMap.length_le_size hnodup fun met hmet => ?_
  obtain ⟨⟨key, record⟩, hmem, rfl⟩ := List.mem_map.mp hmet
  obtain ⟨i, hi⟩ := List.getElem?_of_mem hmem
  rw [← hwalk] at hi
  exact (reachesIn_of_walkFrom hi).1.last_mem

/-- What comes again has been visited or met. -/
theorem again_mem (h : Follows records link visited name path again) {name' : String}
    (hagain : again = some name') : name' ∈ visited ∨ name' ∈ pathNames path := by
  induction h with
  | again hseen =>
    cases hagain
    exact Or.inl hseen
  | unknown _ _ => cases hagain
  | unlinked _ _ _ => cases hagain
  | step _ _ _ _ ih =>
    rcases ih hagain with hmem | hmem
    · rcases List.mem_cons.mp hmem with rfl | hmem
      · exact Or.inr List.mem_cons_self
      · exact Or.inl hmem
    · exact Or.inr (List.mem_cons_of_mem _ hmem)

/-- Where nothing comes again, the links have come to an end. -/
theorem ends (h : Follows records link visited name path again) (hagain : again = none) :
    Ends records link name := by
  induction h with
  | again _ => cases hagain
  | unknown _ habsent => exact .unknown habsent
  | unlinked _ hget hlink => exact .unlinked hget hlink
  | step _ hget hlink _ ih => exact .step ((target?_of_getElem? hget).trans hlink) (ih hagain)

end Follows

/-- **A walk and a search go the same way**, and their bounds do not cut it off. The relation is the
common loop of both, without their bounds; either bound is as large as the map. -/
theorem follows_iff : Follows records link [] start path again ↔
    path = records.walk link start ∧ records.findCycle? link start =
      again.map fun name => pathNames path ++ [name] := by
  have hway : ∀ {path again}, Follows records link [] start path again →
      path = records.walk link start ∧ records.findCycle? link start =
        again.map fun name => pathNames path ++ [name] := fun h =>
    ⟨(h.walkFrom_eq h.length_le).symm, h.cycleFrom_eq (Nat.lt_succ_of_le h.length_le)⟩
  refine ⟨hway, ?_⟩
  rintro ⟨rfl, hfound⟩
  obtain ⟨path, again', h⟩ := exists_follows_start records link start
  obtain ⟨rfl, hfound'⟩ := hway h
  -- the search tells what comes again
  rw [hfound] at hfound'
  have hinj : Function.Injective fun name => pathNames (records.walk link start) ++ [name] :=
    fun a b hab => by simpa using hab
  rwa [Option.map_injective hinj hfound']

/-! ## Ends and cycles

From a name the links either come to an end or lead around a cycle. They cannot do both, as there is
one link from each record. -/

namespace Ends

/-- An end stays ahead. -/
theorem next {next : String} (h : Ends records link name)
    (hop : records.target? link name = some next) : Ends records link next := by
  cases h with
  | unknown habsent => exact absurd (mem_of_target? hop) habsent
  | unlinked hget hlink =>
    rw [target?_of_getElem? hget, hlink] at hop
    cases hop
  | step hop' onward =>
    rw [hop, Option.some.injEq] at hop'
    exact hop' ▸ onward

theorem of_reaches {last : String} (h : Ends records link name)
    (hreach : Reaches records link name last) : Ends records link last := by
  obtain ⟨n, hreach⟩ := hreach
  induction hreach with
  | refl _ => exact h
  | step hop _ ih => exact ih (h.next hop)

/-- A name from which links come to an end is on no cycle. -/
theorem not_round (h : Ends records link name) (n : Nat) :
    ¬ReachesIn records link (n + 1) name name := by
  induction h with
  | unknown habsent => exact fun hround => habsent hround.start_mem
  | unlinked hget hlink =>
    intro hround
    cases hround with
    | step hop _ =>
      rw [target?_of_getElem? hget, hlink] at hop
      cases hop
  | step hop _ ih =>
    intro hround
    -- the round can be gone from the next name on
    cases hround with
    | step hop' onward =>
      rw [hop, Option.some.injEq] at hop'
      subst hop'
      exact ih (onward.snoc hop onward.start_mem)

end Ends

/-- **A search finds nothing iff the links come to an end.** A way that goes on forever comes to a
name for the second time. -/
theorem findCycle?_eq_none_iff_ends :
    records.findCycle? link start = none ↔ Ends records link start := by
  constructor
  · intro hnone
    have hway : Follows records link [] start (records.walk link start) none :=
      follows_iff.mpr ⟨rfl, hnone⟩
    exact hway.ends rfl
  · intro h
    rw [findCycle?_eq_none_iff]
    exact fun name hreach n => (h.of_reaches hreach).not_round n

/-! ## The agreement

So a walk and a search are two readings of one way: the records on it, and its names with the one
that comes again. -/

/-- What a search finds are the names of the walk and one of them again, each of which links to the
next one. -/
theorem exists_again_of_findCycle? {found : List String}
    (hfound : records.findCycle? link start = some found) :
    ∃ again ∈ pathNames (records.walk link start),
      found = pathNames (records.walk link start) ++ [again] ∧ records.Linked link found := by
  obtain ⟨path, again, h⟩ := exists_follows_start records link start
  obtain ⟨rfl, hway⟩ := follows_iff.mp h
  rw [hfound, eq_comm, Option.map_eq_some_iff] at hway
  obtain ⟨last, hagain, rfl⟩ := hway
  have hmet := (h.again_mem hagain).resolve_left List.not_mem_nil
  obtain ⟨_, _, _, _, _, hlinks, _⟩ := exists_lasso_of_findCycle? hfound
  exact ⟨last, hmet, rfl, hlinks⟩

/-- **A walk and a search for a cycle agree, and both of them end.** There is one way along the
links from a start, and it ends although nothing bounds its length: its records are those of the
walk, and the search finds their names with the one that comes again, if one does. A walk meets
records of the map, each under its name, no name twice, and so no more records than there are. The
search finds nothing iff the links lead to a name without a record or to a record without a link.
What it finds otherwise are the names of the walk and the first one that comes again, and each of
them links to the next one. -/
theorem walk_agrees_findCycle? (records : RecordMap) (link start : String) :
    let walk := records.walk link start
    let found? := records.findCycle? link start
    (∃ path again, Follows records link [] start path again) ∧
      (∀ path again, Follows records link [] start path again ↔
        path = walk ∧ found? = again.map fun name => pathNames path ++ [name]) ∧
      walk.length ≤ records.size ∧ (pathNames walk).Nodup ∧
      (∀ entry ∈ walk, records[entry.1]? = some entry.2) ∧
      (found? = none ↔ Ends records link start) ∧
      ∀ found, found? = some found → ∃ again ∈ pathNames walk,
        found = pathNames walk ++ [again] ∧ records.Linked link found := by
  intro walk found?
  -- everything is read off the one way that there is
  obtain ⟨path, again, hway⟩ := exists_follows_start records link start
  refine ⟨⟨path, again, hway⟩, fun path again => follows_iff, ?_, nodup_walk records link start, ?_,
    findCycle?_eq_none_iff_ends, fun found hfound => exists_again_of_findCycle? hfound⟩
  · have hlength := hway.length_le
    rwa [(follows_iff.mp hway).1] at hlength
  · exact fun entry hentry => (mem_walk_iff.mp hentry).2

/-- From above the way into a cycle the search finds the way and the cycle. Under the key of their
names records link to themselves, and the way is a single record. -/
theorem walk_agrees_findCycle?_wayIntoCycle :
    wayIntoCycle.findCycle? "lower_level" "above" =
        some ["above", "way", "one", "other", "one"] ∧
      wayIntoCycle.Linked "lower_level" ["above", "way", "one", "other", "one"] ∧
      pathNames (wayIntoCycle.walk "lower_level" "above") = ["above", "way", "one", "other"] ∧
      ¬Ends wayIntoCycle "lower_level" "above" ∧
      Follows wayIntoCycle "name" [] "one"
        [("one", Document.named "one" ++ [("lower_level", .string "other")])] (some "one") := by
  have hfound : wayIntoCycle.findCycle? "lower_level" "above" =
      some ["above", "way", "one", "other", "one"] := by decide +kernel
  obtain ⟨_, _, _, _, _, hends, hsome⟩ := walk_agrees_findCycle? wayIntoCycle "lower_level" "above"
  obtain ⟨again, _, hnames, hlinks⟩ := hsome _ hfound
  obtain ⟨_, hway, _⟩ := walk_agrees_findCycle? wayIntoCycle "name" "one"
  refine ⟨hfound, hlinks, ?_, ?_, ?_⟩
  · have hsplit : ["above", "way", "one", "other"] ++ ["one"] =
        pathNames (wayIntoCycle.walk "lower_level" "above") ++ [again] := hnames
    exact (List.append_inj_left' hsplit rfl).symm
  · rw [← hends, hfound]
    simp
  · exact (hway _ _).mpr (by decide +kernel)

end RecordMap

end MemoryHierarchy
