import MemoryHierarchy.Graph.Walk
import MemoryHierarchy.Proofs.Record

/-!
# Walks follow links

Under one key every record has at most one link, so `ReachesIn` is a partial function of the number
of links, and a walk meets exactly the records that can be reached, each of them once.

The crux is that the bound on the length of a walk is never what ends it. `Trail` is the invariant
of the names visited so far: they are distinct names of the map, each of them leads to the name the
walk is about to visit, and no link leaves them except to that name. As many distinct names as the
map has records are all its names, so a walk that has run out of steps stands at a name it has met.
-/

namespace MemoryHierarchy

namespace RecordMap

variable {records : RecordMap} {link : String}

theorem target?_eq_some_iff {name next : String} :
    records.target? link name = some next ↔
      ∃ record, records[name]? = some record ∧ record.string? link = some next := by
  rw [target?, Option.bind_eq_some_iff]

theorem target?_of_getElem? {name : String} {record : Document}
    (hget : records[name]? = some record) : records.target? link name = record.string? link := by
  rw [target?, hget, Option.bind_some]

theorem mem_of_target? {name next : String} (hop : records.target? link name = some next) :
    name ∈ records := by
  obtain ⟨record, hget, _⟩ := target?_eq_some_iff.mp hop
  exact NameMap.mem_iff_exists.mpr ⟨record, hget⟩

/-! ## Reaching is a partial function of the number of links

From a record there is one link at most, so after a number of links one record is reached or none.
Two ways between records therefore differ only in how often they go around a cycle. -/

namespace ReachesIn

theorem last_mem {n : Nat} {name last : String} (h : ReachesIn records link n name last) :
    last ∈ records := by
  induction h with
  | refl known => exact known
  | step _ _ ih => exact ih

theorem start_mem {n : Nat} {name last : String} (h : ReachesIn records link n name last) :
    name ∈ records := by
  cases h with
  | refl known => exact known
  | step hop _ => exact mem_of_target? hop

theorem trans {m n : Nat} {a b c : String} (hab : ReachesIn records link m a b)
    (hbc : ReachesIn records link n b c) : ReachesIn records link (m + n) a c := by
  induction hab with
  | refl _ => rw [Nat.zero_add]; exact hbc
  | step hop _ ih => rw [Nat.add_right_comm]; exact .step hop (ih hbc)

/-- One more link, to a record of the map. -/
theorem snoc {n : Nat} {a b c : String} (hab : ReachesIn records link n a b)
    (hop : records.target? link b = some c) (known : c ∈ records) :
    ReachesIn records link (n + 1) a c :=
  hab.trans (.step hop (.refl known))

/-- A record reached over more links is reached through the one reached over fewer. -/
theorem sub {m n : Nat} {a b c : String} (hab : ReachesIn records link m a b)
    (hac : ReachesIn records link (m + n) a c) : ReachesIn records link n b c := by
  induction hab with
  | refl _ => rw [Nat.zero_add] at hac; exact hac
  | step hop _ ih =>
    rw [Nat.add_right_comm] at hac
    cases hac with
    | step hop' onward =>
      rw [hop, Option.some.injEq] at hop'
      subst hop'
      exact ih onward

/-- One number of links leads to one record only. -/
theorem unique {n : Nat} {a b c : String} (hab : ReachesIn records link n a b)
    (hac : ReachesIn records link n a c) : b = c := by
  cases hab.sub (n := 0) hac
  rfl

/-- The last of several links. -/
theorem exists_last_hop {n : Nat} {a c : String} (hac : ReachesIn records link (n + 1) a c) :
    ∃ b, ReachesIn records link n a b ∧ records.target? link b = some c := by
  induction n generalizing a with
  | zero =>
    cases hac with
    | step hop onward =>
      cases onward
      exact ⟨a, .refl (mem_of_target? hop), hop⟩
  | succ n ih =>
    cases hac with
    | step hop onward =>
      obtain ⟨b, hb, hlast⟩ := ih onward
      exact ⟨b, .step hop hb, hlast⟩

/-- What is reached stays reached where records and the links between them are kept. -/
theorem mono {before after : RecordMap} {n : Nat} {a b : String}
    (hmem : ∀ name ∈ before, name ∈ after)
    (hlinks : ∀ name, ∀ next ∈ before, before.target? link name = some next →
      after.target? link name = some next)
    (hab : ReachesIn before link n a b) : ReachesIn after link n a b := by
  induction hab with
  | refl known => exact .refl (hmem _ known)
  | step hop onward ih => exact .step (hlinks _ _ onward.start_mem hop) ih

/-- A round can be gone any number of times. -/
theorem rounds {n : Nat} {a : String} (hround : ReachesIn records link n a a) (times : Nat) :
    ReachesIn records link (times * n) a a := by
  induction times with
  | zero => rw [Nat.zero_mul]; exact .refl hround.start_mem
  | succ times ih => rw [Nat.succ_mul]; exact ih.trans hround

end ReachesIn

theorem Reaches.refl {name : String} (known : name ∈ records) :
    Reaches records link name name := ⟨0, .refl known⟩

theorem Reaches.head {name next last : String} (hop : records.target? link name = some next)
    (onward : Reaches records link next last) : Reaches records link name last := by
  obtain ⟨n, h⟩ := onward
  exact ⟨n + 1, .step hop h⟩

theorem Reaches.tail {name mid last : String} (h : Reaches records link name mid)
    (hop : records.target? link mid = some last) (known : last ∈ records) :
    Reaches records link name last := by
  obtain ⟨n, h⟩ := h
  exact ⟨n + 1, h.snoc hop known⟩

theorem Reaches.last_mem {name last : String} (h : Reaches records link name last) :
    last ∈ records := by
  obtain ⟨_, h⟩ := h
  exact h.last_mem

theorem Reaches.start_mem {name last : String} (h : Reaches records link name last) :
    name ∈ records := by
  obtain ⟨_, h⟩ := h
  exact h.start_mem

/-- A record that is on no cycle is reached over one number of links only. -/
theorem ReachesIn.length_unique {m n : Nat} {a b : String} (hm : ReachesIn records link m a b)
    (hn : ReachesIn records link n a b) (hround : ∀ k, ¬ReachesIn records link (k + 1) b b) :
    m = n := by
  -- two ways of different lengths: the rest of the longer one leads back to its own end
  have shorter : ∀ {m n : Nat}, ReachesIn records link m a b → ReachesIn records link n a b →
      ¬m < n := by
    intro m n hm hn hlt
    obtain ⟨k, rfl⟩ := Nat.exists_eq_add_of_lt hlt
    rw [Nat.add_assoc] at hn
    exact hround k (hm.sub hn)
  have := shorter hm hn
  have := shorter hn hm
  omega

/-- Without cycles so is every record. -/
theorem Acyclic.length_unique (hacyclic : records.Acyclic link) {m n : Nat} {a b : String}
    (hm : ReachesIn records link m a b) (hn : ReachesIn records link n a b) : m = n :=
  hm.length_unique hn fun k => hacyclic k b

/-- Links along which a rank grows form no cycle. -/
theorem acyclic_of_rank (rank : String → Nat)
    (hrank : ∀ name next, records.target? link name = some next → next ∈ records →
      rank name < rank next) : records.Acyclic link := by
  have hgrow : ∀ {n : Nat} {name last : String}, ReachesIn records link n name last →
      rank name + n ≤ rank last := by
    intro n name last hreach
    induction hreach with
    | refl _ => exact Nat.le_refl _
    | step hop onward ih =>
      have := hrank _ _ hop onward.start_mem
      omega
  intro n name hround
  have := hgrow hround
  omega

/-! ## The names visited so far

A walk and the search for a cycle share one invariant of what they have visited. -/

/-- The names visited on the way to a name. It is closed under links up to the name that comes next,
which makes the first repetition a cycle. -/
structure Trail (records : RecordMap) (link : String) (visited : List String) (name : String) :
    Prop where
  nodup : visited.Nodup
  known : ∀ seen ∈ visited, seen ∈ records
  closed : ∀ seen ∈ visited, ∀ next, records.target? link seen = some next →
    next ∈ visited ∨ next = name
  leads : ∀ seen ∈ visited, ∃ n last,
    ReachesIn records link n seen last ∧ records.target? link last = some name

namespace Trail

variable {visited : List String} {name : String}

theorem start (name : String) : Trail records link [] name where
  nodup := List.nodup_nil
  known := by simp
  closed := by simp
  leads := by simp

/-- Visiting a name and following its link keeps the invariant. -/
theorem step (trail : Trail records link visited name) (hnew : name ∉ visited) {next : String}
    (hop : records.target? link name = some next) :
    Trail records link (name :: visited) next where
  nodup := List.nodup_cons.mpr ⟨hnew, trail.nodup⟩
  known := by
    intro seen hseen
    rcases List.mem_cons.mp hseen with rfl | hseen
    · exact mem_of_target? hop
    · exact trail.known seen hseen
  closed := by
    intro seen hseen other hother
    rcases List.mem_cons.mp hseen with rfl | hseen
    · rw [hop, Option.some.injEq] at hother
      exact Or.inr hother.symm
    -- the name that was next has been visited now
    · rcases trail.closed seen hseen other hother with hmem | rfl
      · exact Or.inl (List.mem_cons_of_mem _ hmem)
      · exact Or.inl List.mem_cons_self
  leads := by
    intro seen hseen
    rcases List.mem_cons.mp hseen with rfl | hseen
    · exact ⟨0, seen, .refl (mem_of_target? hop), hop⟩
    · obtain ⟨n, last, hreach, hlast⟩ := trail.leads seen hseen
      exact ⟨n + 1, name, hreach.snoc hlast (mem_of_target? hop), hop⟩

/-- The order of what has been visited does not matter. -/
theorem perm {visited' : List String} (trail : Trail records link visited name)
    (hperm : visited.Perm visited') : Trail records link visited' name where
  nodup := hperm.nodup_iff.mp trail.nodup
  known := fun seen hseen => trail.known seen (hperm.mem_iff.mpr hseen)
  closed := by
    intro seen hseen next hnext
    rw [← hperm.mem_iff]
    exact trail.closed seen (hperm.mem_iff.mpr hseen) next hnext
  leads := fun seen hseen => trail.leads seen (hperm.mem_iff.mpr hseen)

/-- What can be reached from a name that has been visited has been visited. -/
theorem mem_of_reachesIn (trail : Trail records link visited name) (hname : name ∈ visited)
    {n : Nat} {seen last : String} (hseen : seen ∈ visited)
    (hreach : ReachesIn records link n seen last) : last ∈ visited := by
  induction hreach with
  | refl _ => exact hseen
  | step hop _ ih =>
    rcases trail.closed _ hseen _ hop with hmem | rfl
    · exact ih hmem
    · exact ih hname

/-- A name that comes a second time is on a cycle. -/
theorem exists_round (trail : Trail records link visited name) (hname : name ∈ visited) :
    ∃ n, ReachesIn records link (n + 1) name name := by
  obtain ⟨n, last, hreach, hlast⟩ := trail.leads name hname
  exact ⟨n, hreach.snoc hlast (trail.known name hname)⟩

/-- When all records have been visited, so has the name, if it has a record. -/
theorem mem_of_full (trail : Trail records link visited name)
    (hfull : records.size ≤ visited.length) (hname : name ∈ records) : name ∈ visited :=
  NameMap.mem_of_size_le trail.nodup trail.known hfull hname

end Trail

/-! ## What a walk meets

A walk stops where a name comes again. So it meets each record once and no record late, and what it
has not met cannot be reached. -/

/-- The names under which a path meets its records. -/
def pathNames (path : List (String × Document)) : List String := path.map Prod.fst

theorem walkFrom_succ {fuel : Nat} {visited : List String} {name : String} {record : Document}
    (hnew : name ∉ visited) (hget : records[name]? = some record) :
    records.walkFrom link (fuel + 1) visited name =
      (name, record) :: match records.target? link name with
        | none => []
        | some next => records.walkFrom link fuel (name :: visited) next := by
  rw [walkFrom, if_neg hnew, target?_of_getElem? hget]
  cases hlink : record.string? link with
  | none => simp only [hget, hlink]
  | some next => simp only [hget, hlink]

theorem walkFrom_of_visited {fuel : Nat} {visited : List String} {name : String}
    (hname : name ∈ visited) : records.walkFrom link fuel visited name = [] := by
  cases fuel with
  | zero => rfl
  | succ fuel => rw [walkFrom, if_pos hname]

theorem walkFrom_of_not_mem {fuel : Nat} {visited : List String} {name : String}
    (hname : name ∉ records) : records.walkFrom link fuel visited name = [] := by
  cases fuel with
  | zero => rfl
  | succ fuel =>
    rw [walkFrom]
    have hnone : records[name]? = none := Std.ExtTreeMap.getElem?_eq_none hname
    simp only [hnone, ite_self]

/-- A walk that may visit all records is no longer where it may go on. -/
theorem walkFrom_add {fuel : Nat} {visited : List String} {name : String}
    (trail : Trail records link visited name) (hfuel : records.size ≤ visited.length + fuel)
    (more : Nat) :
    records.walkFrom link (fuel + more) visited name = records.walkFrom link fuel visited name := by
  induction fuel generalizing visited name with
  | zero =>
    by_cases hvisited : name ∈ visited
    · rw [walkFrom_of_visited hvisited, walkFrom_of_visited hvisited]
    · -- every record has been visited, so the name has none
      have hunknown : name ∉ records := fun hname => hvisited (trail.mem_of_full hfuel hname)
      rw [walkFrom_of_not_mem hunknown, walkFrom_of_not_mem hunknown]
  | succ fuel ih =>
    by_cases hvisited : name ∈ visited
    · rw [walkFrom_of_visited hvisited, walkFrom_of_visited hvisited]
    by_cases hname : name ∈ records
    · obtain ⟨record, hget⟩ := NameMap.mem_iff_exists.mp hname
      rw [Nat.add_right_comm, walkFrom_succ hvisited hget, walkFrom_succ hvisited hget]
      cases hop : records.target? link name with
      | none => rfl
      | some next =>
        -- one more name is visited with one step less to go
        refine congrArg _ (ih (trail.step hvisited hop) ?_)
        rw [List.length_cons]
        omega
    · rw [walkFrom_of_not_mem hname, walkFrom_of_not_mem hname]

/-- The record met after some links is the one reached over as many. -/
theorem reachesIn_of_walkFrom {fuel i : Nat} {visited : List String} {name key : String}
    {record : Document}
    (hmet : (records.walkFrom link fuel visited name)[i]? = some (key, record)) :
    ReachesIn records link i name key ∧ records[key]? = some record := by
  -- induction on the steps that are left; each of them visits one more name
  induction fuel generalizing visited name i with
  | zero => simp [walkFrom] at hmet
  | succ fuel ih =>
    by_cases hname : name ∈ visited
    · rw [walkFrom_of_visited hname] at hmet
      simp at hmet
    cases hget : records[name]? with
    | none =>
      rw [walkFrom, if_neg hname, hget] at hmet
      simp at hmet
    | some first =>
      have known : name ∈ records := NameMap.mem_iff_exists.mpr ⟨first, hget⟩
      rw [walkFrom_succ hname hget] at hmet
      cases i with
      | zero =>
        simp only [List.getElem?_cons_zero, Option.some.injEq, Prod.mk.injEq] at hmet
        obtain ⟨rfl, rfl⟩ := hmet
        exact ⟨.refl known, hget⟩
      | succ i =>
        rw [List.getElem?_cons_succ] at hmet
        cases hop : records.target? link name with
        | none => simp [hop] at hmet
        | some next =>
          simp only [hop] at hmet
          obtain ⟨hreach, hrecord⟩ := ih hmet
          exact ⟨.step hop hreach, hrecord⟩

/-- A walk meets no name twice, and none that has been visited. -/
theorem nodup_walkFrom (fuel : Nat) (visited : List String) (name : String) :
    (pathNames (records.walkFrom link fuel visited name)).Nodup ∧
      ∀ seen ∈ visited, seen ∉ pathNames (records.walkFrom link fuel visited name) := by
  induction fuel generalizing visited name with
  | zero => simp [walkFrom, pathNames]
  | succ fuel ih =>
    by_cases hname : name ∈ visited
    · rw [walkFrom_of_visited hname]
      simp [pathNames]
    cases hget : records[name]? with
    | none =>
      rw [walkFrom, if_neg hname, hget]
      simp [pathNames]
    | some record =>
      rw [walkFrom_succ hname hget]
      cases records.target? link name with
      | none =>
        simp only [pathNames, List.map_cons, List.map_nil, List.mem_singleton]
        exact ⟨List.nodup_singleton _, fun seen hseen heq => hname (heq ▸ hseen)⟩
      | some next =>
        -- the rest of the walk passes over the name, which has been visited by then
        obtain ⟨hnodup, hfresh⟩ := ih (name :: visited) next
        simp only [pathNames, List.map_cons, List.nodup_cons, List.mem_cons, not_or]
        refine ⟨⟨hfresh name List.mem_cons_self, hnodup⟩, fun seen hseen => ⟨?_, ?_⟩⟩
        · exact fun heq => hname (heq ▸ hseen)
        · exact hfresh seen (List.mem_cons_of_mem _ hseen)

/-- **A walk meets all that can be reached**, apart from what has been visited. The visited names
are a trail, which leads nowhere but to the name that comes next. -/
theorem mem_walkFrom_of_reaches (fuel : Nat) {visited : List String} {name last : String}
    (trail : Trail records link visited name) (hfuel : records.size ≤ visited.length + fuel)
    (hreach : Reaches records link name last) :
    last ∈ visited ∨ last ∈ pathNames (records.walkFrom link fuel visited name) := by
  obtain ⟨n, hreach⟩ := hreach
  by_cases hname : name ∈ visited
  · exact Or.inl (trail.mem_of_reachesIn hname hname hreach)
  induction fuel generalizing visited name n with
  -- out of steps: every record has been visited, so the name has
  | zero => exact absurd (trail.mem_of_full hfuel hreach.start_mem) hname
  | succ fuel ih =>
    obtain ⟨record, hget⟩ := NameMap.mem_iff_exists.mp hreach.start_mem
    rw [walkFrom_succ hname hget]
    cases hreach with
    | refl _ => exact Or.inr List.mem_cons_self
    | step hop onward =>
      rename_i n next
      have trail' := trail.step hname hop
      simp only [hop]
      by_cases hnext : next ∈ name :: visited
      -- the walk closes a cycle here, and all that follows is on it
      · rcases List.mem_cons.mp (trail'.mem_of_reachesIn hnext hnext onward) with rfl | hmem
        · exact Or.inr List.mem_cons_self
        · exact Or.inl hmem
      · rcases ih trail' (by rw [List.length_cons]; omega) n onward hnext with hmem | hmem
        · rcases List.mem_cons.mp hmem with rfl | hmem
          · exact Or.inr List.mem_cons_self
          · exact Or.inl hmem
        · exact Or.inr (List.mem_cons_of_mem _ hmem)

theorem nodup_walk (records : RecordMap) (link start : String) :
    (pathNames (records.walk link start)).Nodup :=
  (nodup_walkFrom records.size [] start).1

theorem reachesIn_of_walk {i : Nat} {start name : String} {record : Document}
    (hmet : (records.walk link start)[i]? = some (name, record)) :
    ReachesIn records link i start name ∧ records[name]? = some record :=
  reachesIn_of_walkFrom hmet

/-- A walk meets a record over the fewest links that lead to it. -/
theorem le_of_getElem?_walk {i n : Nat} {start name : String} {record : Document}
    (hmet : (records.walk link start)[i]? = some (name, record))
    (hreach : ReachesIn records link n start name) : i ≤ n := by
  by_contra hlt
  -- otherwise the walk has met the name before
  have hi := (List.getElem?_eq_some_iff.mp hmet).1
  have hn : n < (records.walk link start).length := by omega
  obtain ⟨⟨other, _⟩, hmiddle⟩ : ∃ entry, (records.walk link start)[n]? = some entry :=
    ⟨_, List.getElem?_eq_getElem hn⟩
  obtain rfl := (reachesIn_of_walk hmiddle).1.unique hreach
  have hnames : (pathNames (records.walk link start))[n]? =
      (pathNames (records.walk link start))[i]? := by
    rw [pathNames, List.getElem?_map, List.getElem?_map, hmiddle, hmet, Option.map_some,
      Option.map_some]
  have hlength : n < (pathNames (records.walk link start)).length := by
    rwa [pathNames, List.length_map]
  have := (List.getElem?_inj hlength (nodup_walk records link start)).mp hnames
  omega

theorem mem_walk_iff {start name : String} {record : Document} :
    (name, record) ∈ records.walk link start ↔
      Reaches records link start name ∧ records[name]? = some record := by
  constructor
  · intro hmem
    obtain ⟨i, hi⟩ := List.getElem?_of_mem hmem
    obtain ⟨hreach, hget⟩ := reachesIn_of_walk hi
    exact ⟨⟨i, hreach⟩, hget⟩
  · rintro ⟨hreach, hget⟩
    have hmem := mem_walkFrom_of_reaches records.size (Trail.start start) (by simp) hreach
    rw [or_iff_right (List.not_mem_nil), pathNames, List.mem_map] at hmem
    obtain ⟨⟨key, record'⟩, hmem, rfl⟩ := hmem
    obtain ⟨i, hi⟩ := List.getElem?_of_mem hmem
    -- a name has one record only, so the one that was met is the one asked about
    have hget' := (reachesIn_of_walk hi).2
    rw [hget, Option.some.injEq] at hget'
    rw [hget']
    exact hmem

theorem mem_pathNames_walk_iff {start name : String} :
    name ∈ pathNames (records.walk link start) ↔ Reaches records link start name := by
  rw [pathNames, List.mem_map]
  constructor
  · rintro ⟨⟨key, record⟩, hmem, rfl⟩
    exact (mem_walk_iff.mp hmem).1
  · intro hreach
    obtain ⟨record, hget⟩ := NameMap.mem_iff_exists.mp hreach.last_mem
    exact ⟨(name, record), mem_walk_iff.mpr ⟨hreach, hget⟩, rfl⟩

end RecordMap

end MemoryHierarchy
