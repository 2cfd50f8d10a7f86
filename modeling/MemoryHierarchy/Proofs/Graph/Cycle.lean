import MemoryHierarchy.Proofs.Graph.Walk

/-!
# Cycles and maximal paths

A search for a cycle visits what a walk visits, with the same invariant: it succeeds when a name
comes a second time, and that name is then on a cycle. On a cycle no walk ever ends, so a search
that fails has found the end of its chain. Hence a map has no cycle iff no search from any of its
names succeeds (`acyclic_iff`).

Without cycles the names of a walk are the maximal path from its start (`maximalPath_walk`).
-/

namespace MemoryHierarchy

namespace RecordMap

variable {records : RecordMap} {link : String}

/-! ## The search for a cycle

The search keeps the names it has met. If it meets one again, there is a cycle through that name,
and otherwise the links have come to an end. Both directions are by induction on the bound of the
search. -/

theorem cycleFrom_succ {fuel : Nat} {chain : List String} {name : String}
    (hnew : name ∉ chain) (known : name ∈ records) :
    records.cycleFrom link (fuel + 1) chain name =
      match records.target? link name with
      | none => none
      | some next => records.cycleFrom link fuel (chain ++ [name]) next := by
  obtain ⟨record, hget⟩ := NameMap.mem_iff_exists.mp known
  rw [cycleFrom, if_neg hnew, target?_of_getElem? hget]
  cases hlink : record.string? link with
  | none => simp only [hget, hlink]
  | some next => simp only [hget, hlink]

/-- What a search finds leads to a cycle. -/
theorem exists_round_of_cycleFrom {fuel : Nat} {chain found : List String} {name : String}
    (trail : Trail records link chain name)
    (hfound : records.cycleFrom link fuel chain name = some found) :
    ∃ n seen, Reaches records link name seen ∧ ReachesIn records link (n + 1) seen seen := by
  induction fuel generalizing chain name with
  | zero => simp [cycleFrom] at hfound
  | succ fuel ih =>
    by_cases hname : name ∈ chain
    · obtain ⟨n, hround⟩ := trail.exists_round hname
      exact ⟨n, name, .refl hround.start_mem, hround⟩
    by_cases known : name ∈ records
    · rw [cycleFrom_succ hname known] at hfound
      cases hop : records.target? link name with
      | none => simp [hop] at hfound
      | some next =>
        simp only [hop] at hfound
        -- a search keeps the names in the order of the visit, a walk in the reverse order
        obtain ⟨n, seen, hreach, hround⟩ :=
          ih ((trail.step hname hop).perm (List.perm_append_singleton name chain).symm) hfound
        exact ⟨n, seen, .head hop hreach, hround⟩
    · rw [cycleFrom, if_neg hname, Std.ExtTreeMap.getElem?_eq_none known] at hfound
      simp at hfound

/-- A search that never comes to an end of the links finds something. -/
theorem cycleFrom_ne_none (fuel : Nat) {chain : List String} {name : String}
    (trail : Trail records link chain name) (hfuel : records.size < chain.length + fuel)
    (known : name ∈ records)
    (endless : ∀ last, Reaches records link name last →
      ∃ next ∈ records, records.target? link last = some next) :
    records.cycleFrom link fuel chain name ≠ none := by
  induction fuel generalizing chain name with
  | zero =>
    -- as many names as records, and one more: no room for distinct names
    have := NameMap.length_le_size trail.nodup trail.known
    omega
  | succ fuel ih =>
    by_cases hname : name ∈ chain
    · rw [cycleFrom, if_pos hname]
      simp
    · obtain ⟨next, hnext, hop⟩ := endless name (.refl known)
      rw [cycleFrom_succ hname known, hop]
      have trail' := (trail.step hname hop).perm (List.perm_append_singleton name chain).symm
      refine ih trail' ?_ hnext ?_
      · rw [List.length_append, List.length_singleton]
        omega
      · exact fun last hlast => endless last (.head hop hlast)

/-- On the way to a cycle, and around it, there is no end of the links. -/
theorem endless_of_round {n : Nat} {start name : String} (hreach : Reaches records link start name)
    (hround : ReachesIn records link (n + 1) name name) {last : String}
    (hlast : Reaches records link start last) :
    ∃ next ∈ records, records.target? link last = some next := by
  obtain ⟨m, hm⟩ := hreach
  obtain ⟨k, hk⟩ := hlast
  -- more rounds than there are links to `last`, so the way goes on behind it
  have hrounds := hm.trans (hround.rounds (k + 1))
  have hlong : m + (k + 1) * (n + 1) = k + (m + (k + 1) * n + 1) := by
    rw [Nat.mul_succ]
    omega
  rw [hlong] at hrounds
  cases hk.sub hrounds with
  | step hop onward => exact ⟨_, onward.start_mem, hop⟩

/-- The search from a name that leads to a cycle finds something. -/
theorem findCycle?_ne_none_of_reaches {n : Nat} {start name : String}
    (hreach : Reaches records link start name)
    (hround : ReachesIn records link (n + 1) name name) : records.findCycle? link start ≠ none := by
  refine cycleFrom_ne_none (records.size + 1) (Trail.start start) ?_ hreach.start_mem
    fun last => endless_of_round hreach hround
  rw [List.length_nil]
  omega

/-- So does the search from a name on a cycle. -/
theorem findCycle?_ne_none {n : Nat} {name : String}
    (hround : ReachesIn records link (n + 1) name name) : records.findCycle? link name ≠ none :=
  findCycle?_ne_none_of_reaches (.refl hround.start_mem) hround

/-- **A search finds nothing iff no cycle is reached** from where it starts. The search stops at the
first name that comes again, which is on a cycle. -/
theorem findCycle?_eq_none_iff {start : String} : records.findCycle? link start = none ↔
    ∀ name, Reaches records link start name → ∀ n, ¬ReachesIn records link (n + 1) name name := by
  constructor
  · exact fun hnone name hreach n hround => findCycle?_ne_none_of_reaches hreach hround hnone
  · intro hacyclic
    by_contra hsome
    obtain ⟨found, hfound⟩ := Option.ne_none_iff_exists'.mp hsome
    obtain ⟨n, seen, hreach, hround⟩ := exists_round_of_cycleFrom (Trail.start start) hfound
    exact hacyclic seen hreach n hround

/-- **A map has no cycle iff no search from one of its names finds one.** A search from a member of
a cycle finds it. -/
theorem acyclic_iff : records.Acyclic link ↔
    ∀ name ∈ records, records.findCycle? link name = none := by
  simp only [findCycle?_eq_none_iff]
  constructor
  · exact fun hacyclic _ _ name _ n => hacyclic n name
  · intro hnone n name hround
    have hstart := hround.start_mem
    exact hnone name hstart name (.refl hstart) n hround

/-! ## Maximal paths

A maximal path is a relation between a start and the names on the way, which says nothing of visited
names. Without cycles the walk is such a path, and there is no other one. -/

/-- The names on the way from a record down to one that links to no record. There is none for a
record whose links come back, and at most one otherwise. -/
inductive MaximalPath (records : RecordMap) (link : String) : String → List String → Prop
  | last {name : String} (known : name ∈ records)
      (ends : ∀ next, records.target? link name = some next → next ∉ records) :
      MaximalPath records link name [name]
  | step {name next : String} {path : List String}
      (hop : records.target? link name = some next)
      (onward : MaximalPath records link next path) :
      MaximalPath records link name (name :: path)

namespace MaximalPath

variable {name : String} {path : List String}

theorem start_mem (h : MaximalPath records link name path) : name ∈ records := by
  cases h with
  | last known _ => exact known
  | step hop _ => exact mem_of_target? hop

/-- From a name there is at most one maximal path. -/
theorem unique {path' : List String} (h : MaximalPath records link name path)
    (h' : MaximalPath records link name path') : path = path' := by
  induction h generalizing path' with
  | last _ ends =>
    cases h' with
    | last _ _ => rfl
    | step hop onward => exact absurd onward.start_mem (ends _ hop)
  | step hop onward ih =>
    cases h' with
    | last _ ends => exact absurd onward.start_mem (ends _ hop)
    | step hop' onward' =>
      rw [hop, Option.some.injEq] at hop'
      subst hop'
      rw [ih onward']

/-- The last record of a maximal path links to no record. -/
theorem exists_last (h : MaximalPath records link name path) :
    ∃ last, path.getLast? = some last ∧ Reaches records link name last ∧
      ∀ next, records.target? link last = some next → next ∉ records := by
  induction h with
  | last known ends => exact ⟨_, rfl, .refl known, ends⟩
  | step hop onward ih =>
    obtain ⟨last, hlast, hreach, hends⟩ := ih
    refine ⟨last, ?_, .head hop hreach, hends⟩
    rw [List.getLast?_cons, hlast, Option.getD_some]

end MaximalPath

/-- A walk from the middle of a trail is a maximal path when there are no cycles. -/
theorem maximalPath_walkFrom (hacyclic : records.Acyclic link) {fuel : Nat}
    {visited : List String} {name : String} (trail : Trail records link visited name)
    (hfuel : records.size ≤ visited.length + fuel) (known : name ∈ records) :
    MaximalPath records link name (pathNames (records.walkFrom link fuel visited name)) := by
  -- a name that has been visited would be on a cycle
  have hname : name ∉ visited := by
    intro hname
    obtain ⟨n, hround⟩ := trail.exists_round hname
    exact hacyclic n name hround
  induction fuel generalizing visited name with
  -- the steps never run out: as many names as records would be all of them
  | zero => exact absurd (trail.mem_of_full hfuel known) hname
  | succ fuel ih =>
    obtain ⟨record, hget⟩ := NameMap.mem_iff_exists.mp known
    rw [walkFrom_succ hname hget]
    cases hop : records.target? link name with
    | none => exact .last known (by simp [hop])
    | some next =>
      simp only
      by_cases hnext : next ∈ records
      · have trail' := trail.step hname hop
        refine .step hop (ih trail' (by rw [List.length_cons]; omega) hnext ?_)
        intro hseen
        obtain ⟨n, hround⟩ := trail'.exists_round hseen
        exact hacyclic n next hround
      · rw [walkFrom_of_not_mem hnext]
        refine .last known ?_
        intro other hother
        rw [hop, Option.some.injEq] at hother
        rwa [← hother]

/-- **Without cycles a walk is the maximal path from its start.** The walk only ends before its
bound where a link is missing or leads out of the map. -/
theorem maximalPath_walk (hacyclic : records.Acyclic link) {start : String}
    (known : start ∈ records) :
    MaximalPath records link start (pathNames (records.walk link start)) :=
  maximalPath_walkFrom hacyclic (Trail.start start) (by simp) known

end RecordMap

end MemoryHierarchy
