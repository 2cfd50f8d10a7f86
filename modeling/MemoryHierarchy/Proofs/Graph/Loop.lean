import Mathlib.Data.List.Cycle
import MemoryHierarchy.Proofs.Graph.Cycle

/-!
# Loops

A loop is a `Cycle` of distinct names each of which links to the next one around, so it has no
first member. As every name has at most one link, a loop is known by any of its members
(`IsLoop.eq_of_mem`), and following links from a member one never leaves it.

The search for a cycle from a name returns a lasso: a way from the name to a loop, then once around
the loop, then the member again at which it was entered (`exists_lasso_of_findCycle?`). From a
member of a loop it finds that loop, wherever it starts (`IsLoop.exists_findCycle?`).
-/

namespace MemoryHierarchy

namespace RecordMap

variable {records : RecordMap} {link : String}

/-- Distinct names, each of which links to the next one around. A loop is a cycle of names and not a
list, so that it is the same from wherever it is entered. -/
structure IsLoop (records : RecordMap) (link : String) (c : Cycle String) : Prop where
  ne_nil : c ≠ .nil
  nodup : c.Nodup
  links : c.Chain fun name next => records.target? link name = some next

/-- Names each of which links to the next one. -/
abbrev Linked (records : RecordMap) (link : String) (names : List String) : Prop :=
  names.IsChain fun name next => records.target? link name = some next

theorem linked_pair {name next : String} :
    records.Linked link [name, next] ↔ records.target? link name = some next :=
  List.isChain_pair

theorem linked_cons_cons {name next : String} {names : List String} :
    records.Linked link (name :: next :: names) ↔
      records.target? link name = some next ∧ records.Linked link (next :: names) :=
  List.isChain_cons_cons

theorem isLoop_coe_cons {first : String} {rest : List String} :
    records.IsLoop link (first :: rest : List String) ↔
      (first :: rest).Nodup ∧ records.Linked link (first :: (rest ++ [first])) := by
  constructor
  · intro h
    exact ⟨Cycle.nodup_coe_iff.mp h.nodup, (Cycle.chain_coe_cons _ _ _).mp h.links⟩
  · rintro ⟨hnodup, hlinks⟩
    exact ⟨by simp, Cycle.nodup_coe_iff.mpr hnodup, (Cycle.chain_coe_cons _ _ _).mpr hlinks⟩

/-- A cycle can be read from any of its members on. -/
theorem exists_coe_cons_of_mem {c : Cycle String} {name : String} (hname : name ∈ c) :
    ∃ rest : List String, c = (name :: rest : List String) := by
  induction c using Quotient.inductionOn' with
  | _ names =>
    obtain ⟨before, after, rfl⟩ := List.append_of_mem (Cycle.mem_coe_iff.mp hname)
    exact ⟨after ++ before, Cycle.coe_eq_coe.mpr List.isRotated_append⟩

/-! ## Members

A loop is a list of names, each linked to the next one and the last to the first. As there is one
link from each record, any member determines the loop up to the member it is read from. -/

theorem reachesIn_of_linked {names : List String} {name last : String}
    (hlinks : records.Linked link (name :: (names ++ [last]))) (known : last ∈ records) :
    ReachesIn records link (names.length + 1) name last := by
  induction names generalizing name with
  | nil => exact .step (linked_pair.mp hlinks) (.refl known)
  | cons next names ih =>
    obtain ⟨hop, honward⟩ := linked_cons_cons.mp hlinks
    exact .step hop (ih honward)

/-- Two ways from one name to the first place of another one are the same. -/
theorem eq_of_linked {names names' : List String} {name last : String}
    (hlinks : records.Linked link (name :: (names ++ [last]))) (hlast : last ∉ names)
    (hlinks' : records.Linked link (name :: (names' ++ [last]))) (hlast' : last ∉ names') :
    names = names' := by
  -- both ways take the one link that there is, so they part nowhere and end together
  induction names generalizing name names' with
  | nil =>
    cases names' with
    | nil => rfl
    | cons next' names' =>
      have hop := linked_pair.mp hlinks
      rw [(linked_cons_cons.mp hlinks').1, Option.some.injEq] at hop
      exact absurd (hop ▸ List.mem_cons_self) hlast'
  | cons next names ih =>
    obtain ⟨hop, honward⟩ := linked_cons_cons.mp hlinks
    cases names' with
    | nil =>
      rw [linked_pair.mp hlinks', Option.some.injEq] at hop
      exact absurd (hop ▸ List.mem_cons_self) hlast
    | cons next' names' =>
      obtain ⟨hop', honward'⟩ := linked_cons_cons.mp hlinks'
      rw [hop, Option.some.injEq] at hop'
      subst hop'
      rw [ih honward (fun hmem => hlast (List.mem_cons_of_mem _ hmem)) honward'
        fun hmem => hlast' (List.mem_cons_of_mem _ hmem)]

namespace IsLoop

variable {c c' : Cycle String} {name : String}

/-- **A loop is known by any of its members.** Links lead from the member to all others, in one
order. -/
theorem eq_of_mem (h : records.IsLoop link c) (h' : records.IsLoop link c') (hname : name ∈ c)
    (hname' : name ∈ c') : c = c' := by
  obtain ⟨rest, rfl⟩ := exists_coe_cons_of_mem hname
  obtain ⟨rest', rfl⟩ := exists_coe_cons_of_mem hname'
  obtain ⟨hnodup, hlinks⟩ := isLoop_coe_cons.mp h
  obtain ⟨hnodup', hlinks'⟩ := isLoop_coe_cons.mp h'
  rw [eq_of_linked hlinks (List.nodup_cons.mp hnodup).1 hlinks' (List.nodup_cons.mp hnodup').1]

theorem exists_mem (h : records.IsLoop link c) : ∃ name, name ∈ c := by
  induction c using Cycle.induction_on with
  | nil => exact absurd rfl h.ne_nil
  | cons name rest _ => exact ⟨name, by simp⟩

/-- A member of a loop links to a member. -/
theorem next_mem (h : records.IsLoop link c) (hname : name ∈ c) {next : String}
    (hop : records.target? link name = some next) : next ∈ c := by
  obtain ⟨rest, rfl⟩ := exists_coe_cons_of_mem hname
  obtain ⟨_, hlinks⟩ := isLoop_coe_cons.mp h
  cases rest with
  | nil =>
    rw [linked_pair.mp hlinks, Option.some.injEq] at hop
    simp [hop]
  | cons second rest =>
    rw [(linked_cons_cons.mp hlinks).1, Option.some.injEq] at hop
    simp [hop]

/-- Links that start at a member of a loop stay on it. -/
theorem mem_of_linked (h : records.IsLoop link c) {names : List String}
    (hlinks : records.Linked link names) (hstart : names.head? = some name) (hname : name ∈ c) :
    ∀ other ∈ names, other ∈ c := by
  induction names generalizing name with
  | nil => cases hstart
  | cons first names ih =>
    rw [List.head?_cons, Option.some.injEq] at hstart
    subst hstart
    cases names with
    | nil => simpa using hname
    | cons second names =>
      obtain ⟨hop, honward⟩ := linked_cons_cons.mp hlinks
      rw [List.forall_mem_cons]
      exact ⟨hname, ih honward rfl (h.next_mem hname hop)⟩

/-- From a member of a loop one comes back to it. -/
theorem exists_round (h : records.IsLoop link c) (hname : name ∈ c) :
    ∃ n, ReachesIn records link (n + 1) name name := by
  obtain ⟨rest, rfl⟩ := exists_coe_cons_of_mem hname
  obtain ⟨_, hlinks⟩ := isLoop_coe_cons.mp h
  have known : name ∈ records := by
    cases rest with
    | nil => exact mem_of_target? (linked_pair.mp hlinks)
    | cons second rest => exact mem_of_target? (linked_cons_cons.mp hlinks).1
  exact ⟨rest.length, reachesIn_of_linked hlinks known⟩

end IsLoop

/-! ## The search for a cycle

A search runs along a tail and then around a loop, and stops where the loop closes. The names that
it gives can be cut at that place, and behind it is the loop. -/

/-- The search from the middle of a way that has met no name twice. -/
theorem exists_lasso_of_cycleFrom {fuel : Nat} {chain found : List String} {name : String}
    (hnodup : chain.Nodup) (hlinks : records.Linked link (chain ++ [name]))
    (hfound : records.cycleFrom link fuel chain name = some found) :
    ∃ way first rest, found = way ++ first :: (rest ++ [first]) ∧
      (way ++ first :: rest).Nodup ∧ records.Linked link found ∧
        found.head? = (chain ++ [name]).head? := by
  -- the induction is on the bound of the search; what has been visited is a chain of links without
  -- repetition
  induction fuel generalizing chain name with
  | zero => simp [cycleFrom] at hfound
  | succ fuel ih =>
    by_cases hname : name ∈ chain
    · rw [cycleFrom, if_pos hname, Option.some.injEq] at hfound
      subst hfound
      -- the name comes again, and where it came first the loop begins
      obtain ⟨way, rest, rfl⟩ := List.append_of_mem hname
      exact ⟨way, name, rest, by simp, hnodup, hlinks, rfl⟩
    by_cases known : name ∈ records
    · rw [cycleFrom_succ hname known] at hfound
      cases hop : records.target? link name with
      | none => simp [hop] at hfound
      | some next =>
        simp only [hop] at hfound
        have hnodup' : (chain ++ [name]).Nodup :=
          (List.perm_append_singleton name chain).nodup_iff.mpr
            (List.nodup_cons.mpr ⟨hname, hnodup⟩)
        have hlinks' : records.Linked link (chain ++ [name] ++ [next]) := by
          rw [List.append_assoc]
          exact List.isChain_append_cons_cons.mpr ⟨hlinks, hop, List.isChain_singleton _⟩
        obtain ⟨way, first, rest, hshape, honce, hall, hhead⟩ := ih hnodup' hlinks' hfound
        refine ⟨way, first, rest, hshape, honce, hall, ?_⟩
        rw [hhead]
        cases chain <;> rfl
    · rw [cycleFrom, if_neg hname, Std.ExtTreeMap.getElem?_eq_none known] at hfound
      simp at hfound

/-- **What the search finds is a lasso.** The names up to the first member of the loop lead into it,
and the rest goes around once. -/
theorem exists_lasso_of_findCycle? {start : String} {found : List String}
    (hfound : records.findCycle? link start = some found) :
    ∃ way first rest, found = way ++ first :: (rest ++ [first]) ∧
      (way ++ first :: rest).Nodup ∧ records.Linked link found ∧ found.head? = some start :=
  exists_lasso_of_cycleFrom List.nodup_nil (List.isChain_singleton _) hfound

/-- What a lasso leads to is a loop. -/
theorem isLoop_of_lasso {way rest : List String} {first : String}
    (hnodup : (way ++ first :: rest).Nodup)
    (hlinks : records.Linked link (way ++ first :: (rest ++ [first]))) :
    records.IsLoop link (first :: rest : List String) :=
  isLoop_coe_cons.mpr ⟨hnodup.of_append_right, hlinks.right_of_append⟩

/-- **From a member of a loop the search finds the loop**, read from some member on. There is no way
out of a loop. -/
theorem IsLoop.exists_findCycle? {c : Cycle String} (h : records.IsLoop link c) {name : String}
    (hname : name ∈ c) :
    ∃ way first rest, records.findCycle? link name = some (way ++ first :: (rest ++ [first])) ∧
      (way ++ first :: rest).Nodup ∧ c = (first :: rest : List String) := by
  obtain ⟨n, hround⟩ := h.exists_round hname
  obtain ⟨found, hfound⟩ := Option.ne_none_iff_exists'.mp (findCycle?_ne_none hround)
  obtain ⟨way, first, rest, rfl, hnodup, hlinks, hstart⟩ := exists_lasso_of_findCycle? hfound
  refine ⟨way, first, rest, hfound, hnodup, ?_⟩
  -- the search never leaves the loop, so the loop that it finds has a member of it
  have hfirst := h.mem_of_linked hlinks hstart hname first (by simp)
  exact h.eq_of_mem (isLoop_of_lasso hnodup hlinks) hfirst (by simp)

end RecordMap

end MemoryHierarchy
