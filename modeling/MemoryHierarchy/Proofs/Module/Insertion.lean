import MemoryHierarchy.Proofs.Module.Request
import MemoryHierarchy.Proofs.Module.Set

/-!
# Sets of modules after any insertions

A set is filled by insertions, and each of them may ask for its module under a name. Modules and
aliases are told from the insertions in opposite ways (`Holds`): of the modules with one name the
first one counts, and of the insertions under one alias the last one. So an insertion may give an
alias to another module, but what is known of a module, its place and its bit never change again
(`modules_prefix_insertAll`), and no alias is left without a module (`Consistent.insertAll`).

What some requests mean is read off the aliases: `Enabled` says which names these are and in what
order they come, by the places of the first requests.
-/

namespace MemoryHierarchy

namespace ModuleSet

/-- A module, with the name under which it is asked for, if it is. The name of the request becomes
an alias of the module. -/
structure Insertion where
  requested : Option String
  data : ModuleData

/-- Insertions one after the other. -/
def insertAll (s : ModuleSet) (insertions : List Insertion) : ModuleSet :=
  insertions.foldl (fun s i => s.insert i.requested i.data) s

variable {s : ModuleSet} {insertions : List Insertion} {requested : List String} {name : String}

theorem insertAll_append (s : ModuleSet) (insertions later : List Insertion) :
    s.insertAll (insertions ++ later) = (s.insertAll insertions).insertAll later :=
  List.foldl_append

/-! ## What a set holds

What a set holds is told by the list of insertions alone: the first insertion of a module name gives
its data, and the last one under an alias gives its meaning. -/

/-- The set holds the first module of each name that was inserted, with the bit of its place, and
each alias stands for the module that was inserted under it last. -/
structure Holds (s : ModuleSet) (insertions : List Insertion) : Prop where
  modules : s.modules = ModuleData.numbered (ModuleData.firsts (insertions.map (·.data)))
  aliases : ∀ request, s.resolve? request =
    (insertions.reverse.find? (·.requested = some request)).map (·.data.name)

theorem holds_empty (kind : ModuleKind) : (empty kind).Holds [] where
  modules := rfl
  aliases := by simp [empty, resolve?]

theorem Holds.insert (h : s.Holds insertions) (i : Insertion) :
    (s.insert i.requested i.data).Holds (insertions ++ [i]) where
  modules := by
    rw [List.map_append]
    exact modules_insert h.modules i.requested i.data
  aliases := by
    intro request
    rw [resolve?_insert, h.aliases, List.reverse_concat, List.find?_cons]
    by_cases hi : i.requested = some request
    · simp [hi]
    · simp [hi]

theorem holds_insertAll (kind : ModuleKind) (insertions : List Insertion) :
    ((empty kind).insertAll insertions).Holds insertions := by
  induction insertions using List.reverseRecOn with
  | nil => exact holds_empty kind
  | append_singleton insertions i ih =>
    rw [insertAll_append]
    exact ih.insert i

/-! ## What insertions keep

Bits are places in a list that only grows at its end, so a bit that has been given out keeps its
meaning. -/

theorem Consistent.insertAll (h : s.Consistent) (insertions : List Insertion) :
    (s.insertAll insertions).Consistent := by
  induction insertions using List.reverseRecOn with
  | nil => exact h
  | append_singleton insertions i ih =>
    rw [insertAll_append]
    exact ih.insert i.requested i.data

/-- **Modules stay where they are and as they are**, whatever is inserted later. An insertion
appends at most one module. -/
theorem modules_prefix_insertAll (s : ModuleSet) (insertions : List Insertion) :
    s.modules <+: (s.insertAll insertions).modules := by
  induction insertions using List.reverseRecOn with
  | nil => exact List.prefix_rfl
  | append_singleton insertions i ih =>
    rw [insertAll_append]
    exact ih.trans (modules_prefix_insert _ i.requested i.data)

/-- A module that is found by its name is found later on, with its bit and all that is known of
it. -/
theorem find?_insertAll {name : String} {m : ModuleInfo} (hfind : s.find? name = some m)
    (insertions : List Insertion) : (s.insertAll insertions).find? name = some m := by
  obtain ⟨others, hmodules⟩ := s.modules_prefix_insertAll insertions
  rw [find?] at hfind
  rw [find?, ← hmodules, List.find?_append, hfind, Option.some_or]

/-! ## What requests mean

The names that are enabled for some requests are listed by the first request for each, and a request
that means no module counts for nothing. -/

/-- The place of the first request that means a module. Two requests under different names can mean
one module, the earlier of which counts. -/
def firstRequest (s : ModuleSet) (requested : List String) (name : String) : Nat :=
  requested.findIdx fun request => s.resolve? request = some name

/-- Names of modules, in the order in which they are first asked for, and each of them once. The
fields leave no freedom: there is only one such list. -/
structure Enabled (s : ModuleSet) (requested names : List String) : Prop where
  nodup : names.Nodup
  known : ∀ name ∈ names, ∃ m ∈ s.modules, m.name = name
  mem_iff : ∀ name, name ∈ names ↔ ∃ request ∈ requested, s.resolve? request = some name
  inOrder : names.Pairwise fun a b => s.firstRequest requested a < s.firstRequest requested b

/-- One request more. -/
theorem enabledFor_concat (s : ModuleSet) (requested : List String) (request : String) :
    s.enabledFor (requested ++ [request]) =
      match s.resolve? request with
      | none => s.enabledFor requested
      | some name =>
        if name ∈ s.enabledFor requested then s.enabledFor requested
        else s.enabledFor requested ++ [name] := by
  unfold enabledFor
  rw [List.filterMap_append, List.foldl_append]
  cases hresolve : s.resolve? request with
  | none => rw [List.filterMap_cons_none hresolve]; rfl
  | some name => rw [List.filterMap_cons_some hresolve]; rfl

theorem firstRequest_lt (hmem : name ∈ s.enabledFor requested) :
    s.firstRequest requested name < requested.length := by
  obtain ⟨request, hrequest, hresolve⟩ := mem_enabledFor_iff.mp hmem
  exact List.findIdx_lt_length_of_exists ⟨request, hrequest, decide_eq_true hresolve⟩

/-- A name that has been asked for keeps its first place when more is asked for. -/
theorem firstRequest_concat (hmem : name ∈ s.enabledFor requested) (request : String) :
    s.firstRequest (requested ++ [request]) name = s.firstRequest requested name := by
  have hlt := firstRequest_lt hmem
  unfold firstRequest at hlt ⊢
  rw [List.findIdx_append, if_pos hlt]

/-- A name that has not been asked for does not come before what has. -/
theorem length_le_firstRequest (hnew : name ∉ s.enabledFor requested) (request : String) :
    requested.length ≤ s.firstRequest (requested ++ [request]) name := by
  have hnone : ¬requested.findIdx (fun request => s.resolve? request = some name) <
      requested.length := by
    rw [List.findIdx_lt_length]
    rintro ⟨request, hrequest, hresolve⟩
    exact hnew (mem_enabledFor_iff.mpr ⟨request, hrequest, of_decide_eq_true hresolve⟩)
  unfold firstRequest
  rw [List.findIdx_append, if_neg hnone]
  exact Nat.le_add_left _ _

theorem pairwise_enabledFor (s : ModuleSet) (requested : List String) :
    (s.enabledFor requested).Pairwise fun a b =>
      s.firstRequest requested a < s.firstRequest requested b := by
  induction requested using List.reverseRecOn with
  | nil => exact List.Pairwise.nil
  | append_singleton requested request ih =>
    -- one request more changes no first place
    have hkept : (s.enabledFor requested).Pairwise fun a b =>
        s.firstRequest (requested ++ [request]) a < s.firstRequest (requested ++ [request]) b := by
      refine ih.imp_of_mem fun ha hb hlt => ?_
      rwa [firstRequest_concat ha, firstRequest_concat hb]
    rw [enabledFor_concat]
    cases s.resolve? request with
    | none => exact hkept
    | some name =>
      dsimp only
      split
      · exact hkept
      · next hnew =>
        rw [List.pairwise_append]
        refine ⟨hkept, List.pairwise_singleton _ _, fun a ha b hb => ?_⟩
        rw [List.mem_singleton.mp hb, firstRequest_concat ha]
        exact Nat.lt_of_lt_of_le (firstRequest_lt ha) (length_le_firstRequest hnew request)

theorem Consistent.enabled (h : s.Consistent) (requested : List String) :
    s.Enabled requested (s.enabledFor requested) where
  nodup := by
    refine (pairwise_enabledFor s requested).imp fun hlt => ?_
    rintro rfl
    exact Nat.lt_irrefl _ hlt
  known := by
    intro name hname
    obtain ⟨request, _, hresolve⟩ := mem_enabledFor_iff.mp hname
    exact h.aliases request name hresolve
  mem_iff := fun _ => mem_enabledFor_iff
  inOrder := pairwise_enabledFor s requested

/-- **Sets of modules are consistent after any insertions.** Each module has the bit of its place,
no two have one name, and each alias stands for a module of the set. The set holds what the
insertions say, the first module of each name and the last meaning of each alias, and whatever is
inserted later changes neither the place nor the bit of a module, nor what is known of it. What some
requests mean are names of modules, in the order in which they are first asked for and each of them
once: those that the requests with an alias stand for. -/
theorem consistent_of_insertions (kind : ModuleKind) (insertions later : List Insertion) :
    let s := (empty kind).insertAll insertions
    let t := (empty kind).insertAll (insertions ++ later)
    s.Consistent ∧ s.Holds insertions ∧ s.modules <+: t.modules ∧
      (∀ name m, s.find? name = some m → t.find? name = some m) ∧
      ∀ requested, s.Enabled requested (s.enabledFor requested) := by
  intro s t
  have hs : s.Consistent := (consistent_empty kind).insertAll insertions
  have ht : t = s.insertAll later := insertAll_append _ insertions later
  rw [ht]
  exact ⟨hs, holds_insertAll kind insertions, s.modules_prefix_insertAll later,
    fun _ _ hfind => find?_insertAll hfind later, hs.enabled⟩

/-- A prefetcher in a directory. -/
def prefetcherIn (directory name : String) : ModuleData :=
  ⟨name, ⟨directory ++ "/" ++ name⟩, name, false, ∅⟩

/-- A module is asked for under two names, the second time with other data, and the first of these
names is then given to another module. -/
def repeatedInsertions : List Insertion :=
  [⟨some "next", prefetcherIn "prefetcher" "next_line"⟩,
    ⟨some "ahead", prefetcherIn "other" "next_line"⟩,
    ⟨some "next", prefetcherIn "prefetcher" "spatial"⟩,
    ⟨none, prefetcherIn "prefetcher" "idle"⟩]

/-- The module keeps its bit and its first data, also when it has lost both names. -/
theorem consistent_of_insertions_repeated :
    let s := (empty .prefetcher).insertAll repeatedInsertions
    let t := (empty .prefetcher).insertAll
      (repeatedInsertions ++ [⟨some "ahead", prefetcherIn "prefetcher" "idle"⟩])
    s.Consistent ∧
      s.find? "next_line" = some ⟨prefetcherIn "prefetcher" "next_line", 0⟩ ∧
      t.find? "next_line" = some ⟨prefetcherIn "prefetcher" "next_line", 0⟩ ∧
      s.Enabled ["ahead", "next", "absent", "ahead"] ["next_line", "spatial"] := by
  intro s t
  obtain ⟨hs, _, _, hkept, henabled⟩ := consistent_of_insertions .prefetcher repeatedInsertions
    [⟨some "ahead", prefetcherIn "prefetcher" "idle"⟩]
  have hfind : s.find? "next_line" = some ⟨prefetcherIn "prefetcher" "next_line", 0⟩ := by rfl
  have hnames : s.enabledFor ["ahead", "next", "absent", "ahead"] = ["next_line", "spatial"] := by
    decide +kernel
  exact ⟨hs, hfind, hkept _ _ hfind, hnames ▸ henabled _⟩

end ModuleSet

end MemoryHierarchy
