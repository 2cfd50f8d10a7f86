import MemoryHierarchy.Configuration.Resolved
import MemoryHierarchy.Proofs.Module.Set

/-!
# Records get the modules they ask for

While requests are looked up one after the other, the aliases of the set say what was found under
each name so far (`ModuleResolution.Answered`). Modules that are added because all of them are
compiled bring no alias, so what a name stands for does not change. A record whose slot is rewritten
to the modules it means therefore enables, by the mask of its slot, just those it asked for.
-/

namespace MemoryHierarchy

/-- What a lookup finds, under some name or among all modules. -/
def ModuleLookup.Finds (lookup : ModuleLookup) (data : ModuleData) : Prop :=
  ∃ found, (found ∈ lookup.all ∨ ∃ name, lookup.find? name = some found) ∧ found.data = data

namespace ModuleResolution

variable {kind : ModuleKind} {lookup : ModuleLookup}

/-! ## Requests

Whether a name has been looked up is not stored. It shows in the aliases if something was found, and
in the missing names otherwise; that these two are all of them is an invariant of requests. -/

/-- The aliases of the set are what was found under the names that have been looked up, and the
missing names are those among them under which nothing was found. -/
structure Answered (kind : ModuleKind) (lookup : ModuleLookup) (r : ModuleResolution) : Prop where
  kind_eq : r.set.kind = kind
  consistent : r.set.Consistent
  resolved : ∀ name ∈ r.lookups, r.set.resolve? name = (lookup.find? name).map (·.data.name)
  unresolved : ∀ name, name ∉ r.lookups → r.set.resolve? name = none
  missing : ∀ name, name ∈ r.missing ↔ name ∈ r.lookups ∧ lookup.find? name = none

theorem answered_start : Answered kind lookup (start kind) where
  kind_eq := rfl
  consistent := ModuleSet.consistent_empty kind
  resolved := by simp [start]
  unresolved := by simp [start, ModuleSet.empty, ModuleSet.resolve?]
  missing := by simp [start]

/-- Aliases and missing names together are the names that have been looked up, so a request is
passed over just when its name has been. -/
theorem Answered.seen_iff {r : ModuleResolution} (h : Answered kind lookup r) (name : String) :
    ((r.set.resolve? name).isSome ∨ name ∈ r.missing) ↔ name ∈ r.lookups := by
  rw [h.missing]
  constructor
  · rintro (hsome | ⟨hseen, -⟩)
    · by_contra hunseen
      rw [h.unresolved name hunseen] at hsome
      exact absurd hsome Bool.false_ne_true
    · exact hseen
  · intro hseen
    rw [h.resolved name hseen]
    cases lookup.find? name with
    | some found => exact .inl rfl
    | none => exact .inr ⟨hseen, rfl⟩

/-- A request for a name that has been looked up changes nothing. -/
theorem Answered.request_of_mem {r : ModuleResolution} (h : Answered kind lookup r)
    {asked : String × String} (hseen : asked.1 ∈ r.lookups) : r.request kind lookup asked = r := by
  simp only [ModuleResolution.request, if_pos ((h.seen_iff asked.1).mpr hseen)]

/-- A request for a new name looks it up. -/
theorem Answered.request_of_not_mem {r : ModuleResolution} (h : Answered kind lookup r)
    {asked : String × String} (hnew : asked.1 ∉ r.lookups) :
    r.request kind lookup asked =
      match lookup.find? asked.1 with
      | some found =>
        { r with
          set := r.set.insert (some asked.1) found.data
          lookups := r.lookups ++ [asked.1]
          warnings := r.warnings ++ found.warnings }
      | none =>
        { r with
          missing := r.missing.insert asked.1
          lookups := r.lookups ++ [asked.1]
          warnings := r.warnings ++ [.notFound kind asked.1 asked.2] } := by
  unfold ModuleResolution.request
  exact if_neg (mt (h.seen_iff asked.1).mp hnew)

/-- Finding something under a new name makes the name an alias of it; the other aliases stay. -/
theorem Answered.insert_found {r : ModuleResolution} (h : Answered kind lookup r) {name : String}
    {found : FoundModule} (hfind : lookup.find? name = some found) :
    Answered kind lookup
      { r with
        set := r.set.insert (some name) found.data
        lookups := r.lookups ++ [name]
        warnings := r.warnings ++ found.warnings } where
  kind_eq := h.kind_eq
  consistent := h.consistent.insert (some name) found.data
  resolved := by
    intro other hother
    rw [ModuleSet.resolve?_insert]
    split
    · next heq =>
      rw [Option.some.injEq] at heq
      rw [← heq, hfind, Option.map_some]
    · next hne =>
      rw [List.mem_append, List.mem_singleton] at hother
      rcases hother with hother | rfl
      · exact h.resolved other hother
      · exact absurd rfl hne
  unresolved := by
    intro other hother
    rw [List.mem_append, List.mem_singleton, not_or] at hother
    rw [ModuleSet.resolve?_insert, if_neg (by simpa using Ne.symm hother.2)]
    exact h.unresolved other hother.1
  missing := by
    intro other
    rw [h.missing, List.mem_append, List.mem_singleton]
    refine and_congr_left fun hnone => ⟨.inl, ?_⟩
    -- something was found under the name, so it is not one under which nothing was found
    rintro (hother | rfl)
    · exact hother
    · exact absurd (hfind.symm.trans hnone) (Option.some_ne_none found)

/-- Finding nothing under a new name makes it a missing one; it had no alias before. -/
theorem Answered.insert_missing {r : ModuleResolution} (h : Answered kind lookup r)
    {name : String} (hfind : lookup.find? name = none) (hnew : name ∉ r.lookups)
    (warning : ModuleWarning) :
    Answered kind lookup
      { r with
        missing := r.missing.insert name
        lookups := r.lookups ++ [name]
        warnings := r.warnings ++ [warning] } where
  kind_eq := h.kind_eq
  consistent := h.consistent
  resolved := by
    intro other hother
    rw [List.mem_append, List.mem_singleton] at hother
    rcases hother with hother | rfl
    · exact h.resolved other hother
    · rw [hfind, Option.map_none]
      exact h.unresolved other hnew
  unresolved := by
    intro other hother
    rw [List.mem_append, not_or] at hother
    exact h.unresolved other hother.1
  missing := by
    intro other
    rw [Std.ExtTreeSet.mem_insert, Std.compare_eq_iff_eq, h.missing, List.mem_append,
      List.mem_singleton]
    constructor
    · rintro (rfl | ⟨hother, hnone⟩)
      · exact ⟨.inr rfl, hfind⟩
      · exact ⟨.inl hother, hnone⟩
    · rintro ⟨hother | rfl, hnone⟩
      · exact .inr ⟨hother, hnone⟩
      · exact .inl rfl

/-- One request keeps the invariant, and its name has been looked up afterwards. -/
theorem Answered.request {r : ModuleResolution} (h : Answered kind lookup r)
    (asked : String × String) :
    Answered kind lookup (r.request kind lookup asked) ∧
      asked.1 ∈ (r.request kind lookup asked).lookups ∧
      ∀ name ∈ r.lookups, name ∈ (r.request kind lookup asked).lookups := by
  by_cases hseen : asked.1 ∈ r.lookups
  · rw [h.request_of_mem hseen]
    exact ⟨h, hseen, fun _ hname => hname⟩
  rw [h.request_of_not_mem hseen]
  cases hfind : lookup.find? asked.1 with
  | some found => exact ⟨h.insert_found hfind, by simp, fun _ hname => List.mem_append_left _ hname⟩
  | none =>
    exact ⟨h.insert_missing hfind hseen _, by simp, fun _ hname => List.mem_append_left _ hname⟩

/-- After all requests the invariant holds, and all their names have been looked up. -/
theorem answered_requests (asked : List (String × String)) {r : ModuleResolution}
    (h : Answered kind lookup r) :
    Answered kind lookup (asked.foldl (request kind lookup) r) ∧
      (∀ name ∈ r.lookups, name ∈ (asked.foldl (request kind lookup) r).lookups) ∧
      ∀ ask ∈ asked, ask.1 ∈ (asked.foldl (request kind lookup) r).lookups := by
  induction asked generalizing r with
  | nil => exact ⟨h, fun _ hname => hname, by simp⟩
  | cons ask asked ih =>
    obtain ⟨hstep, hask, hkept⟩ := h.request ask
    obtain ⟨hrun, hlookups, hasked⟩ := ih hstep
    rw [List.foldl_cons]
    refine ⟨hrun, fun name hname => hlookups name (hkept name hname), ?_⟩
    rintro other hother
    rcases List.mem_cons.mp hother with rfl | hother
    · exact hlookups _ hask
    · exact hasked other hother

/-! ## Modules that nobody asked for

They are inserted under no name, so they are no answer to any request. -/

theorem Answered.discover {r : ModuleResolution} (h : Answered kind lookup r)
    (found : FoundModule) : Answered kind lookup (r.discover found) where
  kind_eq := h.kind_eq
  consistent := h.consistent.insert none found.data
  resolved := by
    intro name hname
    show (r.set.insert none found.data).resolve? name = _
    rw [ModuleSet.resolve?_insert]
    exact h.resolved name hname
  unresolved := by
    intro name hname
    show (r.set.insert none found.data).resolve? name = _
    rw [ModuleSet.resolve?_insert]
    exact h.unresolved name hname
  missing := h.missing

theorem answered_discoveries (found : List FoundModule) {r : ModuleResolution}
    (h : Answered kind lookup r) :
    Answered kind lookup (found.foldl discover r) ∧
      (found.foldl discover r).lookups = r.lookups := by
  induction found generalizing r with
  | nil => exact ⟨h, rfl⟩
  | cons first found ih =>
    obtain ⟨hrun, hlookups⟩ := ih (h.discover first)
    exact ⟨hrun, hlookups⟩

/-- Resolving answers every request of the records. -/
theorem answered_resolve (kind : ModuleKind) (lookup : ModuleLookup) (compileAll : Bool)
    (slot : String) (records : List Document) :
    Answered kind lookup (resolve kind lookup compileAll slot records) ∧
      ∀ record ∈ records, ∀ name ∈ record.names slot,
        name ∈ (resolve kind lookup compileAll slot records).lookups := by
  obtain ⟨hasked, _, hlookups⟩ :=
    answered_requests (requests slot records) (@answered_start kind lookup)
  have hrequested : ∀ record ∈ records, ∀ name ∈ record.names slot,
      name ∈ ((requests slot records).foldl (request kind lookup) (start kind)).lookups := by
    intro record hrecord name hname
    refine hlookups (name, record.name?.getD "<unnamed>") ?_
    rw [requests, List.mem_flatMap]
    exact ⟨record, hrecord, List.mem_map.mpr ⟨name, hname, rfl⟩⟩
  unfold resolve
  -- discovery looks up no name, so it leaves all answers as they are
  cases compileAll with
  | false => exact ⟨hasked, hrequested⟩
  | true =>
    obtain ⟨hall, hkept⟩ := answered_discoveries lookup.all hasked
    refine ⟨hall, ?_⟩
    intro record hrecord name hname
    rw [if_pos rfl, hkept]
    exact hrequested record hrecord name hname

/-! ## What is in a set

Every module of a set was found in some directory, whether by name or by listing. -/

theorem finds_of_mem_request {r : ModuleResolution} {asked : String × String}
    (h : ∀ m ∈ r.set.modules, lookup.Finds m.data) :
    ∀ m ∈ (r.request kind lookup asked).set.modules, lookup.Finds m.data := by
  obtain ⟨name, record⟩ := asked
  intro m hm
  simp only [ModuleResolution.request] at hm
  split at hm
  · exact h m hm
  · cases hfind : lookup.find? name with
    | none =>
      rw [hfind] at hm
      exact h m hm
    | some found =>
      rw [hfind] at hm
      -- a module of the new set is an old one or what has just been found
      rcases ModuleSet.mem_or_data_eq_of_mem_insert hm with hm | hdata
      · exact h m hm
      · exact ⟨found, Or.inr ⟨name, hfind⟩, hdata.symm⟩

theorem finds_of_mem_discover {r : ModuleResolution} {found : FoundModule}
    (hfound : found ∈ lookup.all) (h : ∀ m ∈ r.set.modules, lookup.Finds m.data) :
    ∀ m ∈ (r.discover found).set.modules, lookup.Finds m.data := by
  intro m hm
  rcases ModuleSet.mem_or_data_eq_of_mem_insert hm with hm | hdata
  · exact h m hm
  · exact ⟨found, Or.inl hfound, hdata.symm⟩

/-- A set holds nothing but what was found. -/
theorem finds_of_mem_resolve {compileAll : Bool} {slot : String} {records : List Document} :
    ∀ m ∈ (resolve kind lookup compileAll slot records).set.modules, lookup.Finds m.data := by
  have hasked : ∀ m ∈ ((requests slot records).foldl (request kind lookup)
      (start kind)).set.modules, lookup.Finds m.data :=
    List.foldlRecOn (motive := fun r : ModuleResolution => ∀ m ∈ r.set.modules,
      lookup.Finds m.data) _ _ (by simp [start, ModuleSet.empty])
      fun _ h _ _ => finds_of_mem_request h
  unfold resolve
  cases compileAll with
  | false => exact hasked
  | true =>
    exact List.foldlRecOn (motive := fun r : ModuleResolution => ∀ m ∈ r.set.modules,
      lookup.Finds m.data) _ _ hasked fun _ h _ hfound => finds_of_mem_discover hfound h

end ModuleResolution

/-- The sets of a resolved configuration are consistent, and hold nothing but what was found. -/
theorem NormalizedConfiguration.modules_resolve (n : NormalizedConfiguration) (options : Options)
    (lookups : ModuleLookups) (kind : ModuleKind) :
    let set := (n.resolve options lookups).configuration.modules.get kind
    set.Consistent ∧ ∀ m ∈ set.modules, (lookups.lookup kind).Finds m.data := by
  intro set
  obtain ⟨records, hset⟩ : ∃ records, set = (ModuleResolution.resolve kind (lookups.lookup kind)
      lookups.compileAll kind.slot records).set := by
    cases kind <;> exact ⟨_, rfl⟩
  rw [hset]
  exact ⟨(ModuleResolution.answered_resolve kind _ _ _ records).1.consistent,
    ModuleResolution.finds_of_mem_resolve⟩

/-! ## Slots of records

After all requests have been answered the slots are rewritten. A name that means a module becomes
the name of the module, and any other name is dropped. -/

@[simp]
theorem Json.names_ofStrings (names : List String) : (Json.ofStrings names).names = names := by
  show (names.map Json.string).filterMap Json.string? = names
  rw [List.filterMap_map]
  exact List.filterMap_some

/-- The names that a rewritten slot holds are those of the modules that the record means. -/
theorem names_withModuleNames (set : ModuleSet) (record : Document) :
    (Hierarchy.withModuleNames set record).names set.kind.slot =
      set.enabledFor (record.names set.kind.slot) := by
  simp only [Hierarchy.withModuleNames, Document.names, Document.get?_set, if_pos]
  rw [Json.names_ofStrings]

/-- **A module runs on a record exactly when the record asked for it.** The words that stand for
modules do not overflow, and the guard of a module holds for the mask of a rewritten slot iff the
module was found under one of the names that the slot held. -/
theorem enables_iff_requested (kind : ModuleKind) (lookup : ModuleLookup) (compileAll : Bool)
    (records : List Document)
    (hcount : (ModuleResolution.resolve kind lookup compileAll kind.slot
      records).set.modules.length ≤ 64) :
    let set := (ModuleResolution.resolve kind lookup compileAll kind.slot records).set
    ∀ record ∈ records,
      let mask := set.maskOf ((Hierarchy.withModuleNames set record).names kind.slot)
      mask < 2 ^ 64 ∧
        ∀ m ∈ set.modules, set.constantOf? m.name = some (1 <<< m.bit) ∧ 1 <<< m.bit < 2 ^ 64 ∧
          (set.enables mask m.name = true ↔
            ∃ requested ∈ record.names kind.slot, ∃ found,
              lookup.find? requested = some found ∧ found.data.name = m.name) := by
  intro set record hrecord mask
  obtain ⟨hanswered, hlookups⟩ :=
    ModuleResolution.answered_resolve kind lookup compileAll kind.slot records
  have hset : set.Consistent := hanswered.consistent
  have hnames : (Hierarchy.withModuleNames set record).names kind.slot =
      set.enabledFor (record.names kind.slot) := by
    have hkind : set.kind = kind := hanswered.kind_eq
    rw [← hkind]
    exact names_withModuleNames set record
  refine ⟨hset.maskOf_lt hcount _, fun m hmem => ⟨hset.constantOf?_name hmem,
    hset.mask_lt hcount hmem, ?_⟩⟩
  -- a guard holds iff the name is enabled, and names in a rewritten slot are those of modules that
  -- were found
  rw [ModuleSet.enables_maskOf_iff hset hmem, hnames, ModuleSet.mem_enabledFor_iff]
  refine exists_congr fun requested => and_congr_right fun hrequested => ?_
  rw [hanswered.resolved requested (hlookups record hrecord requested hrequested),
    Option.map_eq_some_iff]

/-- A prefetcher that is a class in a directory of its own. -/
def prefetcherIn (directory : String) : FoundModule where
  data := ⟨"prefetcherD" ++ directory, ⟨"prefetcher/" ++ directory⟩, directory, false, ∅⟩
  malformedManifest := none

/-- Two prefetchers that can be asked for, one of them under two names, and one that cannot. -/
def threePrefetchers : ModuleLookup where
  find? name :=
    if name = "stride" then some (prefetcherIn "stride")
    else if name = "next_line" ∨ name = "./next_line" then some (prefetcherIn "next_line")
    else none
  all := [prefetcherIn "next_line", prefetcherIn "spatial"]

/-- Two caches, which name one of the prefetchers differently. -/
def twoCaches : List Document :=
  [[("prefetcher", .ofStrings ["stride", "absent", "next_line"])],
    [("prefetcher", .string "./next_line")]]

theorem enables_next_line_iff_requested :
    let set :=
      (ModuleResolution.resolve .prefetcher threePrefetchers true "prefetcher" twoCaches).set
    let record : Document := [("prefetcher", .string "./next_line")]
    let m : ModuleInfo := ⟨(prefetcherIn "next_line").data, 1⟩
    let mask := set.maskOf ((Hierarchy.withModuleNames set record).names "prefetcher")
    set.modules.length ≤ 64 ∧ record ∈ twoCaches ∧ m ∈ set.modules ∧ mask < 2 ^ 64 ∧
      (set.enables mask m.name = true ↔
        ∃ requested ∈ record.names "prefetcher", ∃ found,
          threePrefetchers.find? requested = some found ∧ found.data.name = m.name) := by
  intro set record m mask
  have hcount : set.modules.length ≤ 64 := by decide +kernel
  have hrecord : record ∈ twoCaches := by simp [twoCaches, record]
  have hm : m ∈ set.modules := List.mem_of_getElem? (i := 1) (by rfl)
  obtain ⟨hmask, hguard⟩ :=
    enables_iff_requested .prefetcher threePrefetchers true twoCaches hcount record hrecord
  exact ⟨hcount, hrecord, hm, hmask, (hguard m hm).2.2⟩

end MemoryHierarchy
