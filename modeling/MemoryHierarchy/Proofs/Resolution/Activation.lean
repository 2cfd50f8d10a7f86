import MemoryHierarchy.Proofs.Resolution.Pruning

/-!
# Access types that activate a prefetcher

Every template of a cache lists the access types that activate its prefetcher. Templates go below
records by merging, and a merge joins lists: what is written is not replaced, but each template adds
its own access types at the end (`activation`).

First-level templates are put below a cache once for each slot that names it, and below the first
level a cache takes one template at most (`Activated`). So a list that is written is left as it is
only where no template comes below it, and a cache without a list has the two access types of its
template only where exactly one does (`activation_resolved`).
-/

namespace MemoryHierarchy

/-- The key under which a cache lists the access types that activate its prefetcher. -/
def activationKey : String := "prefetch_activate"

/-- The access types that the template of a cache lists. -/
def accessTypes : List Json := [.string "LOAD", .string "PREFETCH"]

/-- What the access types of a cache become when a number of templates are put below it. Lists are
joined when documents are merged, so the types of a template come behind those that are written, as
often as a template is put there. -/
def activation (times : Nat) : Option Json → Option Json
  | none => if times = 0 then none else some (.array (List.replicate times accessTypes).flatten)
  | some (.array written) => some (.array (written ++ (List.replicate times accessTypes).flatten))
  | some other => some other

theorem activation_zero (value : Option Json) : activation 0 value = value := by
  unfold activation
  split
  · rfl
  · rw [List.replicate_zero, List.flatten_nil, List.append_nil]
  · rfl

/-- One more template. -/
theorem combine_activation (times : Nat) (value : Option Json) :
    some (Document.combine .plain activationKey (activation times value) (.array accessTypes)) =
      activation (times + 1) value := by
  have hlast : (List.replicate (times + 1) accessTypes).flatten =
      (List.replicate times accessTypes).flatten ++ accessTypes := by
    rw [List.replicate_succ', List.flatten_append, List.flatten_singleton]
  -- only a list, or nothing, takes in more access types
  match value with
  | none =>
    rw [activation, activation, if_neg (Nat.succ_ne_zero times), hlast]
    cases times with
    | zero => rfl
    | succ times => rfl
  | some (.array written) =>
    rw [activation, activation, hlast, ← List.append_assoc]
    rfl
  | some .null => rfl
  | some (.bool _) => rfl
  | some (.number _) => rfl
  | some (.string _) => rfl
  | some (.object _) => rfl

theorem foldl_activation (times more : Nat) (value : Option Json) :
    (List.replicate more (Json.array accessTypes)).foldl
      (fun present value => some (Document.combine .plain activationKey present value))
      (activation times value) = activation (times + more) value := by
  induction more generalizing times with
  | zero => rfl
  | succ more ih =>
    rw [List.replicate_succ, List.foldl_cons, combine_activation, ih, Nat.add_right_comm]
    rfl

theorem activation_add (times more : Nat) (value : Option Json) :
    activation more (activation times value) = activation (times + more) value := by
  have hfold := foldl_activation 0 more (activation times value)
  rw [activation_zero, Nat.zero_add] at hfold
  rw [← hfold, foldl_activation]

/-- A list is left as it is where there is no template. -/
theorem activation_eq_self_iff {times : Nat} {written : List Json} :
    activation times (some (.array written)) = some (.array written) ↔ times = 0 := by
  cases times with
  | zero => simp [activation]
  | succ times => simp [activation, List.replicate_succ, accessTypes]

/-- One template gives its access types to a cache without any. -/
theorem activation_eq_accessTypes_iff {times : Nat} :
    activation times none = some (.array accessTypes) ↔ times = 1 := by
  match times with
  | 0 => simp [activation]
  | 1 => simp [activation]
  | times + 2 => simp [activation, List.replicate_succ, accessTypes]

/-! ## Templates below a record

The access types are the one list among the attributes of a cache, and lists are joined when layers
are merged. So they count how many templates lie below a record, where other keys show the first one
only. -/

namespace Document

/-- The values that layers have under a key, in order. -/
def layerValues (key : String) (layers : List Document) : List Json :=
  layers.flatMap (·.valuesAt key)

/-- **The value under a key once layers are below a document.** -/
theorem get?_mergeAll_cons {record : Document} (hdistinct : record.Distinct)
    (layers : List Document) (key : String) :
    (mergeAll (record :: layers)).get? key =
      (layerValues key layers).foldl (fun present value => some (combine .plain key present value))
        (record.get? key) := by
  induction layers using List.reverseRecOn with
  | nil => exact congrArg (·.get? key) (mergeWith_nil .plain hdistinct)
  | append_singleton layers last ih =>
    rw [← List.cons_append, mergeAll_concat, get?_mergeWith, ih, layerValues, layerValues,
      List.flatMap_append, List.flatMap_singleton, List.foldl_append]

theorem get?_mergeAll_activation {record : Document} (hdistinct : record.Distinct)
    {layers : List Document} {times : Nat}
    (hlayers : layerValues activationKey layers = List.replicate times (.array accessTypes)) :
    (mergeAll (record :: layers)).get? activationKey =
      activation times (record.get? activationKey) := by
  have hfold := foldl_activation 0 times (record.get? activationKey)
  rw [activation_zero, Nat.zero_add] at hfold
  rw [get?_mergeAll_cons hdistinct, hlayers, hfold]

end Document

open Document (layerValues)

theorem layerValues_shared (role : Role) (n : Nat) :
    layerValues activationKey [(Template.shared role).document n] =
      List.replicate 1 (.array accessTypes) := by
  cases role <;> rfl

theorem layerValues_walker (n : Nat) :
    layerValues activationKey [Template.walker n] = List.replicate 0 (.array accessTypes) :=
  rfl

namespace Completion

variable {h : Hierarchy} {c : Completion} {core : Document} {name : String}

/-! ## What seeding puts below a cache

Every core adds its links to the records in its slots, and a template with them on the first level.
Two cores that share a first-level cache add two templates. -/

/-- The links of a slot bring a template on the first level only. -/
theorem layerValues_slotLayers (core : Document) {links : SlotLinks}
    (hlinks : links ∈ SlotLinks.all) :
    layerValues activationKey (slotLayers core links) =
      if links.slot ∈ Slot.firstLevel then [.array accessTypes] else [] := by
  simp only [SlotLinks.all, List.mem_cons, List.not_mem_nil, or_false] at hlinks
  rcases hlinks with rfl | rfl | rfl | rfl | rfl | rfl <;> rfl

theorem layerValues_linkLayers (core : Document) {links : List SlotLinks}
    (hlinks : links ⊆ SlotLinks.all) (name : String) :
    layerValues activationKey (linkLayers core links name) =
      List.replicate (links.countP fun l => slotName core l.slot = name ∧ l.slot ∈ Slot.firstLevel)
        (.array accessTypes) := by
  induction links with
  | nil => rfl
  | cons first links ih =>
    rw [List.cons_subset] at hlinks
    have hfirst := layerValues_slotLayers core hlinks.1
    have hrest := ih hlinks.2
    unfold linkLayers layerValues at hrest ⊢
    unfold layerValues at hfirst
    rw [List.filter_cons, List.countP_cons]
    -- only links of slots that name the cache are put below it, and of those only some bring a
    -- template
    by_cases hname : slotName core first.slot = name
    · by_cases hslot : first.slot ∈ Slot.firstLevel
      · simp [hname, hslot, hfirst, hrest, List.replicate_succ, List.flatMap_append]
      · simp [hname, hslot, hfirst, hrest]
    · simp [hname, hrest]

/-- A core brings as many templates as it has first-level slots that name the cache. -/
theorem layerValues_core (hclosed : h.Closed) (hcore : core ∈ h.cores) (name : String) :
    layerValues activationKey (linkLayers core SlotLinks.all name) =
      List.replicate ((Hierarchy.coreRoots core).count name) (.array accessTypes) := by
  rw [layerValues_linkLayers core (List.Subset.refl _)]
  congr 1
  have hslots : SlotLinks.all.map SlotLinks.slot = Slot.firstLevel ++ [.l2c, .stlb] := rfl
  calc SlotLinks.all.countP (fun l => slotName core l.slot = name ∧ l.slot ∈ Slot.firstLevel)
      = (SlotLinks.all.map SlotLinks.slot).countP
          (fun slot => slotName core slot = name ∧ slot ∈ Slot.firstLevel) := by
        rw [List.countP_map]
        rfl
    _ = Slot.firstLevel.countP (fun slot => core.slot? slot = some name) := by
        -- the second-level slots bring links, but no template
        have hrest : [Slot.l2c, Slot.stlb].countP
            (fun slot => slotName core slot = name ∧ slot ∈ Slot.firstLevel) = 0 := by
          simp [Slot.firstLevel]
        rw [hslots, List.countP_append, hrest, Nat.add_zero]
        refine List.countP_congr fun slot hslot => ?_
        rw [decide_eq_true_eq, decide_eq_true_eq, and_iff_left hslot,
          slotName_eq_iff hclosed hcore]
    _ = (Hierarchy.coreRoots core).count name := by
        rw [Hierarchy.coreRoots, List.count_filterMap]
        refine List.countP_congr fun slot _ => ?_
        rw [decide_eq_true_eq, beq_iff_eq]

theorem layerValues_cacheLayers (hclosed : h.Closed) (name : String) :
    layerValues activationKey (cacheLayers h.cores name) =
      List.replicate (h.roots.count name) (.array accessTypes) := by
  suffices ∀ cores ⊆ h.cores, layerValues activationKey (cacheLayers cores name) =
      List.replicate ((cores.flatMap Hierarchy.coreRoots).count name) (.array accessTypes) from
    this h.cores (List.Subset.refl _)
  -- by induction on the cores, of which each adds as many templates as it has slots that name the
  -- cache
  intro cores
  induction cores with
  | nil => intro _; rfl
  | cons core cores ih =>
    intro hsub
    rw [List.cons_subset] at hsub
    have hfirst := layerValues_core hclosed hsub.1 name
    have hrest := ih hsub.2
    unfold cacheLayers layerValues at hrest ⊢
    unfold layerValues at hfirst
    rw [List.flatMap_cons, List.flatMap_append, hfirst, hrest, List.flatMap_cons, List.count_append,
      List.replicate_add]

theorem mem_roles_seed_iff (hclosed : h.Closed) : name ∈ (seed h).roles ↔ name ∈ h.roots := by
  constructor
  · intro hrole
    by_contra hroot
    obtain ⟨role, hget⟩ := NameMap.mem_iff_exists.mp hrole
    rw [getElem?_roles_seed_of_not_root hclosed hroot] at hget
    cases hget
  · intro hroot
    obtain ⟨slot, hslot⟩ :=
      Option.isSome_iff_exists.mp (Hierarchy.isSome_firstSlot?_iff.mpr hroot)
    obtain ⟨role, hrole⟩ :=
      exists_role_of_firstLevel (Hierarchy.mem_firstLevel_of_firstSlot? hslot)
    refine NameMap.mem_iff_exists.mpr ⟨role, ?_⟩
    rw [getElem?_roles_seed hclosed, hslot, Option.bind_some, hrole]

/-! ## What comes below a cache after seeding

Later passes add a template where they give a role, and a role is given once. This is the invariant,
with the number of templates read off the slots and the role. -/

/-- Layers below a record change the access types of a cache of its name. -/
theorem get?_layer {h : Hierarchy} (hclosed : h.Closed) {layers : List Document} {times : Nat}
    (hlayers : layerValues activationKey layers = List.replicate times (.array accessTypes))
    (target name : String) :
    (h.layer target layers).caches[name]?.map (·.get? activationKey) =
      (h.caches[name]?.map (·.get? activationKey)).map
        (activation (if target = name then times else 0)) := by
  rw [Hierarchy.getElem?_layer_caches]
  split
  · cases hget : h.caches[name]? with
    | none => rfl
    | some record =>
      exact congrArg some
        (Document.get?_mergeAll_activation (hclosed.caches_distinct name record hget) hlayers)
  · rw [show activation 0 = id from funext activation_zero, Option.map_id_fun, id]

/-- How many templates are below a cache: one for each first-level slot that names it, and one for
its role where there is none. -/
def templatesBelow (h : Hierarchy) (c : Completion) (name : String) : Nat :=
  h.roots.count name + if name ∈ c.roles ∧ name ∉ h.roots then 1 else 0

/-- A completion in which the access types of each cache come from the templates below it. How many
there are is read off the roots and the roles of the completion, so the invariant needs no count of
its own. -/
structure Activated (h : Hierarchy) (c : Completion) : Prop where
  closed : c.hierarchy.Closed
  rooted : ∀ name ∈ h.roots, name ∈ c.roles
  caches : ∀ name : String, c.hierarchy.caches[name]?.map (·.get? activationKey) =
    (h.caches[name]?.map (·.get? activationKey)).map (activation (templatesBelow h c name))

namespace Activated

theorem seed (hclosed : h.Closed) : Activated h (seed h) where
  closed := (seeding_seed hclosed).closed hclosed
  rooted _ hroot := (mem_roles_seed_iff hclosed).mpr hroot
  caches := by
    intro name
    have htimes : templatesBelow h (Completion.seed h) name = h.roots.count name := by
      rw [templatesBelow, if_neg fun hboth => hboth.2 ((mem_roles_seed_iff hclosed).mp hboth.1),
        Nat.add_zero]
    rw [htimes, (layeredBy_seed hclosed).caches]
    cases hget : h.caches[name]? with
    | none => rfl
    | some record =>
      exact congrArg some (Document.get?_mergeAll_activation
        (hclosed.caches_distinct name record hget) (layerValues_cacheLayers hclosed name))

/-- Layers below a record, which may come with a role, keep the invariant where the templates
among them are counted. -/
theorem layer (hc : Activated h c) {layers : List Document} {times : Nat} {roles : NameMap Role}
    {sized : NameSet} {target : String}
    (hlayers : layerValues activationKey layers = List.replicate times (.array accessTypes))
    (hroles : ∀ name ∈ c.roles, name ∈ roles)
    (htimes : ∀ name, templatesBelow h ⟨c.hierarchy.layer target layers, roles, sized⟩ name =
      templatesBelow h c name + if target = name then times else 0) :
    Activated h ⟨c.hierarchy.layer target layers, roles, sized⟩ where
  closed := (Hierarchy.LayeredOver.layer hc.closed target layers).closed hc.closed
  rooted name hroot := hroles name (hc.rooted name hroot)
  caches := by
    intro name
    rw [get?_layer hc.closed hlayers, hc.caches, htimes, Option.map_map]
    congr 1
    funext value
    exact activation_add _ _ value

theorem serves {request : Request} (hc : Activated h c) (hserves : Serves sharers c request d) :
    Activated h d := by
  cases hserves with
  | @cache target role hmem hrole =>
    -- what has no role yet is not named on the first level
    have hroot : target ∉ h.roots := fun hroot => hrole (hc.rooted target hroot)
    refine hc.layer (layerValues_shared role _)
      (fun name hmem => Std.ExtTreeMap.mem_insert.mpr (Or.inr hmem)) fun name => ?_
    simp only [templatesBelow, Std.ExtTreeMap.mem_insert, Std.compare_eq_iff_eq]
    by_cases hname : target = name
    · subst hname
      simp [hrole, hroot]
    · simp [hname]
  | walker =>
    refine hc.layer (layerValues_walker _) (fun _ hmem => hmem) fun name => ?_
    rw [ite_self]
    rfl
  | cacheKept | walkerKept => exact hc

theorem foldl (hc : Activated h c) (sharers : NameMap Nat) (requests : List Request) :
    Activated h (requests.foldl (Completion.serve sharers) c) := by
  induction requests generalizing c with
  | nil => exact hc
  | cons request requests ih => exact ih (hc.serves (serves_serve sharers c request))

theorem finished (hclosed : h.Closed) : Activated h (finished h) := by
  rw [finished_eq hclosed]
  exact (seed hclosed).foldl _ _

end Activated

/-! ## What is left has a role

A record that is left has been asked for by one above it, unless it is on the first level, and being
asked for gives it a role. -/

/-- A cache that is asked for has a role in the end. -/
theorem mem_roles_foldl {sharers : NameMap Nat} (hclosed : c.hierarchy.Closed)
    {requests : List Request} {role : Role} (hmem : .cache name role ∈ requests)
    (hcache : name ∈ c.hierarchy.caches) : name ∈ (requests.foldl (serve sharers) c).roles := by
  induction requests using List.reverseRecOn with
  | nil => cases hmem
  | append_singleton requests last ih =>
    have hover : c.hierarchy.LayeredOver (requests.foldl (serve sharers) c).hierarchy :=
      layeredOver_foldl hclosed requests
    have hkept := hover.caches.mem_iff name
    rw [List.foldl_append, List.foldl_cons, List.foldl_nil, NameMap.mem_iff_exists,
      (serves_serve sharers _ last).getElem?_roles, if_pos (hkept.mp hcache)]
    rcases List.mem_append.mp hmem with hmem | hmem
    · -- a role that is given is not given again
      obtain ⟨old, hold⟩ := NameMap.mem_iff_exists.mp (ih hmem)
      exact ⟨old, by rw [hold, Option.some_or]⟩
    · rw [← List.mem_singleton.mp hmem, role?_eq_some_iff.mpr rfl]
      cases (requests.foldl (serve sharers) c).roles[name]? with
      | none => exact ⟨role, rfl⟩
      | some old => exact ⟨old, rfl⟩

theorem mem_roles_finished (hclosed : h.Closed) (hcache : name ∈ h.caches)
    (hreached : name ∈ (seed h).hierarchy.reachable) : name ∈ (finished h).roles := by
  have hseeding := seeding_seed hclosed
  have hseeded := hseeding.closed hclosed
  have hlevel : name ∈ (seed h).hierarchy.levels :=
    (Hierarchy.mem_levels_iff hseeded.system_named).mpr hreached
  rw [finished_eq hclosed]
  exact mem_roles_foldl hseeded (List.mem_append_right _ (mem_deeperRequests hlevel).1)
    ((hseeding.caches.mem_iff name).mp hcache)

/-! ## The completed hierarchy

So the number of templates is one below the first level, and on the first level it is the number of
slots that name the cache. -/

/-- The access types of a cache that is left are those of its templates. -/
theorem get?_activation_complete (hclosed : h.Closed) {record : Document}
    (hget : h.complete.caches[name]? = some record) :
    ∃ original, h.caches[name]? = some original ∧ record.get? activationKey =
      activation (templatesBelow h (finished h) name) (original.get? activationKey) := by
  rw [← prune_finished, Hierarchy.getElem?_prune_caches] at hget
  obtain ⟨_, hget⟩ := Option.ite_none_right_eq_some.mp hget
  have hcaches := (Activated.finished hclosed).caches name
  rw [hget, Option.map_some, Option.map_map] at hcaches
  obtain ⟨original, horiginal, hvalue⟩ := Option.map_eq_some_iff.mp hcaches.symm
  exact ⟨original, horiginal, hvalue.symm⟩

/-- Below the first level a cache takes one template at most, and one just in case it is reached
before templates bring links. -/
theorem templatesBelow_of_not_root (hclosed : h.Closed) (hroot : name ∉ h.roots) :
    templatesBelow h (finished h) name ≤ 1 ∧
      (memorySentinel ∉ h.system → name ∈ h.complete.caches →
        templatesBelow h (finished h) name = 1) := by
  -- no slot of the first level brings a template, so there is the one that comes with the role
  have htimes : templatesBelow h (finished h) name =
      if name ∈ (finished h).roles then 1 else 0 := by
    simp [templatesBelow, hroot, List.count_eq_zero.mpr hroot]
  rw [htimes]
  constructor
  · split <;> omega
  · intro hmemory hmem
    rw [← prune_finished, Hierarchy.mem_caches_prune_iff] at hmem
    have hcache : name ∈ h.caches := by
      rw [← (layeredOver_finished hclosed).caches.mem_iff] at hmem
      exact hmem.2
    rw [if_pos (mem_roles_finished hclosed hcache
      ((mem_reachable_seed_iff hclosed hmemory).mpr hmem.1))]

theorem templatesBelow_of_root (hroot : name ∈ h.roots) :
    templatesBelow h c name = h.roots.count name := by
  rw [templatesBelow, if_neg fun hboth => hboth.2 hroot, Nat.add_zero]

end Completion

open NormalizedConfiguration in
/-- **Each template adds its access types.** A cache that is left has the access types that are
written, followed by those of the templates below it: one for each first-level slot that names the
cache, and where there is none one at most, which is missing only below a record that stands in for
the memory. So a list is left as it is where there is no template, and a cache without any takes
just those of a template where there is one. -/
theorem activation_resolved {docs : List Document} {n : NormalizedConfiguration}
    (hread : ofDocuments docs = .ok n) (lookups : ModuleLookups) (name : String)
    (record : Document) (hget : (n.applyDefaults lookups).caches[name]? = some record) :
    let roots := (n.applyDefaults lookups).hierarchy.roots
    ∃ written times, n.caches[name]? = some written ∧
      record.get? activationKey = activation times (written.get? activationKey) ∧
      (name ∈ roots → times = roots.count name) ∧
      (name ∉ roots → times ≤ 1 ∧
        (memorySentinel ∉ n.caches ∧ memorySentinel ∉ n.walkers → times = 1)) ∧
      (∀ items, written.get? activationKey = some (.array items) →
        (record.get? activationKey = some (.array items) ↔ times = 0)) ∧
      (written.get? activationKey = none →
        (record.get? activationKey = some (.array accessTypes) ↔ times = 1)) := by
  intro roots
  have hclosed := closed_of_ofDocuments hread
  have hroots : roots = n.hierarchy.roots := by
    rw [show roots = _ from roots_resolved n lookups]
    exact (Completion.layeredOver_finished hclosed.hierarchy).roots_eq
  -- no pass after completion writes access types
  obtain ⟨completed, hcompleted, hlate⟩ :=
    (n.agreesOff_resolved lookups).caches.exists_before hget
  obtain ⟨written, hwritten, hvalue⟩ :=
    Completion.get?_activation_complete hclosed.hierarchy hcompleted
  rw [← hlate activationKey (by decide)] at hvalue
  refine ⟨written, _, hwritten, hvalue, fun hroot => ?_, fun hroot => ?_, ?_, ?_⟩
  · rw [hroots] at hroot ⊢
    exact Completion.templatesBelow_of_root hroot
  · rw [hroots] at hroot
    obtain ⟨hle, hone⟩ := Completion.templatesBelow_of_not_root hclosed.hierarchy hroot
    refine ⟨hle, fun hmemory => hone (fun hmem => ?_) ?_⟩
    · exact (Hierarchy.mem_system_iff.mp hmem).elim hmemory.2 hmemory.1
    · exact NameMap.mem_iff_exists.mpr ⟨completed, hcompleted⟩
  · intro items hitems
    rw [hvalue, hitems]
    exact activation_eq_self_iff
  · intro hnone
    rw [hvalue, hnone]
    exact activation_eq_accessTypes_iff

/-- Two cores that share a first-level data cache with access types of its own. A template is put
below it for each of the cores, so its list gets those of the template twice. -/
def sharedData : List Document :=
  [[("num_cores", .ofNat 2),
    ("ooo_cpu", .array [.object [("L1D", .string "data")], .object [("L1D", .string "data")]]),
    ("caches", .array [.object [("name", .string "data"),
      ("prefetch_activate", .ofStrings ["WRITE"])]])]]

open NormalizedConfiguration in
/-- The shared cache takes the access types of its template twice, and the last-level cache takes
them once. -/
theorem activation_sharedData :
    ∃ n data lastLevel, ofDocuments sharedData = .ok n ∧
      (n.applyDefaults .nothing).caches["data"]? = some data ∧
      "data" ∈ (n.applyDefaults .nothing).hierarchy.roots ∧
      data.get? activationKey =
        some (.ofStrings ["WRITE", "LOAD", "PREFETCH", "LOAD", "PREFETCH"]) ∧
      (n.applyDefaults .nothing).caches[lastLevelName]? = some lastLevel ∧
      lastLevelName ∉ (n.applyDefaults .nothing).hierarchy.roots ∧
      (memorySentinel ∉ n.caches ∧ memorySentinel ∉ n.walkers) ∧
      lastLevel.get? activationKey = some (.ofStrings ["LOAD", "PREFETCH"]) := by
  have hcomputed : ∃ n, ofDocuments sharedData = .ok n ∧
      "data" ∈ (n.applyDefaults .nothing).caches ∧
      (n.caches["data"]?.getD []).get? activationKey = some (.ofStrings ["WRITE"]) ∧
      (n.applyDefaults .nothing).hierarchy.roots.count "data" = 2 ∧
      lastLevelName ∈ (n.applyDefaults .nothing).caches ∧
      (n.caches[lastLevelName]?.getD []).get? activationKey = none ∧
      lastLevelName ∉ (n.applyDefaults .nothing).hierarchy.roots ∧
      (memorySentinel ∉ n.caches ∧ memorySentinel ∉ n.walkers) := by
    simp -zeta only [applyDefaults_eq_sorting]
    decide +kernel
  obtain ⟨n, hread, hdata, hlist, hcount, hlast, hnone, hroot, hmemory⟩ := hcomputed
  obtain ⟨data, hdata⟩ := NameMap.mem_iff_exists.mp hdata
  obtain ⟨lastLevel, hlast⟩ := NameMap.mem_iff_exists.mp hlast
  have hnamed : "data" ∈ (n.applyDefaults .nothing).hierarchy.roots := by
    rw [← List.count_pos_iff, hcount]
    decide
  obtain ⟨written, times, hwritten, hvalue, htimes, _⟩ :=
    activation_resolved hread .nothing "data" data hdata
  obtain ⟨written', times', hwritten', _, _, hshared, _, hsame⟩ :=
    activation_resolved hread .nothing lastLevelName lastLevel hlast
  rw [hwritten, Option.getD_some] at hlist
  rw [hwritten', Option.getD_some] at hnone
  -- both cores name the cache in a slot of the first level
  rw [htimes hnamed, hcount, hlist] at hvalue
  exact ⟨n, data, lastLevel, hread, hdata, hnamed, hvalue, hlast, hroot, hmemory,
    (hsame hnone).mpr ((hshared hroot).2 hmemory)⟩

/-- A last-level cache that is activated by loads only. With the access types of its template behind
its own it is activated by prefetches as well. -/
def loadsOnly : List Document :=
  [[("caches", .array [.object [("name", .string lastLevelName),
    ("prefetch_activate", .ofStrings ["LOAD"])]])]]

open NormalizedConfiguration in
/-- A list that is written is not final: the template adds its own access types to it. -/
theorem activation_of_loadsOnly :
    ∃ n written record, ofDocuments loadsOnly = .ok n ∧
      n.caches[lastLevelName]? = some written ∧
      written.get? activationKey = some (.ofStrings ["LOAD"]) ∧
      (n.applyDefaults .nothing).caches[lastLevelName]? = some record ∧
      record.get? activationKey = some (.ofStrings ["LOAD", "LOAD", "PREFETCH"]) ∧
      record.get? activationKey ≠ written.get? activationKey := by
  have hcomputed : ∃ n, ofDocuments loadsOnly = .ok n ∧ lastLevelName ∈ n.caches ∧
      (n.caches[lastLevelName]?.getD []).get? activationKey = some (.ofStrings ["LOAD"]) ∧
      lastLevelName ∈ (n.applyDefaults .nothing).caches ∧
      ((n.applyDefaults .nothing).caches[lastLevelName]?.getD []).get? activationKey =
        some (.ofStrings ["LOAD", "LOAD", "PREFETCH"]) := by
    simp -zeta only [applyDefaults_eq_sorting]
    decide +kernel
  obtain ⟨n, hread, hmem, hlist, hleft, hgrown⟩ := hcomputed
  obtain ⟨written, hwritten⟩ := NameMap.mem_iff_exists.mp hmem
  obtain ⟨record, hget⟩ := NameMap.mem_iff_exists.mp hleft
  rw [hwritten, Option.getD_some] at hlist
  rw [hget, Option.getD_some] at hgrown
  refine ⟨n, written, record, hread, hwritten, hlist, hget, hgrown, ?_⟩
  rw [hlist, hgrown]
  decide

end MemoryHierarchy
