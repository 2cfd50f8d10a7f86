import MemoryHierarchy.Proofs.Configuration.Normalized
import MemoryHierarchy.Proofs.Resolution.Computation
import MemoryHierarchy.Proofs.Resolution.Frame
import MemoryHierarchy.Proofs.Resolution.Seed
import MemoryHierarchy.Proofs.Resolution.Shared

/-!
# Shared templates fit the resolved hierarchy

While templates are chosen, roles and sharers are read off a hierarchy that is neither pruned nor
complete. Both are in fact those of the result: the links between records do not change after
seeding, and what has been pruned is linked to nothing that is left.

So a cache below the first level has the template of its role for the number of records that link to
it in the resolved hierarchy, and a walker the template for its number (`get?_of_shared`).
-/

namespace MemoryHierarchy

namespace Completion

open Document (Layered)

variable {c : Completion} {name : String} {requests : List Request}

/-! ## The first request for a cache

Several records may ask for a cache, with one role or with two. The first request counts. -/

theorem role?_eq_some_iff {request : Request} {role : Role} :
    request.role? name = some role ↔ request = .cache name role := by
  cases request with
  | cache target other =>
    show (if target = name then some other else none) = some role ↔ _
    rw [Request.cache.injEq]
    split
    · next hname => simp [hname]
    · next hname => simp [hname]
  | walker target =>
    show none = some role ↔ _
    simp

/-- Where all requests for a cache give one role, the first one gives it. -/
theorem findSome?_role?_eq_some {role : Role} (hmem : .cache name role ∈ requests)
    (hall : ∀ other, .cache name other ∈ requests → other = role) :
    requests.findSome? (·.role? name) = some role := by
  cases hfound : requests.findSome? (·.role? name) with
  | none =>
    rw [List.findSome?_eq_none_iff] at hfound
    -- the request itself gives a role
    have hrole := role?_eq_some_iff.mpr (rfl : Request.cache name role = .cache name role)
    rw [hfound _ hmem] at hrole
    cases hrole
  | some other =>
    obtain ⟨request, hrequest, hrole⟩ := List.exists_of_findSome?_eq_some hfound
    rw [role?_eq_some_iff] at hrole
    subst hrole
    rw [hall other hrequest]

theorem findSome?_role?_eq_none (hnone : ∀ role, .cache name role ∉ requests) :
    requests.findSome? (·.role? name) = none := by
  rw [List.findSome?_eq_none_iff]
  intro request hmem
  cases hrole : request.role? name with
  | none => rfl
  | some role =>
    rw [role?_eq_some_iff] at hrole
    exact absurd (hrole ▸ hmem) (hnone role)

/-! ## Requests

Requests for a record of the second level come from the slots above it. Below that a cache is asked
for as a last-level cache, whatever is above. -/

/-- The roles of the records above a name. -/
def rolesAbove (c : Completion) (name : String) : List Role :=
  (c.roles.toList.filter fun entry =>
    c.hierarchy.system.target? lowerLevel entry.1 = some name).map Prod.snd

theorem mem_rolesAbove_iff {role : Role} :
    role ∈ c.rolesAbove name ↔ ∃ upper : String, c.roles[upper]? = some role ∧
      c.hierarchy.system.target? lowerLevel upper = some name := by
  simp [rolesAbove, Std.ExtTreeMap.mem_toList_iff_getElem?_eq_some]

theorem getElem?_upperRoles (c : Completion) (name : String) :
    c.upperRoles[name]? = if c.rolesAbove name = [] then none else some (c.rolesAbove name) := by
  have hadd : ∀ entry groups, addRole c.hierarchy.system entry groups =
      (c.hierarchy.system.target? lowerLevel entry.1).elim groups fun target =>
        groups.insert target (entry.2 :: groups.getD target []) := by
    intro entry groups
    unfold addRole
    cases c.hierarchy.system.target? lowerLevel entry.1 with
    | none => rfl
    | some target => rfl
  rw [upperRoles, NameMap.getElem?_foldr_of_group hadd]
  simp only [rolesAbove, List.map_eq_nil_iff]

theorem cache_mem_secondRequests_iff {role : Role} :
    .cache name role ∈ c.secondRequests ↔
      c.rolesAbove name ≠ [] ∧ role = secondLevelRole (c.rolesAbove name) := by
  unfold secondRequests
  simp only [List.mem_flatMap, Prod.exists, Std.ExtTreeMap.mem_toList_iff_getElem?_eq_some,
    List.mem_cons, Request.cache.injEq, reduceCtorEq, List.not_mem_nil, or_false,
    getElem?_upperRoles]
  constructor
  · rintro ⟨target, uppers, huppers, rfl, rfl⟩
    split at huppers
    · cases huppers
    · next hsome =>
      rw [Option.some.injEq] at huppers
      exact ⟨hsome, by rw [huppers]⟩
  · rintro ⟨hsome, rfl⟩
    exact ⟨name, _, if_neg hsome, rfl, rfl⟩

/-- Below the second level a cache is asked for as a last-level cache only. -/
theorem role_of_mem_deeperRequests {levels : NameMap Nat} {role : Role}
    (hmem : .cache name role ∈ c.deeperRequests levels) : role = .llc := by
  unfold deeperRequests at hmem
  rw [List.mem_append, List.mem_flatMap, List.mem_flatMap] at hmem
  rcases hmem with ⟨⟨upper, upperRole⟩, _, hmem⟩ | ⟨⟨target, _⟩, _, hmem⟩
  · dsimp only at hmem
    split at hmem
    · cases upperRole <;> simp_all [requestsBelow]
    · cases hmem
  · simp_all

/-- Everything with a level is asked for in the end. -/
theorem mem_deeperRequests {levels : NameMap Nat} (hlevel : name ∈ levels) :
    .cache name .llc ∈ c.deeperRequests levels ∧ .walker name ∈ c.deeperRequests levels := by
  obtain ⟨level, hget⟩ := NameMap.mem_iff_exists.mp hlevel
  have hmem : (name, level) ∈ levels.byNumber := NameMap.mem_byNumber_iff.mpr hget
  unfold deeperRequests
  simp only [List.mem_append, List.mem_flatMap]
  exact ⟨Or.inr ⟨_, hmem, by simp⟩, Or.inr ⟨_, hmem, by simp⟩⟩

/-- The role below records with some roles. A record that nothing with a role links to is on the
last level. -/
def roleBelow (uppers : List Role) : Role := if uppers = [] then .llc else secondLevelRole uppers

/-! ## The completed hierarchy

With all passes as one list of requests the template of a record is that of the first request, sized
for the records that are linked to it. -/

/-- A hierarchy after all passes that complete its records. Nothing has been pruned yet. -/
def finished (h : Hierarchy) : Completion :=
  (seed h).completeSecondLevel.completeDeeperLevels (seed h).hierarchy.levels

theorem prune_finished (h : Hierarchy) : (finished h).hierarchy.prune = h.complete := rfl

variable {h : Hierarchy} {record : Document}

/-- All passes below the first level serve one list of requests. -/
theorem finished_eq (hclosed : h.Closed) :
    finished h = ((seed h).secondRequests ++
      (seed h).completeSecondLevel.deeperRequests (seed h).hierarchy.levels).foldl
        (serve (seed h).hierarchy.sharers) (seed h) :=
  completeDeeperLevels_completeSecondLevel ((seeding_seed hclosed).closed hclosed) _

theorem served_finished (hclosed : h.Closed) (hdisjoint : h.Disjoint) :
    Served (seed h).hierarchy.sharers (seed h) (finished h) := by
  rw [finished_eq hclosed]
  exact .foldl ((seeding_seed hclosed).disjoint hdisjoint) _

/-- Serving puts layers below what seeding has left. -/
theorem layeredOver_served (hclosed : h.Closed) :
    (seed h).hierarchy.LayeredOver (finished h).hierarchy := by
  rw [finished_eq hclosed]
  exact layeredOver_foldl ((seeding_seed hclosed).closed hclosed) _

theorem cores_complete (hclosed : h.Closed) : h.complete.cores = h.cores :=
  (layeredOver_served hclosed).cores.trans (seeding_seed hclosed).cores

theorem disjoint_complete (hclosed : h.Closed) (hdisjoint : h.Disjoint) : h.complete.Disjoint :=
  ((served_finished hclosed hdisjoint).disjoint
    ((seeding_seed hclosed).disjoint hdisjoint)).prune

/-- A cache that is left has layers below it: links, templates of the first level, and shared
ones. -/
theorem exists_layered_of_complete_cache (hclosed : h.Closed) (hdisjoint : h.Disjoint)
    (hget : h.complete.caches[name]? = some record) :
    ∃ original, h.caches[name]? = some original ∧
      Layered (fun layer => layer ∈ cacheLayers h.cores name ∨ IsSharedTemplate layer)
        original record := by
  have hserved := served_finished hclosed hdisjoint
  have hseeded := (seeding_seed hclosed).closed hclosed
  rw [← prune_finished, Hierarchy.getElem?_prune_caches] at hget
  split at hget
  -- the layers of seeding come first, and the shared template below them
  · obtain ⟨seeded, hmiddle, hlast⟩ := (hserved.caches_layered hseeded).exists_before hget
    rw [(layeredBy_seed hclosed).caches, Option.map_eq_some_iff] at hmiddle
    obtain ⟨original, horiginal, rfl⟩ := hmiddle
    have hfirst : Layered (· ∈ cacheLayers h.cores name) original
        (Document.mergeAll (original :: cacheLayers h.cores name)) :=
      ⟨_, fun _ hlayer => hlayer, rfl⟩
    refine ⟨original, horiginal, ?_⟩
    exact (hfirst.mono fun _ => Or.inl).trans (hlast.mono fun _ => Or.inr)
  · cases hget

/-- A walker that is left has layers below it: links, and templates of walkers. -/
theorem exists_layered_of_complete_walker (hclosed : h.Closed) (hdisjoint : h.Disjoint)
    (hget : h.complete.walkers[name]? = some record) :
    ∃ original, h.walkers[name]? = some original ∧
      Layered (fun layer => layer ∈ walkerLayers h.cores name ∨ IsWalkerTemplate layer)
        original record := by
  have hserved := served_finished hclosed hdisjoint
  have hseeded := (seeding_seed hclosed).closed hclosed
  rw [← prune_finished, Hierarchy.getElem?_prune_walkers] at hget
  split at hget
  -- first the links that seeding has put below, then the templates that serving has
  · obtain ⟨seeded, hmiddle, hlast⟩ := (hserved.walkers_layered hseeded).exists_before hget
    rw [(layeredBy_seed hclosed).walkers, Option.map_eq_some_iff] at hmiddle
    obtain ⟨original, horiginal, rfl⟩ := hmiddle
    have hfirst : Layered (· ∈ walkerLayers h.cores name) original
        (Document.mergeAll (original :: walkerLayers h.cores name)) :=
      ⟨_, fun _ hlayer => hlayer, rfl⟩
    refine ⟨original, horiginal, ?_⟩
    exact (hfirst.mono fun _ => Or.inl).trans (hlast.mono fun _ => Or.inr)
  · cases hget

/-- The links between records are those that seeding has left. -/
theorem sameLinks_finished (hclosed : h.Closed) (hmemory : memorySentinel ∉ h.system) :
    RecordMap.SameLinks lowerLevel (seed h).hierarchy.reachable h.complete.system := by
  have hseeding := seeding_seed hclosed
  have hseeded := hseeding.closed hclosed
  have hover := layeredOver_served hclosed
  have hlinks : RecordMap.SameLinks lowerLevel (seed h).hierarchy.system
      (finished h).hierarchy.system := by
    have hseed : memorySentinel ∉ (seed h).hierarchy.system := by
      rw [hseeding.mem_system_iff]
      exact hmemory
    rw [finished_eq hclosed]
    exact sameLinks_foldl _ fun request _ => unlinked_of_memory hseed request
  rw [← prune_finished, Hierarchy.system_prune, Hierarchy.reachable, Hierarchy.reachable,
    hover.roots_eq]
  exact hlinks.accessible hseeded.system_named (hover.closed hseeded).system_named _

theorem mem_reachable_seed_iff (hclosed : h.Closed) (hmemory : memorySentinel ∉ h.system) :
    name ∈ (seed h).hierarchy.reachable ↔ name ∈ (finished h).hierarchy.reachable := by
  rw [(sameLinks_finished hclosed hmemory).mem_iff name, ← prune_finished, Hierarchy.system_prune]

theorem getElem?_roles_finished (hclosed : h.Closed) (hdisjoint : h.Disjoint)
    (hcache : name ∈ h.caches) (hroot : name ∉ h.roots)
    (hreached : name ∈ (seed h).hierarchy.reachable) :
    (finished h).roles[name]? = some (roleBelow ((seed h).rolesAbove name)) := by
  have hseeding := seeding_seed hclosed
  have hcache' : name ∈ (seed h).hierarchy.caches := (hseeding.caches.mem_iff name).mp hcache
  have hnone := getElem?_roles_seed_of_not_root hclosed hroot
  have hlevel : name ∈ (seed h).hierarchy.levels :=
    (Hierarchy.mem_levels_iff (hseeding.closed hclosed).system_named).mpr hreached
  rw [finished_eq hclosed, getElem?_roles_foldl (hseeding.disjoint hdisjoint), hnone,
    Option.none_or, if_pos hcache', List.findSome?_append]
  unfold roleBelow
  by_cases habove : (seed h).rolesAbove name = []
  · -- nothing on the first level is above the cache: it is asked for by depth
    rw [if_pos habove, findSome?_role?_eq_none fun role hmem =>
      (cache_mem_secondRequests_iff.mp hmem).1 habove, Option.none_or]
    exact findSome?_role?_eq_some (mem_deeperRequests hlevel).1
      fun other hmem => role_of_mem_deeperRequests hmem
  -- otherwise the second level asks for it, and all its requests agree on the role
  · rw [if_neg habove, findSome?_role?_eq_some (cache_mem_secondRequests_iff.mpr ⟨habove, rfl⟩)
      fun other hmem => (cache_mem_secondRequests_iff.mp hmem).2, Option.some_or]

theorem mem_sized_finished (hclosed : h.Closed) (hdisjoint : h.Disjoint)
    (hwalker : name ∈ h.walkers) (hreached : name ∈ (seed h).hierarchy.reachable) :
    name ∈ (finished h).sized := by
  have hseeding := seeding_seed hclosed
  have hlevel : name ∈ (seed h).hierarchy.levels :=
    (Hierarchy.mem_levels_iff (hseeding.closed hclosed).system_named).mpr hreached
  rw [finished_eq hclosed, mem_sized_foldl (hseeding.disjoint hdisjoint)]
  exact Or.inr ⟨(hseeding.walkers.mem_iff name).mp hwalker,
    List.mem_append_right _ (mem_deeperRequests hlevel).2⟩

/-- A template is given for the number of records that link to its record and are reached. -/
theorem getD_sharers_seed (hclosed : h.Closed) (hreached : name ∈ (seed h).hierarchy.reachable)
    (hroot : name ∉ h.roots) : (seed h).hierarchy.sharers.getD name 1 =
      (seed h).hierarchy.reachable.values.countP (Hierarchy.linksTo name) := by
  have hseeding := seeding_seed hclosed
  rw [← hseeding.roots_eq] at hroot
  have hlinked :=
    Hierarchy.countP_linksTo_ne_zero (hseeding.closed hclosed).system_named hreached hroot
  rw [Std.ExtTreeMap.getD_eq_getD_getElem?, Hierarchy.getElem?_sharers,
    if_pos ⟨hreached, hlinked⟩, Option.getD_some]

/-- Templates are given before pruning, but for the links that are left. -/
theorem getD_sharers_seed_eq (hclosed : h.Closed) (hmemory : memorySentinel ∉ h.system)
    (hreached : name ∈ (seed h).hierarchy.reachable) (hroot : name ∉ h.roots) :
    (seed h).hierarchy.sharers.getD name 1 =
      h.complete.system.values.countP (Hierarchy.linksTo name) := by
  rw [getD_sharers_seed hclosed hreached hroot]
  exact (Hierarchy.countP_linksTo_eq_of_sameLinks (sameLinks_finished hclosed hmemory)
    hreached).symm

section

variable (hclosed : h.Closed) (hdisjoint : h.Disjoint) (hmemory : memorySentinel ∉ h.system)

include hclosed hdisjoint hmemory

/-- **A cache that no core names on the first level** has links and one template below it. -/
theorem exists_of_complete_cache {record : Document}
    (hget : h.complete.caches[name]? = some record) (hroot : name ∉ h.roots) :
    ∃ original seeded, h.caches[name]? = some original ∧
      (seed h).hierarchy.caches[name]? = some seeded ∧ Layered IsLinks original seeded ∧
      record = Document.mergeAll [seeded,
        (Template.shared (roleBelow ((seed h).rolesAbove name))).document
          (h.complete.linkers name)] := by
  have hserved := served_finished hclosed hdisjoint
  -- pruning comes last, so what is left has been reached before templates were given
  rw [← prune_finished, Hierarchy.getElem?_prune_caches] at hget
  split at hget
  next hkept =>
    have hreached := (mem_reachable_seed_iff hclosed hmemory).mpr hkept
    rw [hserved.caches, Option.map_eq_some_iff] at hget
    obtain ⟨seeded, hseeded, hrecord⟩ := hget
    obtain ⟨original, horiginal, hlayered⟩ := (seeding_seed hclosed).caches.exists_before hseeded
    have hcache : name ∈ h.caches := NameMap.mem_iff_exists.mpr ⟨original, horiginal⟩
    have hnone := getElem?_roles_seed_of_not_root hclosed hroot
    -- seeding has put links there, and no template, as no first-level slot names the cache
    refine ⟨original, seeded, horiginal, hseeded, hlayered.mono fun layer hlayer => ?_, ?_⟩
    · rcases hlayer with hlinks | ⟨hmem, _⟩
      · exact hlinks
      · exact absurd hmem hroot
    · rw [← hrecord, servedCache_of_some hnone
        (getElem?_roles_finished hclosed hdisjoint hcache hroot hreached),
        getD_sharers_seed_eq hclosed hmemory hreached hroot,
        (disjoint_complete hclosed hdisjoint).linkers_eq]
  · cases hget

/-- **A walker** has links and one template below it. -/
theorem exists_of_complete_walker {record : Document}
    (hget : h.complete.walkers[name]? = some record) :
    ∃ original seeded, h.walkers[name]? = some original ∧ Layered IsLinks original seeded ∧
      record = Document.mergeAll [seeded, Template.walker (h.complete.linkers name)] := by
  have hserved := served_finished hclosed hdisjoint
  rw [← prune_finished, Hierarchy.getElem?_prune_walkers] at hget
  split at hget
  next hkept =>
    have hreached := (mem_reachable_seed_iff hclosed hmemory).mpr hkept
    rw [hserved.walkers, Option.map_eq_some_iff] at hget
    obtain ⟨seeded, hseeded, hrecord⟩ := hget
    obtain ⟨original, horiginal, hlayered⟩ := (seeding_seed hclosed).walkers.exists_before hseeded
    have hwalker : name ∈ h.walkers := NameMap.mem_iff_exists.mpr ⟨original, horiginal⟩
    -- roots are caches, so no walker is one
    have hroot : name ∉ h.roots := fun hroot =>
      hdisjoint name (hclosed.mem_caches_of_root hroot) hwalker
    refine ⟨original, seeded, horiginal, hlayered, ?_⟩
    have hsized := mem_sized_finished hclosed hdisjoint hwalker hreached
    have hunsized : name ∉ (seed h).sized := by
      rw [(seeding_seed hclosed).sized]
      simp
    rw [← hrecord, servedWalker, if_pos ⟨hsized, hunsized⟩,
      getD_sharers_seed_eq hclosed hmemory hreached hroot,
      (disjoint_complete hclosed hdisjoint).linkers_eq]
  · cases hget

end

end Completion

/-! ## Roles in the resolved hierarchy

What decided on a role was known before pruning. It is read off the result again: slots above a
record are left if the record is. -/

namespace Hierarchy

/-- The first slots of the records that a core names on the first level and that link to a name. -/
def slotsAbove (h : Hierarchy) (name : String) : List Slot :=
  (h.system.keys.filter fun upper =>
    h.system.target? lowerLevel upper = some name).filterMap h.firstSlot?

/-- The role of a cache that no core names on the first level: below translation buffers only it is
one itself, and below nothing of the first level it is a last-level cache. -/
def sharedRole (h : Hierarchy) (name : String) : Role :=
  if h.slotsAbove name = [] then .llc
  else if ∀ slot ∈ h.slotsAbove name, slot ∈ Slot.translation then .stlb
  else .l2c

variable {h r : Hierarchy} {name : String}

theorem mem_slotsAbove_iff {slot : Slot} :
    slot ∈ h.slotsAbove name ↔ ∃ upper, h.system.target? lowerLevel upper = some name ∧
      h.firstSlot? upper = some slot := by
  simp only [slotsAbove, List.mem_filterMap, List.mem_filter, Std.ExtTreeMap.mem_keys,
    decide_eq_true_eq]
  constructor
  · rintro ⟨upper, ⟨_, hop⟩, hslot⟩
    exact ⟨upper, hop, hslot⟩
  · rintro ⟨upper, hop, hslot⟩
    exact ⟨upper, ⟨RecordMap.mem_of_target? hop, hop⟩, hslot⟩

/-- A role is chosen from slots as it is from the roles of these slots. -/
theorem sharedRole_eq {uppers : List Role}
    (huppers : ∀ role, role ∈ uppers ↔ ∃ slot ∈ h.slotsAbove name, Role.ofSlot? slot = some role) :
    h.sharedRole name = Completion.roleBelow uppers := by
  have hfirst : ∀ slot ∈ h.slotsAbove name, slot ∈ Slot.firstLevel := by
    intro slot hslot
    obtain ⟨_, _, hslot⟩ := mem_slotsAbove_iff.mp hslot
    exact mem_firstLevel_of_firstSlot? hslot
  have hnil : h.slotsAbove name = [] ↔ uppers = [] := by
    rw [List.eq_nil_iff_forall_not_mem, List.eq_nil_iff_forall_not_mem]
    constructor
    · intro hnone role hrole
      obtain ⟨slot, hslot, _⟩ := (huppers role).mp hrole
      exact hnone slot hslot
    · intro hnone slot hslot
      obtain ⟨role, hrole⟩ := Completion.exists_role_of_firstLevel (hfirst slot hslot)
      exact hnone role ((huppers role).mpr ⟨slot, hslot, hrole⟩)
  -- a first-level slot is one of translation iff its role is
  have htranslation : ∀ slot ∈ Slot.firstLevel, ∀ role, Role.ofSlot? slot = some role →
      (slot ∈ Slot.translation ↔ role.isTranslation = true) := by
    intro slot hslot role hrole
    cases slot <;> cases hrole <;>
      simp_all [Slot.firstLevel, Slot.translation, Role.isTranslation]
  have hall : (∀ slot ∈ h.slotsAbove name, slot ∈ Slot.translation) ↔
      uppers.all Role.isTranslation = true := by
    rw [List.all_eq_true]
    constructor
    · intro hslots role hrole
      obtain ⟨slot, hslot, hrole⟩ := (huppers role).mp hrole
      exact (htranslation slot (hfirst slot hslot) role hrole).mp (hslots slot hslot)
    · intro hroles slot hslot
      obtain ⟨role, hrole⟩ := Completion.exists_role_of_firstLevel (hfirst slot hslot)
      exact (htranslation slot (hfirst slot hslot) role hrole).mpr
        (hroles role ((huppers role).mpr ⟨slot, hslot, hrole⟩))
  simp only [sharedRole, Completion.roleBelow, Completion.secondLevelRole, hnil, hall]

theorem slot_not_mem_lateKeys (slot : Slot) : slot.key ∉ lateKeys := by
  cases slot <;> decide

theorem firstSlot?_resolved (hclosed : h.Closed) (hagrees : AgreesOff lateKeys h.complete r)
    (name : String) : r.firstSlot? name = h.firstSlot? name := by
  rw [hagrees.firstSlot?_eq (fun slot _ => slot_not_mem_lateKeys slot), firstSlot?, firstSlot?,
    Completion.cores_complete hclosed]

/-- **The roles that templates were chosen by are those of the resolved hierarchy.** Templates below
the first level add no links to records, so what is above a record does not change after seeding. -/
theorem sharedRole_resolved (hclosed : h.Closed) (hmemory : memorySentinel ∉ h.system)
    (hagrees : AgreesOff lateKeys h.complete r) (hmem : name ∈ r.system) :
    r.sharedRole name = Completion.roleBelow ((Completion.seed h).rolesAbove name) := by
  have hseeding := Completion.seeding_seed hclosed
  have hlinks := (Completion.sameLinks_finished hclosed hmemory).trans
    (hagrees.sameLinks (by decide))
  have hname := (hlinks.mem_iff name).mpr hmem
  refine sharedRole_eq fun role => ?_
  rw [Completion.mem_rolesAbove_iff]
  constructor
  · rintro ⟨upper, hrole, hop⟩
    rw [Completion.getElem?_roles_seed hclosed, Option.bind_eq_some_iff] at hrole
    obtain ⟨slot, hslot, hrole⟩ := hrole
    -- a record of the first level is a root, so it is not pruned
    have hroot : upper ∈ (Completion.seed h).hierarchy.roots := by
      rw [hseeding.roots_eq, ← isSome_firstSlot?_iff, hslot]
      rfl
    have hkept : upper ∈ (Completion.seed h).hierarchy.reachable :=
      (mem_reachable_iff (hseeding.closed hclosed).system_named).mpr
        ⟨upper, hroot, .refl (RecordMap.mem_of_target? hop)⟩
    rw [← RecordMap.target?_accessible hkept, ← reachable,
      hlinks.target?_iff upper name hname] at hop
    rw [← firstSlot?_resolved hclosed hagrees] at hslot
    exact ⟨slot, mem_slotsAbove_iff.mpr ⟨upper, hop, hslot⟩, hrole⟩
  · rintro ⟨slot, hslot, hrole⟩
    obtain ⟨upper, hop, hslot⟩ := mem_slotsAbove_iff.mp hslot
    rw [firstSlot?_resolved hclosed hagrees] at hslot
    rw [← hlinks.target?_iff upper name hname] at hop
    have hkept := RecordMap.mem_of_target? hop
    rw [reachable, RecordMap.target?_accessible hkept] at hop
    refine ⟨upper, ?_, hop⟩
    rw [Completion.getElem?_roles_seed hclosed, hslot]
    exact hrole

end Hierarchy

/-! ## Templates in the resolved configuration

A value of the template is seen in the result under a key that is not written by hand and that no
pass writes. Numbers of sets and of ways among these grow with the sharers. -/

/-- The keys of a shared template that depend on the role or on the number of sharers. -/
def sharedKeys : List String :=
  ["sets", "ways", "rq_size", "wq_size", "pq_size", "mshr_size", "latency", "max_tag_check",
    "max_fill"]

/-- The keys of a walker's template that depend on the number of sharers. -/
def walkerKeys : List String := ["rq_size", "mshr_size", "max_read", "max_write"]

theorem sharedKeys_not_mem :
    ∀ key ∈ sharedKeys, key ∉ [lowerLevel, lowerTranslate] ++ lateKeys := by
  decide

theorem walkerKeys_not_mem :
    ∀ key ∈ walkerKeys, key ∉ [lowerLevel, lowerTranslate] ++ lateKeys := by
  decide

theorem distinct_shared (role : Role) (n : Nat) : ((Template.shared role).document n).Distinct := by
  cases role <;> exact of_decide_eq_true rfl

theorem distinct_walker (n : Nat) : (Template.walker n).Distinct := of_decide_eq_true rfl

theorem exists_get?_shared (role : Role) (n : Nat) {key : String} (hkey : key ∈ sharedKeys) :
    ∃ value, ((Template.shared role).document n).get? key = some value := by
  simp only [sharedKeys, List.mem_cons, List.not_mem_nil, or_false] at hkey
  rcases hkey with rfl | rfl | rfl | rfl | rfl | rfl | rfl | rfl | rfl <;> exact ⟨_, rfl⟩

theorem exists_get?_walker (n : Nat) {key : String} (hkey : key ∈ walkerKeys) :
    ∃ value, (Template.walker n).get? key = some value := by
  simp only [walkerKeys, List.mem_cons, List.not_mem_nil, or_false] at hkey
  rcases hkey with rfl | rfl | rfl | rfl <;> exact ⟨_, rfl⟩

/-- A key that a record lacks, and that nothing but its template writes, comes from the template. -/
theorem get?_of_template {original seeded record template : Document} {key : String}
    (hseeded : Document.Layered Completion.IsLinks original seeded)
    (hrecord : Document.AgreesOff lateKeys (Document.mergeAll [seeded, template]) record)
    (hdistinct : template.Distinct) (hkey : key ∉ [lowerLevel, lowerTranslate] ++ lateKeys)
    (habsent : original.get? key = none) : record.get? key = template.get? key := by
  rw [List.mem_append, not_or] at hkey
  have hlacks : seeded.contains key = false := by
    rw [hseeded.contains_eq fun layer hlayer => hlayer.contains_eq_false hkey.1]
    exact Document.contains_eq_false_iff.mpr habsent
  rw [hrecord key hkey.2, Document.get?_mergeAll_pair_of_absent hdistinct hlacks]

namespace NormalizedConfiguration

variable {n : NormalizedConfiguration} {lookups : ModuleLookups} {name : String} {record : Document}

/-- No pass after completion changes how many records link to another. -/
theorem linkers_resolved (hclosed : n.Closed) (hdisjoint : n.hierarchy.Disjoint)
    (lookups : ModuleLookups) (hmem : name ∈ n.hierarchy.complete.system) :
    (n.applyDefaults lookups).hierarchy.linkers name = n.hierarchy.complete.linkers name := by
  have hcomplete := Completion.disjoint_complete hclosed.hierarchy hdisjoint
  have hagrees := n.agreesOff_resolved lookups
  exact Hierarchy.linkers_eq_of_sameLinks hcomplete (hagrees.disjoint hcomplete)
    (hagrees.sameLinks (by decide)) hmem

/-- A shared cache has the values of its template under the keys that it was written without. -/
theorem get?_cache_resolved (hclosed : n.Closed) (hdisjoint : n.hierarchy.Disjoint)
    (hmemory : memorySentinel ∉ n.hierarchy.system) (hroot : name ∉ n.hierarchy.roots)
    (hget : (n.applyDefaults lookups).caches[name]? = some record) :
    ∃ original, n.caches[name]? = some original ∧
      ∀ key ∈ sharedKeys, original.get? key = none → record.get? key =
        ((Template.shared ((n.applyDefaults lookups).hierarchy.sharedRole name)).document
          ((n.applyDefaults lookups).hierarchy.linkers name)).get? key := by
  have hagrees := n.agreesOff_resolved lookups
  obtain ⟨before, hbefore, hrecord⟩ := hagrees.caches.exists_before hget
  obtain ⟨original, seeded, horiginal, _, hseeded, rfl⟩ :=
    Completion.exists_of_complete_cache hclosed.hierarchy hdisjoint hmemory hbefore hroot
  have hkept : name ∈ n.hierarchy.complete.system :=
    NameMap.mem_iff_exists.mpr ⟨_, Hierarchy.getElem?_system_of_cache hbefore⟩
  have hresolved : name ∈ (n.applyDefaults lookups).hierarchy.system :=
    NameMap.mem_iff_exists.mpr ⟨_, Hierarchy.getElem?_system_of_cache hget⟩
  -- role and number of sharers are those of the result, in which nothing of the two has changed
  refine ⟨original, horiginal, fun key hkey habsent => ?_⟩
  rw [linkers_resolved hclosed hdisjoint lookups hkept,
    Hierarchy.sharedRole_resolved hclosed.hierarchy hmemory hagrees hresolved]
  exact get?_of_template hseeded hrecord (distinct_shared _ _) (sharedKeys_not_mem key hkey) habsent

/-- A walker has the values of its template under the keys that it was written without. -/
theorem get?_walker_resolved (hclosed : n.Closed) (hdisjoint : n.hierarchy.Disjoint)
    (hmemory : memorySentinel ∉ n.hierarchy.system)
    (hget : (n.applyDefaults lookups).walkers[name]? = some record) :
    ∃ original, n.walkers[name]? = some original ∧
      ∀ key ∈ walkerKeys, original.get? key = none → record.get? key =
        (Template.walker ((n.applyDefaults lookups).hierarchy.linkers name)).get? key := by
  obtain ⟨before, hbefore, hrecord⟩ :=
    (n.agreesOff_resolved lookups).walkers.exists_before hget
  obtain ⟨original, seeded, horiginal, hseeded, rfl⟩ :=
    Completion.exists_of_complete_walker hclosed.hierarchy hdisjoint hmemory hbefore
  have hcomplete := Completion.disjoint_complete hclosed.hierarchy hdisjoint
  have hkept : name ∈ n.hierarchy.complete.system :=
    NameMap.mem_iff_exists.mpr ⟨_, hcomplete.getElem?_system_of_walker hbefore⟩
  refine ⟨original, horiginal, fun key hkey habsent => ?_⟩
  rw [linkers_resolved hclosed hdisjoint lookups hkept]
  exact get?_of_template hseeded hrecord (distinct_walker _) (walkerKeys_not_mem key hkey) habsent

end NormalizedConfiguration

open NormalizedConfiguration in
/-- **Templates fit the sharers that are left.** In the resolved configuration, a cache that no core
names on the first level has the values of its role's template for the number of records that link
to it, and a walker those of its template, wherever the record was written without them. -/
theorem get?_of_shared {docs : List Document} {n : NormalizedConfiguration}
    (hread : ofDocuments docs = .ok n) (lookups : ModuleLookups)
    (hmemory : memorySentinel ∉ n.caches ∧ memorySentinel ∉ n.walkers)
    (hdisjoint : ∀ name ∈ n.caches, name ∉ n.walkers) :
    (∀ (name : String) (record : Document),
      (n.applyDefaults lookups).caches[name]? = some record →
      (∀ core ∈ n.cores, ∀ slot ∈ Slot.firstLevel, core.slot? slot ≠ some name) →
      ∃ original, n.caches[name]? = some original ∧
        ∀ key ∈ sharedKeys, original.get? key = none →
          ∃ value, ((Template.shared ((n.applyDefaults lookups).hierarchy.sharedRole name)).document
              ((n.applyDefaults lookups).hierarchy.linkers name)).get? key = some value ∧
            record.get? key = some value) ∧
    (∀ (name : String) (record : Document),
      (n.applyDefaults lookups).walkers[name]? = some record →
      ∃ original, n.walkers[name]? = some original ∧
        ∀ key ∈ walkerKeys, original.get? key = none →
          ∃ value, (Template.walker
              ((n.applyDefaults lookups).hierarchy.linkers name)).get? key = some value ∧
            record.get? key = some value) := by
  have hclosed := closed_of_ofDocuments hread
  have hsystem : memorySentinel ∉ n.hierarchy.system := by
    rw [Hierarchy.mem_system_iff]
    exact fun hmem => hmem.elim hmemory.2 hmemory.1
  constructor
  · intro name record hget hfirst
    -- no first-level slot of a resolved core names the cache, so none of a written one does
    have hroot : name ∉ n.hierarchy.roots := by
      rw [hclosed.mem_roots_iff]
      rintro ⟨core, hcore, slot, hslot, hname⟩
      exact hfirst core hcore slot hslot hname
    obtain ⟨original, horiginal, hshared⟩ :=
      get?_cache_resolved hclosed hdisjoint hsystem hroot hget
    refine ⟨original, horiginal, fun key hkey habsent => ?_⟩
    -- the template has the key, and the record that lacked it has been given this value
    obtain ⟨value, hvalue⟩ := exists_get?_shared
      ((n.applyDefaults lookups).hierarchy.sharedRole name)
      ((n.applyDefaults lookups).hierarchy.linkers name) hkey
    exact ⟨value, hvalue, (hshared key hkey habsent).trans hvalue⟩
  · intro name record hget
    obtain ⟨original, horiginal, hwalker⟩ := get?_walker_resolved hclosed hdisjoint hsystem hget
    refine ⟨original, horiginal, fun key hkey habsent => ?_⟩
    obtain ⟨value, hvalue⟩ := exists_get?_walker
      ((n.applyDefaults lookups).hierarchy.linkers name) hkey
    exact ⟨value, hvalue, (hwalker key hkey habsent).trans hvalue⟩

/-- Two cores that share a last-level cache, with defaults for everything. -/
def twoCores : List Document := [[("num_cores", .ofNat 2)]]

open NormalizedConfiguration in
/-- The last-level cache below two cores is twice as large as the one below a single core. -/
theorem get?_of_shared_twoCores :
    ∃ n, ofDocuments twoCores = .ok n ∧
      (memorySentinel ∉ n.caches ∧ memorySentinel ∉ n.walkers) ∧
      (∀ name ∈ n.caches, name ∉ n.walkers) ∧
      ∃ record, (n.applyDefaults .nothing).caches[lastLevelName]? = some record ∧
        (n.applyDefaults .nothing).hierarchy.sharedRole lastLevelName = .llc ∧
        (n.applyDefaults .nothing).hierarchy.linkers lastLevelName = 2 ∧
        record.get? "sets" = some (.ofNat 4096) := by
  have hcomputed : ∃ n, ofDocuments twoCores = .ok n ∧
      (memorySentinel ∉ n.caches ∧ memorySentinel ∉ n.walkers) ∧ n.hierarchy.Disjoint ∧
      (∀ core ∈ n.cores, ∀ slot ∈ Slot.firstLevel, core.slot? slot ≠ some lastLevelName) ∧
      ((n.caches[lastLevelName]?.getD []).get? "sets").isNone = true ∧
      lastLevelName ∈ (n.applyDefaults .nothing).caches ∧
      (n.applyDefaults .nothing).hierarchy.sharedRole lastLevelName = .llc ∧
      (n.applyDefaults .nothing).hierarchy.linkers lastLevelName = 2 := by
    simp -zeta only [applyDefaults_eq_sorting]
    decide +kernel
  obtain ⟨n, hread, hmemory, hdisjoint, hfirst, habsent, hmem, hrole, hlinkers⟩ := hcomputed
  obtain ⟨record, hget⟩ := NameMap.mem_iff_exists.mp hmem
  obtain ⟨original, horiginal, hshared⟩ :=
    (get?_of_shared hread .nothing hmemory hdisjoint).1 lastLevelName record hget hfirst
  rw [horiginal, Option.getD_some, Option.isNone_iff_eq_none] at habsent
  -- the sets have been left out, so they are those of the template
  obtain ⟨value, htemplate, hvalue⟩ := hshared "sets" (by decide) habsent
  rw [hrole, hlinkers] at htemplate
  refine ⟨n, hread, hmemory, hdisjoint, record, hget, hrole, hlinkers, ?_⟩
  rw [hvalue, ← htemplate]
  rfl

end MemoryHierarchy
