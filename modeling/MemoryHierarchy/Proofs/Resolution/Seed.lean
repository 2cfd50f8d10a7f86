import Mathlib.Data.List.Find
import MemoryHierarchy.Proofs.Hierarchy
import MemoryHierarchy.Resolution.Template

/-!
# What seeding does to records

Seeding goes through the slots of the cores and puts layers below the records they name: in the
order of the cores and slots, all that `cacheLayers` and `walkerLayers` list. `LayeredBy` is the
invariant of the records, and `layeredBy_seed` what it comes to.

These layers hold nothing but links, except below a record on the first level, where they may be the
template of a first-level role (`SeedLayer`). `Seeding` is what most of the later stages need.

Roles are given on the first level only, and the first slot that names a record decides:
`getElem?_roles_seed`.
-/

namespace MemoryHierarchy

/-- The first of the first-level slots that name a record, in the order of the cores. -/
def Hierarchy.firstSlot? (h : Hierarchy) (name : String) : Option Slot :=
  h.cores.findSome? fun core => Slot.firstLevel.find? fun slot => core.slot? slot = some name

theorem Hierarchy.isSome_firstSlot?_iff {h : Hierarchy} {name : String} :
    (h.firstSlot? name).isSome ↔ name ∈ h.roots := by
  rw [firstSlot?, List.isSome_findSome?, List.any_eq_true, mem_roots_iff]
  simp only [List.find?_isSome, decide_eq_true_eq]

theorem Hierarchy.mem_firstLevel_of_firstSlot? {h : Hierarchy} {name : String} {slot : Slot}
    (hfirst : h.firstSlot? name = some slot) : slot ∈ Slot.firstLevel := by
  obtain ⟨_, _, hfind⟩ := List.exists_of_findSome?_eq_some hfirst
  exact List.mem_of_find?_eq_some hfind

theorem Hierarchy.AgreesOff.firstSlot?_eq {before after : Hierarchy} {keys : List String}
    (h : Hierarchy.AgreesOff keys before after) (hslots : ∀ slot ∈ Slot.firstLevel, slot.key ∉ keys)
    (name : String) : after.firstSlot? name = before.firstSlot? name := by
  have hcores := h.cores
  unfold firstSlot?
  generalize before.cores = cores at hcores
  generalize after.cores = cores' at hcores
  induction hcores with
  | nil => rfl
  | cons hcore _ ih =>
    rw [List.findSome?_cons, List.findSome?_cons, ih]
    congr 1
    refine List.find?_congr fun slot hslot => ?_
    rw [Document.slot?, Document.slot?, hcore.string? (hslots slot hslot)]

namespace Completion

open Document (Layered)

variable {h : Hierarchy} {c : Completion} {core : Document} {name : String}

/-! ## Layers

What seeding puts below a record is written down here as a list of layers, core by core and slot by
slot, with no map that changes on the way. -/

/-- The layers that a core puts below the record in the slot of some links: the links, and on the
first level the template of the slot. -/
def slotLayers (core : Document) (links : SlotLinks) : List Document :=
  links.document core ::
    ((Role.ofSlot? links.slot).bind Template.firstLevel?).toList.map Template.FirstLevel.document

/-- The layers that some links of a core put below the cache of a name. -/
def linkLayers (core : Document) (links : List SlotLinks) (name : String) : List Document :=
  (links.filter fun l => slotName core l.slot = name).flatMap (slotLayers core)

/-- The layers that some cores put below the cache of a name. -/
def cacheLayers (cores : List Document) (name : String) : List Document :=
  cores.flatMap fun core => linkLayers core SlotLinks.all name

/-- The layer that a core puts below its walker. -/
def walkerPointer (core : Document) : Document := [(lowerLevel, .string (slotName core .l1d))]

/-- The layers that some cores put below the walker of a name. -/
def walkerLayers (cores : List Document) (name : String) : List Document :=
  (cores.filter fun core => slotName core .ptw = name).map walkerPointer

/-! ## Records

A fold over cores and slots puts one layer at a time. That it puts the layers of that list is the
invariant, so the fold is not looked at again. -/

/-- A completion in which layers have been put below the records of a hierarchy. The layers of each
name come from the cores in their order, so they are known as soon as the cores are. -/
structure LayeredBy (h : Hierarchy) (caches walkers : String → List Document) (c : Completion) :
    Prop where
  cores : c.hierarchy.cores = h.cores
  caches : ∀ name : String, c.hierarchy.caches[name]? =
    h.caches[name]?.map fun record => Document.mergeAll (record :: caches name)
  walkers : ∀ name : String, c.hierarchy.walkers[name]? =
    h.walkers[name]?.map fun record => Document.mergeAll (record :: walkers name)
  sized : c.sized = ∅

namespace LayeredBy

variable {caches caches' walkers walkers' : String → List Document}

theorem start (hclosed : h.Closed) : LayeredBy h (fun _ => []) (fun _ => []) (start h) where
  cores := rfl
  caches := by
    intro name
    cases hget : h.caches[name]? with
    | none => exact hget
    | some record =>
      -- a record without layers is the merge of itself alone
      have hmerged := Document.mergeWith_nil .plain (hclosed.caches_distinct name record hget)
      exact hget.trans (congrArg some hmerged.symm)
  walkers := by
    intro name
    cases hget : h.walkers[name]? with
    | none => exact hget
    | some record =>
      have hmerged := Document.mergeWith_nil .plain (hclosed.walkers_distinct name record hget)
      exact hget.trans (congrArg some hmerged.symm)
  sized := rfl

theorem congr (hc : LayeredBy h caches walkers c) (hcaches : ∀ name, caches name = caches' name)
    (hwalkers : ∀ name, walkers name = walkers' name) : LayeredBy h caches' walkers' c := by
  rw [← funext hcaches, ← funext hwalkers]
  exact hc

/-- More layers below one record. -/
theorem getElem?_modify {records after : RecordMap} {layers : String → List Document}
    (hrecords : ∀ name : String, after[name]? =
      records[name]?.map fun record => Document.mergeAll (record :: layers name))
    (target : String) (new : List Document) (name : String) :
    (after.modify target fun record => Document.mergeAll (record :: new))[name]? =
      records[name]?.map fun record =>
        Document.mergeAll (record :: (layers name ++ if target = name then new else [])) := by
  rw [NameMap.getElem?_modify]
  by_cases hname : target = name
  · subst hname
    rw [if_pos rfl, if_pos rfl, hrecords, Option.map_map]
    congr 1
    funext record
    exact Document.mergeAll_mergeAll record (layers target) new
  · rw [if_neg hname, if_neg hname, List.append_nil]
    exact hrecords name

/-- Layers below a cache. -/
theorem layer (hc : LayeredBy h caches walkers c) {target : String} (hmem : target ∈ h.caches)
    (layers : List Document) :
    LayeredBy h (fun name => caches name ++ if target = name then layers else []) walkers
      (c.layer target layers) := by
  have hcache : target ∈ c.hierarchy.caches := by
    rw [Std.ExtTreeMap.mem_iff_isSome_getElem?, hc.caches, Option.isSome_map,
      ← Std.ExtTreeMap.mem_iff_isSome_getElem?]
    exact hmem
  unfold Completion.layer Hierarchy.layer
  rw [if_pos hcache]
  exact ⟨hc.cores, getElem?_modify hc.caches target layers, hc.walkers, hc.sized⟩

theorem seedSlot (hc : LayeredBy h caches walkers c) {links : SlotLinks}
    (hmem : slotName core links.slot ∈ h.caches) :
    LayeredBy h (fun name => caches name ++
      if slotName core links.slot = name then slotLayers core links else []) walkers
      (seedSlot core c links) := by
  unfold Completion.seedSlot slotLayers
  cases Role.ofSlot? links.slot with
  | none => exact hc.layer hmem _
  | some role =>
    rw [Option.bind_some]
    dsimp only
    cases Template.firstLevel? role with
    | none => exact hc.layer hmem _
    | some template =>
      have hlayered := hc.layer hmem [links.document core, template.document]
      exact ⟨hlayered.cores, hlayered.caches, hlayered.walkers, hlayered.sized⟩

theorem foldl_seedSlot (hc : LayeredBy h caches walkers c) {links : List SlotLinks}
    (hmem : ∀ l ∈ links, slotName core l.slot ∈ h.caches) :
    LayeredBy h (fun name => caches name ++ linkLayers core links name) walkers
      (links.foldl (Completion.seedSlot core) c) := by
  induction links generalizing caches c with
  | nil => exact hc.congr (fun _ => (List.append_nil _).symm) fun _ => rfl
  | cons first links ih =>
    rw [List.forall_mem_cons] at hmem
    refine (ih (hc.seedSlot hmem.1) hmem.2).congr (fun name => ?_) fun _ => rfl
    unfold linkLayers
    rw [List.filter_cons, List.append_assoc]
    by_cases hname : slotName core first.slot = name
    · simp [hname]
    · simp [hname]

theorem seedWalker (hc : LayeredBy h caches walkers c) (core : Document) :
    LayeredBy h caches (fun name => walkers name ++
      if slotName core .ptw = name then [walkerPointer core] else []) (seedWalker core c) :=
  ⟨hc.cores, hc.caches, getElem?_modify hc.walkers _ [walkerPointer core], hc.sized⟩

theorem seedCore (hc : LayeredBy h caches walkers c)
    (hmem : ∀ l ∈ SlotLinks.all, slotName core l.slot ∈ h.caches) :
    LayeredBy h (fun name => caches name ++ linkLayers core SlotLinks.all name)
      (fun name => walkers name ++
        if slotName core .ptw = name then [walkerPointer core] else []) (seedCore c core) :=
  (hc.foldl_seedSlot hmem).seedWalker core

theorem foldl_seedCore (hc : LayeredBy h caches walkers c) {cores : List Document}
    (hmem : ∀ core ∈ cores, ∀ l ∈ SlotLinks.all, slotName core l.slot ∈ h.caches) :
    LayeredBy h (fun name => caches name ++ cacheLayers cores name)
      (fun name => walkers name ++ walkerLayers cores name)
      (cores.foldl Completion.seedCore c) := by
  induction cores generalizing caches walkers c with
  | nil =>
    exact hc.congr (fun _ => (List.append_nil _).symm) fun _ => (List.append_nil _).symm
  | cons core cores ih =>
    rw [List.forall_mem_cons] at hmem
    refine (ih (hc.seedCore hmem.1) hmem.2).congr (fun name => ?_) fun name => ?_
    · rw [cacheLayers, cacheLayers, List.flatMap_cons, List.append_assoc]
    -- a core has one walker, so it puts one layer below it or none
    · unfold walkerLayers
      rw [List.filter_cons, List.append_assoc]
      by_cases hname : slotName core .ptw = name
      · simp [hname]
      · simp [hname]

end LayeredBy

theorem slotName_eq_iff (hclosed : h.Closed) (hcore : core ∈ h.cores) (slot : Slot) :
    slotName core slot = name ↔ core.slot? slot = some name := by
  obtain ⟨other, hother, _⟩ := hclosed.slots core hcore slot
  rw [slotName, hother, Option.getD_some, Option.some.injEq]

theorem slotName_mem_caches (hclosed : h.Closed) (hcore : core ∈ h.cores) {links : SlotLinks}
    (hlinks : links ∈ SlotLinks.all) : slotName core links.slot ∈ h.caches := by
  -- links are listed for caches only
  have hkind : ∀ links ∈ SlotLinks.all, links.slot.isWalker = false := by decide
  obtain ⟨name, hname, hmem⟩ := hclosed.slots core hcore links.slot
  rw [hkind links hlinks] at hmem
  rw [(slotName_eq_iff hclosed hcore links.slot).mpr hname]
  exact hmem

/-- **The layers that seeding puts below each record.** The induction is over the cores: the layers
of one more core come behind those of the cores before it. -/
theorem layeredBy_seed (hclosed : h.Closed) :
    LayeredBy h (cacheLayers h.cores) (walkerLayers h.cores) (seed h) :=
  ((LayeredBy.start hclosed).foldl_seedCore fun _ hcore _ hlinks =>
    slotName_mem_caches hclosed hcore hlinks).congr (fun _ => List.nil_append _)
      fun _ => List.nil_append _

/-! ## Kinds of layers

A layer either holds links or is a template of the first level. Later arguments split on that. -/

/-- A layer that holds nothing but links. -/
def IsLinks (layer : Document) : Prop := layer.keys ⊆ [lowerLevel, lowerTranslate]

/-- The layers that seeding puts below the record of a name. Templates are put below records that a
core names on the first level, and links below others too. -/
def SeedLayer (h : Hierarchy) (name : String) (layer : Document) : Prop :=
  IsLinks layer ∨ name ∈ h.roots ∧
    ∃ role template, Template.firstLevel? role = some template ∧ layer = template.document

theorem isLinks_document (links : SlotLinks) (core : Document) : IsLinks (links.document core) := by
  obtain ⟨slot, lower, translate⟩ := links
  cases translate with
  | none => exact List.cons_subset_cons _ (List.nil_subset _)
  | some slot => exact List.Subset.refl _

theorem isLinks_walkerPointer (core : Document) : IsLinks (walkerPointer core) :=
  List.cons_subset_cons _ (List.nil_subset _)

theorem IsLinks.contains_eq_false {layer : Document} (hlinks : IsLinks layer) {key : String}
    (hkey : key ∉ [lowerLevel, lowerTranslate]) : layer.contains key = false :=
  Document.contains_eq_false_of_not_mem fun hmem => hkey (hlinks hmem)

theorem mem_cacheLayers_iff {cores : List Document} {layer : Document} :
    layer ∈ cacheLayers cores name ↔ ∃ core ∈ cores, ∃ links ∈ SlotLinks.all,
      slotName core links.slot = name ∧ layer ∈ slotLayers core links := by
  simp only [cacheLayers, linkLayers, List.mem_flatMap, List.mem_filter, decide_eq_true_eq,
    and_assoc]

theorem mem_walkerLayers_iff {cores : List Document} {layer : Document} :
    layer ∈ walkerLayers cores name ↔
      ∃ core ∈ cores, slotName core .ptw = name ∧ walkerPointer core = layer := by
  simp only [walkerLayers, List.mem_map, List.mem_filter, decide_eq_true_eq, and_assoc]

theorem mem_slotLayers_iff {links : SlotLinks} {layer : Document} :
    layer ∈ slotLayers core links ↔ layer = links.document core ∨
      ∃ role template, Role.ofSlot? links.slot = some role ∧
        Template.firstLevel? role = some template ∧ layer = template.document := by
  simp only [slotLayers, List.mem_cons, List.mem_map, Option.mem_toList, Option.bind_eq_some_iff]
  refine or_congr_right ⟨?_, ?_⟩
  · rintro ⟨template, ⟨role, hrole, htemplate⟩, rfl⟩
    exact ⟨role, template, hrole, htemplate, rfl⟩
  · rintro ⟨role, template, hrole, htemplate, rfl⟩
    exact ⟨template, ⟨role, hrole, htemplate⟩, rfl⟩

theorem seedLayer_of_mem (hclosed : h.Closed) {layer : Document}
    (hlayer : layer ∈ cacheLayers h.cores name) : SeedLayer h name layer := by
  obtain ⟨core, hcore, links, _, hname, hlayer⟩ := mem_cacheLayers_iff.mp hlayer
  rcases mem_slotLayers_iff.mp hlayer with rfl | ⟨role, template, hrole, htemplate, rfl⟩
  · exact Or.inl (isLinks_document links core)
  · -- only first-level slots have a role with a fixed template
    have hfirst : links.slot ∈ Slot.firstLevel := by
      cases hslot : links.slot <;> rw [hslot] at hrole <;> cases hrole <;>
        first | decide | cases htemplate
    rw [slotName_eq_iff hclosed hcore] at hname
    exact Or.inr ⟨Hierarchy.mem_roots_iff.mpr ⟨core, hcore, links.slot, hfirst, hname⟩,
      role, template, htemplate, rfl⟩

/-- A completion that has gone through some slots of a hierarchy. It says which layers there may be
and not in which order, which is enough for keys that no layer of the kind has. -/
structure Seeding (h : Hierarchy) (c : Completion) : Prop where
  cores : c.hierarchy.cores = h.cores
  caches : h.caches.Pointwise (fun name => Layered (SeedLayer h name)) c.hierarchy.caches
  walkers : h.walkers.Pointwise (fun _ => Layered IsLinks) c.hierarchy.walkers
  sized : c.sized = ∅

/-- **What seeding does to records.** One more slot puts at most one link, and at most one template,
below a record. -/
theorem seeding_seed (hclosed : h.Closed) : Seeding h (seed h) := by
  have hlayered := layeredBy_seed hclosed
  refine ⟨hlayered.cores, fun name => ?_, fun name => ?_, hlayered.sized⟩
  · rw [hlayered.caches]
    cases h.caches[name]? with
    | none => exact .none
    | some record => exact .some ⟨_, fun _ => seedLayer_of_mem hclosed, rfl⟩
  · rw [hlayered.walkers]
    cases h.walkers[name]? with
    | none => exact .none
    | some record =>
      refine .some ⟨_, fun layer hlayer => ?_, rfl⟩
      obtain ⟨core, _, _, rfl⟩ := mem_walkerLayers_iff.mp hlayer
      exact isLinks_walkerPointer core

theorem Seeding.layeredOver (hc : Seeding h c) : h.LayeredOver c.hierarchy where
  cores := hc.cores
  caches := hc.caches.mono fun _ _ _ hlayered => hlayered.mono fun _ _ => trivial
  walkers := hc.walkers.mono fun _ _ _ hlayered => hlayered.mono fun _ _ => trivial

theorem Seeding.closed (hc : Seeding h c) (hclosed : h.Closed) : c.hierarchy.Closed :=
  hc.layeredOver.closed hclosed

theorem Seeding.disjoint (hc : Seeding h c) (hdisjoint : h.Disjoint) : c.hierarchy.Disjoint := by
  intro name hcache hwalker
  exact hdisjoint name ((hc.caches.mem_iff name).mpr hcache) ((hc.walkers.mem_iff name).mpr hwalker)

theorem Seeding.mem_system_iff (hc : Seeding h c) :
    name ∈ c.hierarchy.system ↔ name ∈ h.system :=
  hc.layeredOver.mem_system_iff.symm

theorem Seeding.roots_eq (hc : Seeding h c) : c.hierarchy.roots = h.roots :=
  hc.layeredOver.roots_eq

/-! ## Roles

A record takes the role of the first slot that names it. A later slot does not change it. -/

/-- The role of a slot on the first level. -/
def firstLevelRole? (slot : Slot) : Option Role :=
  if slot ∈ Slot.firstLevel then Role.ofSlot? slot else none

theorem getElem?_roles_seedSlot (core : Document) (c : Completion) (links : SlotLinks)
    (name : String) :
    (seedSlot core c links).roles[name]? = c.roles[name]?.or
      (if slotName core links.slot = name then firstLevelRole? links.slot else none) := by
  -- a role is inserted where there is none, so an older one stays
  have hnew : ∀ role, (c.roles.insertIfNew (slotName core links.slot) role)[name]? =
      c.roles[name]?.or (if slotName core links.slot = name then some role else none) := by
    intro role
    rw [Std.ExtTreeMap.getElem?_insertIfNew]
    simp only [Std.compare_eq_iff_eq]
    by_cases hname : slotName core links.slot = name
    · subst hname
      cases hget : c.roles[slotName core links.slot]? with
      | none => simp [NameMap.mem_iff_exists, hget]
      | some old => simp [NameMap.mem_iff_exists, hget]
    · simp [hname]
  have hold : c.roles[name]? = c.roles[name]?.or
      (if slotName core links.slot = name then none else none) := by
    rw [ite_self, Option.or_none]
  unfold seedSlot
  cases hslot : links.slot with
  | l1i | l1d | itlb | dtlb => rw [hslot] at hnew; exact hnew _
  | l2c | stlb | ptw => rw [hslot] at hold; exact hold

theorem getElem?_roles_foldl_seedSlot (core : Document) (links : List SlotLinks) (c : Completion)
    (name : String) :
    (links.foldl (seedSlot core) c).roles[name]? = c.roles[name]?.or
      (links.findSome? fun l =>
        if slotName core l.slot = name then firstLevelRole? l.slot else none) := by
  induction links generalizing c with
  | nil => rw [List.foldl_nil, List.findSome?_nil, Option.or_none]
  | cons l links ih =>
    rw [List.foldl_cons, ih, getElem?_roles_seedSlot, Option.or_assoc, List.findSome?_cons]
    cases (if slotName core l.slot = name then firstLevelRole? l.slot else none) <;> rfl

theorem exists_role_of_firstLevel {slot : Slot} (hslot : slot ∈ Slot.firstLevel) :
    ∃ role, Role.ofSlot? slot = some role := by
  have hall : ∀ slot ∈ Slot.firstLevel, (Role.ofSlot? slot).isSome = true := by decide
  exact Option.isSome_iff_exists.mp (hall slot hslot)

/-- The role of the first slot with a property. -/
theorem findSome?_firstLevelRole? (p : Slot → Prop) [DecidablePred p] {slots : List Slot}
    (hslots : slots ⊆ Slot.firstLevel) :
    (slots.findSome? fun slot => if p slot then firstLevelRole? slot else none) =
      (slots.find? fun slot => p slot).bind Role.ofSlot? := by
  induction slots with
  | nil => rfl
  | cons slot slots ih =>
    rw [List.cons_subset] at hslots
    rw [List.findSome?_cons, List.find?_cons]
    by_cases hp : p slot
    · obtain ⟨role, hrole⟩ := exists_role_of_firstLevel hslots.1
      rw [if_pos hp, firstLevelRole?, if_pos hslots.1, hrole]
      simp [hp, hrole]
    · rw [if_neg hp, ih hslots.2]
      simp [hp]

/-- A core gives a record the role of the first of its slots that names it. -/
theorem getElem?_roles_seedCore
    (hslot : ∀ slot, slotName core slot = name ↔ core.slot? slot = some name) (c : Completion) :
    (seedCore c core).roles[name]? = c.roles[name]?.or
      ((Slot.firstLevel.find? fun slot => core.slot? slot = some name).bind Role.ofSlot?) := by
  show (SlotLinks.all.foldl (seedSlot core) c).roles[name]? = _
  rw [getElem?_roles_foldl_seedSlot]
  simp only [hslot]
  congr 1
  let role? (slot : Slot) : Option Role :=
    if core.slot? slot = some name then firstLevelRole? slot else none
  -- links are given to the slots of the first level and to two slots that give no role
  have hrest : [Slot.l2c, Slot.stlb].findSome? role? = none := by
    simp [role?, firstLevelRole?, Slot.firstLevel]
  calc SlotLinks.all.findSome? (fun links => role? links.slot)
      = (Slot.firstLevel ++ [Slot.l2c, Slot.stlb]).findSome? role? := rfl
    _ = Slot.firstLevel.findSome? role? := by
        rw [List.findSome?_append, hrest, Option.or_none]
    _ = _ := findSome?_firstLevelRole? (fun slot => core.slot? slot = some name)
        (List.Subset.refl _)

/-- **The role of a record is that of the first slot that names it.** A role is given once, so the
first slot decides, in the order of the cores. -/
theorem getElem?_roles_seed (hclosed : h.Closed) (name : String) :
    (seed h).roles[name]? = (h.firstSlot? name).bind Role.ofSlot? := by
  suffices ∀ cores ⊆ h.cores, ∀ c : Completion,
      (cores.foldl seedCore c).roles[name]? = c.roles[name]?.or
        ((cores.findSome? fun core =>
          Slot.firstLevel.find? fun slot => core.slot? slot = some name).bind Role.ofSlot?) by
    exact this h.cores (List.Subset.refl _) (start h)
  intro cores
  induction cores with
  | nil => intro _ c; simp
  | cons core cores ih =>
    intro hsub c
    rw [List.cons_subset] at hsub
    rw [List.foldl_cons, ih hsub.2, getElem?_roles_seedCore (slotName_eq_iff hclosed hsub.1),
      Option.or_assoc, List.findSome?_cons]
    -- a core whose slots do not name the record leaves the decision to later cores
    cases hfind : Slot.firstLevel.find? fun slot => core.slot? slot = some name with
    | none => rfl
    | some slot =>
      obtain ⟨role, hrole⟩ := exists_role_of_firstLevel (List.mem_of_find?_eq_some hfind)
      simp only [Option.bind_some, hrole, Option.some_or]

theorem getElem?_roles_seed_of_not_root (hclosed : h.Closed) (hroot : name ∉ h.roots) :
    (seed h).roles[name]? = none := by
  rw [getElem?_roles_seed hclosed]
  cases hfirst : h.firstSlot? name with
  | none => rfl
  | some slot => exact absurd (Hierarchy.isSome_firstSlot?_iff.mp (by rw [hfirst]; rfl)) hroot

end Completion

end MemoryHierarchy
