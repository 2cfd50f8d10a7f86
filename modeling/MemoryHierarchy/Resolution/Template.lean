import MemoryHierarchy.Hierarchy
import MemoryHierarchy.Template

/-!
# Completing records by templates

The slots of a core decide how the records they name are linked and which templates complete them.
First-level records get their fixed templates; the records below get templates that grow with the
number of records that share them: the second level first, then everything deeper.

Each cache takes one shared template and each walker one, the first for which it comes up; `roles`
and `sized` remember which have.
-/

namespace MemoryHierarchy

/-- The links that a core gives to the record in one of its slots. -/
structure SlotLinks where
  slot : Slot
  /-- The slot that names the next level; where there is none, that is the last-level cache. -/
  lower : Option Slot
  /-- The slot that names the record which translates. -/
  translate : Option Slot

/-- The links of each slot that names a cache, in the order in which they are made. Walkers have no
entry, as they are linked to the first-level data cache of their core by themselves. -/
def SlotLinks.all : List SlotLinks :=
  [⟨.l1i, some .l2c, some .itlb⟩,
    ⟨.l1d, some .l2c, some .dtlb⟩,
    ⟨.itlb, some .stlb, none⟩,
    ⟨.dtlb, some .stlb, none⟩,
    ⟨.l2c, none, some .stlb⟩,
    ⟨.stlb, some .ptw, none⟩]

/-- The name in a slot of a core, which is empty where there is none. Normalized cores have a name
in each slot. -/
def slotName (core : Document) (slot : Slot) : String := (core.slot? slot).getD ""

/-- The links of a slot as a layer below the record it names. As a layer they give way to links that
are written, and to those of cores before. -/
def SlotLinks.document (links : SlotLinks) (core : Document) : Document :=
  (lowerLevel, .string ((links.lower.map (slotName core)).getD lastLevelName))
  :: (links.translate.toList.map fun slot => (lowerTranslate, .string (slotName core slot)))

/-- A hierarchy whose records are being completed. -/
structure Completion where
  hierarchy : Hierarchy
  /-- The role of each cache that has taken a template. -/
  roles : NameMap Role
  /-- The walkers that have taken a template. -/
  sized : NameSet

namespace Completion

/-- No record has taken a template. -/
def start (h : Hierarchy) : Completion := ⟨h, ∅, ∅⟩

/-- Completes the record of a name by layers below it. Where a name has no record nothing happens.
-/
def layer (c : Completion) (name : String) (layers : List Document) : Completion :=
  { c with hierarchy := c.hierarchy.layer name layers }

/-- Links the record in a slot of a core and, on the first level, completes it by the template of
the slot. The role that comes with a template is that of the first slot to name the record. -/
def seedSlot (core : Document) (c : Completion) (links : SlotLinks) : Completion :=
  let name := slotName core links.slot
  let pointers := links.document core
  match Role.ofSlot? links.slot with
  | none => c.layer name [pointers]
  | some role =>
    match Template.firstLevel? role with
    | none => c.layer name [pointers]
    | some template =>
      { c.layer name [pointers, template.document] with roles := c.roles.insertIfNew name role }

/-- Links the walker of a core to its first-level data cache. The walker is looked up among walkers,
also where a cache has the same name. -/
def seedWalker (core : Document) (c : Completion) : Completion :=
  let pointer : Document := [(lowerLevel, .string (slotName core .l1d))]
  { c with
    hierarchy := { c.hierarchy with
      walkers := c.hierarchy.walkers.modify (slotName core .ptw) fun record =>
        Document.mergeAll [record, pointer] } }

/-- Links the records in the slots of a core and completes those on the first level. Its walker
comes last, behind the slots that name caches. -/
def seedCore (c : Completion) (core : Document) : Completion :=
  seedWalker core (SlotLinks.all.foldl (seedSlot core) c)

/-- Links the records in the slots of all cores and completes those on the first level. Cores are
taken in their order, so what an earlier core puts below a shared record counts more. -/
def seed (h : Hierarchy) : Completion := h.cores.foldl seedCore (start h)

/-- Completes a walker for a number of sharers, unless that has been done. Walkers have no roles, so
it is remembered by name which have been completed. -/
def completeWalker (c : Completion) (name : String) (sharers : Nat) : Completion :=
  if name ∈ c.hierarchy.walkers ∧ name ∉ c.sized then
    { c.layer name [Template.walker sharers] with sized := c.sized.insert name }
  else c

/-- Completes a cache that has no role yet for a number of sharers, and gives it the role. Whatever
asks for the cache afterwards finds a role and changes nothing. -/
def completeCache (c : Completion) (name : String) (role : Role) (sharers : Nat) : Completion :=
  if name ∈ c.hierarchy.caches ∧ name ∉ c.roles then
    { c.layer name [(Template.shared role).document sharers] with
      roles := c.roles.insert name role }
  else c

/-- Adds the role of an upper record in front of those above the same record. -/
def addRole (system : RecordMap) (entry : String × Role) (groups : NameMap (List Role)) :
    NameMap (List Role) :=
  match system.target? lowerLevel entry.1 with
  | some target => groups.insert target (entry.2 :: groups.getD target [])
  | none => groups

/-- The roles of the records above each record. Records without a role do not count, and the order
of the roles is that of the names above. -/
def upperRoles (c : Completion) : NameMap (List Role) :=
  c.roles.toList.foldr (addRole c.hierarchy.system) ∅

/-- The role of a record below first-level records: translations only make it a translation
buffer. -/
def secondLevelRole (uppers : List Role) : Role :=
  if uppers.all Role.isTranslation then .stlb else .l2c

/-- Completes what is directly below the first level. A name that comes up is completed as a cache
and as a walker, whichever of the two it is. -/
def completeSecondLevel (c : Completion) : Completion :=
  let sharers := c.hierarchy.sharers
  c.upperRoles.toList.foldl (fun c (target, uppers) =>
    let n := sharers.getD target 1
    (c.completeCache target (secondLevelRole uppers) n).completeWalker target n) c

/-- Completes what is below a record of the second level: a cache below a cache, a walker below a
translation buffer. -/
def completeBelow (sharers : NameMap Nat) (target : String) (role : Role) (c : Completion) :
    Completion :=
  let n := sharers.getD target 1
  match role with
  | .l2c => c.completeCache target .llc n
  | .stlb => c.completeWalker target n
  | _ => c

/-- Completes what is below the second level, and then everything else by increasing depth. The
number of sharers is counted once, when the second level is complete. -/
def completeDeeperLevels (c : Completion) (levels : NameMap Nat) : Completion :=
  let system := c.hierarchy.system
  let sharers := c.hierarchy.sharers
  let below := c.roles.toList.foldl (fun d (name, role) =>
    match system.target? lowerLevel name with
    | some target => completeBelow sharers target role d
    | none => d) c
  levels.byNumber.foldl (fun d (name, _) =>
    let n := sharers.getD name 1
    (d.completeCache name .llc n).completeWalker name n) below

end Completion

/-- Completes the records of a hierarchy by templates and drops what no core can reach. The depths
that order the last pass are taken when all slots have been linked, as later templates link to the
memory at most. -/
def Hierarchy.complete (h : Hierarchy) : Hierarchy :=
  let seeded := Completion.seed h
  let levels := seeded.hierarchy.levels
  (seeded.completeSecondLevel.completeDeeperLevels levels).hierarchy.prune

end MemoryHierarchy
