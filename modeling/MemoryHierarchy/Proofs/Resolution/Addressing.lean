import Mathlib.Order.Bounds.Defs
import MemoryHierarchy.Proofs.Configuration.SelfContained
import MemoryHierarchy.Proofs.Resolution.Frequency

/-!
# Pages, blocks and owners

The walk from a translation buffer of a core meets what the core approaches: the records in front of
the first walker, and that walker (`mem_path_iff`). What is met in front of it deals in pages,
everything else in blocks.

Walks are followed core by core and slot by slot, and each writes an owner only where there is none.
`Followed` says what is known after some of them; the owner of a walker is what the first core that
approaches it hands down, as long as no cache on the way has an owner of its own
(`findSome?_owner`). Cores hand down their places, so this is the least core (`addresses_resolved`).
-/

namespace MemoryHierarchy

/-! ## Lists up to an element

Paths are cut behind the first walker. An element of a cut list is one of the list with nothing of
that kind in front of it. -/

section

variable {α : Type} {p : α → Bool} {items : List α}

/-- What stands in front of an element that is left does not have the property. -/
theorem getElem?_takeThrough_iff {i : Nat} {x : α} :
    (takeThrough p items)[i]? = some x ↔
      items[i]? = some x ∧ ∀ j < i, ∀ y, items[j]? = some y → p y = false := by
  -- the first item either ends the list that is left, or the rest is cut on its own
  induction items generalizing i with
  | nil => simp [takeThrough]
  | cons first items ih =>
    cases i with
    | zero =>
      rw [takeThrough]
      split <;> simp
    | succ i =>
      rw [takeThrough, List.getElem?_cons_succ]
      split
      · next hfirst =>
        simp only [List.getElem?_cons_succ, List.getElem?_nil, reduceCtorEq, false_iff, not_and]
        intro _ hfront
        rw [hfront 0 (Nat.succ_pos i) first rfl] at hfirst
        cases hfirst
      · next hfirst =>
        rw [List.getElem?_cons_succ, ih]
        refine and_congr_right fun _ => ⟨fun hfront j hj y hy => ?_, fun hfront j hj y hy => ?_⟩
        · cases j with
          | zero =>
            rw [List.getElem?_cons_zero, Option.some.injEq] at hy
            rw [← hy, Bool.eq_false_iff]
            exact hfirst
          | succ j => exact hfront j (Nat.lt_of_succ_lt_succ hj) y hy
        · exact hfront (j + 1) (Nat.succ_lt_succ hj) y hy

theorem eq_false_of_mem_front {front : List α} {last : α}
    (htaken : takeThrough p items = front ++ [last]) : ∀ x ∈ front, p x = false := by
  intro x hx
  obtain ⟨i, hi, rfl⟩ := List.getElem_of_mem hx
  -- the last element is in the list, and this one stands in front of it
  have hlast : (takeThrough p items)[front.length]? = some last := by
    rw [htaken, List.getElem?_concat_length]
  have hx : (takeThrough p items)[i]? = some front[i] := by
    rw [htaken, List.getElem?_append_left hi, List.getElem?_eq_getElem hi]
  exact (getElem?_takeThrough_iff.mp hlast).2 i hi _ (getElem?_takeThrough_iff.mp hx).1

/-- A value that stands for all items with a property is found where there is such an item. -/
theorem findSome?_const {β : Type} {q : α → Prop} [DecidablePred q] {value : Option β} :
    items.findSome? (fun x => if q x then value else none) =
      if ∃ x ∈ items, q x then value else none := by
  induction items with
  | nil => simp
  | cons first items ih =>
    rw [List.findSome?_cons, ih]
    by_cases hfirst : q first
    · cases value <;> simp [hfirst]
    · simp [hfirst]

end

/-! ## What a walk approaches

The statement speaks of walks from slots, without lists. That a record is on the path which is
followed and that it is approached are the same. -/

namespace Hierarchy

variable {h before after : Hierarchy} {start name : String} {record : Document}

/-- From the record of one name that of another one is met, with no walker in front of it. The
record that is met may be a walker itself. -/
inductive Approaches (h : Hierarchy) : String → String → Prop
  | refl {name : String} (known : name ∈ h.system) : Approaches h name name
  | step {name next last : String} (hwalker : name ∉ h.walkers)
      (hop : h.system.target? lowerLevel name = some next) (onward : Approaches h next last) :
      Approaches h name last

/-- The walk from a translation buffer of a core meets a record, with no walker in front of it. -/
def Translates (h : Hierarchy) (core : Document) (name : String) : Prop :=
  ∃ slot ∈ Slot.translation, ∃ start, core.slot? slot = some start ∧ h.Approaches start name

/-- The core in some place is one whose translation walks meet a record. The least such place is
what decides the owner of a walker. -/
def TranslatesAt (h : Hierarchy) (name : String) (i : Nat) : Prop :=
  ∃ core, h.cores[i]? = some core ∧ h.Translates core name

theorem approaches_iff :
    h.Approaches start name ↔ ∃ n, h.system.ReachesIn lowerLevel n start name ∧
      ∀ m < n, ∀ other, h.system.ReachesIn lowerLevel m start other → other ∉ h.walkers := by
  constructor
  · intro happroaches
    -- there is one link from each name, so what lies in front is known step by step
    induction happroaches with
    | refl known => exact ⟨0, .refl known, fun m hm => absurd hm (Nat.not_lt_zero m)⟩
    | step hwalker hop _ ih =>
      obtain ⟨n, hreach, hfront⟩ := ih
      refine ⟨n + 1, .step hop hreach, fun m hm other hother => ?_⟩
      cases hother with
      | refl _ => exact hwalker
      | step hop' hother =>
        rw [hop, Option.some.injEq] at hop'
        subst hop'
        exact hfront _ (Nat.lt_of_succ_lt_succ hm) other hother
  · rintro ⟨n, hreach, hfront⟩
    induction hreach with
    | refl known => exact .refl known
    | step hop _ ih =>
      refine .step (hfront 0 (Nat.succ_pos _) _ (.refl (RecordMap.mem_of_target? hop))) hop ?_
      exact ih fun m hm other hother =>
        hfront (m + 1) (Nat.succ_lt_succ hm) other (.step hop hother)

theorem Approaches.mono (hmem : ∀ name ∈ before.system, name ∈ after.system)
    (hwalkers : ∀ name ∈ after.walkers, name ∈ before.walkers)
    (hlinks : ∀ name, after.system.target? lowerLevel name =
      before.system.target? lowerLevel name)
    (happroaches : before.Approaches start name) : after.Approaches start name := by
  induction happroaches with
  | refl known => exact .refl (hmem _ known)
  | step hwalker hop _ ih =>
    exact .step (fun hafter => hwalker (hwalkers _ hafter)) ((hlinks _).trans hop) ih

theorem AgreesOff.approaches_iff {keys : List String} (hagrees : AgreesOff keys before after)
    (hlink : lowerLevel ∉ keys) : after.Approaches start name ↔ before.Approaches start name := by
  have hmem := (hagrees.walkers.union hagrees.caches).mem_iff
  have hlinks := hagrees.target?_eq hlink
  constructor
  · exact .mono (fun name => (hmem name).mpr) (fun name => (hagrees.walkers.mem_iff name).mp)
      fun name => (hlinks name).symm
  · exact .mono (fun name => (hmem name).mp) (fun name => (hagrees.walkers.mem_iff name).mpr) hlinks

theorem AgreesOff.translates_iff {keys : List String} (hagrees : AgreesOff keys before after)
    (hlink : lowerLevel ∉ keys) {core core' : Document}
    (hcore : Document.AgreesOff keys core core')
    (hslots : ∀ slot ∈ Slot.translation, slot.key ∉ keys) :
    after.Translates core' name ↔ before.Translates core name := by
  refine exists_congr fun slot => and_congr_right fun hslot => exists_congr fun start => ?_
  have hstart : core'.slot? slot = core.slot? slot := hcore.string? (hslots slot hslot)
  rw [hstart, hagrees.approaches_iff hlink]

end Hierarchy

namespace TranslationWalks

open Hierarchy

variable {h : Hierarchy} {walkers : RecordMap} {start name : String} {record : Document}

theorem isWalker_of_name? (hname : record.name? = some name) :
    isWalker walkers record = walkers.contains name := by
  rw [isWalker, hname]

theorem getElem?_path_iff (hnamed : h.system.Named) {i : Nat} :
    (path h.system h.walkers start)[i]? = some record ↔
      ∃ name, (h.system.walk lowerLevel start)[i]? = some (name, record) ∧
        ∀ m < i, ∀ other, h.system.ReachesIn lowerLevel m start other → other ∉ h.walkers := by
  have hmet : ∀ {j : Nat} {record : Document},
      ((h.system.walk lowerLevel start).map Prod.snd)[j]? = some record ↔
        ∃ name, (h.system.walk lowerLevel start)[j]? = some (name, record) := by
    intro j record
    rw [List.getElem?_map, Option.map_eq_some_iff]
    simp only [Prod.exists, exists_eq_right]
  have hwalker : ∀ {j : Nat} {name : String} {record : Document},
      (h.system.walk lowerLevel start)[j]? = some (name, record) →
        h.system.ReachesIn lowerLevel j start name ∧
          (isWalker h.walkers record = false ↔ name ∉ h.walkers) := by
    intro j name record hget
    obtain ⟨hreach, hrecord⟩ := RecordMap.reachesIn_of_walk hget
    rw [isWalker_of_name? (hnamed name record hrecord), Bool.eq_false_iff, Ne,
      Std.ExtTreeMap.contains_iff_mem]
    exact ⟨hreach, Iff.rfl⟩
  -- a path is a walk cut behind the first walker, so what is in front of a record is no walker
  rw [path, getElem?_takeThrough_iff, hmet]
  simp only [← exists_and_right]
  refine exists_congr fun name => and_congr_right fun hget => ?_
  constructor
  · intro hfront m hm other hother
    have hlength : m < (h.system.walk lowerLevel start).length :=
      Nat.lt_trans hm (List.getElem?_eq_some_iff.mp hget).1
    have hmiddle := List.getElem?_eq_getElem hlength
    obtain ⟨hreach, hiff⟩ := hwalker hmiddle
    rw [hother.unique hreach]
    exact hiff.mp (hfront m hm _ (hmet.mpr ⟨_, hmiddle⟩))
  · intro hfront j hj other hother
    obtain ⟨name', hmiddle⟩ := hmet.mp hother
    obtain ⟨hreach, hiff⟩ := hwalker hmiddle
    exact hiff.mpr (hfront j hj name' hreach)

/-- **A path holds the records that are approached.** The path is the walk up to the first walker,
and the walker belongs to it. -/
theorem mem_path_iff (hnamed : h.system.Named) :
    record ∈ path h.system h.walkers start ↔
      ∃ name, h.Approaches start name ∧ h.system[name]? = some record := by
  rw [List.mem_iff_getElem?]
  simp only [getElem?_path_iff hnamed, approaches_iff]
  constructor
  · rintro ⟨i, name, hget, hfront⟩
    obtain ⟨hreach, hrecord⟩ := RecordMap.reachesIn_of_walk hget
    exact ⟨name, ⟨i, hreach, hfront⟩, hrecord⟩
  · rintro ⟨name, ⟨n, hreach, hfront⟩, hrecord⟩
    have hmem := RecordMap.mem_walk_iff.mpr ⟨⟨n, hreach⟩, hrecord⟩
    obtain ⟨i, hi⟩ := List.getElem?_of_mem hmem
    have hle := RecordMap.le_of_getElem?_walk hi hreach
    exact ⟨i, name, hi, fun m hm => hfront m (Nat.lt_of_lt_of_le hm hle)⟩

end TranslationWalks

/-! ## What a core hands down

An owner is handed down along a path from record to record, and a record that has one of its own
hands down that one. What arrives at the end of the path is for the walker there. -/

/-- A value is handed down to the last record of a path on which no other record has one. -/
theorem Record.exists_getLast?_propagate {key : String} (hkey : key ≠ "name")
    {front : List Document} (hfront : ∀ record ∈ front, record.get? key = none) (last : Document)
    (carried : Option Json) :
    ∃ filled, (Record.propagate key carried (front ++ [last])).getLast? = some filled ∧
      filled.name? = last.name? ∧ filled.get? key = (last.get? key).or carried := by
  -- in front of the last record the value is carried on unchanged
  induction front with
  | nil =>
    cases hlast : last.get? key with
    | some value => exact ⟨last, by simp [Record.propagate, hlast], rfl, hlast⟩
    | none =>
      cases carried with
      | none => exact ⟨last, by simp [Record.propagate, hlast], rfl, hlast⟩
      | some value =>
        refine ⟨last.set key value, by simp [Record.propagate, hlast], ?_, ?_⟩
        · rw [Document.name?, Document.name?, Document.string?, Document.string?,
            Document.get?_set, if_neg hkey]
        · rw [Document.get?_set, if_pos rfl, Option.none_or]
  | cons first front ih =>
    rw [List.forall_mem_cons] at hfront
    obtain ⟨filled, hfilled, hsame⟩ := ih hfront.2
    refine ⟨filled, ?_, hsame⟩
    cases carried with
    | none => simp [Record.propagate, hfront.1, List.getLast?_cons, hfilled]
    | some value => simp [Record.propagate, hfront.1, List.getLast?_cons, hfilled]

/-- The owner of the record of a name. -/
def RecordMap.owner? (records : RecordMap) (name : String) : Option Json :=
  records[name]?.bind (·.get? "cpu")

namespace TranslationWalks

open Hierarchy

variable {h : Hierarchy} {walkers : RecordMap} {name : String} {core : Document}

theorem tail_propagate_owner (core : Document) (path : List Document) :
    (Record.propagate "cpu" none (owner core :: path)).tail =
      Record.propagate "cpu" (core.get? "index") path := by
  unfold owner
  cases core.get? "index" with
  | none => rfl
  | some index => rfl

theorem claim_nil (core : Document) (walkers : RecordMap) : claim core walkers [] = walkers := by
  rw [claim, tail_propagate_owner]
  rfl

/-- The walker at the end of a path takes the place of the core, unless it has an owner. -/
theorem owner?_claim {front : List Document} (hfront : ∀ record ∈ front, record.get? "cpu" = none)
    (core last : Document) (hmem : name ∈ walkers) :
    RecordMap.owner? (claim core walkers (front ++ [last])) name =
      (walkers.owner? name).or
        (if last.name? = some name then (last.get? "cpu").or (core.get? "index") else none) := by
  obtain ⟨filled, hfilled, hname, hcpu⟩ :=
    Record.exists_getLast?_propagate (by decide) hfront last (core.get? "index")
  obtain ⟨walker, hwalker⟩ := NameMap.mem_iff_exists.mp hmem
  rw [claim, tail_propagate_owner, hfilled]
  dsimp only
  rw [hname, hcpu]
  -- the last record is found among walkers by its name, and keeps an owner that it has
  cases hlast : last.name? with
  | none => simp
  | some other =>
    cases (last.get? "cpu").or (core.get? "index") with
    | none => simp
    | some cpu =>
      dsimp only
      rw [RecordMap.owner?, RecordMap.owner?, NameMap.getElem?_modify, hwalker]
      by_cases hsame : other = name
      · subst hsame
        simp [hwalker, Document.get?_setIfAbsent]
      · simp [hsame]

/-! ## One walk after the other

The walks are followed in turn, core by core and slot by slot. What is known after some of them is
an invariant: which names have been met in front of a walker, and who owns which walker. -/

end TranslationWalks

namespace Hierarchy

open TranslationWalks

variable {h : Hierarchy} {name : String} {core : Document} {slot : Slot}

/-- The slots from which translation walks start, in the order in which they are followed. -/
def translationSlots (h : Hierarchy) : List (Document × Slot) :=
  h.cores.flatMap fun core => Slot.translation.map (core, ·)

/-- The names that are met from a slot of a core up to the first walker. -/
def namesFrom (h : Hierarchy) (visit : Document × Slot) : List String :=
  ((visit.1.slot? visit.2).toList.flatMap (path h.system h.walkers)).filterMap Document.name?

/-- The owner that a walker takes from a slot of a core. -/
def ownerFrom? (h : Hierarchy) (name : String) (visit : Document × Slot) : Option Json :=
  if name ∈ h.namesFrom visit then visit.1.get? "index" else none

theorem mem_namesFrom_iff (hnamed : h.system.Named) {visit : Document × Slot} :
    name ∈ h.namesFrom visit ↔
      ∃ start, visit.1.slot? visit.2 = some start ∧ h.Approaches start name := by
  simp only [namesFrom, List.mem_filterMap, List.mem_flatMap, Option.mem_toList,
    mem_path_iff hnamed]
  constructor
  · rintro ⟨record, ⟨start, hstart, met, happroaches, hget⟩, hname⟩
    rw [hnamed met record hget, Option.some.injEq] at hname
    exact ⟨start, hstart, hname ▸ happroaches⟩
  · rintro ⟨start, hstart, happroaches⟩
    obtain ⟨n, hreach, _⟩ := approaches_iff.mp happroaches
    obtain ⟨record, hget⟩ := NameMap.mem_iff_exists.mp hreach.last_mem
    exact ⟨record, ⟨start, hstart, name, happroaches, hget⟩, hnamed name record hget⟩

theorem namesFrom_of_slot? {root : String} (hslot : core.slot? slot = some root) :
    h.namesFrom (core, slot) = (path h.system h.walkers root).filterMap Document.name? := by
  rw [namesFrom, hslot, Option.toList_some, List.flatMap_singleton]

theorem exists_namesFrom_iff (hnamed : h.system.Named) :
    (∃ slot ∈ Slot.translation, name ∈ h.namesFrom (core, slot)) ↔ h.Translates core name := by
  simp only [mem_namesFrom_iff hnamed, Translates]

end Hierarchy

namespace TranslationWalks

open Hierarchy

variable {h : Hierarchy} {walkers walkers' : RecordMap} {t : TranslationWalks}
  {visits : List (Document × Slot)} {name root : String} {core : Document} {slot : Slot}

/-- What is known after some slots have been followed. The next slot adds the names that are met
from it, and gives an owner to a walker that has none. -/
structure Followed (h : Hierarchy) (visits : List (Document × Slot)) (t : TranslationWalks) :
    Prop where
  known : ∀ name, name ∈ t.walkers ↔ name ∈ h.walkers
  met : ∀ name, name ∈ t.met ↔ name ∉ h.walkers ∧ ∃ visit ∈ visits, name ∈ h.namesFrom visit
  /-- An owner comes from the first slot that leads to the walker, if no cache hands one down. -/
  owner : (∀ name, h.caches.owner? name = none) → ∀ name ∈ h.walkers,
    h.walkers.owner? name = none → t.walkers.owner? name = visits.findSome? (h.ownerFrom? name)

theorem path_congr (hknown : ∀ name, name ∈ walkers ↔ name ∈ walkers') (system : RecordMap)
    (start : String) : path system walkers start = path system walkers' start := by
  have hsame : isWalker walkers = isWalker walkers' := by
    funext record
    unfold isWalker
    cases record.name? with
    | none => rfl
    | some name =>
      rw [Bool.eq_iff_iff, Std.ExtTreeMap.contains_iff_mem, Std.ExtTreeMap.contains_iff_mem]
      exact hknown name
  rw [path, path, hsame]

theorem mem_addNames_iff {met : NameSet} {path : List Document} :
    name ∈ addNames walkers met path ↔
      name ∈ met ∨ name ∉ walkers ∧ name ∈ path.filterMap Document.name? := by
  unfold addNames
  induction path generalizing met with
  | nil => simp
  | cons record path ih =>
    rw [List.foldl_cons, ih]
    cases hname : record.name? with
    | none => simp [hname]
    | some other =>
      simp only [Std.ExtTreeMap.contains_iff_mem, List.filterMap_cons, hname, List.mem_cons]
      -- walkers are passed over
      by_cases hwalker : other ∈ walkers
      · rw [if_pos hwalker]
        grind
      · rw [if_neg hwalker, Std.ExtTreeSet.mem_insert, Std.compare_eq_iff_eq]
        grind

namespace Followed

theorem start (h : Hierarchy) : Followed h [] ⟨∅, h.walkers⟩ where
  known _ := Iff.rfl
  met name := by simp
  owner _ _ _ hnone := hnone

/-- A slot that names nothing leads nowhere. -/
theorem step_of_none (ht : Followed h visits t) (hslot : core.slot? slot = none) :
    Followed h (visits ++ [(core, slot)]) t := by
  have hnames : h.namesFrom (core, slot) = [] := by
    rw [namesFrom, hslot]
    rfl
  refine ⟨ht.known, fun name => ?_, fun hcaches name hmem hnone => ?_⟩
  · rw [ht.met name]
    simp [or_and_right, exists_or, hnames]
  · rw [ht.owner hcaches name hmem hnone, List.findSome?_append]
    simp [ownerFrom?, hnames]

/-- A slot hands its core down to the first walker on the way from it. -/
theorem owner_step (ht : Followed h visits t) (hnamed : h.system.Named) (hdisjoint : h.Disjoint)
    (hslot : core.slot? slot = some root) (hcaches : ∀ name, h.caches.owner? name = none)
    (hmem : name ∈ h.walkers) (hnone : h.walkers.owner? name = none) :
    RecordMap.owner? (claim core t.walkers (path h.system h.walkers root)) name =
      (visits ++ [(core, slot)]).findSome? (h.ownerFrom? name) := by
  have hnames := namesFrom_of_slot? (h := h) hslot
  rw [List.findSome?_append, ← ht.owner hcaches name hmem hnone, List.findSome?_singleton]
  rcases List.eq_nil_or_concat' (path h.system h.walkers root) with hnil | ⟨front, last, hpath⟩
  · rw [ownerFrom?, hnames, hnil, List.filterMap_nil, if_neg List.not_mem_nil, Option.or_none,
      claim_nil]
  have hmet : ∀ record ∈ front ++ [last], ∃ met : String, h.system[met]? = some record := by
    intro record hrecord
    rw [← hpath, mem_path_iff hnamed] at hrecord
    obtain ⟨met, _, hget⟩ := hrecord
    exact ⟨met, hget⟩
  -- in front of the last record there are caches only
  have hcache : ∀ record ∈ front, ∃ met : String, record.name? = some met ∧ met ∉ h.walkers ∧
      h.caches[met]? = some record := by
    intro record hrecord
    obtain ⟨met, hget⟩ := hmet record (List.mem_append_left _ hrecord)
    have hname := hnamed met record hget
    have hfalse := eq_false_of_mem_front hpath record hrecord
    rw [isWalker_of_name? hname, Bool.eq_false_iff, Ne, Std.ExtTreeMap.contains_iff_mem] at hfalse
    rcases getElem?_or_of_system hget with hget | hget
    · exact ⟨met, hname, hfalse, hget⟩
    · exact absurd (NameMap.mem_iff_exists.mpr ⟨record, hget⟩) hfalse
  have hfront : ∀ record ∈ front, record.get? "cpu" = none := by
    intro record hrecord
    obtain ⟨met, _, _, hget⟩ := hcache record hrecord
    have howner := hcaches met
    rwa [RecordMap.owner?, hget, Option.bind_some] at howner
  have hlast : name ∈ h.namesFrom (core, slot) ↔ last.name? = some name := by
    rw [hnames, hpath, List.mem_filterMap]
    constructor
    · rintro ⟨record, hrecord, hname⟩
      rcases List.mem_append.mp hrecord with hrecord | hrecord
      · obtain ⟨met, hname', hwalker, _⟩ := hcache record hrecord
        rw [hname, Option.some.injEq] at hname'
        exact absurd (hname' ▸ hmem) hwalker
      · rw [← List.mem_singleton.mp hrecord]
        exact hname
    · exact fun hname => ⟨last, List.mem_append_right _ (List.mem_singleton.mpr rfl), hname⟩
  rw [hpath, owner?_claim hfront core last ((ht.known name).mpr hmem), ownerFrom?]
  congr 1
  by_cases hname : last.name? = some name
  · -- the last record is the walker, and it has no owner of its own
    obtain ⟨met, hget⟩ := hmet last (List.mem_append_right _ (List.mem_singleton.mpr rfl))
    have hsame := hnamed met last hget
    rw [hname, Option.some.injEq] at hsame
    subst hsame
    obtain ⟨walker, hwalker⟩ := NameMap.mem_iff_exists.mp hmem
    rw [hdisjoint.getElem?_system_of_walker hwalker, Option.some.injEq] at hget
    rw [RecordMap.owner?, hwalker, Option.bind_some, hget] at hnone
    rw [if_pos hname, if_pos (hlast.mpr hname), hnone, Option.none_or]
  · rw [if_neg hname, if_neg fun hmem => hname (hlast.mp hmem)]

theorem step (ht : Followed h visits t) (hnamed : h.system.Named) (hdisjoint : h.Disjoint)
    (core : Document) (slot : Slot) :
    Followed h (visits ++ [(core, slot)]) (follow h.system core t slot) := by
  unfold follow
  cases hslot : core.slot? slot with
  | none => exact ht.step_of_none hslot
  | some root =>
    dsimp only
    rw [path_congr ht.known]
    -- what has been claimed is still a walker, so the path does not depend on the walks before
    have hclaim := (pointwise_claim (R := fun _ _ => True) (fun _ => trivial) (fun _ _ => trivial)
      core t.walkers (path h.system h.walkers root)).mem_iff
    refine ⟨fun name => (hclaim name).symm.trans (ht.known name), fun name => ?_, ?_⟩
    · rw [mem_addNames_iff, ht.met name, ht.known name, ← namesFrom_of_slot? (h := h) hslot]
      simp [or_and_right, exists_or, and_or_left]
    · exact fun hcaches name hmem hnone => ht.owner_step hnamed hdisjoint hslot hcaches hmem hnone

end Followed

theorem followed_ofHierarchy (hnamed : h.system.Named) (hdisjoint : h.Disjoint) :
    Followed h h.translationSlots (ofHierarchy h) := by
  have hrun : ∀ visits, Followed h visits
      (visits.foldl (fun t visit => follow h.system visit.1 t visit.2) ⟨∅, h.walkers⟩) := by
    intro visits
    induction visits using List.reverseRecOn with
    | nil => exact .start h
    | append_singleton visits visit ih =>
      rw [List.foldl_append]
      exact ih.step hnamed hdisjoint visit.1 visit.2
  -- the two nested folds are one over all slots
  have hslots : ofHierarchy h = h.translationSlots.foldl
      (fun t visit => follow h.system visit.1 t visit.2) ⟨∅, h.walkers⟩ := by
    rw [translationSlots, List.foldl_flatMap]
    simp only [List.foldl_map]
    rfl
  rw [hslots]
  exact hrun _

end TranslationWalks

/-! ## The first core

A walker that has got an owner keeps it. So of all cores that approach it the first one counts, and
cores come in the order of their places. -/

namespace Hierarchy

open TranslationWalks

variable {h before after : Hierarchy} {levels : NameMap Nat} {bits : AddressBits} {name : String}
  {record : Document}

/-- The owner that a walker takes from a core. -/
def ownerAt? (h : Hierarchy) (name : String) (core : Document) : Option Json :=
  if ∃ slot ∈ Slot.translation, name ∈ h.namesFrom (core, slot) then core.get? "index" else none

theorem findSome?_translationSlots (h : Hierarchy) (name : String) :
    h.translationSlots.findSome? (h.ownerFrom? name) = h.cores.findSome? (h.ownerAt? name) := by
  rw [translationSlots]
  induction h.cores with
  | nil => rfl
  | cons core cores ih =>
    -- both slots of a core hand down the same
    have hcore : (Slot.translation.map (core, ·)).findSome? (h.ownerFrom? name) =
        h.ownerAt? name core := by
      rw [List.findSome?_map]
      show Slot.translation.findSome? (fun slot =>
        if name ∈ h.namesFrom (core, slot) then core.get? "index" else none) = _
      rw [findSome?_const, ownerAt?]
    rw [List.flatMap_cons, List.findSome?_append, ih, hcore, List.findSome?_cons]
    cases h.ownerAt? name core with
    | none => rfl
    | some owner => rfl

/-- **A walker belongs to the first core that approaches it**, where it has no owner, no cache on
the way has one, and cores go by their places. Slots are followed core by core, so the first one
that leads to the walker is of the core with the least place. -/
theorem owner?_ofHierarchy (hnamed : h.system.Named) (hdisjoint : h.Disjoint)
    (hindex : ∀ (i : Nat) (core : Document), h.cores[i]? = some core →
      core.get? "index" = some (.ofNat i))
    (hcaches : ∀ name, h.caches.owner? name = none) (hmem : name ∈ h.walkers)
    (hnone : h.walkers.owner? name = none) :
    (∃ i, IsLeast {i | h.TranslatesAt name i} i ∧
        (ofHierarchy h).walkers.owner? name = some (.ofNat i)) ∨
      ((∀ i, ¬h.TranslatesAt name i) ∧ (ofHierarchy h).walkers.owner? name = none) := by
  rw [(followed_ofHierarchy hnamed hdisjoint).owner hcaches name hmem hnone,
    findSome?_translationSlots]
  -- a core hands down its place just in case it approaches the walker
  have hnone_iff : ∀ {i : Nat} {core : Document}, h.cores[i]? = some core →
      (h.ownerAt? name core = none ↔ ¬h.Translates core name) := by
    intro i core hcore
    rw [← exists_namesFrom_iff hnamed, ownerAt?, hindex i core hcore]
    simp
  cases hfound : h.cores.findSome? (h.ownerAt? name) with
  | none =>
    refine Or.inr ⟨?_, rfl⟩
    rintro i ⟨core, hcore, htranslates⟩
    have hunowned := List.findSome?_eq_none_iff.mp hfound core (List.mem_of_getElem? hcore)
    exact (hnone_iff hcore).mp hunowned htranslates
  | some owner =>
    obtain ⟨front, core, back, hsplit, howner, hfront⟩ := List.findSome?_eq_some_iff.mp hfound
    have hcore : h.cores[front.length]? = some core := by
      rw [hsplit, List.getElem?_append_right (Nat.le_refl _), Nat.sub_self,
        List.getElem?_cons_zero]
    have htranslates : h.Translates core name := by
      by_contra hnot
      rw [(hnone_iff hcore).mpr hnot] at howner
      cases howner
    refine Or.inl ⟨front.length, ⟨⟨core, hcore, htranslates⟩, ?_⟩, ?_⟩
    · rintro j ⟨other, hother, htranslates⟩
      by_contra hlt
      rw [Nat.not_le] at hlt
      have hmem : other ∈ front := by
        rw [hsplit, List.getElem?_append_left hlt] at hother
        exact List.mem_of_getElem? hother
      exact (hnone_iff hother).mp (hfront other hmem) htranslates
    · rw [ownerAt?, hindex _ _ hcore] at howner
      rw [← (Option.ite_none_right_eq_some.mp howner).2]

/-- What is met in front of a walker is what a core approaches. -/
theorem mem_met_iff (hnamed : h.system.Named) (hdisjoint : h.Disjoint)
    (hwalker : name ∉ h.walkers) :
    name ∈ (ofHierarchy h).met ↔ ∃ i, h.TranslatesAt name i := by
  rw [(followed_ofHierarchy hnamed hdisjoint).met name, and_iff_right hwalker, translationSlots]
  simp only [List.mem_flatMap, List.mem_map, TranslatesAt, ← exists_namesFrom_iff hnamed]
  constructor
  · rintro ⟨_, ⟨core, hcore, slot, hslot, rfl⟩, hmem⟩
    obtain ⟨i, hi⟩ := List.getElem?_of_mem hcore
    exact ⟨i, core, hi, slot, hslot, hmem⟩
  · rintro ⟨i, core, hcore, slot, hslot, hmem⟩
    exact ⟨_, ⟨core, List.mem_of_getElem? hcore, slot, hslot, rfl⟩, hmem⟩

/-! ## Writing addresses and owners

What has been found is written into records that have nothing under the key. -/

/-- The size of its addresses is written into a cache that has none. -/
theorem get?_offsetBits_withAddresses
    (hget : (h.withAddresses levels bits).caches[name]? = some record) :
    ∃ cache, h.caches[name]? = some cache ∧ record.get? "offset_bits" =
      (cache.get? "offset_bits").or (some (.ofNat
        (if (ofHierarchy h).met.contains name then bits.page else bits.block))) := by
  unfold withAddresses mapRecords mapCaches at hget
  rw [Std.ExtTreeMap.getElem?_map, Option.map_eq_some_iff, Std.ExtTreeMap.getElem?_map] at hget
  obtain ⟨_, haddressed, rfl⟩ := hget
  obtain ⟨cache, hcache, rfl⟩ := Option.map_eq_some_iff.mp haddressed
  refine ⟨cache, hcache, ?_⟩
  rw [agreesOff_withLevel (List.mem_singleton.mpr rfl) levels name _ "offset_bits" (by decide),
    withAddressing, Document.get?_set, if_neg (by decide), Document.get?_setIfAbsent]

theorem owner?_withAddresses (h : Hierarchy) (levels : NameMap Nat) (bits : AddressBits)
    (name : String) :
    (h.withAddresses levels bits).walkers.owner? name = (ofHierarchy h).walkers.owner? name := by
  unfold withAddresses mapRecords mapCaches
  rw [RecordMap.owner?, RecordMap.owner?, Std.ExtTreeMap.getElem?_map]
  cases (ofHierarchy h).walkers[name]? with
  | none => rfl
  | some walker =>
    exact agreesOff_withLevel (List.mem_singleton.mpr rfl) levels name walker "cpu" (by decide)

/-! ## The same cores and links

The walks are followed in the middle of the resolution, while the statement is about its result.
Nothing that is written later is a link or a slot, so the walks are the same. -/

/-- Two cores in one place differ in some keys only. -/
theorem AgreesOff.core_rel {keys : List String} (hagrees : AgreesOff keys before after) (i : Nat) :
    Option.Rel (Document.AgreesOff keys) before.cores[i]? after.cores[i]? := by
  have hcores := hagrees.cores
  generalize before.cores = cores at hcores
  generalize after.cores = cores' at hcores
  induction hcores generalizing i with
  | nil => exact .none
  | cons hcore _ ih =>
    cases i with
    | zero => exact .some hcore
    | succ i => exact ih i

theorem AgreesOff.translatesAt_iff {keys : List String}
    (hagrees : AgreesOff keys before after) (hlink : lowerLevel ∉ keys)
    (hslots : ∀ slot ∈ Slot.translation, slot.key ∉ keys) (i : Nat) :
    after.TranslatesAt name i ↔ before.TranslatesAt name i := by
  unfold TranslatesAt
  have hcore := hagrees.core_rel i
  cases hbefore : before.cores[i]? <;> cases hafter : after.cores[i]? <;>
    rw [hbefore, hafter] at hcore <;> cases hcore
  · simp
  · next hcore => simpa using hagrees.translates_iff hlink hcore hslots

end Hierarchy

namespace NormalizedConfiguration

open Hierarchy

variable {n : NormalizedConfiguration} {lookups : ModuleLookups} {name : String} {record : Document}

/-- The keys that latencies and clocks are written under. -/
def clockKeys : List String := ["hit_latency", "frequency", "clock_scale"]

theorem agreesOff_clocked (n : NormalizedConfiguration) :
    Hierarchy.AgreesOff clockKeys n.hierarchy.complete n.clockedHierarchy :=
  (agreesOff_mapCaches (fun _ => agreesOff_withHitLatency (by decide)) _).trans
    (agreesOff_withClocks (by decide) (by decide) _ _ _)

/-- The keys that the names of modules are written under. -/
def moduleKeys : List String := ["prefetcher", "replacement", "branch_predictor", "btb"]

theorem slot_mem_moduleKeys (kind : ModuleKind) : kind.slot ∈ moduleKeys := by
  cases kind <;> decide

/-- Modules are written last, and to nothing but their slots. -/
theorem agreesOff_modules (n : NormalizedConfiguration) (lookups : ModuleLookups) :
    Hierarchy.AgreesOff moduleKeys n.completedHierarchy (n.applyDefaults lookups).hierarchy :=
  agreesOff_withModules slot_mem_moduleKeys _ _

theorem agreesOff_addressed (n : NormalizedConfiguration) (lookups : ModuleLookups) :
    Hierarchy.AgreesOff lateKeys n.clockedHierarchy (n.applyDefaults lookups).hierarchy :=
  (agreesOff_withAddresses (by decide) (by decide) (by decide) (by decide) _ _ _).trans
    (agreesOff_withModules slot_mem_lateKeys _ _)

theorem translatesAt_resolved_iff {i : Nat} :
    (n.applyDefaults lookups).hierarchy.TranslatesAt name i ↔
      n.clockedHierarchy.TranslatesAt name i :=
  (n.agreesOff_addressed lookups).translatesAt_iff (by decide) (by decide) i

theorem named_clocked (hclosed : n.Closed) : n.clockedHierarchy.system.Named :=
  (n.agreesOff_clocked.named (by decide) (named_complete hclosed.hierarchy)).system

theorem disjoint_clocked (hclosed : n.Closed) (hdisjoint : n.hierarchy.Disjoint) :
    n.clockedHierarchy.Disjoint :=
  n.agreesOff_clocked.disjoint (Completion.disjoint_complete hclosed.hierarchy hdisjoint)

/-- A record that has its clock has what is written under a key that no layer and no clock has. -/
theorem get?_clocked_cache (hclosed : n.Closed) (hdisjoint : n.hierarchy.Disjoint) {key : String}
    (hkey : key ∈ unlayeredKeys) (hclock : key ∉ clockKeys)
    (hget : n.clockedHierarchy.caches[name]? = some record) :
    ∃ written, n.caches[name]? = some written ∧ record.get? key = written.get? key := by
  obtain ⟨completed, hcompleted, hagrees⟩ := n.agreesOff_clocked.caches.exists_before hget
  obtain ⟨written, hwritten, hsame⟩ := get?_complete_cache hclosed hdisjoint hkey hcompleted
  exact ⟨written, hwritten, (hagrees key hclock).trans hsame⟩

theorem get?_clocked_walker (hclosed : n.Closed) (hdisjoint : n.hierarchy.Disjoint) {key : String}
    (hkey : key ∈ unlayeredKeys) (hclock : key ∉ clockKeys)
    (hget : n.clockedHierarchy.walkers[name]? = some record) :
    ∃ written, n.walkers[name]? = some written ∧ record.get? key = written.get? key := by
  obtain ⟨completed, hcompleted, hagrees⟩ := n.agreesOff_clocked.walkers.exists_before hget
  obtain ⟨written, hwritten, hsame⟩ := get?_complete_walker hclosed hdisjoint hkey hcompleted
  exact ⟨written, hwritten, (hagrees key hclock).trans hsame⟩

/-- Cores go by their places. -/
theorem get?_index_resolved (hclosed : n.Closed) (hcontained : n.SelfContained)
    (lookups : ModuleLookups) {i : Nat} {core : Document}
    (hcore : (n.applyDefaults lookups).cores[i]? = some core) :
    core.get? "index" = some (.ofNat i) := by
  obtain ⟨hlength, hkept⟩ := List.forall₂_iff_get.mp (coreKept_resolved hclosed lookups)
  obtain ⟨hi, rfl⟩ := List.getElem?_eq_some_iff.mp hcore
  have hwritten : i < n.cores.length := by rwa [hlength]
  obtain ⟨value, hvalue, hnatural⟩ := Option.bind_eq_some_iff.mp (hcontained.indexed i hwritten)
  rw [← Json.eq_ofNat_of_natural? hnatural]
  exact (hkept i hwritten hi).attributes "index" (by decide) value hvalue

theorem get?_index_clocked (hclosed : n.Closed) (hcontained : n.SelfContained) {i : Nat}
    {core : Document} (hcore : n.clockedHierarchy.cores[i]? = some core) :
    core.get? "index" = some (.ofNat i) := by
  have hrel := (n.agreesOff_addressed .nothing).core_rel i
  rw [hcore] at hrel
  cases hafter : (n.applyDefaults .nothing).hierarchy.cores[i]? with
  | none => rw [hafter] at hrel; cases hrel
  | some after =>
    rw [hafter] at hrel
    cases hrel with
    | some hagrees =>
      rw [← hagrees "index" (by decide)]
      exact get?_index_resolved hclosed hcontained .nothing hafter

/-- A cache that is left has the size of addresses that is written, or the one of its place. -/
theorem get?_offsetBits_resolved (hclosed : n.Closed) (hdisjoint : n.hierarchy.Disjoint)
    (hget : (n.applyDefaults lookups).caches[name]? = some record) :
    ∃ written, n.caches[name]? = some written ∧ record.get? "offset_bits" =
      (written.get? "offset_bits").or (some (.ofNat
        (if (TranslationWalks.ofHierarchy n.clockedHierarchy).met.contains name then
          n.constants.log2PageSize else n.constants.log2BlockSize))) := by
  obtain ⟨_, haddressed, hagrees⟩ := (n.agreesOff_modules lookups).caches.exists_before hget
  obtain ⟨clocked, hclocked, hbits⟩ := get?_offsetBits_withAddresses haddressed
  obtain ⟨written, hwritten, hsame⟩ :=
    get?_clocked_cache hclosed hdisjoint (by decide : "offset_bits" ∈ unlayeredKeys) (by decide)
      hclocked
  refine ⟨written, hwritten, ?_⟩
  rw [hagrees "offset_bits" (by decide), hbits, hsame]
  rfl

/-- A walker that is left comes from one that is written, and has the owner that the translation
walks give to that one. -/
theorem get?_owner_resolved (hclosed : n.Closed) (hdisjoint : n.hierarchy.Disjoint)
    (hget : (n.applyDefaults lookups).walkers[name]? = some record) :
    ∃ written, n.walkers[name]? = some written ∧ name ∈ n.clockedHierarchy.walkers ∧
      n.clockedHierarchy.walkers.owner? name = written.get? "cpu" ∧
      record.get? "cpu" =
        (TranslationWalks.ofHierarchy n.clockedHierarchy).walkers.owner? name := by
  -- the walks start from the record that has its clock, and modules do not touch the owner
  obtain ⟨clocked, hclocked, _⟩ := (n.agreesOff_addressed lookups).walkers.exists_before hget
  obtain ⟨addressed, haddressed, hagrees⟩ :=
    (n.agreesOff_modules lookups).walkers.exists_before hget
  obtain ⟨written, hwritten, hsame⟩ :=
    get?_clocked_walker hclosed hdisjoint (by decide : "cpu" ∈ unlayeredKeys) (by decide) hclocked
  have howner : n.completedHierarchy.walkers.owner? name = _ := owner?_withAddresses _ _ _ _
  rw [RecordMap.owner?, haddressed, Option.bind_some, ← hagrees "cpu" (by decide)] at howner
  refine ⟨written, hwritten, NameMap.mem_iff_exists.mpr ⟨clocked, hclocked⟩, ?_, howner⟩
  rw [RecordMap.owner?, hclocked, Option.bind_some, hsame]

theorem owner?_clocked_cache (hclosed : n.Closed) (hdisjoint : n.hierarchy.Disjoint)
    (hunowned : ∀ (name : String) (written : Document), n.caches[name]? = some written →
      written.get? "cpu" = none) (name : String) :
    n.clockedHierarchy.caches.owner? name = none := by
  rw [RecordMap.owner?]
  cases hclocked : n.clockedHierarchy.caches[name]? with
  | none => rfl
  | some clocked =>
    obtain ⟨written, hwritten, hsame⟩ :=
      get?_clocked_cache hclosed hdisjoint (by decide : "cpu" ∈ unlayeredKeys) (by decide) hclocked
    rw [Option.bind_some, hsame, hunowned name written hwritten]

end NormalizedConfiguration

open NormalizedConfiguration in
/-- **Addresses and owners follow the translation walks.** A cache without a size of its addresses
takes that of a page where the walk from a translation buffer of some core meets it in front of the
first walker, and that of a block elsewhere. Where no cache has an owner, a walker without one
belongs to the first core for which it is the first walker on such a walk, and to nobody where there
is no such core. -/
theorem addresses_resolved {docs : List Document} {n : NormalizedConfiguration}
    (hread : ofDocuments docs = .ok n) (lookups : ModuleLookups)
    (hdisjoint : ∀ name ∈ n.caches, name ∉ n.walkers) :
    let r := n.applyDefaults lookups
    (∀ (name : String) (record : Document), r.caches[name]? = some record →
      ∃ written, n.caches[name]? = some written ∧ (written.get? "offset_bits" = none →
        ((∃ i, r.hierarchy.TranslatesAt name i) →
          record.get? "offset_bits" = some (.ofNat (Nat.log2 r.constants.pageSize))) ∧
        ((∀ i, ¬r.hierarchy.TranslatesAt name i) →
          record.get? "offset_bits" = some (.ofNat (Nat.log2 r.constants.blockSize))))) ∧
    ((∀ (name : String) (written : Document), n.caches[name]? = some written →
        written.get? "cpu" = none) →
      ∀ (name : String) (record : Document), r.walkers[name]? = some record →
        ∃ written, n.walkers[name]? = some written ∧ (written.get? "cpu" = none →
          (∃ i core, IsLeast {i | r.hierarchy.TranslatesAt name i} i ∧ r.cores[i]? = some core ∧
            core.get? "index" = some (.ofNat i) ∧ record.get? "cpu" = some (.ofNat i)) ∨
          ((∀ i, ¬r.hierarchy.TranslatesAt name i) ∧ record.get? "cpu" = none))) := by
  intro r
  have hclosed := closed_of_ofDocuments hread
  have hcontained := selfContained_of_ofDocuments hread
  have hnamed := named_clocked hclosed
  have hapart := disjoint_clocked hclosed hdisjoint
  refine ⟨fun name record hget => ?_, fun hunowned name record hget => ?_⟩
  -- addresses: what has been met before clocks and modules were written is what the result shows
  · obtain ⟨written, hwritten, hbits⟩ := get?_offsetBits_resolved hclosed hdisjoint hget
    have hwalker : name ∉ n.clockedHierarchy.walkers := by
      have hcache : name ∈ r.caches := NameMap.mem_iff_exists.mpr ⟨record, hget⟩
      exact hapart name (((n.agreesOff_addressed lookups).caches.mem_iff name).mpr hcache)
    have hmet : (TranslationWalks.ofHierarchy n.clockedHierarchy).met.contains name = true ↔
        ∃ i, r.hierarchy.TranslatesAt name i := by
      rw [Std.ExtTreeSet.contains_iff_mem, Hierarchy.mem_met_iff hnamed hapart hwalker]
      exact exists_congr fun i => translatesAt_resolved_iff.symm
    refine ⟨written, hwritten, fun hnone => ?_⟩
    rw [hbits, hnone, Option.none_or]
    constructor
    · intro htranslates
      rw [if_pos (hmet.mpr htranslates)]
      rfl
    · intro hnot
      rw [if_neg fun hcontains => not_exists.mpr hnot (hmet.mp hcontains)]
      rfl
  -- owners: the walks go by places, and in the result the index of a core is its place
  · obtain ⟨written, hwritten, hmem, hsame, howner⟩ := get?_owner_resolved hclosed hdisjoint hget
    refine ⟨written, hwritten, fun hnone => ?_⟩
    rw [howner]
    simp only [r, translatesAt_resolved_iff]
    rcases Hierarchy.owner?_ofHierarchy hnamed hapart
        (fun i core => get?_index_clocked hclosed hcontained)
        (owner?_clocked_cache hclosed hdisjoint hunowned) hmem (hsame.trans hnone) with
      ⟨i, hleast, hplace⟩ | hnobody
    · obtain ⟨core, hcore, _⟩ := translatesAt_resolved_iff.mpr hleast.1
      exact Or.inl ⟨i, core, hleast, hcore,
        get?_index_resolved hclosed hcontained lookups hcore, hplace⟩
    · exact Or.inr hnobody

/-- Three cores, of which the last two share a walker. -/
def sharedWalker : List Document :=
  [[("num_cores", .ofNat 3),
    ("ooo_cpu", .array [.object [("frequency", .ofNat 2000)],
      .object [("PTW", .string "walker")], .object [("PTW", .string "walker")]])]]

open NormalizedConfiguration in
/-- The walker belongs to the second core, and the last core's second-level translation buffer,
which is in front of it, deals in pages. -/
theorem addresses_sharedWalker :
    ∃ n walker buffer, ofDocuments sharedWalker = .ok n ∧ (∀ name ∈ n.caches, name ∉ n.walkers) ∧
      (∀ (name : String) (written : Document), n.caches[name]? = some written →
        written.get? "cpu" = none) ∧
      (n.applyDefaults .nothing).walkers["walker"]? = some walker ∧
      IsLeast {i | (n.applyDefaults .nothing).hierarchy.TranslatesAt "walker" i} 1 ∧
      walker.get? "cpu" = some (.ofNat 1) ∧
      (n.applyDefaults .nothing).caches["cpu2_STLB"]? = some buffer ∧
      (∃ i, (n.applyDefaults .nothing).hierarchy.TranslatesAt "cpu2_STLB" i) ∧
      buffer.get? "offset_bits" = some (.ofNat 12) := by
  have hcomputed : ∃ n, ofDocuments sharedWalker = .ok n ∧ n.hierarchy.Disjoint ∧
      (∀ written ∈ n.caches.values, written.get? "cpu" = none) ∧
      "walker" ∈ (n.applyDefaults .nothing).walkers ∧
      (n.walkers["walker"]?.getD []).get? "cpu" = none ∧
      ((n.applyDefaults .nothing).walkers["walker"]?.getD []).get? "cpu" = some (.ofNat 1) ∧
      "cpu2_STLB" ∈ (n.applyDefaults .nothing).caches ∧
      (n.caches["cpu2_STLB"]?.getD []).get? "offset_bits" = none ∧
      ((n.applyDefaults .nothing).caches["cpu2_STLB"]?.getD []).get? "offset_bits" =
        some (.ofNat 12) ∧
      Nat.log2 n.constants.blockSize = 6 := by
    simp -zeta only [applyDefaults_eq_sorting]
    decide +kernel
  obtain ⟨n, hread, hdisjoint, hvalues, hwalker, hnone, howner, hbuffer, hnone', hbits, hblock⟩ :=
    hcomputed
  have hunowned : ∀ (name : String) (written : Document), n.caches[name]? = some written →
      written.get? "cpu" = none := fun name written hget =>
    hvalues written (NameMap.mem_values_iff.mpr ⟨name, hget⟩)
  obtain ⟨walker, hwalker⟩ := NameMap.mem_iff_exists.mp hwalker
  obtain ⟨buffer, hbuffer⟩ := NameMap.mem_iff_exists.mp hbuffer
  obtain ⟨hcaches, hwalkers⟩ := addresses_resolved hread .nothing hdisjoint
  obtain ⟨written, hwritten, hcache⟩ := hcaches "cpu2_STLB" buffer hbuffer
  obtain ⟨written', hwritten', howned⟩ := hwalkers hunowned "walker" walker hwalker
  rw [hwalker, Option.getD_some] at howner
  rw [hbuffer, Option.getD_some] at hbits
  rw [hwritten', Option.getD_some] at hnone
  rw [hwritten, Option.getD_some] at hnone'
  refine ⟨n, walker, buffer, hread, hdisjoint, hunowned, hwalker, ?_, howner, hbuffer, ?_, hbits⟩
  · rcases howned hnone with ⟨i, core, hleast, _, _, hplace⟩ | ⟨_, hnobody⟩
    · rw [howner, Option.some.injEq] at hplace
      cases hplace
      exact hleast
    · rw [howner] at hnobody
      cases hnobody
  -- a buffer that no walk meets would deal in blocks
  · by_contra hnot
    have hsize := (hcache hnone').2 (not_exists.mp hnot)
    rw [hbits, show Nat.log2 (n.applyDefaults .nothing).constants.blockSize = 6 from hblock,
      Option.some.injEq] at hsize
    cases hsize

end MemoryHierarchy
