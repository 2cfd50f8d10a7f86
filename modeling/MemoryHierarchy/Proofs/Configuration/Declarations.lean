import Mathlib.Data.Set.List
import Mathlib.Logic.Relation
import MemoryHierarchy.Proofs.Configuration.Collection

/-!
# Records and their declarations

A record may be declared many times: in the collections of several documents, and in the slots of
cores. What is found under its name is the merge of all these declarations: those of the documents
in the order of the documents, then those of the slots, core by core, and last of all an empty
record of the name (`Gathers`). How a collection is written does not matter, as long as the
declarations of each name keep their order (`Respelled`).
-/

namespace MemoryHierarchy

theorem Document.get?_eq_string {doc : Document} {key value : String}
    (hvalue : doc.string? key = some value) : doc.get? key = some (.string value) := by
  obtain ⟨json, hjson, hstring⟩ := Option.bind_eq_some_iff.mp hvalue
  cases json with
  | string s =>
    cases hstring
    exact hjson
  | _ => cases hstring

/-! ## Merging declarations

All declarations of a name are merged, the first one over the others. A declaration that says
nothing but the name can be dropped where there is another one, and so can all of several such. -/

namespace Record

variable {name : String} {records records' : List Document}

theorem combineNamed_congr
    (hsame : ∀ name, declarations name records' = declarations name records) :
    combineNamed records' = combineNamed records := by
  refine Std.ExtTreeMap.ext_getElem? fun name => ?_
  rw [getElem?_combineNamed, getElem?_combineNamed, hsame]

theorem declarations_append (name : String) (records records' : List Document) :
    declarations name (records ++ records') =
      declarations name records ++ declarations name records' :=
  List.filter_append _ _

/-- Declarations of a name say it already. -/
theorem mergeAll_append_named (hne : records ≠ [])
    (hnamed : ∀ record ∈ records, record.name? = some name) :
    Document.mergeAll (records ++ [Document.named name]) = Document.mergeAll records := by
  have hmerged : (Document.mergeAll records).get? "name" = some (.string name) := by
    obtain ⟨first, rest, rfl⟩ := List.exists_cons_of_ne_nil hne
    have hfirst := Document.string?_mergeAll_of_eq_some (hnamed first List.mem_cons_self) rest
    exact Document.get?_eq_string hfirst
  rw [Document.mergeAll_concat]
  show (Document.mergeAll records).set "name" (Document.combine .plain "name" _ _) = _
  rw [hmerged]
  exact Document.set_of_get?_eq_some hmerged

/-- Any number of empty records of a name is as good as one. -/
theorem mergeAll_append_stubs {stubs : List Document} (hne : records ++ stubs ≠ [])
    (hnamed : ∀ record ∈ records, record.name? = some name)
    (hstubs : ∀ stub ∈ stubs, stub = Document.named name) :
    Document.mergeAll (records ++ stubs) =
      Document.mergeAll (records ++ [Document.named name]) := by
  induction stubs using List.reverseRecOn with
  | nil =>
    rw [List.append_nil] at hne ⊢
    exact (mergeAll_append_named hne hnamed).symm
  | append_singleton stubs last ih =>
    obtain rfl := hstubs last (List.mem_append_right _ List.mem_cons_self)
    have hrest : ∀ stub ∈ stubs, stub = Document.named name :=
      fun stub hstub => hstubs stub (List.mem_append_left _ hstub)
    -- the last stub counts only where it is alone
    by_cases hempty : records ++ stubs = []
    · obtain ⟨rfl, rfl⟩ := List.append_eq_nil_iff.mp hempty
      rfl
    · rw [← List.append_assoc, mergeAll_append_named hempty, ih hempty hrest]
      intro record hrecord
      rcases List.mem_append.mp hrecord with hrecord | hrecord
      · exact hnamed record hrecord
      · rw [hrest record hrecord]
        rfl

end Record

namespace NormalizedConfiguration

open Document (AgreesOff)

/-! ## Declarations in slots

A slot of a core holds the name of a record or the record itself. A record in a slot is a
declaration like those in collections, under a name that is made up from the core and the slot if
none is given. -/

/-- The cores that a document describes, with what it says for all of them. -/
def writtenCores (doc : Document) (count : Nat) : List Document :=
  let templates := ((doc.get? "ooo_cpu").map Json.records).getD [[]]
  (repeatToLength templates count).map fun template =>
    Document.mergeAll [template, sharedAttributes doc]

/-- The record that a slot of a core declares. A mapping that gives no name is named after the core
and the slot. -/
def slotRecord? (core : Document) (index : Nat) (slot : Slot) : Option Document :=
  let name := core.name?.getD (coreName index)
  (core.get? slot.key).bind fun value =>
    Json.keyedRecord? (Slot.recordName name slot.key, value)

/-- The walkers, or the caches, that the slots of cores declare, core by core. The slots of a core
come in the order of its fields, whatever the order in the document is. -/
def nestedRecords (walkers : Bool) (cores : List Document) : List Document :=
  cores.zipIdx.flatMap fun (core, index) =>
    (Slot.all.filter (·.isWalker = walkers)).filterMap (slotRecord? core index)

section

variable {core : Document} {index : Nat} {named : NamedCore}

theorem eq_of_readCoreName {name : String} (hread : readCoreName core index = .ok name) :
    name = core.name?.getD (coreName index) := by
  unfold readCoreName at hread
  unfold Document.name? Document.string?
  split at hread
  · next hnone =>
    cases hread
    rw [hnone]
    rfl
  · next hsome =>
    cases hread
    rw [hsome]
    rfl
  · cases hread

/-- A mapping in a slot declares a record under the name that is read from the slot. -/
theorem declaration_of_readSlot {name : String} {slot : Slot} {s : NamedSlot}
    (hread : readSlot core name slot = .ok s) :
    s.declaration = ((core.get? slot.key).bind fun value =>
        Json.keyedRecord? (Slot.recordName name slot.key, value)) ∧
      ∀ record, s.declaration = some record → record.name? = some s.record := by
  -- in either case what is declared gets the name of the slot's record
  have hname : ∀ fields record : Document, ∀ name : String,
      some (fields.set "name" (.string name)) = some record → record.name? = some name := by
    intro fields record name hrecord
    cases hrecord
    rw [Document.name?, Document.string?, Document.get?_set, if_pos rfl]
    rfl
  unfold readSlot at hread
  dsimp only at hread
  split at hread
  · next hnone =>
    cases hread
    exact ⟨by rw [hnone]; rfl, by simp⟩
  · next hstring =>
    cases hread
    exact ⟨by rw [hstring]; rfl, by simp⟩
  · next fields hfields =>
    rw [hfields, Option.bind_some]
    show s.declaration = some (Document.setIfAbsent fields "name" _) ∧ _
    unfold Document.setIfAbsent
    split at hread
    · next hnone =>
      cases hread
      rw [Document.contains_eq_false_iff.mpr hnone, if_neg Bool.false_ne_true]
      exact ⟨rfl, fun record => hname _ record _⟩
    · next hgiven =>
      cases hread
      rw [Document.contains_iff.mpr ⟨_, hgiven⟩, if_pos rfl]
      exact ⟨congrArg some (Document.set_of_get?_eq_some hgiven), fun record => hname _ record _⟩
    · cases hread
  · cases hread

/-- The slots of a core are read in their order. -/
theorem forall₂_slots_of_normalizeCore (hread : normalizeCore core index = .ok named) :
    List.Forall₂ (fun slot s => readSlot core (core.name?.getD (coreName index)) slot = .ok s)
      Slot.all named.slots := by
  rw [normalizeCore, bind_eq_ok_iff] at hread
  obtain ⟨name, hname, hread⟩ := hread
  rw [bind_eq_ok_iff] at hread
  obtain ⟨slots, hslots, hread⟩ := hread
  rw [pure_eq_ok_iff] at hread
  rw [← hread, ← eq_of_readCoreName hname]
  exact mapM_eq_ok_iff.mp hslots

/-- A core that has been named has in each slot the name of its record. -/
theorem slot?_of_mem_slots (hread : normalizeCore core index = .ok named) {s : NamedSlot}
    (hs : s ∈ named.slots) : named.core.slot? s.slot = some s.record := by
  have hall : Slot.all = named.slots.map (·.slot) := by
    rw [← List.forall₂_eq_eq_eq, List.forall₂_map_right_iff]
    exact (forall₂_slots_of_normalizeCore hread).imp fun _ _ h => (slot_of_readSlot h).symm
  obtain ⟨s', hs', hslot, hnamed⟩ := slot?_of_normalizeCore hread s.slot
  have hnodup : (named.slots.map (·.slot)).Nodup := by
    rw [← hall]
    decide
  rw [hnamed, List.inj_on_of_nodup_map hnodup hs' hs hslot]

theorem declarations_of_normalizeCore (hread : normalizeCore core index = .ok named)
    (walkers : Bool) :
    (named.slots.filter (·.slot.isWalker = walkers)).filterMap (·.declaration) =
      (Slot.all.filter (·.isWalker = walkers)).filterMap (slotRecord? core index) := by
  have hslots := forall₂_slots_of_normalizeCore hread
  generalize Slot.all = slots at hslots
  generalize named.slots = read at hslots
  induction hslots with
  | nil => rfl
  | cons hslot _ ih =>
    rw [List.filter_cons, List.filter_cons, slot_of_readSlot hslot]
    split
    · rw [List.filterMap_cons, List.filterMap_cons, ih, (declaration_of_readSlot hslot).1,
        slotRecord?]
    · exact ih

end

/-! ## What a document is normalized to

With the declarations collected in their order, normalization is a merge for each name: collections
come first, then the slots core by core, and stubs of names that are always there come last. -/

section

variable {doc : Document} {n : NormalizedConfiguration}

theorem eq_of_coreTemplates {templates : List Document}
    (hread : coreTemplates doc = .ok templates) :
    templates = ((doc.get? "ooo_cpu").map Json.records).getD [[]] := by
  unfold coreTemplates at hread
  split at hread
  · next hnone =>
    cases hread
    rw [hnone]
    rfl
  · next hlist =>
    rw [hlist, mappingsOf_eq_ok_iff.mp hread, Option.map_some, Json.records_array_map_object]
    rfl
  · cases hread

/-- The cores are normalized from those that the document describes. -/
theorem forall₂_writtenCores {templates : List Document} {count : Nat} {cores : List NamedCore}
    (htemplates : coreTemplates doc = .ok templates)
    (hcores : normalizeCores doc templates count = .ok cores) :
    List.Forall₂ (fun entry named => normalizeCore entry.1 entry.2 = .ok named)
      (writtenCores doc cores.length).zipIdx cores := by
  have hread := normalizeCores_eq_ok_iff.mp hcores
  have hlength : cores.length = (repeatToLength templates count).length := by
    rw [← hread.length_eq, List.length_zipIdx]
  have hrepeat : repeatToLength templates cores.length = repeatToLength templates count := by
    by_cases hempty : templates = []
    · simp [hempty, repeatToLength]
    · rw [hlength, length_repeatToLength hempty]
  rw [writtenCores, ← eq_of_coreTemplates htemplates, hrepeat, List.zipIdx_map,
    List.forall₂_map_left_iff]
  exact hread

theorem declarationsOf_eq {written : List Document} {cores : List NamedCore}
    (hcores : List.Forall₂ (fun entry named => normalizeCore entry.1 entry.2 = .ok named)
      written.zipIdx cores) (walkers : Bool) :
    declarationsOf walkers cores = nestedRecords walkers written := by
  unfold declarationsOf nestedRecords
  generalize written.zipIdx = entries at hcores
  induction hcores with
  | nil => rfl
  | cons hcore _ ih =>
    rw [List.flatMap_cons, List.flatMap_cons, ih, declarations_of_normalizeCore hcore]

/-- The declarations of the records of a kind: those of collections of documents, and then those in
slots of the cores that the layered documents describe. -/
def declared (docs : List Document) (key : String) (walkers : Bool) (count : Nat) :
    List Document :=
  docs.flatMap (·.records key) ++
    nestedRecords walkers (writtenCores (Document.mergeAllWith layerRules docs) count)

/-- The records of a kind are gathered from their declarations. A name may be declared several
times, in collections and in slots: the values of an earlier declaration win, and those of later
ones are added. -/
structure Gathers (docs : List Document) (cores : List Document) (key : String) (walkers : Bool)
    (fixed : List String) (records : RecordMap) : Prop where
  /-- There is a record for each name in a collection, each name in a slot, and each fixed name. -/
  mem_iff : ∀ name, name ∈ records ↔
    (∃ doc ∈ docs, ∃ record ∈ doc.records key, record.name? = some name) ∨
      (∃ core ∈ cores, ∃ slot : Slot, slot.isWalker = walkers ∧ core.slot? slot = some name) ∨
      name ∈ fixed
  /-- It is the merge of the declarations of its name, in their order. -/
  getElem? : ∀ name ∈ records, records[name]? = some (Document.mergeAll
    (Record.declarations name (declared docs key walkers cores.length) ++ [Document.named name]))

theorem mem_declarationsOf_iff {walkers : Bool} {cores : List NamedCore} {record : Document} :
    record ∈ declarationsOf walkers cores ↔
      ∃ core ∈ cores, ∃ s ∈ core.slots, s.slot.isWalker = walkers ∧
        s.declaration = some record := by
  simp [declarationsOf, and_assoc]

/-- Names come from collections, from slots, and from the stubs that are always there. -/
theorem mem_combineNamed_declared_iff {docs : List Document} {cores : List NamedCore} {key : String}
    {walkers : Bool} {fixed : List String} {entries : List (Document × Nat)}
    (hcores : List.Forall₂ (fun entry named => normalizeCore entry.1 entry.2 = .ok named) entries
      cores) (name : String) :
    name ∈ Record.combineNamed (docs.flatMap (·.records key) ++ declarationsOf walkers cores
        ++ stubsOf walkers cores ++ fixed.map Document.named) ↔
      (∃ doc ∈ docs, ∃ record ∈ doc.records key, record.name? = some name) ∨
        (∃ core ∈ cores.map (·.core), ∃ slot : Slot,
          slot.isWalker = walkers ∧ core.slot? slot = some name) ∨
        name ∈ fixed := by
  -- a record in a slot goes by the name that the core has there
  have hslot : ∀ named ∈ cores, ∀ s ∈ named.slots, named.core.slot? s.slot = some s.record ∧
      ∀ record, s.declaration = some record → record.name? = some s.record := by
    intro named hnamed s hs
    obtain ⟨_, _, hread⟩ := exists_of_mem_right hcores hnamed
    obtain ⟨_, _, hslot⟩ := exists_of_mem_right (forall₂_slots_of_normalizeCore hread) hs
    exact ⟨slot?_of_mem_slots hread hs, (declaration_of_readSlot hslot).2⟩
  rw [Record.mem_combineNamed_iff]
  constructor
  · rintro ⟨record, hrecord, hname⟩
    simp only [List.mem_append, List.mem_flatMap, List.mem_map, mem_declarationsOf_iff,
      mem_stubsOf_iff] at hrecord
    rcases hrecord with ((⟨doc, hdoc, hlisted⟩ | ⟨named, hnamed, s, hs, hkind, hdeclared⟩) |
      ⟨named, hnamed, s, hs, hkind, rfl⟩) | ⟨other, hother, rfl⟩
    · exact .inl ⟨doc, hdoc, record, hlisted, hname⟩
    · obtain ⟨hcore, hrecord⟩ := hslot named hnamed s hs
      refine .inr (.inl ⟨_, List.mem_map_of_mem hnamed, s.slot, hkind, ?_⟩)
      rw [hcore, ← hrecord record hdeclared, hname]
    · obtain ⟨hcore, _⟩ := hslot named hnamed s hs
      exact .inr (.inl ⟨_, List.mem_map_of_mem hnamed, s.slot, hkind, hcore.trans hname⟩)
    · cases hname
      exact .inr (.inr hother)
  -- the other way round a slot has its stub, whether it declares anything or not
  · rintro (⟨doc, hdoc, record, hlisted, hname⟩ | ⟨core, hcore, slot, hkind, hname⟩ | hfixed)
    · refine ⟨record, ?_, hname⟩
      simp only [List.mem_append, List.mem_flatMap]
      exact .inl (.inl (.inl ⟨doc, hdoc, hlisted⟩))
    · obtain ⟨named, hnamed, rfl⟩ := List.mem_map.mp hcore
      obtain ⟨_, _, hread⟩ := exists_of_mem_right hcores hnamed
      obtain ⟨s, hs, rfl, hrecord⟩ := slot?_of_normalizeCore hread slot
      refine ⟨Document.named s.record, ?_, hrecord.symm.trans hname⟩
      simp only [List.mem_append, mem_stubsOf_iff]
      exact .inl (.inr ⟨named, hnamed, s, hs, hkind, rfl⟩)
    · exact ⟨Document.named name, List.mem_append_right _ (List.mem_map_of_mem hfixed), rfl⟩

/-- What is combined of collections, slots and stubs is gathered from the declarations. -/
theorem gathers_combineNamed {docs : List Document} {cores : List NamedCore} {key : String}
    {walkers : Bool} {fixed : List String}
    (hcores : List.Forall₂ (fun entry named => normalizeCore entry.1 entry.2 = .ok named)
      (writtenCores (Document.mergeAllWith layerRules docs) cores.length).zipIdx cores) :
    Gathers docs (cores.map (·.core)) key walkers fixed
      (Record.combineNamed (docs.flatMap (·.records key) ++ declarationsOf walkers cores
        ++ stubsOf walkers cores ++ fixed.map Document.named)) := by
  refine ⟨mem_combineNamed_declared_iff hcores, fun name hname => ?_⟩
  obtain ⟨merged, hmerged⟩ := NameMap.mem_iff_exists.mp hname
  rw [Record.getElem?_combineNamed] at hmerged ⊢
  split at hmerged
  · cases hmerged
  next hne =>
  rw [if_neg hne, Option.some.injEq, declared, List.length_map, ← declarationsOf_eq hcores]
  rw [List.append_assoc _ (stubsOf walkers cores), Record.declarations_append] at hne ⊢
  refine Record.mergeAll_append_stubs hne (fun record => Record.name?_of_mem_declarations) ?_
  -- what is left are empty records, of which those with the name are wanted
  intro stub hstub
  obtain ⟨hmem, hstubName⟩ := List.mem_filter.mp hstub
  obtain ⟨other, rfl⟩ : ∃ other, stub = Document.named other := by
    rcases List.mem_append.mp hmem with hmem | hmem
    · obtain ⟨_, _, s, _, _, hstub⟩ := mem_stubsOf_iff.mp hmem
      exact ⟨s.record, hstub.symm⟩
    · obtain ⟨other, _, hstub⟩ := List.mem_map.mp hmem
      exact ⟨other, hstub.symm⟩
  have hother : some other = some name := of_decide_eq_true hstubName
  rw [Option.some.inj hother]

end

/-! ## Documents that declare the same

Nothing in normalization depends on a collection but its declarations, name by name. Cores and the
root are read from other keys. -/

section

variable {doc doc' : Document} {n : NormalizedConfiguration}

theorem sharedAttributes_congr (hothers : AgreesOff collectionKeys doc doc') :
    sharedAttributes doc' = sharedAttributes doc := by
  have hkeys : ∀ key ∈ Template.coreAttributes ++ Slot.all.map Slot.key, key ∉ collectionKeys := by
    decide
  exact List.filterMap_congr fun key hkey => by rw [hothers key (hkeys key hkey)]

theorem writtenCores_congr (hothers : AgreesOff collectionKeys doc doc') (count : Nat) :
    writtenCores doc' count = writtenCores doc count := by
  rw [writtenCores, writtenCores, hothers "ooo_cpu" (by decide), sharedAttributes_congr hothers]

theorem rootOf_congr (hothers : AgreesOff collectionKeys doc doc') : rootOf doc' = rootOf doc := by
  have hroot : ∀ key ∈ rootKeys, key ∉ collectionKeys := by decide
  have hdirectories : ∀ key ∈ directoryKeys, key ∉ collectionKeys := by decide
  have hscalars : (rootKeys.filterMap fun key => (doc'.get? key).map fun value => (key, value)) =
      rootKeys.filterMap fun key => (doc.get? key).map fun value => (key, value) :=
    List.filterMap_congr fun key hkey => by rw [hothers key (hroot key hkey)]
  have hfields : directoryKeys.mapM (directoryField doc') =
      directoryKeys.mapM (directoryField doc) := mapM_congr fun key hkey => by
    rw [directoryField, directoryField, hothers key (hdirectories key hkey)]
  rw [rootOf, rootOf, hscalars, hfields]

/-- **Only the declarations of each name count**, not how they are written. All that is read of a
collection is what is declared under each name. -/
theorem ofDocument_congr (hothers : AgreesOff collectionKeys doc doc')
    (hcollections : ∀ key ∈ collectionKeys, collection doc key = .ok (doc.records key) ∧
      collection doc' key = .ok (doc'.records key) ∧ ∀ name,
        Record.declarations name (doc'.records key) = Record.declarations name (doc.records key))
    (hread : ofDocument doc = .ok n) : ofDocument doc' = .ok n := by
  obtain ⟨hcaches, hcaches', hsame⟩ := hcollections "caches" (by decide)
  obtain ⟨hwalkers, hwalkers', hsame'⟩ := hcollections "ptws" (by decide)
  -- part by part: everything but the two maps is read from other keys
  simp only [ofDocument, bind_eq_ok_iff, pure_eq_ok_iff] at hread ⊢
  obtain ⟨count, hcount, templates, htemplates, cores, hcores, rootCaches, hrootCaches, rootWalkers,
    hrootWalkers, root, hroot, memory, hmemory, virtual, hvirtual, rfl⟩ := hread
  rw [hcaches, Except.ok.injEq] at hrootCaches
  rw [hwalkers, Except.ok.injEq] at hrootWalkers
  refine ⟨count, ?_, templates, ?_, cores, ?_, _, hcaches', _, hwalkers', root, ?_, memory, ?_,
    virtual, ?_, ?_⟩
  · rw [← hcount, coreCount, coreCount, hothers "num_cores" (by decide)]
  · rw [← htemplates, coreTemplates, coreTemplates, hothers "ooo_cpu" (by decide)]
  · rw [← hcores, normalizeCores, normalizeCores, sharedAttributes_congr hothers]
  · rw [← hroot, rootOf_congr hothers]
  · rw [← hmemory, singleton, singleton, hothers "physical_memory" (by decide)]
  · rw [← hvirtual, singleton, singleton, hothers "virtual_memory" (by decide)]
  · -- the two maps are combined of the same declarations
    rw [← hrootCaches, ← hrootWalkers]
    congr 1
    · refine Record.combineNamed_congr fun name => ?_
      simp only [Record.declarations_append, hsame]
    · refine Record.combineNamed_congr fun name => ?_
      simp only [Record.declarations_append, hsame']

end

/-! ## Other ways to write a document

A collection may be a mapping or a list, and a list may interleave the declarations of different
names in any way. What is asked of two documents is that they declare the same under each name; that
they are normalized alike is the invariance, and that normalization gathers declarations is what it
computes. -/

/-- A document with one collection written in another way. The two ways are the freedom that a
writer has without changing what is declared. -/
inductive Respelled (doc : Document) : Document → Prop where
  /-- A mapping is written as a list. -/
  | listed {key : String} {entries : List (String × Json)} (hkey : key ∈ collectionKeys)
      (hmapping : doc.get? key = some (.object entries)) :
      Respelled doc (doc.set key (.array ((Json.object entries).records.map .object)))
  /-- The records of a list are put in another order, in which those of one name keep theirs. -/
  | reordered {key : String} {items items' : List Json} (hkey : key ∈ collectionKeys)
      (hlist : doc.get? key = some (.array items)) (hperm : items'.Perm items)
      (hkept : ∀ name, Record.declarations name (Json.array items').records =
        Record.declarations name (Json.array items).records) :
      Respelled doc (doc.set key (.array items'))

/-- Two documents that say the same, and declare the same under each name. The order of declarations
of different names is left open, since they end up in a map. -/
structure DeclaresAlike (doc doc' : Document) : Prop where
  distinct : doc.Distinct → doc'.Distinct
  others : ∀ key ∉ collectionKeys, doc'.valuesAt key = doc.valuesAt key
  readable : ∀ key ∈ collectionKeys, (∃ records, collection doc key = .ok records) →
    ∃ records, collection doc' key = .ok records
  declarations : ∀ key ∈ collectionKeys, ∀ name,
    Record.declarations name (doc'.records key) = Record.declarations name (doc.records key)

namespace DeclaresAlike

variable {doc doc' doc'' : Document}

theorem refl (doc : Document) : DeclaresAlike doc doc :=
  ⟨id, fun _ _ => rfl, fun _ _ => id, fun _ _ _ => rfl⟩

theorem trans (h : DeclaresAlike doc doc') (h' : DeclaresAlike doc' doc'') :
    DeclaresAlike doc doc'' where
  distinct := h'.distinct ∘ h.distinct
  others key hkey := (h'.others key hkey).trans (h.others key hkey)
  readable key hkey := h'.readable key hkey ∘ h.readable key hkey
  declarations key hkey name :=
    (h'.declarations key hkey name).trans (h.declarations key hkey name)

/-- The collection under one key is written as a list with the same declarations. -/
theorem of_set {key : String} (hkey : key ∈ collectionKeys) {items : List Json}
    (hreadable : (∃ records, collection doc key = .ok records) →
      ∃ records : List Document, items = records.map .object)
    (hsame : ∀ name, Record.declarations name (Json.array items).records =
      Record.declarations name (doc.records key)) :
    DeclaresAlike doc (doc.set key (.array items)) := by
  have hget : (doc.set key (.array items)).get? key = some (.array items) := by
    rw [Document.get?_set, if_pos rfl]
  have hother : ∀ other, other ≠ key →
      (doc.set key (.array items)).get? other = doc.get? other := by
    intro other hne
    rw [Document.get?_set, if_neg (Ne.symm hne)]
  refine ⟨fun hdistinct => Document.distinct_set hdistinct _ _, ?_, ?_, ?_⟩
  · intro other hnot
    exact Document.valuesAt_set_of_ne (ne_of_mem_of_not_mem hkey hnot) _ _
  · intro other _ hread
    -- the key that is set is read as the list that is put there, and other keys are read as before
    by_cases heq : other = key
    · subst heq
      obtain ⟨records, rfl⟩ := hreadable hread
      exact ⟨_, collection_of_isListed (Document.isListed_of_get?_eq_some hget)⟩
    · rwa [collection_congr (hother other heq)]
  · intro other _ name
    by_cases heq : other = key
    · subst heq
      rw [Document.records_of_get?_eq_some hget, hsame]
    · rw [Document.records_congr (hother other heq)]

theorem of_respelled (h : Respelled doc doc') : DeclaresAlike doc doc' := by
  cases h with
  | listed hkey hmapping =>
    refine of_set hkey (fun _ => ⟨_, rfl⟩) fun name => ?_
    rw [Json.records_array_map_object, Document.records_of_get?_eq_some hmapping]
  -- a permutation of mappings is a list of mappings
  | @reordered key items items' hkey hlist hperm hkept =>
    refine of_set hkey (fun ⟨records, hread⟩ => ?_) fun name => ?_
    · have hitems : items = records.map .object := by
        unfold collection at hread
        rw [hlist] at hread
        exact mappingsOf_eq_ok_iff.mp hread
      have hmem : items' ∈ Set.range (List.map Json.object) := by
        rw [Set.range_list_map]
        intro item hitem
        obtain ⟨record, _, hrecord⟩ := List.mem_map.mp (hitems ▸ hperm.mem_iff.mp hitem)
        exact ⟨record, hrecord⟩
      obtain ⟨records', hrecords'⟩ := hmem
      exact ⟨records', hrecords'.symm⟩
    · rw [hkept, Document.records_of_get?_eq_some hlist]

theorem of_reflTransGen (h : Relation.ReflTransGen Respelled doc doc') :
    DeclaresAlike doc doc' := by
  induction h with
  | refl => exact refl doc
  | tail _ hstep ih => exact ih.trans (of_respelled hstep)

end DeclaresAlike

/-- What documents that are accepted are normalized from. -/
theorem exists_writtenAs {docs : List Document} {n : NormalizedConfiguration}
    (hdistinct : ∀ doc ∈ docs, doc.Distinct) (hread : ofDocuments docs = .ok n) :
    ∃ listed, List.Forall₂ WrittenAs docs listed ∧
      ofDocument (Document.mergeAllWith layerRules listed) = .ok n := by
  rw [ofDocuments, bind_eq_ok_iff] at hread
  obtain ⟨listed, hlisted, hread⟩ := hread
  have hboth := (List.forall₂_and_left _ _).mpr ⟨hdistinct, mapM_eq_ok_iff.mp hlisted⟩
  exact ⟨listed, hboth.imp fun _ _ h => writtenAs_of_collectionsAsLists h.1 h.2, hread⟩

/-- Documents that declare the same as documents that are accepted can be written as lists. -/
theorem exists_writtenAs_of_declaresAlike {docs docs' listed : List Document}
    (hdistinct : ∀ doc ∈ docs, doc.Distinct) (hwritten : List.Forall₂ WrittenAs docs listed)
    (halike : List.Forall₂ DeclaresAlike docs docs') :
    ∃ listed', docs'.mapM collectionsAsLists = .ok listed' ∧
      List.Forall₂ WrittenAs docs' listed' := by
  have hdocs' : ∀ doc' ∈ docs',
      doc'.Distinct ∧ ∃ listed', collectionsAsLists doc' = .ok listed' := by
    intro doc' hdoc'
    obtain ⟨doc, hdoc, h⟩ := exists_of_mem_right halike hdoc'
    obtain ⟨_, _, hread⟩ := exists_of_mem_right hwritten.flip hdoc
    exact ⟨h.distinct (hdistinct doc hdoc), exists_collectionsAsLists fun key hkey =>
      h.readable key hkey ⟨_, hread.collection_eq key hkey⟩⟩
  obtain ⟨listed', hlisted'⟩ := exists_mapM_eq_ok_iff.mpr fun doc' hdoc' => (hdocs' doc' hdoc').2
  have hboth := (List.forall₂_and_left _ _).mpr
    ⟨fun doc' hdoc' => (hdocs' doc' hdoc').1, mapM_eq_ok_iff.mp hlisted'⟩
  exact ⟨listed', hlisted', hboth.imp fun _ _ h => writtenAs_of_collectionsAsLists h.1 h.2⟩

/-- **Documents that declare alike are normalized alike.** The declarations of a name in layered
documents are those of each document, one after the other. -/
theorem ofDocuments_congr {docs docs' : List Document} {n : NormalizedConfiguration}
    (hdistinct : ∀ doc ∈ docs, doc.Distinct) (halike : List.Forall₂ DeclaresAlike docs docs')
    (hread : ofDocuments docs = .ok n) : ofDocuments docs' = .ok n := by
  -- both lists of documents are written with lists, which are then compared by their declarations
  obtain ⟨listed, hwritten, hnormal⟩ := exists_writtenAs hdistinct hread
  obtain ⟨listed', hlisted', hwritten'⟩ :=
    exists_writtenAs_of_declaresAlike hdistinct hwritten halike
  obtain ⟨hothers, hcollections⟩ := layered_of_writtenAs hwritten
  obtain ⟨hothers', hcollections'⟩ := layered_of_writtenAs hwritten'
  have hsame : ∀ key ∈ collectionKeys, ∀ name,
      Record.declarations name (docs'.flatMap (·.records key)) =
        Record.declarations name (docs.flatMap (·.records key)) := by
    intro key hkey name
    clear hdistinct hread hwritten hlisted' hwritten' hothers hcollections hothers' hcollections'
      hnormal
    -- the declarations of a name are those of the documents one after the other
    induction halike with
    | nil => rfl
    | cons hdoc _ ih =>
      simp only [List.flatMap_cons, Record.declarations_append, hdoc.declarations key hkey name, ih]
  refine bind_eq_ok_iff.mpr ⟨listed', hlisted', ofDocument_congr ?_ ?_ hnormal⟩
  · intro key hkey
    have hvalues := halike.imp fun _ _ hdoc => (hdoc.others key hkey).symm
    rw [hothers' key hkey, hothers key hkey, Document.get?_mergeAllWith_congr layerRules hvalues]
  · intro key hkey
    obtain ⟨hlist, hrecords⟩ := hcollections key hkey
    obtain ⟨hlist', hrecords'⟩ := hcollections' key hkey
    refine ⟨collection_of_isListed hlist, collection_of_isListed hlist', fun name => ?_⟩
    rw [hrecords, hrecords', hsame key hkey]

end NormalizedConfiguration

open NormalizedConfiguration in
/-- **The record under a name is the merge of its declarations.** Of documents that are mappings,
there are caches for the names in collections, for those in slots, and for the last level, and
walkers likewise; each is merged from the declarations of its name, those of earlier documents first
and those of slots last. Writing a mapping as a list, or records of different names in another
order, changes nothing. -/
theorem gathers_of_ofDocuments {docs : List Document} {n : NormalizedConfiguration}
    (hdistinct : ∀ doc ∈ docs, doc.Distinct) (hread : ofDocuments docs = .ok n) :
    Gathers docs n.cores "caches" false [lastLevelName] n.caches ∧
      Gathers docs n.cores "ptws" true [] n.walkers ∧
      ∀ docs', List.Forall₂ (Relation.ReflTransGen Respelled) docs docs' →
        ofDocuments docs' = .ok n := by
  obtain ⟨listed, hwritten, hnormal⟩ := exists_writtenAs hdistinct hread
  obtain ⟨hothers, hcollections⟩ := layered_of_writtenAs hwritten
  obtain ⟨hcaches, hcacheRecords⟩ := hcollections "caches" (by decide)
  obtain ⟨hwalkers, hwalkerRecords⟩ := hcollections "ptws" (by decide)
  -- the two maps of the normalized document are combinations of records, and these are known
  simp only [ofDocument, bind_eq_ok_iff, pure_eq_ok_iff] at hnormal
  obtain ⟨count, _, templates, htemplates, cores, hcores, rootCaches, hrootCaches, rootWalkers,
    hrootWalkers, _, _, _, _, _, _, rfl⟩ := hnormal
  rw [collection_of_isListed hcaches, Except.ok.injEq, hcacheRecords] at hrootCaches
  rw [collection_of_isListed hwalkers, Except.ok.injEq, hwalkerRecords] at hrootWalkers
  have hnamed := forall₂_writtenCores htemplates hcores
  rw [writtenCores_congr hothers] at hnamed
  refine ⟨?_, ?_, fun docs' h => ofDocuments_congr hdistinct
    (h.imp fun _ _ => DeclaresAlike.of_reflTransGen) hread⟩
  · rw [← hrootCaches]
    exact gathers_combineNamed hnamed
  · have hgathers : Gathers docs (cores.map (·.core)) "ptws" true [] _ :=
      gathers_combineNamed hnamed
    rwa [List.map_nil, List.append_nil, hrootWalkers] at hgathers

open NormalizedConfiguration in
/-- A cache that a mapping and both cores declare, and the same with the mapping as a list. -/
theorem gathers_declaredCache :
    ∃ n, ofDocuments declaredCache = .ok n ∧ (∀ doc ∈ declaredCache, doc.Distinct) ∧
      "front" ∈ n.caches ∧
      n.caches["front"]? = some
        [("ways", .ofNat 2), ("name", .string "front"), ("sets", .ofNat 8)] ∧
      ofDocuments (declaredCache.take 1 ++ [[("num_cores", .ofNat 5),
        ("caches", .array [.object [("ways", .ofNat 2), ("name", .string "front")]])]]) =
          .ok n := by
  have hread : ∃ n, ofDocuments declaredCache = .ok n := by decide +kernel
  obtain ⟨n, hread⟩ := hread
  have hdistinct : ∀ doc ∈ declaredCache, doc.Distinct := by decide +kernel
  have hcores : n.cores.length = 2 := by
    rw [← Option.some.injEq, ← (length_cores_of_ofDocuments hread).2]
    decide +kernel
  obtain ⟨hcaches, _, hrespelled⟩ := gathers_of_ofDocuments hdistinct hread
  have hfront : "front" ∈ n.caches := by
    rw [hcaches.mem_iff]
    exact .inl (by decide +kernel)
  let mapped : Document :=
    [("num_cores", .ofNat 5), ("caches", .object [("front", .object [("ways", .ofNat 2)])])]
  have hlisted : Respelled mapped (mapped.set "caches" (.array
      ((Json.object [("front", .object [("ways", .ofNat 2)])]).records.map .object))) :=
    .listed List.mem_cons_self rfl
  refine ⟨n, hread, hdistinct, hfront, ?_,
    hrespelled _ (.cons .refl (.cons (.single hlisted) .nil))⟩
  rw [hcaches.getElem? "front" hfront, hcores]
  decide +kernel

end MemoryHierarchy
