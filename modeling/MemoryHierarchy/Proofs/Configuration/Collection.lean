import MemoryHierarchy.Proofs.Configuration.SelfContained

/-!
# Collections of records

A collection is written as a list of records or as a mapping of names to records. `Json.records`
reads both: the key of a mapping names a record that has no name. Before documents are layered their
collections are written as lists, and lists that meet are joined, so the collection of layered
documents has the records of all of them, document by document (`isListed_mergeAllWith`).
-/

namespace MemoryHierarchy

/-! ## The records of a collection

A collection is written as a list of records or as a mapping of names to records. Either way it
holds records in an order, and a record of a mapping is named after its key unless it has a name.
The two forms merge differently: lists are joined, mappings are merged key by key. -/

/-- The record under a key of a mapping, which has the key as its name if it has no other. -/
def Json.keyedRecord? (entry : String × Json) : Option Document :=
  entry.2.object?.map fun record => record.setIfAbsent "name" (.string entry.1)

/-- The records of a collection, in the order in which they are written. What is no record is left
out, although reading such a collection fails; the two are tied together where it is read. -/
def Json.records : Json → List Document
  | .array items => items.filterMap object?
  | .object entries => entries.filterMap keyedRecord?
  | _ => []

/-- The records of the collection under a key. -/
def Document.records (doc : Document) (key : String) : List Document :=
  ((doc.get? key).map Json.records).getD []

@[simp]
theorem Json.records_array_map_object (records : List Document) :
    (Json.array (records.map .object)).records = records := by
  show (records.map Json.object).filterMap Json.object? = records
  rw [List.filterMap_map]
  exact List.filterMap_some

namespace Document

/-- What is under a key is a list of records. A collection that is written as a mapping is not, but
can be written so without a change of its records. -/
def IsListed (doc : Document) (key : String) : Prop :=
  ∀ value, doc.get? key = some value → value = .array ((doc.records key).map .object)

variable {doc listed : Document} {key : String}

theorem records_of_get?_eq_none (hnone : doc.get? key = none) : doc.records key = [] := by
  rw [records, hnone]
  rfl

theorem records_of_get?_eq_some {value : Json} (hvalue : doc.get? key = some value) :
    doc.records key = value.records := by
  rw [records, hvalue]
  rfl

theorem records_congr {doc' : Document} (hget : doc'.get? key = doc.get? key) :
    doc'.records key = doc.records key := by
  rw [records, records, hget]

theorem isListed_congr {doc' : Document} (hget : doc'.get? key = doc.get? key)
    (hlisted : doc.IsListed key) : doc'.IsListed key := by
  unfold IsListed
  rw [hget, records_congr hget]
  exact hlisted

theorem isListed_of_get?_eq_none (hnone : doc.get? key = none) : doc.IsListed key := by
  intro value hvalue
  rw [hnone] at hvalue
  cases hvalue

theorem isListed_of_get?_eq_some {records : List Document}
    (hvalue : doc.get? key = some (.array (records.map .object))) : doc.IsListed key := by
  intro value hvalue'
  rw [hvalue, Option.some.injEq] at hvalue'
  rw [records_of_get?_eq_some hvalue, Json.records_array_map_object, hvalue']

theorem isListed_mergeWith {rules : MergeRules} (hrule : rules key = none) {left right : Document}
    (hleft : left.IsListed key) (hdistinct : right.Distinct) (hright : right.IsListed key) :
    (mergeWith rules left right).IsListed key ∧
      (mergeWith rules left right).records key = left.records key ++ right.records key := by
  have hget := get?_mergeWith_of_distinct rules left hdistinct key
  cases hvalue : right.get? key with
  | none =>
    rw [hvalue] at hget
    rw [records_of_get?_eq_none hvalue, List.append_nil]
    exact ⟨isListed_congr hget hleft, records_congr hget⟩
  | some value =>
    rw [hvalue] at hget
    have hjoined : (mergeWith rules left right).get? key =
        some (.array ((left.records key ++ right.records key).map .object)) := by
      rw [hget, hright value hvalue]
      -- lists are joined, and a missing list is as good as an empty one
      cases hpresent : left.get? key with
      | none =>
        rw [records_of_get?_eq_none hpresent]
        rfl
      | some present =>
        simp only [combine, hrule]
        rw [hleft present hpresent, Json.merge, List.map_append]
    refine ⟨isListed_of_get?_eq_some hjoined, ?_⟩
    rw [records_of_get?_eq_some hjoined, Json.records_array_map_object]

/-- **Layered lists are joined.** The first list is kept and the others are appended, so the records
are those of all documents in their order. -/
theorem isListed_mergeAllWith {rules : MergeRules} (hrule : rules key = none)
    {docs : List Document} (hdocs : ∀ doc ∈ docs, doc.Distinct ∧ doc.IsListed key) :
    (mergeAllWith rules docs).IsListed key ∧
      (mergeAllWith rules docs).records key = docs.flatMap (·.records key) := by
  induction docs using List.reverseRecOn with
  | nil => exact ⟨isListed_of_get?_eq_none rfl, rfl⟩
  | append_singleton docs last ih =>
    obtain ⟨hlisted, hrecords⟩ := ih fun doc hdoc => hdocs doc (List.mem_append_left _ hdoc)
    obtain ⟨hdistinct, hlast⟩ := hdocs last (List.mem_append_right _ List.mem_cons_self)
    rw [mergeAllWith_concat, List.flatMap_append, List.flatMap_singleton, ← hrecords]
    exact isListed_mergeWith hrule hlisted hdistinct hlast

end Document

namespace NormalizedConfiguration

open Document (IsListed AgreesOff)

variable {doc listed : Document} {key : String} {records : List Document}

/-- The keys of a document that hold collections. -/
def collectionKeys : List String := ["caches", "ptws"]

/-! ## Reading collections

What the reader of a collection accepts is told by its shape, and what it gives are the records, so
later arguments speak of records and never of the reader. -/

theorem mappingsOf_eq_ok_iff {items : List Json} :
    mappingsOf key items = .ok records ↔ items = records.map .object := by
  rw [mappingsOf, mapM_eq_ok_iff, ← List.forall₂_eq_eq_eq, List.forall₂_map_right_iff]
  -- places only stand in errors, so they are forgotten
  nth_rewrite 2 [← List.zipIdx_map_fst 0 items]
  rw [List.forall₂_map_left_iff]
  constructor
  · refine fun hread => hread.imp ?_
    rintro ⟨item, i⟩ record hitem
    cases item with
    | object fields =>
      cases hitem
      rfl
    | _ => cases hitem
  · refine fun heq => heq.imp ?_
    rintro ⟨item, i⟩ record hitem
    obtain rfl : item = .object record := hitem
    rfl

theorem namedByKey_eq_ok_iff {entry : String × Json} {record : Document} :
    namedByKey key entry.1 entry.2 = .ok record ↔ Json.keyedRecord? entry = some record := by
  obtain ⟨name, item⟩ := entry
  cases item <;> simp [namedByKey, Json.keyedRecord?, Json.object?]

/-- A collection that is read gives its records. -/
theorem eq_records_of_collection (hread : collection doc key = .ok records) :
    records = doc.records key := by
  unfold collection at hread
  unfold Document.records
  cases hvalue : doc.get? key with
  | none =>
    rw [hvalue] at hread
    cases hread
    rfl
  | some value =>
    rw [hvalue] at hread
    cases value with
    | array items =>
      rw [mappingsOf_eq_ok_iff.mp hread]
      exact (Json.records_array_map_object records).symm
    -- entry by entry: what is read is the record under its key
    | object entries =>
      have hentries : List.Forall₂ (fun entry record => Json.keyedRecord? entry = some record)
          entries records := (mapM_eq_ok_iff.mp hread).imp fun _ _ => namedByKey_eq_ok_iff.mp
      clear hread hvalue
      show records = entries.filterMap Json.keyedRecord?
      induction hentries with
      | nil => rfl
      | cons hentry _ ih => rw [List.filterMap_cons, hentry, ih]
    | _ => cases hread

theorem collection_of_isListed (hlisted : doc.IsListed key) :
    collection doc key = .ok (doc.records key) := by
  unfold collection
  cases hvalue : doc.get? key with
  | none => rw [Document.records_of_get?_eq_none hvalue]
  | some value =>
    rw [hlisted value hvalue]
    exact mappingsOf_eq_ok_iff.mpr rfl

theorem collection_congr {doc' : Document} (hget : doc'.get? key = doc.get? key) :
    collection doc' key = collection doc key := by
  rw [collection, collection, hget]

/-! ## Writing collections as lists

Before documents are layered every collection is written as a list. The rest of the document is left
alone, and what is written in this way is read to the same records. -/

theorem collectionAsList_eq_ok (hread : collectionAsList doc key = .ok listed) :
    collection doc key = .ok (doc.records key) ∧ AgreesOff [key] doc listed ∧
      listed.IsListed key ∧ listed.records key = doc.records key := by
  rcases collectionAsList_cases hread with ⟨records, hrecords, rfl⟩ | ⟨hnone, rfl⟩
  · obtain rfl := eq_records_of_collection hrecords
    have hget : (doc.set key (.array ((doc.records key).map .object))).get? key =
        some (.array ((doc.records key).map .object)) := by
      rw [Document.get?_set, if_pos rfl]
    refine ⟨hrecords, AgreesOff.set List.mem_cons_self _ _, Document.isListed_of_get?_eq_some hget,
      ?_⟩
    rw [Document.records_of_get?_eq_some hget, Json.records_array_map_object]
  -- a document without the collection is its own list form
  · have hlisted := Document.isListed_of_get?_eq_none hnone
    exact ⟨collection_of_isListed hlisted, .refl _ _, hlisted, rfl⟩

theorem exists_collectionAsList (hread : collection doc key = .ok records) :
    ∃ listed, collectionAsList doc key = .ok listed := by
  unfold collectionAsList
  rw [hread]
  split
  · exact ⟨_, rfl⟩
  · exact ⟨_, rfl⟩

/-- The collections of a document can be read, and another document has them as lists. Everything
else is the same in both, so that lists are all that has to be considered afterwards. -/
structure WrittenAs (doc listed : Document) : Prop where
  collection_eq : ∀ key ∈ collectionKeys, collection doc key = .ok (doc.records key)
  distinct : listed.Distinct
  others : ∀ key ∉ collectionKeys, listed.valuesAt key = doc.valuesAt key
  isListed : ∀ key ∈ collectionKeys, listed.IsListed key
  records : ∀ key ∈ collectionKeys, listed.records key = doc.records key

theorem collectionAsList_distinct (hdistinct : doc.Distinct)
    (hread : collectionAsList doc key = .ok listed) : listed.Distinct := by
  rcases collectionAsList_cases hread with ⟨_, _, rfl⟩ | ⟨_, rfl⟩
  · exact Document.distinct_set hdistinct _ _
  · exact hdistinct

theorem writtenAs_of_collectionsAsLists (hdistinct : doc.Distinct)
    (hread : collectionsAsLists doc = .ok listed) : WrittenAs doc listed := by
  have hvalues : ∀ key ∉ collectionKeys, listed.valuesAt key = doc.valuesAt key := by
    intro key hkey
    rw [collectionKeys, List.mem_cons, List.mem_singleton, not_or] at hkey
    exact valuesAt_collectionsAsLists hread (Ne.symm hkey.1) (Ne.symm hkey.2)
  rw [collectionsAsLists, bind_eq_ok_iff] at hread
  obtain ⟨middle, hcaches, hwalkers⟩ := hread
  have hmiddle := collectionAsList_distinct hdistinct hcaches
  have hlast := collectionAsList_distinct hmiddle hwalkers
  obtain ⟨hreadCaches, hother, hlisted, hrecords⟩ := collectionAsList_eq_ok hcaches
  obtain ⟨hreadWalkers, hother', hlisted', hrecords'⟩ := collectionAsList_eq_ok hwalkers
  -- each of the two steps leaves the collection of the other one
  have hkeptCaches : listed.get? "caches" = middle.get? "caches" := hother' "caches" (by decide)
  have hkeptWalkers : middle.get? "ptws" = doc.get? "ptws" := hother "ptws" (by decide)
  refine ⟨?_, hlast, hvalues, ?_, ?_⟩
  all_goals
    intro key hkey
    rw [collectionKeys, List.mem_cons, List.mem_singleton] at hkey
  · rcases hkey with rfl | rfl
    · exact hreadCaches
    · rw [← collection_congr hkeptWalkers, hreadWalkers, Document.records_congr hkeptWalkers]
  · rcases hkey with rfl | rfl
    · exact Document.isListed_congr hkeptCaches hlisted
    · exact hlisted'
  · rcases hkey with rfl | rfl
    · rw [Document.records_congr hkeptCaches, hrecords]
    · rw [hrecords', Document.records_congr hkeptWalkers]

/-- Collections that can be read can be written as lists. -/
theorem exists_collectionsAsLists
    (hread : ∀ key ∈ collectionKeys, ∃ records, collection doc key = .ok records) :
    ∃ listed, collectionsAsLists doc = .ok listed := by
  obtain ⟨caches, hcaches⟩ := hread "caches" (by decide)
  obtain ⟨walkers, hwalkers⟩ := hread "ptws" (by decide)
  obtain ⟨middle, hmiddle⟩ := exists_collectionAsList hcaches
  have hkept : middle.get? "ptws" = doc.get? "ptws" :=
    (collectionAsList_eq_ok hmiddle).2.1 "ptws" (by decide)
  rw [← collection_congr hkept] at hwalkers
  obtain ⟨listed, hlisted⟩ := exists_collectionAsList hwalkers
  exact ⟨listed, bind_eq_ok_iff.mpr ⟨middle, hmiddle, hlisted⟩⟩

/-! ## Layered documents

Lists are joined by a merge, so the records of layered documents are those of all documents, in
their order. This is why the first document is the one that counts under each name. -/

/-- **The collections of layered documents** have the records of all of them, document by document;
everything else is as if the documents were layered as they are. -/
theorem layered_of_writtenAs {docs listed : List Document}
    (hwritten : List.Forall₂ WrittenAs docs listed) :
    let merged := Document.mergeAllWith layerRules listed
    AgreesOff collectionKeys (Document.mergeAllWith layerRules docs) merged ∧
      ∀ key ∈ collectionKeys,
        merged.IsListed key ∧ merged.records key = docs.flatMap (·.records key) := by
  intro merged
  have hlisted : ∀ doc ∈ listed, doc.Distinct ∧ ∀ key ∈ collectionKeys, doc.IsListed key := by
    intro doc hdoc
    obtain ⟨_, _, hwritten⟩ := exists_of_mem_right hwritten hdoc
    exact ⟨hwritten.distinct, hwritten.isListed⟩
  constructor
  · intro key hkey
    have hvalues := hwritten.imp fun _ _ hdoc => (hdoc.others key hkey).symm
    exact (Document.get?_mergeAllWith_congr layerRules hvalues).symm
  · intro key hkey
    have hrule : layerRules key = none := by
      refine if_neg ?_
      rintro rfl
      exact absurd hkey (by decide)
    obtain ⟨hmerged, hrecords⟩ := Document.isListed_mergeAllWith hrule
      fun doc hdoc => ⟨(hlisted doc hdoc).1, (hlisted doc hdoc).2 key hkey⟩
    refine ⟨hmerged, hrecords.trans ?_⟩
    clear hlisted hmerged hrecords merged
    -- the records of the merge are those of the written documents, and these have the records of
    -- the given ones
    induction hwritten with
    | nil => rfl
    | cons hdoc _ ih => rw [List.flatMap_cons, List.flatMap_cons, hdoc.records key hkey, ih]

end NormalizedConfiguration

end MemoryHierarchy
