import Mathlib.Data.List.GetD
import MemoryHierarchy.Proofs.Configuration.Normalized
import MemoryHierarchy.Proofs.Configuration.Repetition

/-!
# Normalized configurations are self-contained

In a self-contained configuration each core knows its place and its name, each slot names a record
that is there, each record goes by the name that it carries, and there is a last level.
Normalization ends in such configurations, with as many cores as the documents ask for, and layering
two of them gives one again: cores meet by index and records by name, so what either of the two
names is found in the merge.
-/

namespace MemoryHierarchy

namespace NormalizedConfiguration

/-- The cores of a configuration stand in their places, and what they name is there. No name in a
slot leads nowhere, and no record is found under a name that is not its own. -/
structure SelfContained (n : NormalizedConfiguration) : Prop where
  /-- Each core has its place as its index. -/
  indexed : ∀ (i : Nat) (h : i < n.cores.length), n.cores[i].natural? "index" = some i
  /-- Each core has a name. -/
  titled : ∀ core ∈ n.cores, ∃ name, core.name? = some name
  /-- Each slot of each core names a record of its kind. -/
  slots : ∀ core ∈ n.cores, ∀ slot : Slot, ∃ name, core.slot? slot = some name ∧
    if slot.isWalker then name ∈ n.walkers else name ∈ n.caches
  /-- Each cache goes by its name. -/
  caches_named : n.caches.Named
  /-- Each walker goes by its name. -/
  walkers_named : n.walkers.Named
  /-- There is a last level. -/
  lastLevel : lastLevelName ∈ n.caches

/-- The number of cores that layered documents ask for: the one that the first document with a
number of cores gives, and one where there is none. No template stands for no core. -/
def coresAskedFor (docs : List Document) : Option Nat :=
  if (Document.mergeAllWith layerRules docs).get? "ooo_cpu" = some (.array []) then some 0
  else
    match docs.find? fun doc => doc.contains "num_cores" with
    | none => some 1
    | some doc => doc.natural? "num_cores"

/-! ## The number of cores

Templates are repeated up to the number of cores. A document that says nothing of cores has one
empty template, while a list without templates makes no core, whatever number is asked for. -/

theorem coreTemplates_eq_nil_iff {doc : Document} {templates : List Document}
    (hread : coreTemplates doc = .ok templates) :
    templates = [] ↔ doc.get? "ooo_cpu" = some (.array []) := by
  unfold coreTemplates at hread
  cases hget : doc.get? "ooo_cpu" with
  | none =>
    rw [hget] at hread
    cases hread
    simp
  | some value =>
    rw [hget] at hread
    cases value with
    | array items =>
      dsimp only at hread
      -- each item gives a template, so there are as many
      rw [mappingsOf, mapM_eq_ok_iff] at hread
      rw [← List.length_eq_zero_iff, ← hread.length_eq, List.length_zipIdx]
      simp
    | _ => cases hread

theorem coreCount_eq_ok {doc : Document} {count : Nat} (hread : coreCount doc = .ok count) :
    count ≤ maxCores ∧
      (if doc.contains "num_cores" then doc.natural? "num_cores" else some 1) = some count := by
  unfold coreCount at hread
  -- without a number there is one core, and a number is taken up to the bound
  cases hget : doc.get? "num_cores" with
  | none =>
    rw [hget] at hread
    cases hread
    rw [Document.contains_eq_false_iff.mpr hget]
    exact ⟨by decide, rfl⟩
  | some value =>
    rw [hget] at hread
    dsimp only at hread
    rw [Document.contains_iff.mpr ⟨value, hget⟩, if_pos rfl, Document.natural?, hget,
      Option.bind_some]
    cases hnatural : value.natural? with
    | none =>
      rw [hnatural] at hread
      cases hread
    | some asked =>
      rw [hnatural] at hread
      dsimp only at hread
      split at hread
      · next hmax =>
        cases hread
        exact ⟨hmax, rfl⟩
      · cases hread

theorem length_cores_of_ofDocument {doc : Document} {n : NormalizedConfiguration}
    (hread : ofDocument doc = .ok n) :
    n.cores.length ≤ maxCores ∧
      (if doc.get? "ooo_cpu" = some (.array []) then some 0
        else if doc.contains "num_cores" then doc.natural? "num_cores" else some 1) =
        some n.cores.length := by
  obtain ⟨count, templates, cores, _, _, hcount, htemplates, hcores, hn, _, _⟩ :=
    exists_of_ofDocument hread
  obtain ⟨hmax, hasked⟩ := coreCount_eq_ok hcount
  have hlength : n.cores.length = (repeatToLength templates count).length := by
    rw [hn, List.length_map, ← (normalizeCores_eq_ok_iff.mp hcores).length_eq, List.length_zipIdx]
  -- without a template nothing is repeated
  have hempty := coreTemplates_eq_nil_iff htemplates
  rw [hlength]
  split
  · next hlist =>
    rw [hempty.mpr hlist]
    exact ⟨by simp [repeatToLength], by simp [repeatToLength]⟩
  · next hlist =>
    rw [length_repeatToLength (mt hempty.mp hlist)]
    exact ⟨hmax, hasked⟩

/-! ## Layered documents

The number that counts is that of the first document that gives one. It is a number and no
collection, so writing collections as lists does not touch it. -/

/-- Either the collection is there and is written as a list, or there is nothing to write. -/
theorem collectionAsList_cases {doc listed : Document} {key : String}
    (hread : collectionAsList doc key = .ok listed) :
    (∃ records, collection doc key = .ok records ∧
        listed = doc.set key (.array (records.map .object))) ∨
      doc.get? key = none ∧ listed = doc := by
  unfold collectionAsList at hread
  split at hread
  · obtain ⟨records, hrecords, rfl⟩ := map_eq_ok_iff.mp hread
    exact Or.inl ⟨records, hrecords, rfl⟩
  · next habsent =>
    cases hread
    exact Or.inr ⟨Document.contains_eq_false_iff.mp (Bool.not_eq_true _ ▸ habsent), rfl⟩

/-- Writing a collection as a list leaves everything else as it is. -/
theorem valuesAt_collectionAsList {doc listed : Document} {key other : String}
    (hread : collectionAsList doc key = .ok listed) (hother : key ≠ other) :
    listed.valuesAt other = doc.valuesAt other := by
  rcases collectionAsList_cases hread with ⟨_, _, rfl⟩ | ⟨_, rfl⟩
  · exact Document.valuesAt_set_of_ne hother doc _
  · rfl

theorem valuesAt_collectionsAsLists {doc listed : Document}
    (hread : collectionsAsLists doc = .ok listed) {key : String} (hcaches : "caches" ≠ key)
    (hwalkers : "ptws" ≠ key) : listed.valuesAt key = doc.valuesAt key := by
  rw [collectionsAsLists, bind_eq_ok_iff] at hread
  obtain ⟨middle, hfirst, hsecond⟩ := hread
  rw [valuesAt_collectionAsList hsecond hwalkers, valuesAt_collectionAsList hfirst hcaches]

theorem coresAskedFor_eq (docs : List Document) :
    coresAskedFor docs =
      let merged := Document.mergeAllWith layerRules docs
      if merged.get? "ooo_cpu" = some (.array []) then some 0
      else if merged.contains "num_cores" then merged.natural? "num_cores" else some 1 := by
  dsimp only
  rw [coresAskedFor, Document.contains_mergeAllWith, Document.natural?_mergeAllWith rfl]
  congr 1
  -- the merge has the key if some document has it, and the first one of them counts
  cases hfind : docs.find? (fun doc => doc.contains "num_cores") with
  | none =>
    have hnone : docs.any (fun doc => doc.contains "num_cores") = false := by
      rw [List.any_eq_false]
      exact List.find?_eq_none.mp hfind
    rw [hnone]
    rfl
  | some doc =>
    have hany : docs.any (fun doc => doc.contains "num_cores") = true :=
      List.any_eq_true.mpr ⟨doc, List.mem_of_find?_eq_some hfind, by
        simpa using List.find?_some hfind⟩
    rw [hany]
    rfl

/-- What layered documents are normalized from has the values of their merge, but for the
collections. -/
theorem exists_merged_of_ofDocuments {docs : List Document} {n : NormalizedConfiguration}
    (hread : ofDocuments docs = .ok n) :
    ∃ merged : Document, (∀ key, "caches" ≠ key → "ptws" ≠ key →
        merged.get? key = (Document.mergeAllWith layerRules docs).get? key) ∧
      ofDocument merged = .ok n := by
  rw [ofDocuments, bind_eq_ok_iff] at hread
  obtain ⟨listed, hlisted, hread⟩ := hread
  rw [mapM_eq_ok_iff] at hlisted
  refine ⟨Document.mergeAllWith layerRules listed, fun key hcaches hwalkers => ?_, hread⟩
  have hvalues := hlisted.imp fun _ _ h => (valuesAt_collectionsAsLists h hcaches hwalkers).symm
  exact (Document.get?_mergeAllWith_congr layerRules hvalues).symm

theorem length_cores_of_ofDocuments {docs : List Document} {n : NormalizedConfiguration}
    (hread : ofDocuments docs = .ok n) :
    n.cores.length ≤ maxCores ∧ coresAskedFor docs = some n.cores.length := by
  obtain ⟨merged, hmerged, hread⟩ := exists_merged_of_ofDocuments hread
  obtain ⟨hmax, hlength⟩ := length_cores_of_ofDocument hread
  refine ⟨hmax, ?_⟩
  rw [coresAskedFor_eq, ← hlength]
  dsimp only
  rw [Document.contains, Document.contains, Document.natural?, Document.natural?,
    hmerged "ooo_cpu" (by decide) (by decide), hmerged "num_cores" (by decide) (by decide)]

/-! ## What normalization gives

A single document is looked at first: each core has its place and a name, and its slots name
records. -/

theorem natural?_index_of_normalizeCore {core : Document} {index : Nat} {named : NamedCore}
    (hread : normalizeCore core index = .ok named) (hindex : index < UInt64.size) :
    named.core.natural? "index" = some index := by
  rw [normalizeCore, bind_eq_ok_iff] at hread
  obtain ⟨name, _, hread⟩ := hread
  rw [bind_eq_ok_iff] at hread
  obtain ⟨slots, _, hread⟩ := hread
  rw [pure_eq_ok_iff] at hread
  rw [← hread, Document.natural?,
    get?_foldl_set_slots (fun s _ => by cases s.slot <;> decide), Document.get?_set, if_pos rfl,
    Option.bind_some, Json.natural?_ofNat hindex]

theorem name?_of_normalizeCore {core : Document} {index : Nat} {named : NamedCore}
    (hread : normalizeCore core index = .ok named) : ∃ name, named.core.name? = some name := by
  rw [normalizeCore, bind_eq_ok_iff] at hread
  obtain ⟨name, _, hread⟩ := hread
  rw [bind_eq_ok_iff] at hread
  obtain ⟨slots, _, hread⟩ := hread
  rw [pure_eq_ok_iff] at hread
  refine ⟨name, ?_⟩
  rw [← hread, Document.name?, Document.string?,
    get?_foldl_set_slots (fun s _ => by cases s.slot <;> decide), Document.get?_set,
    if_neg (by decide), Document.get?_set, if_pos rfl]
  rfl

theorem selfContained_of_ofDocument {doc : Document} {n : NormalizedConfiguration}
    (hread : ofDocument doc = .ok n) : n.SelfContained := by
  have hclosed := closed_of_ofDocument hread
  obtain ⟨hmax, _⟩ := length_cores_of_ofDocument hread
  obtain ⟨count, templates, cores, _, _, _, _, hcores, hn, _, _⟩ := exists_of_ofDocument hread
  have hnormal := normalizeCores_eq_ok_iff.mp hcores
  refine ⟨?_, ?_, hclosed.slots, hclosed.caches_named, hclosed.walkers_named, hclosed.lastLevel⟩
  · intro i hi
    have hplace : i < cores.length := by rwa [hn, List.length_map] at hi
    have hentry := (List.forall₂_iff_get.mp hnormal).2 i (by rwa [hnormal.length_eq]) hplace
    simp only [List.get_eq_getElem, List.getElem_zipIdx, Nat.zero_add] at hentry
    -- the index of a core is a word, as there are not that many cores
    have hword : i < UInt64.size := by
      have hsize : maxCores < UInt64.size := by decide
      omega
    have hindex := natural?_index_of_normalizeCore hentry hword
    simpa only [hn, List.getElem_map] using hindex
  · intro core hcore
    rw [hn] at hcore
    obtain ⟨named, hnamed, rfl⟩ := List.mem_map.mp hcore
    obtain ⟨_, _, hread⟩ := exists_of_mem_right hnormal hnamed
    exact name?_of_normalizeCore hread

theorem selfContained_of_ofDocuments {docs : List Document} {n : NormalizedConfiguration}
    (hread : ofDocuments docs = .ok n) : n.SelfContained := by
  rw [ofDocuments, bind_eq_ok_iff] at hread
  obtain ⟨listed, _, hread⟩ := hread
  exact selfContained_of_ofDocument hread

/-! ## Layered configurations

Layering merges cores place by place and records name by name. A core that only one configuration
has is taken over, with all that it refers to, since no record is lost in a merge. -/

section

variable {c d : NormalizedConfiguration}

theorem length_cores_merge (c d : NormalizedConfiguration) :
    (merge c d).cores.length = max c.cores.length d.cores.length := by
  rw [merge, List.length_map, List.length_range]

/-- A core of a layered configuration is one of either configuration that has the same place, over
further layers. -/
theorem exists_core_of_merge {i : Nat} (hi : i < (merge c d).cores.length) :
    ∃ e, (e = c ∨ e = d) ∧ ∃ (h : i < e.cores.length) (layers : List Document),
      (merge c d).cores[i] = Document.mergeAll (e.cores[i] :: layers) := by
  have hmerged : (merge c d).cores[i] =
      Document.mergeAll [c.cores.getD i [], d.cores.getD i []] := by
    simp only [merge, List.getElem_map, List.getElem_range]
  rw [length_cores_merge] at hi
  rw [hmerged]
  by_cases hc : i < c.cores.length
  · refine ⟨c, .inl rfl, hc, [d.cores.getD i []], ?_⟩
    rw [List.getD_eq_getElem _ _ hc]
  · -- nothing is layered over the core of the second configuration
    have hd : i < d.cores.length := by omega
    refine ⟨d, .inr rfl, hd, [], ?_⟩
    rw [List.getD_eq_default _ _ (Nat.le_of_not_lt hc), List.getD_eq_getElem _ _ hd]
    rfl

theorem mem_combineNamed_values_iff {m m' : RecordMap} (h : m.Named) (h' : m'.Named)
    {name : String} :
    name ∈ Record.combineNamed (m.values ++ m'.values) ↔ name ∈ m ∨ name ∈ m' := by
  -- the records of a map that carry a name are found under it
  have hside : ∀ {m : RecordMap}, m.Named →
      ((∃ record ∈ m.values, record.name? = some name) ↔ name ∈ m) := by
    intro m hnamed
    rw [NameMap.mem_iff_exists]
    constructor
    · rintro ⟨record, hrecord, hname⟩
      obtain ⟨key, hget⟩ := NameMap.mem_values_iff.mp hrecord
      have hkey : some key = some name := (hnamed key record hget).symm.trans hname
      rw [Option.some.injEq] at hkey
      exact ⟨record, hkey ▸ hget⟩
    · rintro ⟨record, hget⟩
      exact ⟨record, NameMap.mem_values_iff.mpr ⟨name, hget⟩, hnamed name record hget⟩
  rw [Record.mem_combineNamed_iff, ← hside h, ← hside h']
  simp only [List.mem_append, or_and_right, exists_or]

/-- **Layering keeps configurations self-contained.** Cores are merged by their places, and records
by their names, so no name in a slot is lost. -/
theorem SelfContained.merge (hc : c.SelfContained) (hd : d.SelfContained) :
    (c.merge d).SelfContained := by
  have hboth : ∀ e, e = c ∨ e = d → e.SelfContained := by
    rintro e (rfl | rfl)
    · exact hc
    · exact hd
  have hcaches : ∀ name, name ∈ (c.merge d).caches ↔ name ∈ c.caches ∨ name ∈ d.caches :=
    fun _ => mem_combineNamed_values_iff hc.caches_named hd.caches_named
  have hwalkers : ∀ name, name ∈ (c.merge d).walkers ↔ name ∈ c.walkers ∨ name ∈ d.walkers :=
    fun _ => mem_combineNamed_values_iff hc.walkers_named hd.walkers_named
  refine ⟨?_, ?_, ?_, Record.combineNamed_named _, Record.combineNamed_named _,
    (hcaches _).mpr (.inl hc.lastLevel)⟩
  · intro i hi
    obtain ⟨e, he, hplace, layers, hmerged⟩ := exists_core_of_merge hi
    rw [hmerged]
    exact Document.natural?_mergeAll_of_eq_some ((hboth e he).indexed i hplace) layers
  · intro core hcore
    obtain ⟨i, hi, rfl⟩ := List.getElem_of_mem hcore
    obtain ⟨e, he, hplace, layers, hmerged⟩ := exists_core_of_merge hi
    obtain ⟨name, hname⟩ := (hboth e he).titled _ (List.getElem_mem hplace)
    rw [hmerged]
    exact ⟨name, Document.string?_mergeAll_of_eq_some hname layers⟩
  · intro core hcore slot
    obtain ⟨i, hi, rfl⟩ := List.getElem_of_mem hcore
    obtain ⟨e, he, hplace, layers, hmerged⟩ := exists_core_of_merge hi
    obtain ⟨name, hslot, hmem⟩ := (hboth e he).slots _ (List.getElem_mem hplace) slot
    rw [hmerged]
    refine ⟨name, Document.string?_mergeAll_of_eq_some hslot layers, ?_⟩
    -- what one of the two configurations names is in the merge of both
    split at hmem
    · next hkind =>
      rw [if_pos hkind, hwalkers]
      rcases he with rfl | rfl
      · exact .inl hmem
      · exact .inr hmem
    · next hkind =>
      rw [if_neg hkind, hcaches]
      rcases he with rfl | rfl
      · exact .inl hmem
      · exact .inr hmem

end

end NormalizedConfiguration

open NormalizedConfiguration in
/-- **Normalization closes all references, and layering keeps them closed.** What documents are
normalized to has as many cores as they ask for and is self-contained, and so is what two
self-contained configurations are layered to, which has as many cores as the longer one. -/
theorem selfContained_normalized :
    (∀ (docs : List Document) (n : NormalizedConfiguration), ofDocuments docs = .ok n →
      coresAskedFor docs = some n.cores.length ∧ n.SelfContained) ∧
    ∀ c d : NormalizedConfiguration, c.SelfContained → d.SelfContained →
      (merge c d).cores.length = max c.cores.length d.cores.length ∧
        (merge c d).SelfContained := by
  constructor
  · intro docs n hread
    exact ⟨(length_cores_of_ofDocuments hread).2, selfContained_of_ofDocuments hread⟩
  · intro c d hc hd
    exact ⟨length_cores_merge c d, hc.merge hd⟩

/-- Two cores from one template that declares its instruction cache, over a document that asks for
more cores and writes its caches as a mapping. -/
def declaredCache : List Document :=
  [[("num_cores", .ofNat 2), ("ooo_cpu", .array [
      .object [("L1I", .object [("name", .string "front"), ("sets", .ofNat 8)])]])],
    [("num_cores", .ofNat 5), ("caches", .object [("front", .object [("ways", .ofNat 2)])])]]

open NormalizedConfiguration in
/-- The two cores, layered over the three cores of another document. -/
theorem selfContained_declaredCache :
    ∃ c d, ofDocuments declaredCache = .ok c ∧ c.cores.length = 2 ∧
      ofDocuments [[("num_cores", .ofNat 3)]] = .ok d ∧ d.cores.length = 3 ∧
      (merge c d).cores.length = 3 ∧ (merge c d).SelfContained := by
  have hfirst : ∃ c, ofDocuments declaredCache = .ok c := by decide +kernel
  have hsecond : ∃ d, ofDocuments [[("num_cores", .ofNat 3)]] = .ok d := by decide +kernel
  obtain ⟨c, hc⟩ := hfirst
  obtain ⟨d, hd⟩ := hsecond
  obtain ⟨hnormalized, hmerged⟩ := selfContained_normalized
  obtain ⟨hasked, hcontained⟩ := hnormalized _ c hc
  obtain ⟨hasked', hcontained'⟩ := hnormalized _ d hd
  have htwo : c.cores.length = 2 := by
    rw [← Option.some.injEq, ← hasked]
    decide
  have hthree : d.cores.length = 3 := by
    rw [← Option.some.injEq, ← hasked']
    decide
  obtain ⟨hlength, hboth⟩ := hmerged c d hcontained hcontained'
  rw [htwo, hthree] at hlength
  exact ⟨c, d, hc, htwo, hd, hthree, hlength, hboth⟩

end MemoryHierarchy
