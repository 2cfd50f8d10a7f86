import MemoryHierarchy.Proofs.Configuration.Declarations

/-!
# Layering changes nothing by itself

Documents are layered before they are normalized, and to be layered their collections are first
written as lists. One document by itself goes the same way, and it is not obvious that it comes to
what is read from it directly. The collections are read before everything else, so a malformed
document may be refused for another reason. But it is refused either way, and what is accepted is
normalized to the same configuration. A document that says nothing is a neutral layer, wherever it
stands.
-/

namespace MemoryHierarchy

theorem Document.mergeAllWith_append_nil_cons (rules : MergeRules) (before after : List Document) :
    mergeAllWith rules (before ++ [] :: after) = mergeAllWith rules (before ++ after) := by
  rw [mergeAllWith, mergeAllWith, List.foldl_append, List.foldl_append, List.foldl_cons]
  rfl

namespace NormalizedConfiguration

variable {doc listed : Document} {n : NormalizedConfiguration}

theorem WrittenAs.get?_eq (h : WrittenAs doc listed) {key : String} (hkey : key ∉ collectionKeys) :
    listed.get? key = doc.get? key := by
  rw [← Document.head?_valuesAt, h.others key hkey, Document.head?_valuesAt]

/-- A document is normalized like one that has its collections as lists. -/
theorem WrittenAs.ofDocument_eq_ok_iff (h : WrittenAs doc listed) :
    ofDocument listed = .ok n ↔ ofDocument doc = .ok n := by
  have hlisted : ∀ key ∈ collectionKeys, collection listed key = .ok (listed.records key) :=
    fun key hkey => collection_of_isListed (h.isListed key hkey)
  constructor
  · refine ofDocument_congr (fun key hkey => (h.get?_eq hkey).symm) fun key hkey => ?_
    exact ⟨hlisted key hkey, h.collection_eq key hkey, fun name => by rw [h.records key hkey]⟩
  · refine ofDocument_congr (fun key hkey => h.get?_eq hkey) fun key hkey => ?_
    exact ⟨h.collection_eq key hkey, hlisted key hkey, fun name => by rw [h.records key hkey]⟩

theorem exists_collection_of_ofDocument (hread : ofDocument doc = .ok n) :
    ∀ key ∈ collectionKeys, ∃ records, collection doc key = .ok records := by
  simp only [ofDocument, bind_eq_ok_iff] at hread
  obtain ⟨_, _, _, _, _, _, caches, hcaches, walkers, hwalkers, _⟩ := hread
  intro key hkey
  rw [collectionKeys, List.mem_cons, List.mem_singleton] at hkey
  rcases hkey with rfl | rfl
  · exact ⟨caches, hcaches⟩
  · exact ⟨walkers, hwalkers⟩

theorem ofDocuments_singleton_iff (hdistinct : doc.Distinct) :
    ofDocuments [doc] = .ok n ↔ ofDocument doc = .ok n := by
  -- with its collections written as lists the document is normalized as it was before
  have hlayers : ∀ listed, collectionsAsLists doc = .ok listed →
      (ofDocuments [doc] = .ok n ↔ ofDocument doc = .ok n) := by
    intro listed hlisted
    have hwritten := writtenAs_of_collectionsAsLists hdistinct hlisted
    have hmerged : ofDocuments [doc] = ofDocument listed := by
      rw [ofDocuments, mapM_eq_ok_iff.mpr (.cons hlisted .nil)]
      show ofDocument (Document.mergeWith layerRules [] listed) = ofDocument listed
      rw [Document.mergeWith_nil layerRules hwritten.distinct]
    rw [hmerged, hwritten.ofDocument_eq_ok_iff]
  constructor
  · intro hread
    obtain ⟨_, hlisted, _⟩ := bind_eq_ok_iff.mp hread
    obtain ⟨listed, _, hdoc, _⟩ := List.forall₂_cons_left_iff.mp (mapM_eq_ok_iff.mp hlisted)
    exact (hlayers listed hdoc).mp hread
  · intro hread
    obtain ⟨listed, hlisted⟩ := exists_collectionsAsLists (exists_collection_of_ofDocument hread)
    exact (hlayers listed hlisted).mpr hread

theorem ofDocuments_insert_nil (before after : List Document) :
    ofDocuments (before ++ [] :: after) = ofDocuments (before ++ after) := by
  have hnil : collectionsAsLists [] = .ok [] := rfl
  rw [ofDocuments, ofDocuments, List.mapM_append, List.mapM_append, List.mapM_cons, hnil]
  cases before.mapM collectionsAsLists with
  | error e => rfl
  | ok before' =>
    cases after.mapM collectionsAsLists with
    | error e => rfl
    | ok after' =>
      show ofDocument (Document.mergeAllWith layerRules (before' ++ [] :: after')) =
        ofDocument (Document.mergeAllWith layerRules (before' ++ after'))
      rw [Document.mergeAllWith_append_nil_cons]

/-- **Layering is conservative.** One document that is a mapping comes to the same configuration
alone and as the only layer, and a layer that says nothing leaves everything as it is. -/
theorem ofDocuments_conservative :
    (∀ doc : Document, doc.Distinct →
      ∀ n, ofDocuments [doc] = .ok n ↔ ofDocument doc = .ok n) ∧
    ∀ before after : List Document,
      ofDocuments (before ++ [] :: after) = ofDocuments (before ++ after) :=
  ⟨fun _ hdistinct _ => ofDocuments_singleton_iff hdistinct, ofDocuments_insert_nil⟩

/-- Caches that are written as a mapping, one of them with a name of its own. -/
def mappedCaches : Document :=
  [("caches", .object [("LLC", .object [("sets", .ofNat 16)]),
      ("spare", .object [("name", .string "LLC"), ("ways", .ofNat 2)])]),
    ("name", .string "small"), ("num_cores", .ofNat 2)]

theorem ofDocuments_conservative_mappedCaches :
    mappedCaches.Distinct ∧ ∃ n, ofDocument mappedCaches = .ok n ∧ n.caches.size = 13 ∧
      ofDocuments [mappedCaches] = .ok n ∧ ofDocuments [[], mappedCaches, []] = .ok n := by
  have hdistinct : mappedCaches.Distinct := by decide +kernel
  have hread : ∃ n, ofDocument mappedCaches = .ok n ∧ n.caches.size = 13 := by decide +kernel
  obtain ⟨n, hread, hsize⟩ := hread
  obtain ⟨hsingle, hempty⟩ := ofDocuments_conservative
  have hlayered := (hsingle mappedCaches hdistinct n).mpr hread
  refine ⟨hdistinct, n, hread, hsize, hlayered, ?_⟩
  rw [← List.nil_append [[], mappedCaches, []], hempty, List.nil_append]
  exact (hempty [mappedCaches] []).trans hlayered

end NormalizedConfiguration

end MemoryHierarchy
