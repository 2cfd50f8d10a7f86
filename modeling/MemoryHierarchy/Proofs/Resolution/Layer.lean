import MemoryHierarchy.Proofs.Resolution.Kept

/-!
# Layers below caches

What completion puts below a cache are links and templates (`CacheLayer`). Where no walker has the
name of a cache, these are links, templates of the first level and shared ones; a cache that hides a
walker of its name may take the template of the walker too, and is layered all the same
(`exists_cacheLayers_of_complete`).

Of all these layers only the access types are a list, so a cache keeps every other value that is
written in it, whatever the names of the walkers are.
-/

namespace MemoryHierarchy

open Document (Keeps Layered ScalarOff)

namespace Completion

/-- The layers that completion puts below caches. The template of a walker is among them because a
cache may have the name of a walker. -/
inductive CacheLayer : Document → Prop where
  | links (links : SlotLinks) (core : Document) : CacheLayer (links.document core)
  | firstLevel (template : Template.FirstLevel) : CacheLayer template.document
  | shared (role : Role) (n : Nat) : CacheLayer ((Template.shared role).document n)
  | walker (n : Nat) : CacheLayer (Template.walker n)

variable {h : Hierarchy} {c : Completion} {name : String} {layer record : Document}

theorem CacheLayer.scalarOff (hlayer : CacheLayer layer) :
    ScalarOff ["prefetch_activate"] layer := by
  cases hlayer with
  | links links core => exact (scalarOff_document links core).mono (List.nil_subset _)
  | firstLevel template => exact of_decide_eq_true rfl
  | shared role n => cases role <;> exact of_decide_eq_true rfl
  | walker n => exact of_decide_eq_true rfl

theorem cacheLayer_of_mem_cacheLayers {cores : List Document}
    (hlayer : layer ∈ cacheLayers cores name) : CacheLayer layer := by
  obtain ⟨core, _, links, _, _, hlayer⟩ := mem_cacheLayers_iff.mp hlayer
  rcases mem_slotLayers_iff.mp hlayer with rfl | ⟨_, template, _, _, rfl⟩
  · exact .links links core
  · exact .firstLevel template

theorem pointwise_seed (hclosed : h.Closed) :
    h.caches.Pointwise (fun _ => Layered CacheLayer) (seed h).hierarchy.caches := by
  intro name
  rw [(layeredBy_seed hclosed).caches]
  cases h.caches[name]? with
  | none => exact .none
  | some record => exact .some ⟨_, fun _ => cacheLayer_of_mem_cacheLayers, rfl⟩

theorem pointwise_layer (hclosed : h.Closed) (target : String) (hlayer : CacheLayer layer) :
    h.caches.Pointwise (fun _ => Layered CacheLayer) (h.layer target [layer]).caches := by
  have hkept : ∀ (name : String) (record : Document), h.caches[name]? = some record →
      Layered CacheLayer record record :=
    fun name record hget => .refl (hclosed.caches_distinct name record hget)
  unfold Hierarchy.layer
  split
  · refine NameMap.pointwise_modify (fun record _ => ⟨[layer], fun other hother => ?_, rfl⟩) hkept
    rw [List.mem_singleton.mp hother]
    exact hlayer
  · exact .refl hkept

theorem Serves.pointwise {request : Request} (h : Serves sharers c request d)
    (hclosed : c.hierarchy.Closed) :
    c.hierarchy.caches.Pointwise (fun _ => Layered CacheLayer) d.hierarchy.caches := by
  cases h with
  | @cache target role => exact pointwise_layer hclosed target (.shared role _)
  | @walker target => exact pointwise_layer hclosed target (.walker _)
  | cacheKept | walkerKept =>
    exact .refl fun name record hget => .refl (hclosed.caches_distinct name record hget)

theorem pointwise_foldl (sharers : NameMap Nat) (hclosed : c.hierarchy.Closed)
    (requests : List Request) :
    c.hierarchy.caches.Pointwise (fun _ => Layered CacheLayer)
      (requests.foldl (serve sharers) c).hierarchy.caches := by
  induction requests generalizing c with
  | nil => exact .refl fun name record hget => .refl (hclosed.caches_distinct name record hget)
  | cons request requests ih =>
    have hserves := serves_serve sharers c request
    exact (hserves.pointwise hclosed).trans (ih ((hserves.layeredOver hclosed).closed hclosed))
      fun _ _ _ _ => .trans

theorem pointwise_finished (hclosed : h.Closed) :
    h.caches.Pointwise (fun _ => Layered CacheLayer) (finished h).hierarchy.caches := by
  rw [finished_eq hclosed]
  exact (pointwise_seed hclosed).trans (pointwise_foldl _ ((seeding_seed hclosed).closed hclosed) _)
    fun _ _ _ _ => .trans

/-- **What is below a cache that is left.** Seeding and serving put layers below it, and pruning
changes no record. -/
theorem exists_cacheLayers_of_complete (hclosed : h.Closed)
    (hget : h.complete.caches[name]? = some record) :
    ∃ original, h.caches[name]? = some original ∧ Layered CacheLayer original record := by
  rw [← prune_finished, Hierarchy.getElem?_prune_caches] at hget
  obtain ⟨_, hget⟩ := Option.ite_none_right_eq_some.mp hget
  exact (pointwise_finished hclosed).exists_before hget

end Completion

/-- A cache keeps through completion whatever is written in it, but for the access types. -/
theorem NormalizedConfiguration.keeps_complete_cache {n : NormalizedConfiguration}
    (hclosed : n.Closed) {name : String} {record : Document}
    (hget : n.hierarchy.complete.caches[name]? = some record) :
    ∃ written, n.caches[name]? = some written ∧ Keeps ["prefetch_activate"] written record := by
  obtain ⟨written, hwritten, hlayered⟩ :=
    Completion.exists_cacheLayers_of_complete hclosed.hierarchy hget
  exact ⟨written, hwritten, hlayered.keeps (hclosed.caches_distinct name written hwritten)
    fun _ => Completion.CacheLayer.scalarOff⟩

end MemoryHierarchy
