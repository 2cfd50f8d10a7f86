import Mathlib.Data.List.Induction
import MemoryHierarchy.Proofs.Hierarchy
import MemoryHierarchy.Resolution.Template

/-!
# Shared templates are given on request

The passes below the first level ask for a template again and again: for a cache in some role, or
for a walker. A record takes the template of the first request that is meant for it, and every later
one leaves it as it is. So all passes together are one list of requests, served in order. `Serves`
lists what a single request can come to, and what the passes preserve is shown by its cases.
`Served` says what has become of the records, by comparison with where the serving began.

Templates bring no link to a record: the only one that brings a link at all, below the second level,
brings one to the physical memory. Hence the second level changes neither what can be reached nor
who shares it, and the levels below do so only where a record stands in for the memory.
-/

namespace MemoryHierarchy

namespace Completion

open Document (Layered)

variable {sharers : NameMap Nat} {c d : Completion} {name : String}

/-- A call for a template below the first level. -/
inductive Request where
  | cache (name : String) (role : Role)
  | walker (name : String)

/-- The role that a request gives to the cache of a name. -/
def Request.role? (name : String) : Request → Option Role
  | cache target role => if target = name then some role else none
  | walker _ => none

/-- Serves a request: a record that has a template keeps it. Which of several requests for a record
comes first therefore decides its role. -/
def serve (sharers : NameMap Nat) (c : Completion) : Request → Completion
  | .cache name role => c.completeCache name role (sharers.getD name 1)
  | .walker name => c.completeWalker name (sharers.getD name 1)

/-- What serving a request comes to. Either a template is put below the record, which is remembered
by its role or by its name, or nothing changes, as the record is missing or has a template. -/
inductive Serves (sharers : NameMap Nat) (c : Completion) : Request → Completion → Prop
  | cache {target : String} {role : Role} (hmem : target ∈ c.hierarchy.caches)
      (hrole : target ∉ c.roles) :
      Serves sharers c (.cache target role)
        { c.layer target [(Template.shared role).document (sharers.getD target 1)] with
          roles := c.roles.insert target role }
  | walker {target : String} (hmem : target ∈ c.hierarchy.walkers) (hsized : target ∉ c.sized) :
      Serves sharers c (.walker target)
        { c.layer target [Template.walker (sharers.getD target 1)] with
          sized := c.sized.insert target }
  | cacheKept {target : String} {role : Role}
      (hkept : target ∈ c.hierarchy.caches → target ∈ c.roles) :
      Serves sharers c (.cache target role) c
  | walkerKept {target : String} (hkept : target ∈ c.hierarchy.walkers → target ∈ c.sized) :
      Serves sharers c (.walker target) c

theorem serves_serve (sharers : NameMap Nat) (c : Completion) (request : Request) :
    Serves sharers c request (serve sharers c request) := by
  cases request with
  | cache target role =>
    show Serves sharers c (.cache target role) (c.completeCache target role _)
    unfold completeCache
    split
    next hnew => exact .cache hnew.1 hnew.2
    next hold => exact .cacheKept fun hmem => not_not.mp fun hrole => hold ⟨hmem, hrole⟩
  | walker target =>
    show Serves sharers c (.walker target) (c.completeWalker target _)
    unfold completeWalker
    split
    next hnew => exact .walker hnew.1 hnew.2
    next hold => exact .walkerKept fun hmem => not_not.mp fun hsized => hold ⟨hmem, hsized⟩

/-! ## Passes as requests

The passes below the first level ask for templates: each request names a record, and a cache is
asked for with a role. The order of requests is that of levels, and a role is given by the first
one. -/

/-- What is asked for directly below the first level. -/
def secondRequests (c : Completion) : List Request :=
  c.upperRoles.toList.flatMap fun (target, uppers) =>
    [.cache target (secondLevelRole uppers), .walker target]

/-- What is asked for below a record of the second level. -/
def requestsBelow (target : String) : Role → List Request
  | .l2c => [.cache target .llc]
  | .stlb => [.walker target]
  | _ => []

/-- What is asked for below the second level, and then by depth. -/
def deeperRequests (c : Completion) (levels : NameMap Nat) : List Request :=
  (c.roles.toList.flatMap fun (name, role) =>
    match c.hierarchy.system.target? lowerLevel name with
    | some target => requestsBelow target role
    | none => [])
  ++ levels.byNumber.flatMap fun (name, _) => [.cache name .llc, .walker name]

theorem completeSecondLevel_eq (c : Completion) :
    c.completeSecondLevel = c.secondRequests.foldl (serve c.hierarchy.sharers) c := by
  unfold completeSecondLevel secondRequests
  rw [List.foldl_flatMap]
  rfl

theorem foldl_requestsBelow (sharers : NameMap Nat) (target : String) (role : Role)
    (c : Completion) :
    (requestsBelow target role).foldl (serve sharers) c = completeBelow sharers target role c := by
  cases role <;> rfl

theorem completeDeeperLevels_eq (c : Completion) (levels : NameMap Nat) :
    c.completeDeeperLevels levels =
      (c.deeperRequests levels).foldl (serve c.hierarchy.sharers) c := by
  unfold completeDeeperLevels deeperRequests
  rw [List.foldl_append, List.foldl_flatMap, List.foldl_flatMap]
  -- what is done below a record of the second level is to serve at most one request
  have hbelow : ∀ (d : Completion) (entry : String × Role),
      (match c.hierarchy.system.target? lowerLevel entry.1 with
        | some target => requestsBelow target entry.2
        | none => []).foldl (serve c.hierarchy.sharers) d =
      match c.hierarchy.system.target? lowerLevel entry.1 with
        | some target => completeBelow c.hierarchy.sharers target entry.2 d
        | none => d := by
    intro d entry
    cases c.hierarchy.system.target? lowerLevel entry.1 with
    | none => rfl
    | some target => exact foldl_requestsBelow _ target entry.2 d
  simp only [hbelow]
  rfl

/-! ## Records

Serving a request puts a template below a record that has no role yet. What serving a list of
requests does to one record depends on the first of them that is for it. -/

/-- What a cache becomes between two stages: it has a template below it iff it took a role. Stages
can be any distance apart, so the relation composes. -/
def servedCache (sharers : NameMap Nat) (c d : Completion) (name : String) (record : Document) :
    Document :=
  match c.roles[name]?, d.roles[name]? with
  | none, some role =>
    Document.mergeAll [record, (Template.shared role).document (sharers.getD name 1)]
  | _, _ => record

theorem servedCache_of_none (hafter : d.roles[name]? = none) (record : Document) :
    servedCache sharers c d name record = record := by
  unfold servedCache
  rw [hafter]
  cases c.roles[name]? <;> rfl

theorem servedCache_of_some {role : Role} (hbefore : c.roles[name]? = none)
    (hafter : d.roles[name]? = some role) (record : Document) :
    servedCache sharers c d name record =
      Document.mergeAll [record, (Template.shared role).document (sharers.getD name 1)] := by
  unfold servedCache
  rw [hbefore, hafter]

theorem servedCache_of_kept {role : Role} (hbefore : c.roles[name]? = some role)
    (record : Document) : servedCache sharers c d name record = record := by
  unfold servedCache
  rw [hbefore]

/-- What a walker becomes between two stages. -/
def servedWalker (sharers : NameMap Nat) (c d : Completion) (name : String) (record : Document) :
    Document :=
  if name ∈ d.sized ∧ name ∉ c.sized then
    Document.mergeAll [record, Template.walker (sharers.getD name 1)]
  else record

/-- A completion that has served requests. Every cache and walker is what it was with at most one
template below, and roles are never taken back. -/
structure Served (sharers : NameMap Nat) (c d : Completion) : Prop where
  cores : d.hierarchy.cores = c.hierarchy.cores
  caches : ∀ name : String,
    d.hierarchy.caches[name]? = c.hierarchy.caches[name]?.map (servedCache sharers c d name)
  walkers : ∀ name : String,
    d.hierarchy.walkers[name]? = c.hierarchy.walkers[name]?.map (servedWalker sharers c d name)
  roles : ∀ (name : String) (role : Role), c.roles[name]? = some role → d.roles[name]? = some role
  sized : ∀ name ∈ c.sized, name ∈ d.sized

namespace Served

theorem refl (sharers : NameMap Nat) (c : Completion) : Served sharers c c where
  cores := rfl
  caches := by
    intro name
    have hsame : servedCache sharers c c name = id := by
      funext record
      cases hrole : c.roles[name]? with
      | none => exact servedCache_of_none hrole record
      | some role => exact servedCache_of_kept hrole record
    rw [hsame, Option.map_id_fun, id]
  walkers := by
    intro name
    have hsame : servedWalker sharers c c name = id := by
      funext record
      exact if_neg fun h => h.2 h.1
    rw [hsame, Option.map_id_fun, id]
  roles := fun _ _ hrole => hrole
  sized := fun _ hmem => hmem

theorem mem_caches_iff (h : Served sharers c d) :
    name ∈ d.hierarchy.caches ↔ name ∈ c.hierarchy.caches := by
  rw [Std.ExtTreeMap.mem_iff_isSome_getElem?, h.caches, Option.isSome_map,
    ← Std.ExtTreeMap.mem_iff_isSome_getElem?]

theorem mem_walkers_iff (h : Served sharers c d) :
    name ∈ d.hierarchy.walkers ↔ name ∈ c.hierarchy.walkers := by
  rw [Std.ExtTreeMap.mem_iff_isSome_getElem?, h.walkers, Option.isSome_map,
    ← Std.ExtTreeMap.mem_iff_isSome_getElem?]

theorem layerCache (h : Served sharers c d) {target : String} (hmem : target ∈ d.hierarchy.caches)
    (hrole : target ∉ d.roles) (role : Role) :
    Served sharers c { d.layer target [(Template.shared role).document (sharers.getD target 1)] with
      roles := d.roles.insert target role } := by
  have hnone : d.roles[target]? = none := Std.ExtTreeMap.getElem?_eq_none hrole
  -- it had no role at the start either, since roles are never taken away
  have hbefore : c.roles[target]? = none := by
    cases hold : c.roles[target]? with
    | none => rfl
    | some old => rw [h.roles target old hold] at hnone; cases hnone
  have hroles : ∀ name, (d.roles.insert target role)[name]? =
      if target = name then some role else d.roles[name]? := by
    intro name
    rw [Std.ExtTreeMap.getElem?_insert]
    simp only [Std.compare_eq_iff_eq]
  unfold Completion.layer Hierarchy.layer
  rw [if_pos hmem]
  refine ⟨h.cores, fun name => ?_, h.walkers, fun name old hold => ?_, h.sized⟩
  · dsimp only
    rw [NameMap.getElem?_modify, h.caches, h.caches]
    by_cases hname : target = name
    · subst hname
      rw [if_pos rfl, Option.map_map]
      congr 1
      funext record
      rw [servedCache_of_some hbefore ((hroles target).trans (if_pos rfl)), Function.comp_apply,
        servedCache_of_none hnone]
    · rw [if_neg hname]
      unfold servedCache
      dsimp only
      rw [hroles, if_neg hname]
  -- a cache that has a role is not the one that takes one now
  · have hname : target ≠ name := by
      rintro rfl
      rw [hbefore] at hold
      cases hold
    exact (hroles name).trans ((if_neg hname).trans (h.roles name old hold))

theorem layerWalker (h : Served sharers c d) (hdisjoint : c.hierarchy.Disjoint) {target : String}
    (hmem : target ∈ d.hierarchy.walkers) (hsized : target ∉ d.sized) :
    Served sharers c { d.layer target [Template.walker (sharers.getD target 1)] with
      sized := d.sized.insert target } := by
  have hbefore : target ∉ c.sized := fun hold => hsized (h.sized target hold)
  -- a layer goes to the cache of a name if there is one
  have hcache : target ∉ d.hierarchy.caches := by
    rw [h.mem_caches_iff]
    exact fun hcache => hdisjoint target hcache (h.mem_walkers_iff.mp hmem)
  unfold Completion.layer Hierarchy.layer
  rw [if_neg hcache]
  refine ⟨h.cores, h.caches, fun name => ?_, h.roles, fun name hold => ?_⟩
  · dsimp only
    rw [NameMap.getElem?_modify, h.walkers, h.walkers]
    unfold servedWalker
    dsimp only
    simp only [Std.ExtTreeSet.mem_insert, Std.compare_eq_iff_eq]
    by_cases hname : target = name
    · subst hname
      rw [if_pos rfl, Option.map_map]
      congr 1
      funext record
      simp [hsized, hbefore]
    · simp only [hname, if_false, false_or]
  · exact Std.ExtTreeSet.mem_insert.mpr (Or.inr (h.sized name hold))

/-- One more request keeps the account of all that have been served. -/
theorem serves {e : Completion} {request : Request} (h : Served sharers c d)
    (hdisjoint : c.hierarchy.Disjoint) (hserves : Serves sharers d request e) :
    Served sharers c e := by
  cases hserves with
  | cache hmem hrole => exact h.layerCache hmem hrole _
  | walker hmem hsized => exact h.layerWalker hdisjoint hmem hsized
  | cacheKept | walkerKept => exact h

/-- **Serving requests.** -/
theorem foldl (hdisjoint : c.hierarchy.Disjoint) (requests : List Request) :
    Served sharers c (requests.foldl (Completion.serve sharers) c) := by
  induction requests using List.reverseRecOn with
  | nil => exact .refl sharers c
  | append_singleton requests request ih =>
    rw [List.foldl_append]
    exact ih.serves hdisjoint (serves_serve sharers _ request)

end Served

/-! ## Which request counts

Roles and templates go together, so the roles tell which requests have been served. -/

/-- A request gives a role to a cache that has none. -/
theorem Serves.getElem?_roles {request : Request} (h : Serves sharers c request d)
    (name : String) : d.roles[name]? = c.roles[name]?.or
      (if name ∈ c.hierarchy.caches then request.role? name else none) := by
  cases h with
  | @cache target role hmem hrole =>
    show (c.roles.insert target role)[name]? = _
    rw [Std.ExtTreeMap.getElem?_insert, Request.role?]
    simp only [Std.compare_eq_iff_eq]
    by_cases hname : target = name
    · subst hname
      rw [if_pos rfl, if_pos hmem, if_pos rfl, Std.ExtTreeMap.getElem?_eq_none hrole,
        Option.none_or]
    · rw [if_neg hname, if_neg hname, ite_self, Option.or_none]
  | @cacheKept target role hkept =>
    rw [Request.role?]
    by_cases hname : target = name
    · subst hname
      by_cases hmem : target ∈ c.hierarchy.caches
      -- the cache has a role already, so the request is passed over
      · obtain ⟨old, hold⟩ := NameMap.mem_iff_exists.mp (hkept hmem)
        rw [hold, Option.some_or]
      · rw [if_neg hmem, Option.or_none]
    · rw [if_neg hname, ite_self, Option.or_none]
  | walker | walkerKept =>
    show c.roles[name]? = c.roles[name]?.or (if name ∈ c.hierarchy.caches then none else none)
    rw [ite_self, Option.or_none]

theorem Serves.mem_sized_iff {request : Request} (h : Serves sharers c request d)
    (name : String) :
    name ∈ d.sized ↔ name ∈ c.sized ∨ name ∈ c.hierarchy.walkers ∧ request = .walker name := by
  cases h with
  | cache | cacheKept => simp [layer]
  | @walker target hmem hsized =>
    show name ∈ c.sized.insert target ↔ _
    rw [Std.ExtTreeSet.mem_insert, Std.compare_eq_iff_eq, Request.walker.injEq, or_comm]
    refine or_congr_right ⟨?_, And.right⟩
    rintro rfl
    exact ⟨hmem, rfl⟩
  | @walkerKept target hkept =>
    rw [Request.walker.injEq]
    refine ⟨Or.inl, ?_⟩
    rintro (hold | ⟨hmem, rfl⟩)
    · exact hold
    · exact hkept hmem

theorem getElem?_roles_foldl (hdisjoint : c.hierarchy.Disjoint) (requests : List Request)
    (name : String) :
    (requests.foldl (serve sharers) c).roles[name]? = c.roles[name]?.or
      (if name ∈ c.hierarchy.caches then requests.findSome? (·.role? name) else none) := by
  induction requests using List.reverseRecOn with
  | nil => rw [List.foldl_nil, List.findSome?_nil, ite_self, Option.or_none]
  | append_singleton requests request ih =>
    have hserved : Served sharers c (requests.foldl (serve sharers) c) := .foldl hdisjoint requests
    rw [List.foldl_append, List.foldl_cons, List.foldl_nil,
      (serves_serve sharers _ request).getElem?_roles, ih,
      Option.or_assoc, List.findSome?_append]
    simp only [hserved.mem_caches_iff]
    congr 1
    split
    · simp
    · rfl

theorem mem_sized_foldl (hdisjoint : c.hierarchy.Disjoint) (requests : List Request)
    (name : String) :
    name ∈ (requests.foldl (serve sharers) c).sized ↔
      name ∈ c.sized ∨ name ∈ c.hierarchy.walkers ∧ .walker name ∈ requests := by
  induction requests using List.reverseRecOn with
  | nil => simp
  | append_singleton requests request ih =>
    have hserved : Served sharers c (requests.foldl (serve sharers) c) := .foldl hdisjoint requests
    rw [List.foldl_append, List.foldl_cons, List.foldl_nil,
      (serves_serve sharers _ request).mem_sized_iff, ih,
      hserved.mem_walkers_iff, List.mem_append, List.mem_singleton, or_assoc, ← and_or_left,
      @eq_comm _ request]

/-! ## What serving leaves as it is

Templates below the first level have no slots and, but for the last level, no links. -/

/-- The layers that serving puts below caches. -/
def IsSharedTemplate (layer : Document) : Prop :=
  ∃ role n, layer = (Template.shared role).document n

/-- The layers that serving puts below walkers. -/
def IsWalkerTemplate (layer : Document) : Prop := ∃ n, layer = Template.walker n

theorem get?_lowerLevel_shared (t : Template.Shared) (n : Nat) :
    (t.document n).get? lowerLevel = t.lower.map Json.string := by
  obtain ⟨_, _, _, _, _, _, _, lower⟩ := t
  cases lower with
  | none => rfl
  | some lower => rfl

theorem string?_lowerLevel_shared (role : Role) (n : Nat) :
    ((Template.shared role).document n).string? lowerLevel = (Template.shared role).lower := by
  rw [Document.string?, get?_lowerLevel_shared]
  cases (Template.shared role).lower <;> rfl

theorem string?_lowerLevel_walker (n : Nat) : (Template.walker n).string? lowerLevel = none := rfl

/-- Layers without links to records leave the link of a document to a record as it is. -/
theorem string?_iff_of_layered {allowed : Document → Prop} {a b : Document}
    (hlayered : Layered allowed a b) {records : RecordMap}
    (hlower : ∀ layer, allowed layer → ∀ next ∈ records, layer.string? lowerLevel ≠ some next) :
    ∀ next ∈ records, a.string? lowerLevel = some next ↔ b.string? lowerLevel = some next := by
  intro next hnext
  rcases hlayered.string?_eq_or with heq | ⟨hbefore, layer, hlayer, target, htarget, hafter⟩
  · rw [heq]
  -- the document has gained a link, but to no record
  · have hne : target ≠ next := by
      rintro rfl
      exact hlower layer hlayer target hnext htarget
    rw [hbefore, hafter]
    simp [hne]

namespace Served

theorem disjoint (h : Served sharers c d) (hdisjoint : c.hierarchy.Disjoint) :
    d.hierarchy.Disjoint := by
  intro name hcache hwalker
  exact hdisjoint name (h.mem_caches_iff.mp hcache) (h.mem_walkers_iff.mp hwalker)

theorem caches_layered (h : Served sharers c d) (hclosed : c.hierarchy.Closed) :
    c.hierarchy.caches.Pointwise (fun _ => Layered IsSharedTemplate) d.hierarchy.caches := by
  intro name
  rw [h.caches]
  cases hget : c.hierarchy.caches[name]? with
  | none => exact .none
  | some record =>
    refine .some ?_
    unfold servedCache
    split
    · exact ⟨[_], fun layer hlayer => ⟨_, _, List.mem_singleton.mp hlayer⟩, rfl⟩
    · exact .refl (hclosed.caches_distinct name record hget)

theorem walkers_layered (h : Served sharers c d) (hclosed : c.hierarchy.Closed) :
    c.hierarchy.walkers.Pointwise (fun _ => Layered IsWalkerTemplate) d.hierarchy.walkers := by
  intro name
  rw [h.walkers]
  cases hget : c.hierarchy.walkers[name]? with
  | none => exact .none
  | some record =>
    refine .some ?_
    unfold servedWalker
    split
    · exact ⟨[_], fun layer hlayer => ⟨_, List.mem_singleton.mp hlayer⟩, rfl⟩
    · exact .refl (hclosed.walkers_distinct name record hget)

end Served

/-- A request puts a layer below one record at most, also where a cache hides a walker of the same
name. -/
theorem Serves.layeredOver {request : Request} (h : Serves sharers c request d)
    (hclosed : c.hierarchy.Closed) : c.hierarchy.LayeredOver d.hierarchy := by
  cases h with
  | cache | walker => exact .layer hclosed _ _
  | cacheKept | walkerKept => exact .refl hclosed

theorem layeredOver_foldl (hclosed : c.hierarchy.Closed) (requests : List Request) :
    c.hierarchy.LayeredOver (requests.foldl (serve sharers) c).hierarchy := by
  induction requests generalizing c with
  | nil => exact .refl hclosed
  | cons request requests ih =>
    have hstep := (serves_serve sharers c request).layeredOver hclosed
    exact hstep.trans (ih (hstep.closed hclosed))

/-! ## Links

A last-level template links to the memory, which is no record. So links between records are those
that seeding has left, and what is reached does not change while requests are served. -/

/-- A request for a template that brings no link to a record. -/
def Request.Unlinked (records : RecordMap) : Request → Prop
  | cache _ role => ∀ next ∈ records, (Template.shared role).lower ≠ some next
  | walker _ => True

theorem Request.Unlinked.mono {records records' : RecordMap} {request : Request}
    (hrequest : request.Unlinked records) (hmem : ∀ name ∈ records', name ∈ records) :
    request.Unlinked records' := by
  cases request with
  | cache target role => exact fun next hnext => hrequest next (hmem next hnext)
  | walker target => trivial

/-- A template links to the memory at most. -/
theorem unlinked_of_memory {records : RecordMap} (hmemory : memorySentinel ∉ records)
    (request : Request) : request.Unlinked records := by
  cases request with
  | cache target role =>
    intro next hnext hlower
    cases role <;> cases hlower <;> exact hmemory hnext
  | walker target => trivial

/-- Templates of the second level bring no links. -/
theorem unlinked_of_mem_secondRequests (records : RecordMap) {request : Request}
    (hmem : request ∈ c.secondRequests) : request.Unlinked records := by
  obtain ⟨⟨target, uppers⟩, _, hmem⟩ := List.mem_flatMap.mp hmem
  simp only [List.mem_cons, List.not_mem_nil, or_false] at hmem
  rcases hmem with rfl | rfl
  · intro next _ hlower
    unfold secondLevelRole at hlower
    split at hlower <;> cases hlower
  · trivial

/-- Layers without links to records leave the links between records as they are. -/
theorem sameLinks_layer {h : Hierarchy} (target : String) {layers : List Document}
    (hlower : ∀ layer ∈ layers, ∀ next ∈ h.system, layer.string? lowerLevel ≠ some next) :
    RecordMap.SameLinks lowerLevel h.system (h.layer target layers).system := by
  have hchanged : ∀ record : Document, ∀ next ∈ h.system, record.string? lowerLevel = some next ↔
      (Document.mergeAll (record :: layers)).string? lowerLevel = some next := fun record =>
    string?_iff_of_layered ⟨layers, fun _ hlayer => hlayer, rfl⟩ hlower
  unfold Hierarchy.layer
  split
  · exact RecordMap.sameLinks_of_pointwise (.union (.refl fun _ _ _ _ _ => Iff.rfl)
      (NameMap.pointwise_modify (fun record _ => hchanged record) fun _ _ _ _ _ => Iff.rfl))
  · exact RecordMap.sameLinks_of_pointwise (.union
      (NameMap.pointwise_modify (fun record _ => hchanged record) fun _ _ _ _ _ => Iff.rfl)
      (.refl fun _ _ _ _ _ => Iff.rfl))

theorem Serves.sameLinks {request : Request} (h : Serves sharers c request d)
    (hrequest : request.Unlinked c.hierarchy.system) :
    RecordMap.SameLinks lowerLevel c.hierarchy.system d.hierarchy.system := by
  cases h with
  | @cache target role =>
    refine sameLinks_layer target fun layer hlayer => ?_
    rw [List.mem_singleton.mp hlayer, string?_lowerLevel_shared]
    exact hrequest
  | @walker target =>
    refine sameLinks_layer target fun layer hlayer next _ hlink => ?_
    rw [List.mem_singleton.mp hlayer, string?_lowerLevel_walker] at hlink
    cases hlink
  | cacheKept | walkerKept =>
    exact RecordMap.sameLinks_of_pointwise (.refl fun _ _ _ _ _ => Iff.rfl)

theorem sameLinks_foldl (sharers : NameMap Nat) {requests : List Request}
    (hrequests : ∀ request ∈ requests, request.Unlinked c.hierarchy.system) :
    RecordMap.SameLinks lowerLevel c.hierarchy.system
      (requests.foldl (serve sharers) c).hierarchy.system := by
  induction requests generalizing c with
  | nil => exact RecordMap.sameLinks_of_pointwise (.refl fun _ _ _ _ _ => Iff.rfl)
  | cons request requests ih =>
    rw [List.forall_mem_cons] at hrequests
    have hstep := (serves_serve sharers c request).sameLinks hrequests.1
    exact hstep.trans (ih fun other hother =>
      (hrequests.2 other hother).mono fun name => (hstep.mem_iff name).mpr)

theorem layeredOver_completeSecondLevel (hclosed : c.hierarchy.Closed) :
    c.hierarchy.LayeredOver c.completeSecondLevel.hierarchy := by
  rw [completeSecondLevel_eq]
  exact layeredOver_foldl hclosed _

theorem layeredOver_completeDeeperLevels (hclosed : c.hierarchy.Closed) (levels : NameMap Nat) :
    c.hierarchy.LayeredOver (c.completeDeeperLevels levels).hierarchy := by
  rw [completeDeeperLevels_eq]
  exact layeredOver_foldl hclosed _

/-- The second level changes no number of sharers. -/
theorem sharers_completeSecondLevel (hclosed : c.hierarchy.Closed) :
    c.completeSecondLevel.hierarchy.sharers = c.hierarchy.sharers := by
  have hover := layeredOver_completeSecondLevel hclosed
  have hlinks : RecordMap.SameLinks lowerLevel c.hierarchy.system
      c.completeSecondLevel.hierarchy.system := by
    rw [completeSecondLevel_eq]
    exact sameLinks_foldl _ fun _ hmem => unlinked_of_mem_secondRequests _ hmem
  refine Hierarchy.sharers_eq_of_sameLinks ?_
  rw [Hierarchy.reachable, Hierarchy.reachable, hover.roots_eq]
  exact hlinks.accessible hclosed.system_named (hover.closed hclosed).system_named _

/-- **All passes below the first level serve one list of requests.** -/
theorem completeDeeperLevels_completeSecondLevel (hclosed : c.hierarchy.Closed)
    (levels : NameMap Nat) :
    c.completeSecondLevel.completeDeeperLevels levels =
      (c.secondRequests ++ c.completeSecondLevel.deeperRequests levels).foldl
        (serve c.hierarchy.sharers) c := by
  rw [completeDeeperLevels_eq, sharers_completeSecondLevel hclosed, List.foldl_append,
    ← completeSecondLevel_eq]

end Completion

end MemoryHierarchy
