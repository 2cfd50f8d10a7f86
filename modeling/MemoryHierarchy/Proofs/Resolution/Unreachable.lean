import MemoryHierarchy.Proofs.Graph.Restriction
import MemoryHierarchy.Proofs.Resolution.Pruning

/-!
# What no core reaches has no influence

Records that are pruned in the end could as well not have been there. Seeding puts layers below the
records that slots name and takes no notice of others, so it commutes with taking names out
(`seed_without`). From then on everything that is read off the hierarchy, levels, sharers and the
roles above a record, comes from walks of the cores, and these meet nothing that is pruned. What is
asked for is reached if it is there at all, so no request is for a record that has been taken out,
and serving requests commutes with taking names out as well.

Names are reached once and for all: layers keep links, so what is reached before a pass is reached
after it, and it is enough to know of the end that no core reaches the names.
-/

namespace MemoryHierarchy

/-- A hierarchy without the records of some names. -/
def Hierarchy.without (h : Hierarchy) (dropped : String → Bool) : Hierarchy :=
  { h with caches := h.caches.without dropped, walkers := h.walkers.without dropped }

/-- A configuration without the records of some names. -/
def NormalizedConfiguration.without (n : NormalizedConfiguration) (dropped : String → Bool) :
    NormalizedConfiguration :=
  { n with caches := n.caches.without dropped, walkers := n.walkers.without dropped }

namespace Hierarchy

variable {h : Hierarchy} {dropped : String → Bool} {name : String}

theorem system_without (h : Hierarchy) (dropped : String → Bool) :
    (h.without dropped).system = NameMap.without h.system dropped :=
  NameMap.union_without h.walkers h.caches dropped

/-- Layers go below the same record, unless it has been taken out. -/
theorem layer_without (h : Hierarchy) (dropped : String → Bool) (name : String)
    (layers : List Document) :
    (h.without dropped).layer name layers = (h.layer name layers).without dropped := by
  unfold layer
  cases hname : dropped name with
  | true =>
    have habsent : name ∉ (h.without dropped).caches := by
      intro hmem
      rw [(NameMap.mem_without_iff.mp hmem).1] at hname
      cases hname
    rw [if_neg habsent]
    -- the layers go below a record that is taken out, if there is one
    split
    · simp only [without, ← NameMap.modify_without, NameMap.modify_of_dropped _ hname]
    · simp only [without, ← NameMap.modify_without, NameMap.modify_of_dropped _ hname]
  | false =>
    have hmem : name ∈ (h.without dropped).caches ↔ name ∈ h.caches := by
      show name ∈ h.caches.without dropped ↔ _
      rw [NameMap.mem_without_iff, hname]
      simp
    by_cases hcache : name ∈ h.caches
    · rw [if_pos hcache, if_pos (hmem.mpr hcache)]
      simp only [without, NameMap.modify_without]
    · rw [if_neg hcache, if_neg fun hcache' => hcache (hmem.mp hcache')]
      simp only [without, NameMap.modify_without]

/-! ## What cores reach

Taking out names that no core reaches changes neither what is reached nor the levels. -/

section

variable (hclosed : h.Closed) (hdropped : ∀ name, dropped name = true → name ∉ h.reachable)

include hclosed hdropped

theorem dropped_eq_false (hreached : h.system.ReachedFrom lowerLevel h.roots name) :
    dropped name = false := by
  rw [← mem_reachable_iff hclosed.system_named] at hreached
  cases hname : dropped name with
  | false => rfl
  | true => exact absurd hreached (hdropped name hname)

theorem reachable_without : (h.without dropped).reachable = h.reachable := by
  unfold reachable
  rw [system_without]
  exact RecordMap.accessible_without (fun _ => dropped_eq_false hclosed hdropped)
    hclosed.system_named

theorem levels_without : (h.without dropped).levels = h.levels := by
  unfold levels
  rw [system_without]
  exact RecordMap.fillLevels_without fun _ => dropped_eq_false hclosed hdropped

theorem sharers_without : (h.without dropped).sharers = h.sharers := by
  unfold sharers
  rw [reachable_without hclosed hdropped]

theorem prune_without : (h.without dropped).prune = h.prune := by
  have hkept : ∀ name, h.reachable.contains name = true → dropped name = false := by
    intro name hname
    rw [Std.ExtTreeMap.contains_iff_mem, mem_reachable_iff hclosed.system_named] at hname
    exact dropped_eq_false hclosed hdropped hname
  unfold prune
  rw [reachable_without hclosed hdropped]
  simp only [without, NameMap.filter_without hkept]

end

end Hierarchy

namespace Completion

variable {h : Hierarchy} {c : Completion} {sharers : NameMap Nat} {dropped : String → Bool}
  {name : String}

/-- A completion without the records of some names. -/
def without (c : Completion) (dropped : String → Bool) : Completion :=
  { c with hierarchy := c.hierarchy.without dropped }

theorem layer_without (c : Completion) (dropped : String → Bool) (name : String)
    (layers : List Document) :
    (c.without dropped).layer name layers = (c.layer name layers).without dropped := by
  unfold layer without
  rw [Hierarchy.layer_without]

/-! ## Seeding

Seeding puts layers below the record of a name and reads nothing but cores. So names can be taken
out before or after it, whether they are in slots or not. -/

theorem seedSlot_without (core : Document) (c : Completion) (links : SlotLinks) :
    seedSlot core (c.without dropped) links = (seedSlot core c links).without dropped := by
  unfold seedSlot
  cases Role.ofSlot? links.slot with
  | none => exact layer_without c dropped _ _
  | some role =>
    dsimp only
    cases Template.firstLevel? role with
    | none => exact layer_without c dropped _ _
    | some template =>
      dsimp only
      rw [layer_without]
      rfl

theorem seedCore_without (c : Completion) (core : Document) :
    seedCore (c.without dropped) core = (seedCore c core).without dropped := by
  have hslots : ∀ (links : List SlotLinks) (c : Completion),
      links.foldl (seedSlot core) (c.without dropped) =
        (links.foldl (seedSlot core) c).without dropped := by
    intro links
    induction links with
    | nil => exact fun _ => rfl
    | cons first links ih =>
      intro c
      rw [List.foldl_cons, List.foldl_cons, seedSlot_without, ih]
  unfold seedCore
  rw [hslots]
  unfold seedWalker without Hierarchy.without
  dsimp only
  rw [NameMap.modify_without]

/-- **Seeding looks at no record that no slot names.** Links and templates go to names in slots, and
the names in slots are those of the cores. -/
theorem seed_without (h : Hierarchy) (dropped : String → Bool) :
    seed (h.without dropped) = (seed h).without dropped := by
  suffices ∀ (cores : List Document) (c : Completion),
      cores.foldl seedCore (c.without dropped) = (cores.foldl seedCore c).without dropped from
    this h.cores (start h)
  intro cores
  induction cores with
  | nil => exact fun _ => rfl
  | cons core cores ih =>
    intro c
    rw [List.foldl_cons, List.foldl_cons, seedCore_without, ih]

/-! ## Serving requests

A request for a record that is taken out changes nothing that is left. -/

/-- The name of the record that a request is for. -/
def Request.target : Request → String
  | cache target _ => target
  | walker target => target

theorem completeCache_without (hname : dropped name = true → name ∉ c.hierarchy.caches)
    (role : Role) (n : Nat) :
    (c.without dropped).completeCache name role n =
      (c.completeCache name role n).without dropped := by
  have hmem : name ∈ (c.without dropped).hierarchy.caches ↔ name ∈ c.hierarchy.caches :=
    NameMap.mem_without_of_absent hname
  unfold completeCache
  by_cases hnew : name ∈ c.hierarchy.caches ∧ name ∉ c.roles
  · have hnew' : name ∈ (c.without dropped).hierarchy.caches ∧ name ∉ c.roles :=
      ⟨hmem.mpr hnew.1, hnew.2⟩
    rw [if_pos hnew, layer_without]
    exact if_pos hnew'
  · have hold : ¬(name ∈ (c.without dropped).hierarchy.caches ∧ name ∉ c.roles) :=
      fun hnew' => hnew ⟨hmem.mp hnew'.1, hnew'.2⟩
    rw [if_neg hnew]
    exact if_neg hold

theorem completeWalker_without (hname : dropped name = true → name ∉ c.hierarchy.walkers)
    (n : Nat) :
    (c.without dropped).completeWalker name n = (c.completeWalker name n).without dropped := by
  have hmem : name ∈ (c.without dropped).hierarchy.walkers ↔ name ∈ c.hierarchy.walkers :=
    NameMap.mem_without_of_absent hname
  unfold completeWalker
  by_cases hnew : name ∈ c.hierarchy.walkers ∧ name ∉ c.sized
  · have hnew' : name ∈ (c.without dropped).hierarchy.walkers ∧ name ∉ c.sized :=
      ⟨hmem.mpr hnew.1, hnew.2⟩
    rw [if_pos hnew, layer_without]
    exact if_pos hnew'
  · have hold : ¬(name ∈ (c.without dropped).hierarchy.walkers ∧ name ∉ c.sized) :=
      fun hnew' => hnew ⟨hmem.mp hnew'.1, hnew'.2⟩
    rw [if_neg hnew]
    exact if_neg hold

theorem serve_without {request : Request}
    (hname : dropped request.target = true → request.target ∉ c.hierarchy.system) :
    serve sharers (c.without dropped) request = (serve sharers c request).without dropped := by
  rw [Hierarchy.mem_system_iff, not_or] at hname
  cases request with
  | cache name role => exact completeCache_without (fun hdropped => (hname hdropped).2) role _
  | walker name => exact completeWalker_without (fun hdropped => (hname hdropped).1) _

/-- **Requests that are for no record that is taken out** are served alike. A request changes its
target only, which is there in both hierarchies or in none. -/
theorem foldl_serve_without (hclosed : c.hierarchy.Closed) {requests : List Request}
    (hrequests : ∀ request ∈ requests,
      dropped request.target = true → request.target ∉ c.hierarchy.system) :
    requests.foldl (serve sharers) (c.without dropped) =
      (requests.foldl (serve sharers) c).without dropped := by
  induction requests generalizing c with
  | nil => rfl
  | cons first requests ih =>
    rw [List.forall_mem_cons] at hrequests
    have hstep := (serves_serve sharers c first).layeredOver hclosed
    rw [List.foldl_cons, List.foldl_cons, serve_without hrequests.1]
    refine ih (hstep.closed hclosed) fun request hrequest => ?_
    rw [← hstep.mem_system_iff]
    exact hrequests.2 request hrequest

/-! ## What is asked for is reached

That no such request is made is an invariant: roles are given to what is reached, and requests are
for what a record with a role links to. -/

/-- All that has a role is reached. Unreached records are therefore never completed. -/
def RolesReached (c : Completion) : Prop :=
  ∀ (name : String) (role : Role), c.roles[name]? = some role → name ∈ c.hierarchy.reachable

/-- What requests are for is reached, if it is there at all. -/
def RequestsReached (c : Completion) (requests : List Request) : Prop :=
  ∀ request ∈ requests, request.target ∈ c.hierarchy.system → request.target ∈ c.hierarchy.reachable

theorem rolesReached_seed (hclosed : h.Closed) : (seed h).RolesReached := by
  intro name role hrole
  have hseed := (seeding_seed hclosed).layeredOver
  rw [getElem?_roles_seed hclosed, Option.bind_eq_some_iff] at hrole
  obtain ⟨slot, hfirst, _⟩ := hrole
  have hroot : name ∈ h.roots := Hierarchy.isSome_firstSlot?_iff.mp (by rw [hfirst]; rfl)
  have hmem : name ∈ (seed h).hierarchy.system :=
    hseed.mem_system_iff.mp
      (Hierarchy.mem_system_iff.mpr (Or.inr (hclosed.mem_caches_of_root hroot)))
  rw [Hierarchy.mem_reachable_iff_linked (hseed.closed hclosed).system_named hmem, hseed.roots_eq]
  exact Or.inl hroot

theorem rolesReached_serve (sharers : NameMap Nat) (hclosed : c.hierarchy.Closed)
    (hroles : c.RolesReached) {request : Request}
    (hrequest : request.target ∈ c.hierarchy.system → request.target ∈ c.hierarchy.reachable) :
    (serve sharers c request).RolesReached := by
  intro name role hrole
  have hserves := serves_serve sharers c request
  refine (hserves.layeredOver hclosed).mem_reachable hclosed ?_
  rw [hserves.getElem?_roles, Option.or_eq_some_iff] at hrole
  rcases hrole with hold | ⟨_, hnew⟩
  · exact hroles name role hold
  · -- the name has just taken the role that was asked for
    obtain ⟨hcache, hasked⟩ := Option.ite_none_right_eq_some.mp hnew
    rw [role?_eq_some_iff] at hasked
    subst hasked
    exact hrequest (Hierarchy.mem_system_iff.mpr (Or.inr hcache))

theorem rolesReached_foldl (sharers : NameMap Nat) (hclosed : c.hierarchy.Closed)
    (hroles : c.RolesReached) {requests : List Request} (hrequests : c.RequestsReached requests) :
    (requests.foldl (serve sharers) c).RolesReached := by
  induction requests generalizing c with
  | nil => exact hroles
  | cons first requests ih =>
    have hstep := (serves_serve sharers c first).layeredOver hclosed
    have hfirst := hrequests first List.mem_cons_self
    refine ih (hstep.closed hclosed) (rolesReached_serve sharers hclosed hroles hfirst) ?_
    intro request hrequest hmem
    rw [← hstep.mem_system_iff] at hmem
    exact hstep.mem_reachable hclosed (hrequests request (List.mem_cons_of_mem _ hrequest) hmem)

/-- What a record with a role links to is reached, if it is there. -/
theorem RolesReached.mem_reachable_of_link (hroles : c.RolesReached) (hclosed : c.hierarchy.Closed)
    {upper : String} {role : Role} (hrole : c.roles[upper]? = some role)
    (hop : c.hierarchy.system.target? lowerLevel upper = some name)
    (hmem : name ∈ c.hierarchy.system) : name ∈ c.hierarchy.reachable := by
  have hnamed := hclosed.system_named
  have hupper := (Hierarchy.mem_reachable_iff hnamed).mp (hroles upper role hrole)
  exact (Hierarchy.mem_reachable_iff hnamed).mpr (hupper.tail hop hmem)

theorem target_eq_of_mem_pair {request : Request} {target : String} {role : Role}
    (hasked : request ∈ [.cache target role, .walker target]) : request.target = target := by
  rcases List.mem_pair.mp hasked with rfl | rfl
  · rfl
  · rfl

theorem RolesReached.secondRequests (hroles : c.RolesReached) (hclosed : c.hierarchy.Closed) :
    c.RequestsReached c.secondRequests := by
  intro request hrequest hmem
  obtain ⟨⟨target, uppers⟩, huppers, hasked⟩ := List.mem_flatMap.mp hrequest
  rw [Std.ExtTreeMap.mem_toList_iff_getElem?_eq_some, getElem?_upperRoles] at huppers
  obtain ⟨hsome, _⟩ := Option.ite_none_left_eq_some.mp huppers
  obtain ⟨role, habove⟩ := List.exists_mem_of_ne_nil _ hsome
  obtain ⟨upper, hrole, hop⟩ := mem_rolesAbove_iff.mp habove
  rw [target_eq_of_mem_pair hasked] at hmem ⊢
  exact hroles.mem_reachable_of_link hclosed hrole hop hmem

theorem target_eq_of_mem_requestsBelow {request : Request} {target : String} {role : Role}
    (hasked : request ∈ requestsBelow target role) : request.target = target := by
  cases role with
  | l2c => rw [List.mem_singleton.mp hasked]; rfl
  | stlb => rw [List.mem_singleton.mp hasked]; rfl
  | _ => cases hasked

theorem RolesReached.deeperRequests (hroles : c.RolesReached) (hclosed : c.hierarchy.Closed)
    {levels : NameMap Nat} (hlevels : ∀ name ∈ levels, name ∈ c.hierarchy.reachable) :
    c.RequestsReached (c.deeperRequests levels) := by
  intro request hrequest hmem
  unfold Completion.deeperRequests at hrequest
  rw [List.mem_append, List.mem_flatMap, List.mem_flatMap] at hrequest
  -- a request comes from a record with a role, or from a record with a level
  rcases hrequest with ⟨⟨upper, role⟩, hrole, hasked⟩ | ⟨⟨target, level⟩, hlevel, hasked⟩
  · rw [Std.ExtTreeMap.mem_toList_iff_getElem?_eq_some] at hrole
    dsimp only at hasked
    cases hop : c.hierarchy.system.target? lowerLevel upper with
    | none => rw [hop] at hasked; cases hasked
    | some target =>
      rw [hop] at hasked
      rw [target_eq_of_mem_requestsBelow hasked] at hmem ⊢
      exact hroles.mem_reachable_of_link hclosed hrole hop hmem
  · rw [target_eq_of_mem_pair hasked]
    rw [NameMap.mem_byNumber_iff] at hlevel
    exact hlevels target (NameMap.mem_iff_exists.mpr ⟨level, hlevel⟩)

theorem rolesReached_completeSecondLevel (hclosed : c.hierarchy.Closed)
    (hroles : c.RolesReached) : c.completeSecondLevel.RolesReached := by
  rw [completeSecondLevel_eq]
  exact rolesReached_foldl _ hclosed hroles (hroles.secondRequests hclosed)

/-! ## Passes

Each pass commutes with taking names out, so the whole resolution does. -/

section

variable (hdropped : ∀ name, dropped name = true → name ∉ c.hierarchy.reachable)

include hdropped

theorem target?_without (hroles : c.RolesReached) {upper : String} {role : Role}
    (hrole : (upper, role) ∈ c.roles.toList) :
    (c.without dropped).hierarchy.system.target? lowerLevel upper =
      c.hierarchy.system.target? lowerLevel upper := by
  have hkept : dropped upper = false := by
    rw [Std.ExtTreeMap.mem_toList_iff_getElem?_eq_some] at hrole
    rw [← Bool.not_eq_true]
    exact fun hname => hdropped upper hname (hroles upper role hrole)
  show (c.hierarchy.without dropped).system.target? lowerLevel upper = _
  rw [Hierarchy.system_without, RecordMap.target?_without hkept]

theorem secondRequests_without (hroles : c.RolesReached) :
    (c.without dropped).secondRequests = c.secondRequests := by
  have hupper : (c.without dropped).upperRoles = c.upperRoles := by
    refine List.foldr_ext _ _ _ fun entry hentry groups => ?_
    unfold addRole
    rw [target?_without hdropped hroles hentry]
  unfold secondRequests
  rw [hupper]

theorem deeperRequests_without (hroles : c.RolesReached) (levels : NameMap Nat) :
    (c.without dropped).deeperRequests levels = c.deeperRequests levels := by
  unfold deeperRequests
  congr 1
  refine List.flatMap_congr fun entry hentry => ?_
  obtain ⟨upper, role⟩ := entry
  dsimp only
  rw [target?_without hdropped hroles hentry]

variable (hclosed : c.hierarchy.Closed)

include hclosed

/-- The sharers that templates are sized for are counted among what is reached. -/
theorem foldl_serve_reached {requests : List Request} (hrequests : c.RequestsReached requests) :
    requests.foldl (serve (c.without dropped).hierarchy.sharers) (c.without dropped) =
      (requests.foldl (serve c.hierarchy.sharers) c).without dropped := by
  have hsharers : (c.without dropped).hierarchy.sharers = c.hierarchy.sharers :=
    Hierarchy.sharers_without hclosed hdropped
  rw [hsharers]
  exact foldl_serve_without hclosed fun request hrequest hname hmem =>
    hdropped _ hname (hrequests request hrequest hmem)

theorem completeSecondLevel_without (hroles : c.RolesReached) :
    (c.without dropped).completeSecondLevel = c.completeSecondLevel.without dropped := by
  rw [completeSecondLevel_eq, completeSecondLevel_eq, secondRequests_without hdropped hroles]
  exact foldl_serve_reached hdropped hclosed (hroles.secondRequests hclosed)

theorem completeDeeperLevels_without (hroles : c.RolesReached) {levels : NameMap Nat}
    (hlevels : ∀ name ∈ levels, name ∈ c.hierarchy.reachable) :
    (c.without dropped).completeDeeperLevels levels =
      (c.completeDeeperLevels levels).without dropped := by
  rw [completeDeeperLevels_eq, completeDeeperLevels_eq, deeperRequests_without hdropped hroles]
  exact foldl_serve_reached hdropped hclosed (hroles.deeperRequests hclosed hlevels)

end

/-- **Completion commutes with taking out what is not reached in the end.** Requests are for reached
records, and those are there in both hierarchies. -/
theorem finished_without (hclosed : h.Closed)
    (hdropped : ∀ name, dropped name = true → name ∉ (finished h).hierarchy.reachable) :
    finished (h.without dropped) = (finished h).without dropped := by
  have hseeded := (seeding_seed hclosed).closed hclosed
  have hsecond := layeredOver_completeSecondLevel hseeded
  have hclosedSecond := hsecond.closed hseeded
  have hdeeper := layeredOver_completeDeeperLevels hclosedSecond (seed h).hierarchy.levels
  -- what is not reached in the end has not been reached before
  have hdroppedSecond : ∀ name, dropped name = true →
      name ∉ (seed h).completeSecondLevel.hierarchy.reachable :=
    fun name hname hmem => hdropped name hname (hdeeper.mem_reachable hclosedSecond hmem)
  have hdroppedSeed : ∀ name, dropped name = true → name ∉ (seed h).hierarchy.reachable :=
    fun name hname hmem => hdroppedSecond name hname (hsecond.mem_reachable hseeded hmem)
  have hroles := rolesReached_seed hclosed
  have hrolesSecond := rolesReached_completeSecondLevel hseeded hroles
  have hlevels : ((seed h).without dropped).hierarchy.levels = (seed h).hierarchy.levels :=
    Hierarchy.levels_without hseeded hdroppedSeed
  have hreached : ∀ name ∈ (seed h).hierarchy.levels,
      name ∈ (seed h).completeSecondLevel.hierarchy.reachable := by
    intro name hname
    rw [Hierarchy.mem_levels_iff hseeded.system_named] at hname
    exact hsecond.mem_reachable hseeded hname
  unfold finished
  rw [seed_without, hlevels, completeSecondLevel_without hdroppedSeed hseeded hroles]
  exact completeDeeperLevels_without hdroppedSecond hclosedSecond hrolesSecond hreached

theorem complete_without (hclosed : h.Closed)
    (hdropped : ∀ name, dropped name = true → name ∉ (finished h).hierarchy.reachable) :
    (h.without dropped).complete = h.complete := by
  have hfinished := (layeredOver_finished hclosed).closed hclosed
  rw [← prune_finished, finished_without hclosed hdropped, ← prune_finished]
  exact Hierarchy.prune_without hfinished hdropped

end Completion

namespace NormalizedConfiguration

variable {n : NormalizedConfiguration} {dropped : String → Bool}

/-- Of caches and walkers the passes after completion see what completion has left. -/
theorem resolve_without (options : Options) (lookups : ModuleLookups)
    (hcomplete : (n.hierarchy.without dropped).complete = n.hierarchy.complete) :
    (n.without dropped).resolve options lookups = n.resolve options lookups := by
  have hcompleted : (n.without dropped).completedHierarchy = n.completedHierarchy := by
    unfold completedHierarchy
    rw [show (n.without dropped).hierarchy.complete = n.hierarchy.complete from hcomplete]
    rfl
  unfold resolve
  rw [hcompleted]
  rfl

end NormalizedConfiguration

open NormalizedConfiguration in
/-- **Records that are not left have no influence.** If any of them had not been written in the
first place, what is resolved would be the same in all its parts. -/
theorem applyDefaults_without {docs : List Document} {n : NormalizedConfiguration}
    (hread : ofDocuments docs = .ok n) (lookups : ModuleLookups) {dropped : String → Bool}
    (hdropped : ∀ name, dropped name = true → name ∉ (n.applyDefaults lookups).caches ∧
      name ∉ (n.applyDefaults lookups).walkers) :
    (n.without dropped).applyDefaults lookups = n.applyDefaults lookups := by
  have hclosed := closed_of_ofDocuments hread
  have hcompleted := Completion.layeredOver_finished hclosed.hierarchy
  refine congrArg Resolution.configuration (resolve_without {} lookups
    (Completion.complete_without hclosed.hierarchy fun name hname hreached => ?_))
  -- a name that is reached is that of a record, and the record is left
  obtain ⟨hcache, hwalker⟩ := hdropped name hname
  have hnamed := (hcompleted.closed hclosed.hierarchy).system_named
  have hmem := hcompleted.mem_system_iff.mpr ((Hierarchy.mem_reachable_iff hnamed).mp hreached).mem
  rcases Hierarchy.mem_system_iff.mp hmem with hname | hname
  · exact hwalker ((mem_walkers_resolved_iff hclosed lookups name).mpr ⟨hreached, hname⟩)
  · exact hcache ((mem_caches_resolved_iff hclosed lookups name).mpr ⟨hreached, hname⟩)

/-- One core with defaults, and two caches that lead to the last-level cache but that no core leads
to. Both are records of the hierarchy until it is pruned. -/
def strayCaches : List Document :=
  [[("caches", .array [
    .object [("name", .string "stray"), ("lower_level", .string "orphan")],
    .object [("name", .string "orphan"), ("lower_level", .string lastLevelName)]])]]

open NormalizedConfiguration in
/-- Without the two caches the rest of the hierarchy is the same. -/
theorem applyDefaults_without_strayCaches :
    ∃ n, ofDocuments strayCaches = .ok n ∧ "stray" ∈ n.caches ∧ "orphan" ∈ n.caches ∧
      lastLevelName ∈ (n.applyDefaults .nothing).caches ∧
      (n.without fun name => name = "stray" || name = "orphan").applyDefaults .nothing =
        n.applyDefaults .nothing := by
  have hcomputed : ∃ n, ofDocuments strayCaches = .ok n ∧ ("stray" ∈ n.caches ∧
      "orphan" ∈ n.caches ∧ lastLevelName ∈ (n.applyDefaults .nothing).caches) ∧
      ∀ name ∈ ["stray", "orphan"], name ∉ (n.applyDefaults .nothing).caches ∧
        name ∉ (n.applyDefaults .nothing).walkers := by
    simp -zeta only [applyDefaults_eq_sorting]
    decide +kernel
  obtain ⟨n, hread, ⟨hstray, horphan, hlast⟩, hpruned⟩ := hcomputed
  refine ⟨n, hread, hstray, horphan, hlast, ?_⟩
  refine applyDefaults_without hread .nothing fun name hname => hpruned name ?_
  simpa using hname

end MemoryHierarchy
