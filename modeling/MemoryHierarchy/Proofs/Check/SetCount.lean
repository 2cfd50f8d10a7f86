import Mathlib.Data.Nat.Prime.Basic
import MemoryHierarchy.Proofs.Check.Attribute
import MemoryHierarchy.Proofs.Resolution.Activation
import MemoryHierarchy.Proofs.Resolution.Completeness
import MemoryHierarchy.Proofs.Resolution.Layer

/-!
# Numbers of sets

A cache has to have a power of two of sets. Its template gives it a fixed number on the first level
(`exists_sets_of_root`), and below that a number for each record that shares it (`Sized`). These
numbers are powers of two, so a shared cache that is left to its template passes just in case it has
a power of two of sharers: three cores fail on one last-level cache (`failedCheck_sets_iff`).
-/

namespace MemoryHierarchy

open Document (Keeps Layered)

/-! ## Powers of two

A shared template multiplies a power of two by the number of sharers, so the product is one just in
case the number of sharers is. -/

theorem isPowerOfTwo_two_pow_mul_iff {k n : Nat} :
    (2 ^ k * n).isPowerOfTwo ↔ n.isPowerOfTwo := by
  constructor
  · rintro ⟨j, hj⟩
    have hdvd : n ∣ 2 ^ j := Dvd.intro_left _ hj
    obtain ⟨i, _, hi⟩ := (Nat.dvd_prime_pow Nat.prime_two).mp hdvd
    exact ⟨i, hi⟩
  · rintro ⟨i, rfl⟩
    exact ⟨k + i, (pow_add 2 k i).symm⟩

/-- A shared template has a power of two of sets just in case it is for a power of two of
sharers. -/
theorem isPowerOfTwo_sets_iff (role : Role) (n : Nat) :
    ((Template.shared role).setFactor * n).isPowerOfTwo ↔ n.isPowerOfTwo := by
  have hfactor : ∃ k, (Template.shared role).setFactor = 2 ^ k := by
    cases role with
    | stlb => exact ⟨6, rfl⟩
    | l2c => exact ⟨9, rfl⟩
    | _ => exact ⟨11, rfl⟩
  obtain ⟨k, hk⟩ := hfactor
  rw [hk, isPowerOfTwo_two_pow_mul_iff]

/-- Of what is required of a geometry, a natural number can fail to be a power of two only. -/
theorem holds_ofNat_eq_false_iff {p : Predicate} {n : Nat}
    (hp : p ∈ [Predicate.integral, .nonNegative, .powerOfTwo]) :
    p.holds (.ofNat n) = false ↔ p = .powerOfTwo ∧ ¬(n.isPowerOfTwo ∧ n < UInt64.size) := by
  simp only [List.mem_cons, List.not_mem_nil, or_false] at hp
  -- a natural number is whole and not negative, so only the last predicate can fail
  rcases hp with rfl | rfl | rfl
  · have hholds : Predicate.integral.holds (.ofNat n) = true := rfl
    simp [hholds]
  · have hholds : Predicate.nonNegative.holds (.ofNat n) = true :=
      decide_eq_true (Int.natCast_nonneg n)
    simp [hholds]
  · rw [Predicate.holds]
    by_cases hword : n < UInt64.size
    · rw [Json.natural?_ofNat hword]
      simp [hword, ← isPowerOfTwo_iff]
    · rw [Json.natural?_ofNat_eq_none hword]
      simp [hword]

/-- Sets are checked in caches only. -/
theorem predicates_of_sets {kind : RecordKind} {check : AttributeCheck}
    (hcheck : check ∈ AttributeCheck.ofKind kind) (hpath : check.path = "sets") :
    kind = .cache ∧ check.predicates = [.integral, .nonNegative, .powerOfTwo] := by
  have hall : ∀ kind ∈ [RecordKind.core, .cache, .walker], ∀ check ∈ AttributeCheck.ofKind kind,
      check.path = "sets" →
        kind = .cache ∧ check.predicates = [.integral, .nonNegative, .powerOfTwo] := by
    decide
  have hkind : kind ∈ [RecordKind.core, .cache, .walker] := by cases kind <;> decide
  exact hall kind hkind check hcheck hpath

/-- A failed check of sets is a cache whose sets fail one of three predicates. -/
theorem ResolvedConfiguration.failedCheck_sets_mem_iff {r : ResolvedConfiguration}
    (hnamed : r.caches.Named) {name : String} {p : Predicate} {found : Json} :
    .failedCheck RecordKind.cache.name name "sets" p found ∈ r.diagnostics ↔
      ∃ record, r.caches[name]? = some record ∧ record.get? "sets" = some found ∧
        p ∈ [Predicate.integral, .nonNegative, .powerOfTwo] ∧ p.holds found = false := by
  -- a cache is shown under the name it is found under
  have hshown : ∀ {key : String} {record : Document}, r.caches[key]? = some record →
      record.shownName = key := by
    intro key record hget
    rw [Document.shownName, show record.name? = some key from hnamed key record hget,
      Option.getD_some]
  have hkey : ∀ record : Document, record.at? "sets" = record.get? "sets" :=
    Document.at?_of_key (by decide)
  rw [failedCheck_mem_diagnostics_iff]
  constructor
  · rintro ⟨kind, _, record, hrecord, hname, hvalue, hfails, check, hcheck, hpath, hp⟩
    obtain ⟨rfl, hpredicates⟩ := predicates_of_sets hcheck hpath
    obtain ⟨key, hget⟩ := NameMap.mem_values_iff.mp hrecord
    rw [hshown hget] at hname
    rw [hkey] at hvalue
    rw [hpredicates] at hp
    exact ⟨record, hname ▸ hget, hvalue, hp, hfails⟩
  · rintro ⟨record, hget, hvalue, hp, hfails⟩
    refine ⟨.cache, rfl, record, NameMap.mem_values_iff.mpr ⟨name, hget⟩, hshown hget,
      (hkey record).trans hvalue, hfails, .geometry "sets", ?_, rfl, hp⟩
    decide

namespace Completion

variable {h : Hierarchy} {c : Completion} {sharers : NameMap Nat} {name : String}
  {record : Document}

/-! ## Sets on the first level

First-level caches take fixed numbers from their own templates, all of them powers of two. -/

/-- Seeding gives a cache on the first level the sets of a template. -/
theorem exists_sets_seed_of_root (hclosed : h.Closed) (hroot : name ∈ h.roots)
    (hunset : ∀ original, h.caches[name]? = some original → original.get? "sets" = none)
    (hget : (seed h).hierarchy.caches[name]? = some record) :
    ∃ sets, sets.isPowerOfTwo ∧ record.natural? "sets" = some sets := by
  rw [(layeredBy_seed hclosed).caches, Option.map_eq_some_iff] at hget
  obtain ⟨original, horiginal, rfl⟩ := hget
  have habsent := Document.contains_eq_false_iff.mpr (hunset original horiginal)
  -- there is a template among the layers, and nothing else has sets
  obtain ⟨_, _, template, _, htemplate⟩ := exists_layers_of_root hclosed hroot
  have hsome : ((cacheLayers h.cores name).find? fun d => d.contains "sets").isSome :=
    List.find?_isSome.mpr ⟨_, htemplate, rfl⟩
  obtain ⟨layer, hfound⟩ := Option.isSome_iff_exists.mp hsome
  have hcontains := List.find?_some hfound
  obtain ⟨core, _, links, _, _, hlayer⟩ :=
    mem_cacheLayers_iff.mp (List.mem_of_find?_eq_some hfound)
  rw [Document.mergeAll, Document.natural?_mergeAllWith rfl, List.find?_cons, habsent, hfound]
  rcases mem_slotLayers_iff.mp hlayer with rfl | ⟨role, template, _, hrole, rfl⟩
  · rw [(isLinks_document links core).contains_eq_false (by decide)] at hcontains
    cases hcontains
  · refine ⟨template.sets, ?_, ?_⟩
    · cases role <;> cases hrole <;> first | exact ⟨6, rfl⟩ | exact ⟨4, rfl⟩
    · cases role <;> cases hrole <;> rfl

/-- A cache on the first level has a power of two of sets. -/
theorem exists_sets_of_root (hclosed : h.Closed) (hroot : name ∈ h.roots)
    (hunset : ∀ original, h.caches[name]? = some original → original.get? "sets" = none)
    (hget : (finished h).hierarchy.caches[name]? = some record) :
    ∃ sets, sets.isPowerOfTwo ∧ record.natural? "sets" = some sets := by
  have hseeded := (seeding_seed hclosed).closed hclosed
  rw [finished_eq hclosed] at hget
  obtain ⟨seeded, hbefore, hlayered⟩ := (pointwise_foldl _ hseeded _).exists_before hget
  obtain ⟨sets, hpower, hread⟩ := exists_sets_seed_of_root hclosed hroot hunset hbefore
  have hkept : Keeps ["prefetch_activate"] seeded record :=
    hlayered.keeps (hseeded.caches_distinct name seeded hbefore) fun _ => CacheLayer.scalarOff
  exact ⟨sets, hpower, hkept.bind (by decide) hread⟩

/-! ## Sets below the first level

A cache below the first level takes its sets from a shared template the first time that it is
completed. The invariant speaks of the completion after any number of steps: where a cache has a
role, it has the sets of that role for the sharers it was given. -/

/-- A completion in which each cache below the first level has the sets of its role for its sharers.
Caches that have no role yet have no sets either, which is how the run lemma goes on from one
request to the next. -/
structure Sized (h : Hierarchy) (sharers : NameMap Nat) (c : Completion) : Prop where
  closed : c.hierarchy.Closed
  rooted : ∀ name ∈ h.roots, name ∈ c.roles
  sets : ∀ name ∉ h.roots, ∀ record, c.hierarchy.caches[name]? = some record →
    record.get? "sets" = c.roles[name]?.map fun role =>
      .ofNat ((Template.shared role).setFactor * sharers.getD name 1)

namespace Sized

theorem seed (hclosed : h.Closed) (sharers : NameMap Nat)
    (hunset : ∀ (name : String) (original : Document), h.caches[name]? = some original →
      original.get? "sets" = none) : Sized h sharers (seed h) where
  closed := (seeding_seed hclosed).closed hclosed
  rooted _ hroot := (mem_roles_seed_iff hclosed).mpr hroot
  sets := by
    intro name hroot record hget
    obtain ⟨original, horiginal, hlayered⟩ := (seeding_seed hclosed).caches.exists_before hget
    have hlinks : Layered IsLinks original record := by
      -- seeding has put no template below a record that no core names
      refine hlayered.mono fun layer hlayer => ?_
      rcases hlayer with hlinks | ⟨hmem, _⟩
      · exact hlinks
      · exact absurd hmem hroot
    rw [getElem?_roles_seed_of_not_root hclosed hroot,
      hlinks.get?_eq (hclosed.caches_distinct name original horiginal)
        fun _ hlayer => hlayer.contains_eq_false (by decide), hunset name original horiginal]
    rfl

theorem serves {request : Request} (hc : Sized h sharers c)
    (hserves : Serves sharers c request d) : Sized h sharers d := by
  have hclosed := (hserves.layeredOver hc.closed).closed hc.closed
  cases hserves with
  | @cache target role hmem hrole =>
    refine ⟨hclosed,
      fun name hroot => Std.ExtTreeMap.mem_insert.mpr (Or.inr (hc.rooted name hroot)), ?_⟩
    intro name hroot record hget
    have hget : (c.hierarchy.layer target _).caches[name]? = some record := hget
    rw [Hierarchy.getElem?_layer_caches] at hget
    rw [Std.ExtTreeMap.getElem?_insert]
    by_cases hname : target = name
    · subst hname
      rw [if_pos rfl, Option.map_eq_some_iff] at hget
      obtain ⟨before, hbefore, rfl⟩ := hget
      -- a cache without a role has no sets yet
      have habsent : before.contains "sets" = false := by
        rw [Document.contains_eq_false_iff, hc.sets target hroot before hbefore,
          Std.ExtTreeMap.getElem?_eq_none hrole]
        rfl
      rw [Document.get?_mergeAll_pair_of_absent (distinct_shared role _) habsent]
      rw [if_pos (Std.compare_eq_iff_eq.mpr rfl)]
      cases role <;> rfl
    · rw [if_neg hname] at hget
      rw [if_neg fun hsame => hname (Std.compare_eq_iff_eq.mp hsame)]
      exact hc.sets name hroot record hget
  | @walker target =>
    refine ⟨hclosed, hc.rooted, ?_⟩
    intro name hroot record hget
    have hget : (c.hierarchy.layer target _).caches[name]? = some record := hget
    rw [Hierarchy.getElem?_layer_caches] at hget
    split at hget
    · obtain ⟨before, hbefore, rfl⟩ := Option.map_eq_some_iff.mp hget
      -- a cache that is taken for a walker gets a template without sets
      have hlayered : Layered (· = Template.walker (sharers.getD target 1)) before
          (Document.mergeAll [before, Template.walker (sharers.getD target 1)]) :=
        ⟨_, fun _ => List.mem_singleton.mp, rfl⟩
      rw [hlayered.get?_eq (hc.closed.caches_distinct name before hbefore)
        fun layer hlayer => hlayer ▸ rfl]
      exact hc.sets name hroot before hbefore
    · exact hc.sets name hroot record hget
  | cacheKept | walkerKept => exact hc

theorem foldl (hc : Sized h sharers c) (requests : List Request) :
    Sized h sharers (requests.foldl (serve sharers) c) := by
  induction requests generalizing c with
  | nil => exact hc
  | cons request requests ih => exact ih (hc.serves (serves_serve sharers c request))

theorem finished (hclosed : h.Closed)
    (hunset : ∀ (name : String) (original : Document), h.caches[name]? = some original →
      original.get? "sets" = none) :
    Sized h (Completion.seed h).hierarchy.sharers (finished h) := by
  rw [finished_eq hclosed]
  exact (seed hclosed _ hunset).foldl _

end Sized

end Completion

namespace NormalizedConfiguration

open Completion (finished)

variable {n : NormalizedConfiguration} {lookups : ModuleLookups} {name : String}
  {record : Document}

/-! ## The report

The number of sharers at completion is compared with the links that are left in the end, which are
those that the statement counts. -/

/-- How many records share the record of a name when templates are given. Sharers are counted once,
after first-level records have their links and before anything below them has any. -/
def sharersOf (n : NormalizedConfiguration) (name : String) : Nat :=
  (Completion.seed n.hierarchy).hierarchy.sharers.getD name 1

/-- Sets are written by templates only. -/
theorem exists_finished_of_resolved (hget : (n.applyDefaults lookups).caches[name]? = some record) :
    ∃ completed, (finished n.hierarchy).hierarchy.caches[name]? = some completed ∧
      record.get? "sets" = completed.get? "sets" := by
  obtain ⟨completed, hcompleted, hlate⟩ :=
    (n.agreesOff_resolved lookups).caches.exists_before hget
  rw [← Completion.prune_finished, Hierarchy.getElem?_prune_caches] at hcompleted
  obtain ⟨_, hcompleted⟩ := Option.ite_none_right_eq_some.mp hcompleted
  exact ⟨completed, hcompleted, hlate "sets" (by decide)⟩

section

variable (hclosed : n.Closed) (hunset : ∀ (name : String) (written : Document),
  n.caches[name]? = some written → written.get? "sets" = none)

include hclosed hunset

theorem sets_resolved_of_root (hroot : name ∈ n.hierarchy.roots)
    (hget : (n.applyDefaults lookups).caches[name]? = some record) {found : Json}
    (hvalue : record.get? "sets" = some found) :
    ∃ sets, sets.isPowerOfTwo ∧ sets < UInt64.size ∧ found = .ofNat sets := by
  obtain ⟨completed, hcompleted, hsame⟩ := exists_finished_of_resolved hget
  obtain ⟨sets, hpower, hread⟩ :=
    Completion.exists_sets_of_root hclosed.hierarchy hroot (hunset name) hcompleted
  rw [Document.natural?, ← hsame, hvalue, Option.bind_some] at hread
  exact ⟨sets, hpower, Json.natural?_lt hread, Json.eq_ofNat_of_natural? hread⟩

theorem sets_resolved_of_not_root (hroot : name ∉ n.hierarchy.roots)
    (hget : (n.applyDefaults lookups).caches[name]? = some record) :
    record.get? "sets" = (finished n.hierarchy).roles[name]?.map fun role =>
      .ofNat ((Template.shared role).setFactor * n.sharersOf name) := by
  obtain ⟨completed, hcompleted, hsame⟩ := exists_finished_of_resolved hget
  rw [hsame]
  exact (Completion.Sized.finished hclosed.hierarchy hunset).sets name hroot completed hcompleted

end

/-- Where no record stands in for the memory, a cache below the first level is shared by the records
that link to it in the end, and it has a template for them. -/
theorem sharersOf_eq (hclosed : n.Closed) (hmemory : memorySentinel ∉ n.hierarchy.system)
    (hroot : name ∉ n.hierarchy.roots) (hmem : name ∈ (n.applyDefaults lookups).caches) :
    n.sharersOf name =
        (n.applyDefaults lookups).hierarchy.system.values.countP (Hierarchy.linksTo name) ∧
      name ∈ (finished n.hierarchy).roles := by
  obtain ⟨hkept, hcache⟩ := (mem_caches_resolved_iff hclosed lookups name).mp hmem
  have hreached := (Completion.mem_reachable_seed_iff hclosed.hierarchy hmemory).mpr hkept
  have hleft : name ∈ n.hierarchy.complete.system := by
    rw [← Completion.prune_finished, Hierarchy.system_prune]
    exact hkept
  refine ⟨?_, Completion.mem_roles_finished hclosed.hierarchy hcache hreached⟩
  rw [Hierarchy.countP_linksTo_eq_of_sameLinks
    ((n.agreesOff_resolved lookups).sameLinks (by decide)) hleft]
  exact Completion.getD_sharers_seed_eq hclosed.hierarchy hmemory hreached hroot

end NormalizedConfiguration

open NormalizedConfiguration in
/-- **The number of sharers decides about the sets.** Where sets are left to templates, a cache
fails a check of them just in case it is below the first level and has the template of a role for a
number of sharers that is no power of two, or that takes its sets beyond 64 bits. The sharers are
the records that link to the cache, unless some record stands in for the memory. -/
theorem failedCheck_sets_iff {docs : List Document} {n : NormalizedConfiguration}
    (hread : ofDocuments docs = .ok n) (lookups : ModuleLookups)
    (hunset : ∀ (name : String) (written : Document), n.caches[name]? = some written →
      written.get? "sets" = none) :
    let r := n.applyDefaults lookups
    (∀ (name : String) (p : Predicate) (found : Json),
      .failedCheck RecordKind.cache.name name "sets" p found ∈ r.diagnostics ↔
        name ∉ r.hierarchy.roots ∧ p = .powerOfTwo ∧ ∃ record role,
          r.caches[name]? = some record ∧ record.get? "sets" = some found ∧
            found = .ofNat ((Template.shared role).setFactor * n.sharersOf name) ∧
            ¬((n.sharersOf name).isPowerOfTwo ∧
              (Template.shared role).setFactor * n.sharersOf name < UInt64.size)) ∧
    (memorySentinel ∉ n.caches ∧ memorySentinel ∉ n.walkers →
      ∀ (name : String) (record : Document), r.caches[name]? = some record →
        name ∉ r.hierarchy.roots →
          n.sharersOf name = r.hierarchy.system.values.countP (Hierarchy.linksTo name) ∧
            ∃ role, record.get? "sets" =
              some (.ofNat ((Template.shared role).setFactor * n.sharersOf name))) ∧
    (∀ (role : Role) (sharers : Nat),
      ((Template.shared role).document sharers).get? "sets" =
          some (.ofNat ((Template.shared role).setFactor * sharers)) ∧
        (((Template.shared role).setFactor * sharers).isPowerOfTwo ↔ sharers.isPowerOfTwo)) := by
  intro r
  have hclosed := closed_of_ofDocuments hread
  have hroots : r.hierarchy.roots = n.hierarchy.roots := roots_resolved_eq hclosed lookups
  have hnamed : r.caches.Named := (hierarchy_named_resolved hclosed lookups).caches
  refine ⟨fun name p found => ?_, fun hmemory name record hget hroot => ?_, fun role sharers =>
    ⟨by cases role <;> rfl, isPowerOfTwo_sets_iff role sharers⟩⟩
  -- which sets fail: those of first-level templates are fixed powers of two, so none of these does
  · rw [ResolvedConfiguration.failedCheck_sets_mem_iff hnamed, hroots]
    constructor
    · rintro ⟨record, hget, hvalue, hp, hfails⟩
      by_cases hroot : name ∈ n.hierarchy.roots
      · obtain ⟨sets, hpower, hword, rfl⟩ :=
          sets_resolved_of_root hclosed hunset hroot hget hvalue
        exact absurd ⟨hpower, hword⟩ ((holds_ofNat_eq_false_iff hp).mp hfails).2
      -- below the first level the sets are a factor times the sharers, and the factor is no
      -- obstacle
      · have hsets := sets_resolved_of_not_root hclosed hunset hroot hget
        rw [hvalue] at hsets
        obtain ⟨role, _, rfl⟩ := Option.map_eq_some_iff.mp hsets.symm
        rw [holds_ofNat_eq_false_iff hp, isPowerOfTwo_sets_iff] at hfails
        exact ⟨hroot, hfails.1, record, role, hget, hvalue, rfl, hfails.2⟩
    · rintro ⟨_, rfl, record, role, hget, hvalue, rfl, hfails⟩
      refine ⟨record, hget, hvalue, by decide, ?_⟩
      rw [holds_ofNat_eq_false_iff (by decide), isPowerOfTwo_sets_iff]
      exact ⟨rfl, hfails⟩
  -- the sharers at completion are the links in the end, since no template brings a link to a record
  · have hsystem : memorySentinel ∉ n.hierarchy.system := by
      rw [Hierarchy.mem_system_iff]
      exact fun hmem => hmem.elim hmemory.2 hmemory.1
    rw [hroots] at hroot
    obtain ⟨hsharers, hrole⟩ :=
      sharersOf_eq hclosed hsystem hroot (NameMap.mem_iff_exists.mpr ⟨record, hget⟩)
    obtain ⟨role, hrole⟩ := NameMap.mem_iff_exists.mp hrole
    refine ⟨hsharers, role, ?_⟩
    rw [sets_resolved_of_not_root hclosed hunset hroot hget, hrole, Option.map_some]

/-- Two cores that share a second-level cache and the instruction cache above it. The instruction
cache is counted once although both cores name it, so the second-level cache has three sharers and
not four. -/
def sharedInstructions : List Document :=
  let core : Json := .object [("L1I", .string "instructions"), ("L2C", .string "second")]
  [[("num_cores", .ofNat 2), ("ooo_cpu", .array [core, core])]]

open NormalizedConfiguration in
/-- The three first-level caches above the second-level cache make it fail; the last-level cache,
which has one sharer, passes. -/
theorem failedCheck_sets_sharedInstructions :
    ∃ n, ofDocuments sharedInstructions = .ok n ∧
      (∀ (name : String) (written : Document), n.caches[name]? = some written →
        written.get? "sets" = none) ∧
      n.sharersOf "second" = 3 ∧
      .failedCheck RecordKind.cache.name "second" "sets" .powerOfTwo (.ofNat 1536) ∈
        (n.applyDefaults .nothing).diagnostics ∧
      n.sharersOf lastLevelName = 1 ∧
      ∀ (p : Predicate) (found : Json),
        .failedCheck RecordKind.cache.name lastLevelName "sets" p found ∉
          (n.applyDefaults .nothing).diagnostics := by
  have hcomputed : ∃ n, ofDocuments sharedInstructions = .ok n ∧
      (∀ written ∈ n.caches.values, written.get? "sets" = none) ∧
      n.sharersOf "second" = 3 ∧ n.sharersOf lastLevelName = 1 ∧
      "second" ∈ (n.applyDefaults .nothing).caches ∧
      ((n.applyDefaults .nothing).caches["second"]?.getD []).get? "sets" = some (.ofNat 1536) ∧
      "second" ∉ (n.applyDefaults .nothing).hierarchy.roots := by
    simp -zeta only [applyDefaults_eq_sorting]
    decide +kernel
  obtain ⟨n, hread, hunset, hthree, hone, hmem, hsets, hroot⟩ := hcomputed
  have hunset : ∀ (name : String) (written : Document), n.caches[name]? = some written →
      written.get? "sets" = none :=
    fun name written hget => hunset written (NameMap.mem_values_iff.mpr ⟨name, hget⟩)
  obtain ⟨hfails, _⟩ := failedCheck_sets_iff hread .nothing hunset
  refine ⟨n, hread, hunset, hthree, ?_, hone, fun p found hmem => ?_⟩
  · obtain ⟨record, hget⟩ := NameMap.mem_iff_exists.mp hmem
    rw [hget, Option.getD_some] at hsets
    refine (hfails "second" .powerOfTwo _).mpr
      ⟨hroot, rfl, record, .l2c, hget, hsets, by rw [hthree]; rfl, fun hboth => ?_⟩
    rw [hthree, ← isPowerOfTwo_iff] at hboth
    exact absurd hboth.1 (by decide)
  · obtain ⟨_, _, record, role, _, _, _, hnot⟩ := (hfails lastLevelName p found).mp hmem
    rw [hone] at hnot
    exact hnot ⟨⟨0, rfl⟩, by cases role <;> decide⟩

/-- Three cores with defaults, which share the last-level cache. Its sets grow with the number of
sharers and are no power of two for three of them. -/
def threeCores : List Document := [[("num_cores", .ofNat 3)]]

open NormalizedConfiguration in
/-- Defaults fail the checks: three times 2048 sets are no power of two. -/
theorem failedCheck_sets_threeCores :
    ∃ n, ofDocuments threeCores = .ok n ∧
      (∀ (name : String) (written : Document), n.caches[name]? = some written →
        written.get? "sets" = none) ∧
      .failedCheck RecordKind.cache.name lastLevelName "sets" .powerOfTwo (.ofNat 6144) ∈
        (n.applyDefaults .nothing).diagnostics := by
  have hcomputed : ∃ n, ofDocuments threeCores = .ok n ∧
      (∀ written ∈ n.caches.values, written.get? "sets" = none) ∧
      .failedCheck RecordKind.cache.name lastLevelName "sets" .powerOfTwo (.ofNat 6144) ∈
        (n.applyDefaults .nothing).diagnostics := by
    simp -zeta only [applyDefaults_eq_sorting]
    decide +kernel
  obtain ⟨n, hread, hunset, hfails⟩ := hcomputed
  exact ⟨n, hread, fun name written hget =>
    hunset written (NameMap.mem_values_iff.mpr ⟨name, hget⟩), hfails⟩

end MemoryHierarchy
