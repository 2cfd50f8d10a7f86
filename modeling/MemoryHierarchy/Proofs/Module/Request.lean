import Mathlib.Data.List.Induction
import MemoryHierarchy.Proofs.Module.Resolution

/-!
# Each name is looked up once, and bits follow the first requests

A name may be asked for by several records, and several names may mean one module, so repetitions
are dropped twice: among the requests, by the name that is asked for, and among the modules, by the
name of what was found. `ModuleResolution.Collected` says exactly what has been collected when some
requests have been answered, in terms of the first request for each name. `resolve_eq` puts this
together for all records of a configuration, with the modules that nobody asked for behind the
others.
-/

namespace MemoryHierarchy

/-! ## First occurrences

Requests repeat names. What counts are the first ones, and dropping later ones commutes with going
on. -/

section FirstOccurrences

variable {α β : Type}

private theorem eraseDupsBy_loop_append (r : α → α → Bool) (items others kept : List α) :
    List.eraseDupsBy.loop r (items ++ others) kept =
      List.eraseDupsBy.loop r others (List.eraseDupsBy.loop r items kept).reverse := by
  induction items generalizing kept with
  | nil => rw [List.nil_append, List.eraseDupsBy.loop, List.reverse_reverse]
  | cons item items ih =>
    rw [List.cons_append, List.eraseDupsBy.loop.eq_def, List.eraseDupsBy.loop.eq_def r (_ :: _)]
    dsimp only
    split
    · exact ih kept
    · exact ih (item :: kept)

/-- One more item is kept unless it repeats one that has been kept. -/
theorem eraseDupsBy_concat (r : α → α → Bool) (items : List α) (item : α) :
    (items ++ [item]).eraseDupsBy r =
      if (items.eraseDupsBy r).any (r item) then items.eraseDupsBy r
      else items.eraseDupsBy r ++ [item] := by
  rw [List.eraseDupsBy, eraseDupsBy_loop_append, ← List.eraseDupsBy]
  rw [List.eraseDupsBy.loop, List.any_reverse]
  cases (items.eraseDupsBy r).any (r item) with
  | true => simp [List.eraseDupsBy.loop]
  | false => simp [List.eraseDupsBy.loop]

variable [BEq β]

/-- The keys of the first items of each key are the keys, each of them once. -/
theorem map_eraseDupsBy (key : α → β) (items : List α) :
    (items.eraseDupsBy fun a b => key a == key b).map key = (items.map key).eraseDups := by
  induction items using List.reverseRecOn with
  | nil => rfl
  | append_singleton items item ih =>
    rw [List.map_append, List.map_singleton, List.eraseDups, eraseDupsBy_concat,
      eraseDupsBy_concat, ← List.eraseDups, ← ih, List.any_map]
    simp only [Function.comp_def]
    split
    · rfl
    · rw [List.map_append, List.map_singleton]

/-- What is kept for a key is the first item of that key. -/
theorem find?_of_mem_eraseDupsBy [LawfulBEq β] {key : α → β} {items : List α} {item : α}
    (h : item ∈ items.eraseDupsBy fun a b => key a == key b) :
    items.find? (fun other => key other == key item) = some item := by
  induction items using List.reverseRecOn with
  | nil => exact absurd h List.not_mem_nil
  | append_singleton items last ih =>
    rw [eraseDupsBy_concat] at h
    split at h
    · rw [List.find?_append, ih h, Option.some_or]
    next hnew =>
    rw [List.mem_append, List.mem_singleton] at h
    rcases h with h | rfl
    · rw [List.find?_append, ih h, Option.some_or]
    -- the last item is kept because no item before it has its key
    have hnone : items.find? (fun other => key other == key item) = none := by
      rw [List.find?_eq_none]
      intro other hother heq
      have hkey : key item ∈ (items.map key).eraseDups := by
        rw [List.mem_eraseDups, ← eq_of_beq heq]
        exact List.mem_map_of_mem hother
      rw [← map_eraseDupsBy, List.mem_map] at hkey
      obtain ⟨kept, hkept, hsame⟩ := hkey
      exact hnew (List.any_eq_true.mpr ⟨kept, hkept, beq_iff_eq.mpr hsame.symm⟩)
    rw [List.find?_append, hnone, Option.none_or, List.find?_singleton, if_pos (beq_self_eq_true _)]

end FirstOccurrences

/-! ## Modules in order

The bit of a module is its place among the modules that were found, with repetitions of a name left
out. -/

/-- The first of each module name. -/
def ModuleData.firsts (data : List ModuleData) : List ModuleData :=
  data.eraseDupsBy fun a b => a.name == b.name

/-- Modules with the bits of their places. -/
def ModuleData.numbered (data : List ModuleData) : List ModuleInfo :=
  data.mapIdx fun bit data => ⟨data, bit⟩

theorem ModuleData.length_numbered (data : List ModuleData) :
    (numbered data).length = data.length :=
  List.length_mapIdx

/-- An insertion adds to the modules whatever does not repeat a name. -/
theorem ModuleSet.modules_insert {s : ModuleSet} {data : List ModuleData}
    (h : s.modules = ModuleData.numbered (ModuleData.firsts data)) (requested : Option String)
    (found : ModuleData) :
    (s.insert requested found).modules =
      ModuleData.numbered (ModuleData.firsts (data ++ [found])) := by
  -- a set knows a name iff some module before has had it
  have hknown : (s.find? found.name).isSome =
      (ModuleData.firsts data).any (fun other => found.name == other.name) := by
    rw [Bool.eq_iff_iff, find?, List.find?_isSome, List.any_eq_true, h, ModuleData.numbered]
    constructor
    · rintro ⟨m, hm, hname⟩
      obtain ⟨i, hi, rfl⟩ := List.mem_mapIdx.mp hm
      exact ⟨_, List.getElem_mem hi, beq_iff_eq.mpr (of_decide_eq_true hname).symm⟩
    · rintro ⟨other, hother, hname⟩
      obtain ⟨i, hi, rfl⟩ := List.mem_iff_getElem.mp hother
      exact ⟨_, List.mem_mapIdx.mpr ⟨i, hi, rfl⟩, decide_eq_true (eq_of_beq hname).symm⟩
  rw [ModuleData.firsts, eraseDupsBy_concat, ← ModuleData.firsts]
  simp only [insert]
  rw [hknown]
  split
  · exact h
  · rw [h, ModuleData.length_numbered, ModuleData.numbered, ModuleData.numbered, List.mapIdx_concat]

namespace ModuleResolution

variable (kind : ModuleKind) (lookup : ModuleLookup)

/-! ## Requests

The state of a resolution is a function of the requests answered so far: the modules found for the
first request of each name, and a report where nothing was found. -/

/-- The first request for each name. -/
def firstRequests (asked : List (String × String)) : List (String × String) :=
  asked.eraseDupsBy fun a b => a.1 == b.1

/-- What is reported when a request is answered. A name is looked up once, so each report is made
once too. -/
def reports (asked : String × String) : List ModuleWarning :=
  match lookup.find? asked.1 with
  | some found => found.warnings
  | none => [.notFound kind asked.1 asked.2]

/-- The modules that are found for requests, in their order. -/
def found (asked : List (String × String)) : List ModuleData :=
  asked.filterMap fun ask => (lookup.find? ask.1).map (·.data)

/-- What has been collected once some requests have been answered: only the first request for each
name counts. -/
structure Collected (asked : List (String × String)) (r : ModuleResolution) : Prop where
  answered : Answered kind lookup r
  lookups : r.lookups = (firstRequests asked).map (·.1)
  modules : r.set.modules =
    ModuleData.numbered (ModuleData.firsts (found lookup (firstRequests asked)))
  warnings : r.warnings = (firstRequests asked).flatMap (reports kind lookup)

theorem collected_start : Collected kind lookup [] (start kind) where
  answered := answered_start
  lookups := rfl
  modules := rfl
  warnings := rfl

theorem firstRequests_concat (asked : List (String × String)) (ask : String × String) :
    firstRequests (asked ++ [ask]) =
      if ask.1 ∈ (firstRequests asked).map (·.1) then firstRequests asked
      else firstRequests asked ++ [ask] := by
  rw [firstRequests, eraseDupsBy_concat, ← firstRequests]
  refine if_congr ?_ rfl rfl
  rw [List.any_eq_true, List.mem_map]
  exact exists_congr fun other => and_congr_right fun _ => beq_iff_eq.trans eq_comm

variable {kind lookup}

/-- One request more. -/
theorem Collected.request {asked : List (String × String)} {r : ModuleResolution}
    (h : Collected kind lookup asked r) (ask : String × String) :
    Collected kind lookup (asked ++ [ask]) (r.request kind lookup ask) := by
  -- a name that has been looked up makes no first request, and changes nothing
  by_cases hseen : ask.1 ∈ r.lookups
  · have hfirsts : firstRequests (asked ++ [ask]) = firstRequests asked := by
      rw [firstRequests_concat, if_pos (h.lookups ▸ hseen)]
    rw [h.answered.request_of_mem hseen]
    exact ⟨h.answered, hfirsts ▸ h.lookups, hfirsts ▸ h.modules, hfirsts ▸ h.warnings⟩
  have hfirsts : firstRequests (asked ++ [ask]) = firstRequests asked ++ [ask] := by
    rw [firstRequests_concat, if_neg (h.lookups ▸ hseen)]
  have hnext : Answered kind lookup (r.request kind lookup ask) := (h.answered.request ask).1
  rw [h.answered.request_of_not_mem hseen] at hnext ⊢
  -- a new name is looked up: it brings a module or a report
  cases hfind : lookup.find? ask.1 with
  | some answer =>
    rw [hfind] at hnext
    refine ⟨hnext, ?_, ?_, ?_⟩
    · rw [hfirsts, List.map_append, h.lookups, List.map_singleton]
    · rw [ModuleSet.modules_insert h.modules, hfirsts, found, found, List.filterMap_append]
      simp [hfind]
    · rw [hfirsts, List.flatMap_append, h.warnings, List.flatMap_singleton, reports, hfind]
  | none =>
    rw [hfind] at hnext
    refine ⟨hnext, ?_, ?_, ?_⟩
    · rw [hfirsts, List.map_append, h.lookups, List.map_singleton]
    · rw [hfirsts, found, List.filterMap_append]
      simp [hfind, h.modules, found]
    · rw [hfirsts, List.flatMap_append, h.warnings, List.flatMap_singleton, reports, hfind]

/-- All requests. -/
theorem collected_requests (asked : List (String × String)) :
    Collected kind lookup asked (asked.foldl (request kind lookup) (start kind)) := by
  induction asked using List.reverseRecOn with
  | nil => exact collected_start kind lookup
  | append_singleton asked ask ih =>
    rw [List.foldl_append]
    exact ih.request ask

/-- Modules that nobody asked for go behind the others, and names and reports of requests stay. -/
theorem discoveries_eq (all : List FoundModule) {data : List ModuleData} {r : ModuleResolution}
    (h : r.set.modules = ModuleData.numbered (ModuleData.firsts data)) :
    (all.foldl discover r).set.modules =
        ModuleData.numbered (ModuleData.firsts (data ++ all.map (·.data))) ∧
      (all.foldl discover r).lookups = r.lookups ∧
      (all.foldl discover r).warnings = r.warnings ++ all.flatMap (·.warnings) := by
  induction all generalizing data r with
  | nil => simpa using h
  | cons first all ih =>
    have hfirst : (r.discover first).set.modules =
        ModuleData.numbered (ModuleData.firsts (data ++ [first.data])) :=
      ModuleSet.modules_insert h none first.data
    -- a discovery is an insertion without an alias
    obtain ⟨hmodules, hlookups, hwarnings⟩ := ih hfirst
    refine ⟨?_, hlookups, ?_⟩
    · rw [List.foldl_cons, hmodules, List.append_assoc, List.map_cons, List.singleton_append]
    · rw [List.foldl_cons, hwarnings, List.flatMap_cons, ← List.append_assoc]
      rfl

/-! ## Records

Requests come from records in order, slot by slot. So the first request for a name is the one of the
first record that has the name in a slot. -/

/-- The first record that asks for a name, as reports call it. Later records that ask for the same
name are not mentioned. -/
def firstAsker (slot : String) (records : List Document) (name : String) : String :=
  ((records.find? fun record => name ∈ record.names slot).bind Document.name?).getD "<unnamed>"

theorem find?_requests (slot : String) (records : List Document) (name : String) :
    (requests slot records).find? (fun ask => ask.1 == name) =
      (records.find? fun record => name ∈ record.names slot).map
        fun record => (name, record.name?.getD "<unnamed>") := by
  induction records with
  | nil => rfl
  | cons record records ih =>
    -- the requests of one record differ in their names only
    have hfind : (record.names slot).find?
        ((fun ask => ask.1 == name) ∘ fun name => (name, record.name?.getD "<unnamed>")) =
          if name ∈ record.names slot then some name else none := by
      show (record.names slot).find? (fun other => other == name) = _
      induction record.names slot with
      | nil => rfl
      | cons other names ih => grind
    rw [requests, List.flatMap_cons, List.find?_append, ← requests, ih, List.find?_map, hfind,
      List.find?_cons]
    by_cases hname : name ∈ record.names slot
    · simp [hname]
    · simp [hname]

/-- The first requests are for the names in the order in which they first appear, and each comes
from the first record that asks for the name. -/
theorem firstRequests_requests (slot : String) (records : List Document) :
    firstRequests (requests slot records) =
      (records.flatMap (·.names slot)).eraseDups.map
        fun name => (name, firstAsker slot records name) := by
  have hfirst : ∀ ask ∈ firstRequests (requests slot records),
      (ask.1, firstAsker slot records ask.1) = ask := by
    intro ask hask
    have hfind := find?_of_mem_eraseDupsBy hask
    rw [find?_requests, Option.map_eq_some_iff] at hfind
    obtain ⟨record, hrecord, hask⟩ := hfind
    rw [firstAsker, hrecord, ← hask]
    rfl
  have hnames : (requests slot records).map (·.1) = records.flatMap (·.names slot) := by
    rw [requests, List.map_flatMap]
    simp only [List.map_map, Function.comp_def, List.map_id']
  -- taking the first of each name and taking the names can be done in either order
  rw [← hnames, ← map_eraseDupsBy, ← firstRequests, List.map_map]
  exact (List.map_id _).symm.trans (List.map_congr_left fun ask hask => (hfirst ask hask).symm)

end ModuleResolution

/-- Is a name reported under which nothing was found? -/
def ModuleWarning.isNotFound : ModuleWarning → Bool
  | notFound .. => true
  | malformedManifest _ => false

namespace ModuleResolution

variable {kind : ModuleKind} {lookup : ModuleLookup}

theorem not_isNotFound_warnings (m : FoundModule) : m.warnings.filter (·.isNotFound) = [] := by
  unfold FoundModule.warnings
  cases m.malformedManifest with
  | none => rfl
  | some file => rfl

/-- Of what is reported for requests, the names under which nothing was found. -/
theorem filter_isNotFound_reports (asked : List (String × String)) :
    (asked.flatMap (reports kind lookup)).filter (·.isNotFound) =
      (asked.filter fun ask => (lookup.find? ask.1).isNone).map
        fun ask => .notFound kind ask.1 ask.2 := by
  induction asked with
  | nil => rfl
  | cons ask asked ih =>
    rw [List.flatMap_cons, List.filter_append, ih, reports, List.filter_cons]
    cases hfind : lookup.find? ask.1 with
    | some answer => simp [not_isNotFound_warnings]
    | none => simp [ModuleWarning.isNotFound]

/-- **Names are looked up once each, and bits are given in the order of the first requests.** The
names that are looked up are those in the slot of some record, each at its first place. The modules
are what is found under them, and under `compileAll` all others behind, each at the first place of
its name and with the bit of that place. And of the names under which nothing is found each is
reported once, with the first record that asks for it. -/
theorem resolve_eq (kind : ModuleKind) (lookup : ModuleLookup) (compileAll : Bool) (slot : String)
    (records : List Document) :
    let names := (records.flatMap (·.names slot)).eraseDups
    let asked := names.filterMap fun name => (lookup.find? name).map (·.data)
    let others := if compileAll then lookup.all.map (·.data) else []
    let r := resolve kind lookup compileAll slot records
    r.lookups = names ∧
      r.set.modules =
        ((asked ++ others).eraseDupsBy fun a b => a.name == b.name).mapIdx
          (fun bit data => ⟨data, bit⟩) ∧
      r.warnings.filter (·.isNotFound) =
        (names.filter fun name => (lookup.find? name).isNone).map
          fun name => .notFound kind name (firstAsker slot records name) := by
  intro names asked others r
  -- all that counts is the list of first requests, which the invariant gives
  have hcollected : Collected kind lookup (requests slot records)
      ((requests slot records).foldl (request kind lookup) (start kind)) :=
    collected_requests (requests slot records)
  have hrequests := firstRequests_requests slot records
  have hlookups : (firstRequests (requests slot records)).map (·.1) = names := by
    rw [hrequests, List.map_map]
    exact List.map_id names
  have hfound : found lookup (firstRequests (requests slot records)) = asked := by
    rw [hrequests, found, List.filterMap_map]
    rfl
  have hmissing : ((firstRequests (requests slot records)).flatMap (reports kind lookup)).filter
      (·.isNotFound) = (names.filter fun name => (lookup.find? name).isNone).map
        fun name => .notFound kind name (firstAsker slot records name) := by
    rw [filter_isNotFound_reports, hrequests, List.filter_map, List.map_map]
    rfl
  -- modules that nobody asked for go behind the others, and are reported for other reasons only
  cases compileAll with
  | false =>
    refine ⟨hcollected.lookups.trans hlookups, ?_, ?_⟩
    · have hall : asked ++ others = asked := List.append_nil asked
      rw [hall, ← hfound]
      exact hcollected.modules
    · rw [← hmissing, ← hcollected.warnings]
      rfl
  | true =>
    obtain ⟨hmodules, hkept, hwarnings⟩ := discoveries_eq lookup.all hcollected.modules
    refine ⟨hkept.trans (hcollected.lookups.trans hlookups), ?_, ?_⟩
    · rw [← hfound]
      exact hmodules
    · rw [← hmissing, ← hcollected.warnings]
      show (lookup.all.foldl discover _).warnings.filter _ = _
      have hnone : (lookup.all.flatMap (·.warnings)).filter (·.isNotFound) = [] := by
        rw [List.filter_flatMap]
        exact List.flatMap_eq_nil_iff.mpr fun m _ => not_isNotFound_warnings m
      rw [hwarnings, List.filter_append, hnone, List.append_nil]

end ModuleResolution

end MemoryHierarchy
