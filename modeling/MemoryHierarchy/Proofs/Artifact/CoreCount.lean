import MemoryHierarchy.Proofs.Artifact.Header
import MemoryHierarchy.Proofs.Check.ModuleSlot

/-!
# The number of cores

How many cores there are is written down in several places: in the list of cores, in the constants,
in the header that is made of them, and in an array of the wiring, which is made of the typed cores.
All of them come from the one list that normalization gives, and none of the passes makes it longer
or shorter. The root is a place of its own. Its template has an entry for the number of cores, but
the root keeps the keys of `rootKeys` only, and that number is the one entry of the template that is
not among them; so there is one core in the root, whatever the documents ask for.
-/

namespace MemoryHierarchy

/-! ## The array of cores

The wiring lists the cores in an array, whose type gives their number. There is no second array of
that name, so the number that the array gives is the one that a reader of the wiring finds. -/

namespace Wiring

/-- An array that a wiring gives, with no other under its name. Without the second half another
array of the same name could say something else. -/
structure Gives (w : Wiring) (a : PointerArray) : Prop where
  line : a.line ∈ w.lines
  unique : ∀ other ∈ w.arrays, other.name = a.name → other = a

theorem nodup_names_arrays (m : Model) (order : List Element) :
    ((ofOrder m order).arrays.map PointerArray.name).Nodup := by
  show ["ooo_cpu", "caches", "ptws", "operables"].Nodup
  decide

theorem gives_of_mem {m : Model} {order : List Element} {a : PointerArray}
    (ha : a ∈ (ofOrder m order).arrays) : (ofOrder m order).Gives a :=
  ⟨line_mem_lines_of_array ha, fun _ hother hname =>
    List.inj_on_of_nodup_map (nodup_names_arrays m order) hother ha hname⟩

end Wiring

namespace Model

/-- The cores are the elements that the array of cores lists. -/
theorem coreNames_elements (m : Model) :
    m.elements.filterMap Element.coreName? = m.cores.map fun core => core.name := by
  have hrecords : (m.records.mergeSort Element.before).filterMap Element.coreName? = [] := by
    rw [List.filterMap_eq_nil_iff]
    intro element helement
    have hmem : element ∈ m.records := List.mem_mergeSort.mp helement
    -- a record is a cache or a walker
    rcases List.mem_append.mp hmem with hcache | hwalker
    · obtain ⟨_, _, rfl⟩ := List.mem_map.mp hcache
      rfl
    · obtain ⟨_, _, rfl⟩ := List.mem_map.mp hwalker
      rfl
  have hcores : (m.cores.map Element.core).filterMap Element.coreName? =
      m.cores.map fun core => core.name := by
    rw [List.filterMap_map]
    exact List.filterMap_eq_map_iff_forall_eq_some.mpr fun _ _ => rfl
  rw [elements, List.filterMap_append, List.filterMap_append, hrecords, hcores]
  rfl

/-- The texts of a model say how many cores there are. They do so in two places, a constant of the
header and the length of an array of the wiring, and no other constant or array goes by either name.
-/
structure CountsCores (m : Model) (count : Nat) : Prop where
  constant : Header.Gives m (.size "NUM_CPUS" count)
  array : ∃ a, a.name = "ooo_cpu" ∧ a.members.length = count ∧ m.wiring.Gives a

/-- A model counts its cores right if its constants do. -/
theorem countsCores {m : Model} (hcount : m.constants.coreCount = m.cores.length) :
    m.CountsCores m.cores.length where
  constant := by
    apply Header.gives_of_mem
    simp [Header.constants, HeaderConstant.ofConstants, hcount]
  array := by
    refine ⟨⟨"O3_CPU", "ooo_cpu", m.cores.map fun core => core.name⟩, rfl, List.length_map _, ?_⟩
    apply Wiring.gives_of_mem
    rw [← coreNames_elements]
    exact List.mem_cons_self

end Model

/-! ## The number of cores in the root

The root of a document keeps the keys that have defaults, with one exception: the number of cores.
So the default fills in what has been left out, whatever is asked for. -/

namespace NormalizedConfiguration

/-- The number of cores is the one entry of the template that the root of a document drops. -/
theorem mem_rootKeys_iff_of_mem_template {key : String} (hkey : key ∈ Template.root.keys) :
    key ∈ rootKeys ↔ key ≠ "num_cores" := by
  revert key
  decide

/-- The root says that there is one core. -/
theorem coreCount_resolvedRoot {docs : List Document} {n : NormalizedConfiguration}
    (hread : ofDocuments docs = .ok n) : n.resolvedRoot.natural? "num_cores" = some 1 := by
  obtain ⟨_, _, hread⟩ := exists_merged_of_ofDocuments hread
  have hdropped : n.root.contains "num_cores" = false := by
    rw [Document.contains_eq_false_iff, get?_root_of_ofDocument hread (by decide),
      if_neg fun hmem => (mem_rootKeys_iff_of_mem_template (by decide)).mp hmem rfl]
  have htemplate : Template.root.Distinct := by decide
  rw [resolvedRoot, Document.natural?, Document.get?_mergeAll_pair_of_absent htemplate hdropped]
  rfl

/-! ## The number of cores elsewhere

Cores are counted once, when the document is read, and no pass over the hierarchy adds or drops one.
-/

/-- Resolving neither adds nor drops a core. -/
theorem length_cores_resolve {n : NormalizedConfiguration} (hclosed : n.Closed) (options : Options)
    (lookups : ModuleLookups) :
    (n.resolve options lookups).configuration.cores.length = n.cores.length :=
  -- options are not asked for by the cores
  (slotsWritten_cores hclosed lookups).length_eq.symm

end NormalizedConfiguration

open NormalizedConfiguration in
/-- **The number of cores is the same everywhere but in the root**, where it is one. It is the
number that the documents ask for. -/
theorem coreCount_of_ofDocuments {docs : List Document} {n : NormalizedConfiguration}
    (hread : ofDocuments docs = .ok n) (options : Options) (lookups : ModuleLookups) :
    let r := (n.resolve options lookups).configuration
    coresAskedFor docs = some r.cores.length ∧ r.constants.coreCount = r.cores.length ∧
      (∀ artifacts, r.emit = .ok artifacts → ∃ m, Model.ofResolved r = .ok m ∧
        artifacts.constants = textOfLines (Header.lines m) ∧
        artifacts.wiring = textOfLines m.wiring.lines ∧ m.CountsCores r.cores.length) ∧
      r.root.natural? "num_cores" = some 1 ∧
      (r.root.natural? "num_cores" = some r.cores.length ↔ coresAskedFor docs = some 1) := by
  intro r
  have hlength : r.cores.length = n.cores.length :=
    length_cores_resolve (closed_of_ofDocuments hread) options lookups
  have hasked : coresAskedFor docs = some r.cores.length := by
    rw [hlength]
    exact (length_cores_of_ofDocuments hread).2
  have hcount : r.constants.coreCount = r.cores.length := hlength.symm
  have hroot : r.root.natural? "num_cores" = some 1 := coreCount_resolvedRoot hread
  -- header and wiring are written from the model, which has one core for each that was resolved
  refine ⟨hasked, hcount, fun artifacts hemit => ?_, hroot, ?_⟩
  · obtain ⟨m, hmodel, htexts⟩ := ResolvedConfiguration.exists_ofModel_of_emit hemit
    have htyped : r.cores.length = m.cores.length :=
      (Model.typed_of_ofResolved hmodel).cores.length_eq
    obtain ⟨_, rfl⟩ := Artifacts.ofModel_eq_ok_iff.mp htexts
    refine ⟨m, hmodel, rfl, rfl, ?_⟩
    rw [htyped]
    apply Model.countsCores
    rw [Model.constants_of_ofResolved hmodel, hcount, htyped]
  · rw [hroot, hasked]
    exact eq_comm

open NormalizedConfiguration in
theorem emit_declaredCache :
    ∃ n, ofDocuments declaredCache = .ok n ∧
      (n.resolve {} .nothing).configuration.root.natural? "num_cores" = some 1 ∧
      (n.resolve {} .nothing).configuration.cores.length = 2 ∧
      ∃ artifacts, (n.resolve {} .nothing).configuration.emit = .ok artifacts := by
  simp -zeta only [resolve_eq_sorting, ResolvedConfiguration.emit_eq_sorting]
  decide +kernel

open NormalizedConfiguration in
/-- Two cores are asked for before five are, and two there are in what is emitted. -/
theorem coreCount_of_declaredCache :
    ∃ n, ofDocuments declaredCache = .ok n ∧
      ∃ artifacts m, (n.resolve {} .nothing).configuration.emit = .ok artifacts ∧
        artifacts.constants = textOfLines (Header.lines m) ∧
        artifacts.wiring = textOfLines m.wiring.lines ∧ m.CountsCores 2 := by
  obtain ⟨n, hread, _, htwo, artifacts, hemit⟩ := emit_declaredCache
  obtain ⟨_, _, hemitted, _⟩ := coreCount_of_ofDocuments hread {} .nothing
  obtain ⟨m, _, hconstants, hwiring, hcounts⟩ := hemitted artifacts hemit
  rw [htwo] at hcounts
  exact ⟨n, hread, artifacts, m, hemit, hconstants, hwiring, hcounts⟩

open NormalizedConfiguration in
/-- The root of two cores has a number of its own. -/
theorem root_coreCount_ne_of_declaredCache :
    ∃ n, ofDocuments declaredCache = .ok n ∧
      (n.resolve {} .nothing).configuration.root.natural? "num_cores" ≠
        some (n.resolve {} .nothing).configuration.cores.length := by
  obtain ⟨n, hread, hone, htwo, _⟩ := emit_declaredCache
  refine ⟨n, hread, ?_⟩
  rw [hone, htwo]
  decide

end MemoryHierarchy
