import MemoryHierarchy.Compiler
import MemoryHierarchy.Proofs.Check.Topology
import MemoryHierarchy.Proofs.Model.Basic
import MemoryHierarchy.Proofs.Resolution.Computation
import MemoryHierarchy.Proofs.Resolution.Level

/-!
# When the order of declarations is found

The order fails at the first element that points at a name which is not declared before it. Caches
and walkers are sorted by their depth, deepest first. So it is enough that a cache or walker points
at nothing but the memories and deeper records, and a core at nothing but records
(`declarationOrder_of_deeper`). A resolved configuration whose topology passes the checks is such
(`declarationOrder_eq_ok`).
-/

namespace MemoryHierarchy

/-! ## The check as it goes

The set of declared names grows by one with each element. The induction is over the elements with
that set generalized, since what is known at the end is about the set at the beginning. -/

/-- **Nothing points forward** iff each reference of an element is declared before it. The induction
is over the elements, with what has been declared generalized. -/
theorem firstForwardReference?_eq_none_iff {declared : NameSet} {elements : List Element} :
    firstForwardReference? declared elements = none ↔
      ∀ before element after, elements = before ++ element :: after →
        ∀ name ∈ element.references, name ∈ declared ∨ ∃ e ∈ before, e.name = name := by
  induction elements generalizing declared with
  | nil => simp [firstForwardReference?]
  | cons first rest ih =>
    rw [firstForwardReference?]
    cases hfind : first.references.find? fun name => !declared.contains name with
    | some name =>
      -- the first element points at a name that is declared nowhere before it
      have hname : name ∉ declared := by
        intro hmem
        have hlacks := List.find?_some hfind
        simp [Std.ExtTreeSet.contains_iff_mem.mpr hmem] at hlacks
      simp only [reduceCtorEq, false_iff]
      intro hall
      rcases hall [] first rest rfl name (List.mem_of_find?_eq_some hfind) with hmem | ⟨e, he, _⟩
      · exact hname hmem
      · cases he
    | none =>
      have hfirst : ∀ name ∈ first.references, name ∈ declared := by
        intro name hname
        simpa using List.find?_eq_none.mp hfind name hname
      simp only [ih, Std.ExtTreeSet.mem_insert, Std.compare_eq_iff_eq]
      constructor
      · intro hrest before element after hsplit name hname
        cases before with
        | nil =>
          obtain ⟨rfl, rfl⟩ := List.cons.inj hsplit
          exact Or.inl (hfirst name hname)
        | cons e before =>
          obtain ⟨rfl, hsplit'⟩ := List.cons.inj hsplit
          rcases hrest before element after hsplit' name hname with (heq | hmem) | ⟨e, he, heq⟩
          · exact Or.inr ⟨_, List.mem_cons_self, heq⟩
          · exact Or.inl hmem
          · exact Or.inr ⟨e, List.mem_cons_of_mem _ he, heq⟩
      · intro hall before element after hsplit name hname
        rcases hall (first :: before) element after (by rw [hsplit, List.cons_append]) name hname
          with hmem | ⟨e, he, heq⟩
        · exact Or.inl (Or.inr hmem)
        · rcases List.mem_cons.mp he with rfl | he
          · exact Or.inl (Or.inl heq)
          · exact Or.inr ⟨e, he, heq⟩

/-! ## Deeper records come first

Sorting puts a record of a greater level before one of a lesser. If every link leads to a greater
level, what a record points at has been declared when its turn comes. -/

namespace Element

theorem before_iff {a b : Element} :
    a.before b = true ↔ b.fillLevel < a.fillLevel ∨
      a.fillLevel = b.fillLevel ∧ ¬b.name < a.name := by
  simp [before]

theorem before_trans (a b c : Element) (hab : a.before b = true) (hbc : b.before c = true) :
    a.before c = true := by
  rw [before_iff] at *
  rcases hab with hab | ⟨hab, hname⟩
  · rcases hbc with hbc | ⟨hbc, _⟩ <;> exact Or.inl (by omega)
  · rcases hbc with hbc | ⟨hbc, hname'⟩
    · exact Or.inl (by omega)
    · refine Or.inr ⟨hab.trans hbc, ?_⟩
      rw [String.not_lt] at *
      exact String.le_trans hname hname'

theorem before_total (a b : Element) : (a.before b || b.before a) = true := by
  rw [Bool.or_eq_true, before_iff, before_iff]
  rcases Nat.lt_trichotomy a.fillLevel b.fillLevel with hlt | heq | hlt
  · exact Or.inr (Or.inl hlt)
  · rcases String.le_total a.name b.name with hle | hle
    · exact Or.inl (Or.inr ⟨heq, String.not_lt.mpr hle⟩)
    · exact Or.inr (Or.inr ⟨heq.symm, String.not_lt.mpr hle⟩)
  · exact Or.inl (Or.inl hlt)

end Element

namespace Model

variable {m : Model} {element : Element}

/-- A deeper record is declared before one that is less deep. -/
theorem mem_before_of_fillLevel_lt {before after : List Element}
    (hsplit : m.records.mergeSort Element.before = before ++ element :: after) {deeper : Element}
    (hmem : deeper ∈ m.records) (hlevel : element.fillLevel < deeper.fillLevel) :
    deeper ∈ before := by
  have hsorted := List.pairwise_mergeSort Element.before_trans Element.before_total m.records
  have hsorted_mem : deeper ∈ m.records.mergeSort Element.before := List.mem_mergeSort.mpr hmem
  rw [hsplit, List.mem_append, List.mem_cons] at hsorted_mem
  rw [hsplit, List.pairwise_append, List.pairwise_cons] at hsorted
  -- the sorted list has it before, at, or behind the element
  rcases hsorted_mem with hmem | rfl | hmem
  · exact hmem
  · omega
  · have := Element.before_iff.mp (hsorted.2.1.1 deeper hmem)
    omega

end Model

/-- An element of two lists in a row is in the first, or the whole first list is before it. -/
theorem split_append {α : Type} {xs ys before after : List α} {x : α}
    (hsplit : xs ++ ys = before ++ x :: after) :
    (∃ rest, xs = before ++ x :: rest) ∨ ∃ rest, before = xs ++ rest ∧ ys = rest ++ x :: after := by
  rcases List.append_eq_append_iff.mp hsplit with ⟨rest, hbefore, hys⟩ | ⟨rest, hxs, hafter⟩
  · exact Or.inr ⟨rest, hbefore, hys⟩
  · cases rest with
    | nil => exact Or.inr ⟨[], by simpa using hxs.symm, hafter.symm⟩
    | cons y rest =>
      obtain ⟨rfl, _⟩ := List.cons.inj hafter
      exact Or.inl ⟨rest, hxs⟩

/-- **An order is found** where records point at memories and deeper records only, and cores at
records. Deeper records are declared first, and equal levels do not occur along a link. -/
theorem declarationOrder_of_deeper {m : Model}
    (hrecords : ∀ element ∈ m.records, ∀ name ∈ element.references,
      name = memorySentinel ∨ name = virtualMemoryName ∨
        ∃ deeper ∈ m.records, deeper.name = name ∧ element.fillLevel < deeper.fillLevel)
    (hcores : ∀ core ∈ m.cores, ∀ name ∈ (Element.core core).references,
      ∃ element ∈ m.records, element.name = name) :
    declarationOrder m = .ok m.elements := by
  have hnone : firstForwardReference? {memorySentinel} m.elements = none := by
    rw [firstForwardReference?_eq_none_iff]
    intro before element after hsplit name hname
    -- the element is a memory, a record behind deeper ones, or a core behind all records
    rcases split_append hsplit with ⟨rest, hfront⟩ | ⟨rest, rfl, hlast⟩
    · rcases split_append hfront with ⟨rest, hfirst⟩ | ⟨pre, rfl, hmiddle⟩
      · -- the memories point at nothing
        have hmemory : element ∈
            [.physicalMemory m.physicalMemory, .virtualMemory m.virtualMemory] := by
          rw [hfirst]
          simp
        simp only [List.mem_cons, List.not_mem_nil, or_false] at hmemory
        rcases hmemory with rfl | rfl <;> cases hname
      · have hmem : element ∈ m.records := by
          refine List.mem_mergeSort.mp (?_ : element ∈ m.records.mergeSort Element.before)
          rw [hmiddle]
          simp
        rcases hrecords element hmem name hname with rfl | rfl | ⟨deeper, hdeeper, rfl, hlevel⟩
        · exact Or.inl (by simp)
        · exact Or.inr ⟨.virtualMemory m.virtualMemory, by simp, rfl⟩
        · exact Or.inr ⟨deeper, List.mem_append_right _
            (Model.mem_before_of_fillLevel_lt hmiddle hdeeper hlevel), rfl⟩
    · have hmem : element ∈ m.cores.map Element.core := by
        rw [hlast]
        simp
      obtain ⟨core, hcore, rfl⟩ := List.mem_map.mp hmem
      obtain ⟨record, hrecord, rfl⟩ := hcores core hcore name hname
      exact Or.inr ⟨record, by simp [hrecord], rfl⟩
  rw [declarationOrder, hnone]

/-! ## Resolved configurations

Links that survive the checks lead to surviving records, or to the memory, and levels grow along
them. Cores are declared behind all records, so the slots of a core need no level. -/

section

variable {r : ResolvedConfiguration} {m : Model} (hmodel : Model.ofResolved r = .ok m)
  (hnamed : r.hierarchy.system.Named) (hreferences : r.hierarchy.checkReferences = [])

include hmodel hnamed hreferences

/-- A cache or walker points at memories and deeper records. -/
theorem deeper_of_levelsGrow (hdisjoint : r.hierarchy.Disjoint) (hgrow : r.hierarchy.LevelsGrow)
    {element : Element} (hmem : element ∈ m.records) {name : String}
    (hname : name ∈ element.references) :
    name = memorySentinel ∨ name = virtualMemoryName ∨
      ∃ deeper ∈ m.records, deeper.name = name ∧ element.fillLevel < deeper.fillLevel := by
  obtain ⟨_, hlinked⟩ := Hierarchy.checkReferences_eq_nil_iff.mp hreferences
  obtain ⟨upper, record, hget, hfrom⟩ := Model.exists_record hmodel hmem
  rcases hfrom.references name hname with hlink | rfl
  · rcases (hlinked upper record hget).1 name hlink with hknown | rfl
    -- the reference is the lower level, and a record of the system
    · have hupper : r.hierarchy.system[upper]? = some record := by
        rcases hget with hcache | hwalker
        · exact Hierarchy.getElem?_system_of_cache hcache
        · exact hdisjoint.getElem?_system_of_walker hwalker
      obtain ⟨below, hbelow⟩ := NameMap.mem_iff_exists.mp hknown
      obtain ⟨deeper, hdeeper, hdeeperName, hfrom'⟩ := Model.exists_element hmodel hnamed hbelow
      obtain ⟨level, level', hlevel, hlevel', hlt⟩ :=
        hgrow upper name record below hupper hlink hbelow
      refine Or.inr (Or.inr ⟨deeper, hdeeper, hdeeperName, ?_⟩)
      rw [Document.eq_of_read_natural hfrom.level hlevel,
        Document.eq_of_read_natural hfrom'.level hlevel']
      exact hlt
    · exact Or.inl rfl
  · exact Or.inr (Or.inl rfl)

/-- A core points at caches. -/
theorem exists_element_of_core {core : Core} (hcore : core ∈ m.cores) {name : String}
    (hname : name ∈ (Element.core core).references) :
    ∃ element ∈ m.records, element.name = name := by
  obtain ⟨hslots, _⟩ := Hierarchy.checkReferences_eq_nil_iff.mp hreferences
  obtain ⟨record, hrecord, hread⟩ :=
    exists_of_mem_right (Model.typed_of_ofResolved hmodel).cores hcore
  obtain ⟨slot, hslot, hvalue⟩ := Model.exists_slot_of_mem_references hread hname
  obtain ⟨cache, hcache⟩ := NameMap.mem_iff_exists.mp (hslots record hrecord slot hslot name hvalue)
  obtain ⟨element, hmem, hname', _⟩ :=
    Model.exists_element hmodel hnamed (Hierarchy.getElem?_system_of_cache hcache)
  exact ⟨element, hmem, hname'⟩

end

open NormalizedConfiguration in
/-- **A checked topology has an order.** When no name is that of a cache and of a walker and the
checks of the topology find nothing, no element of the model points forward: the level of each
record is below that of the one it links to. -/
theorem declarationOrder_eq_ok {docs : List Document} {n : NormalizedConfiguration}
    (hread : ofDocuments docs = .ok n) (lookups : ModuleLookups)
    (hdisjoint : ∀ name ∈ (n.applyDefaults lookups).caches,
      name ∉ (n.applyDefaults lookups).walkers)
    (hcheck : (n.applyDefaults lookups).hierarchy.checkTopology = []) {m : Model}
    (hmodel : Model.ofResolved (n.applyDefaults lookups) = .ok m) :
    declarationOrder m = .ok m.elements ∧ (n.applyDefaults lookups).hierarchy.LevelsGrow := by
  have hclosed := closed_of_ofDocuments hread
  have hnamed := named_resolved hclosed lookups
  unfold Hierarchy.checkTopology at hcheck
  simp only [List.append_eq_nil_iff, List.map_eq_nil_iff] at hcheck
  obtain ⟨⟨hreferences, hloops⟩, _⟩ := hcheck
  -- without loops levels grow, and sorting by level puts what is linked to first
  have hgrow := levelsGrow_resolved hclosed (Hierarchy.loops_eq_nil_iff.mp hloops)
  refine ⟨declarationOrder_of_deeper ?_ ?_, hgrow⟩
  · intro element hmem name hname
    exact deeper_of_levelsGrow hmodel hnamed hreferences hdisjoint hgrow hmem hname
  · intro core hcore name hname
    exact exists_element_of_core hmodel hnamed hreferences hcore hname

/-! ## Emissions that compute

As for a resolution (`NormalizedConfiguration.resolve_eq_sorting`), what sorts has a twin that takes
the sorted records as an argument, and insertion puts them in the same order as merging does. -/

section Sorting

variable (sort : List Element → List Element)

/-- `Model.elements`, with the caches and walkers in a given order. -/
def Model.elementsSorting (m : Model) : List Element :=
  [.physicalMemory m.physicalMemory, .virtualMemory m.virtualMemory]
  ++ sort m.records
  ++ m.cores.map .core

/-- `declarationOrder`, with the caches and walkers in a given order. -/
def declarationOrderSorting (m : Model) : Except CompileError (List Element) :=
  match firstForwardReference? {memorySentinel} (m.elementsSorting sort) with
  | some (element, name) => .error (.forwardReference element.name name)
  | none => .ok (m.elementsSorting sort)

/-- `Artifacts.ofModel`, with the caches and walkers in a given order. -/
def Artifacts.ofModelSorting (m : Model) : Except CompileError Artifacts :=
  (declarationOrderSorting sort m).map fun order =>
    { wiring := textOfLines (Wiring.ofOrder m order).lines
      constants := textOfLines (Header.lines m)
      buildFragment := textOfLines (BuildFragment.lines m)
      moduleGlue := textOfLines (Glue.lines m.modules) }

/-- `emit`, with the caches and walkers in a given order. -/
def ResolvedConfiguration.emitSorting (r : ResolvedConfiguration) :
    Except CompileError Artifacts := do
  let diagnostics := r.diagnostics
  if !diagnostics.isEmpty then throw (.invalid diagnostics)
  Artifacts.ofModelSorting sort (← Model.ofResolved r)

end Sorting

/-- Elements in the order of their declarations, sorted by insertion. -/
def Element.byInsertion (elements : List Element) : List Element :=
  elements.insertionSort fun a b => a.before b = true

/-- **An emission in computable form.** -/
theorem ResolvedConfiguration.emit_eq_sorting (r : ResolvedConfiguration) :
    r.emit = r.emitSorting Element.byInsertion := by
  have hsort : (fun elements : List Element => elements.mergeSort Element.before) =
      Element.byInsertion :=
    funext (mergeSort_eq_insertionSort Element.before_trans Element.before_total)
  rw [← hsort]
  rfl

open NormalizedConfiguration in
/-- The elements of one core for which nothing is written have an order. -/
theorem declarationOrder_default :
    ∃ n m, ofDocuments [[]] = .ok n ∧
      (∀ name ∈ (n.applyDefaults .nothing).caches,
        name ∉ (n.applyDefaults .nothing).walkers) ∧
      (n.applyDefaults .nothing).hierarchy.checkTopology = [] ∧
      Model.ofResolved (n.applyDefaults .nothing) = .ok m ∧ m.caches.size = 7 ∧
      declarationOrder m = .ok m.elements ∧
      (n.applyDefaults .nothing).hierarchy.LevelsGrow := by
  have hcomputed : ∃ n, ofDocuments [[]] = .ok n ∧
      (n.applyDefaults .nothing).hierarchy.Disjoint ∧
      (n.applyDefaults .nothing).hierarchy.checkTopology = [] ∧
      ∃ m, Model.ofResolved (n.applyDefaults .nothing) = .ok m ∧ m.caches.size = 7 := by
    simp -zeta only [applyDefaults_eq_sorting]
    decide +kernel
  obtain ⟨n, hread, hdisjoint, hcheck, m, hmodel, hsize⟩ := hcomputed
  obtain ⟨horder, hgrow⟩ := declarationOrder_eq_ok hread .nothing hdisjoint hcheck hmodel
  exact ⟨n, m, hread, hdisjoint, hcheck, hmodel, hsize, horder, hgrow⟩

end MemoryHierarchy
