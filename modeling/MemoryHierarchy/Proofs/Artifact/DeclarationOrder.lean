import MemoryHierarchy.Proofs.Artifact.Wiring

/-!
# Which order, and where it fails

The order of declarations can be said without a sort: the memories, then caches and walkers by
falling level and by name within a level, then the cores. Where a level and a name are shared,
caches stand before walkers, and each kind in the order of its keys. There is one such list
(`Model.lists_iff`), because a sorted list is known from the order among equals.

`declarationOrder` gives this list if each of its elements points back, and otherwise names the
first element that does not, with the first name that it points forward to.
-/

namespace MemoryHierarchy

section

variable {α κ : Type} [DecidableEq κ] (key : α → κ) {xs ys : List α}

theorem mem_iff_of_filter_eq (hfilter : ∀ k, xs.filter (key · = k) = ys.filter (key · = k))
    (a : α) : a ∈ xs ↔ a ∈ ys := by
  have hclass : a ∈ xs.filter (key · = key a) ↔ a ∈ ys.filter (key · = key a) := by
    rw [hfilter]
  simpa using hclass

/-- Two lists that are sorted by a key are equal if they agree on the items of each key. -/
theorem eq_of_pairwise_of_filter_eq {le : α → α → Prop}
    (hantisymm : ∀ a b, le a b → le b a → key a = key b) (hxs : xs.Pairwise le)
    (hys : ys.Pairwise le) (hfilter : ∀ k, xs.filter (key · = k) = ys.filter (key · = k)) :
    xs = ys := by
  have hmem := mem_iff_of_filter_eq key hfilter
  induction xs generalizing ys with
  | nil => exact (List.eq_nil_iff_forall_not_mem.mpr fun a ha => by simp [← hmem] at ha).symm
  | cons x xs ih =>
    obtain ⟨y, ys, rfl⟩ : ∃ y rest, ys = y :: rest :=
      List.exists_cons_of_ne_nil (List.ne_nil_of_mem ((hmem x).mp List.mem_cons_self))
    rw [List.pairwise_cons] at hxs hys
    -- the heads have one key, since each of them is in the other list
    have hkey : key x = key y := by
      rcases List.mem_cons.mp ((hmem x).mp List.mem_cons_self) with rfl | hx
      · rfl
      rcases List.mem_cons.mp ((hmem y).mpr List.mem_cons_self) with rfl | hy
      · rfl
      exact hantisymm x y (hxs.1 y hy) (hys.1 x hx)
    have hheads := hfilter (key x)
    rw [List.filter_cons_of_pos (by simp), List.filter_cons_of_pos (by simp [hkey])] at hheads
    obtain ⟨rfl, htails⟩ := List.cons.inj hheads
    have hrest : ∀ k, xs.filter (key · = k) = ys.filter (key · = k) := by
      intro k
      by_cases hk : key x = k
      · rw [← hk, htails]
      · have hk' := hfilter k
        rwa [List.filter_cons_of_neg (by simpa using hk),
          List.filter_cons_of_neg (by simpa using hk)] at hk'
    rw [ih hxs.2 hys.2 hrest (mem_iff_of_filter_eq key hrest)]

end

/-- The items that a view picks out stand in their list in the same order. -/
theorem map_filterMap_sublist {α β : Type} {view : α → Option β} {item : β → α}
    (hview : ∀ a b, view a = some b → item b = a) (items : List α) :
    ((items.filterMap view).map item).Sublist items := by
  induction items with
  | nil => exact .slnil
  | cons a items ih =>
    rw [List.filterMap_cons]
    cases hpicked : view a with
    | none => exact ih.cons a
    | some b =>
      rw [List.map_cons, hview a b hpicked]
      exact ih.cons_cons a

/-! ## The one order

The order is asked for in full: which records come first, what stands between two of the same level
and name, and that nothing is lost. A list with these properties is unique, so it can be named
without saying how it is sorted. -/

namespace Element

/-- The core that an element is. -/
def core? : Element → Option Core
  | core c => some c
  | _ => none

/-- The cache that an element is. -/
def cache? : Element → Option Cache
  | cache c => some c
  | _ => none

/-- The walker that an element is. -/
def walker? : Element → Option Walker
  | walker w => some w
  | _ => none

end Element

namespace Model

/-- Caches and walkers by falling level, and by name within a level. Those of one level and one name
stand as in `records`: caches first, and each kind in the order of its keys. -/
structure SortsRecords (m : Model) (records : List Element) : Prop where
  perm : records.Perm m.records
  sorted : records.Pairwise fun a b =>
    b.fillLevel < a.fillLevel ∨ a.fillLevel = b.fillLevel ∧ a.name ≤ b.name
  stable : ∀ level name, records.filter (fun e => (e.fillLevel, e.name) = (level, name)) =
    m.records.filter fun e => (e.fillLevel, e.name) = (level, name)

/-- The memories, the sorted records, and the cores as they are. Only the records of caches and
walkers are sorted, since nothing points at a core and everything may point at a memory. -/
def Lists (m : Model) (order : List Element) : Prop :=
  ∃ records, m.SortsRecords records ∧
    order = [.physicalMemory m.physicalMemory, .virtualMemory m.virtualMemory] ++ records
      ++ m.cores.map .core

theorem sortsRecords_mergeSort (m : Model) :
    m.SortsRecords (m.records.mergeSort Element.before) where
  perm := List.mergeSort_perm _ _
  sorted := by
    refine (List.pairwise_mergeSort Element.before_trans Element.before_total _).imp fun h => ?_
    rwa [Element.before_iff, String.not_lt] at h
  stable := by
    intro level name
    have hclass : (m.records.filter fun e => (e.fillLevel, e.name) = (level, name)).Pairwise
        fun a b => a.before b = true := by
      refine List.pairwise_of_forall_mem_list fun a ha b hb => ?_
      simp only [List.mem_filter, decide_eq_true_eq, Prod.mk.injEq] at ha hb
      rw [Element.before_iff, ha.2.1, ha.2.2, hb.2.1, hb.2.2]
      exact Or.inr ⟨rfl, String.lt_irrefl name⟩
    -- the sort keeps a list of equals together, and no other items are of their class
    have hkept := (List.sublist_mergeSort Element.before_trans Element.before_total hclass
      List.filter_sublist).filter fun e => decide ((e.fillLevel, e.name) = (level, name))
    rw [List.filter_filter] at hkept
    simp only [Bool.and_self] at hkept
    refine (hkept.eq_of_length ?_).symm
    exact ((List.mergeSort_perm _ _).filter _).length_eq.symm

theorem SortsRecords.unique {m : Model} {records records' : List Element}
    (h : m.SortsRecords records) (h' : m.SortsRecords records') : records = records' := by
  refine eq_of_pairwise_of_filter_eq (fun e => (e.fillLevel, e.name)) ?_ h.sorted h'.sorted
    fun ⟨level, name⟩ => (h.stable level name).trans (h'.stable level name).symm
  rintro a b (hlt | ⟨heq, hle⟩) (hlt' | ⟨heq', hle'⟩)
  · omega
  · omega
  · omega
  · exact Prod.ext heq (String.le_antisymm hle hle')

theorem lists_iff {m : Model} {order : List Element} : m.Lists order ↔ order = m.elements := by
  constructor
  · rintro ⟨records, hsorts, rfl⟩
    rw [hsorts.unique m.sortsRecords_mergeSort, elements]
  · rintro rfl
    exact ⟨_, m.sortsRecords_mergeSort, rfl⟩

/-- All elements, whatever their order. -/
def contents (m : Model) : List Element :=
  .physicalMemory m.physicalMemory :: .virtualMemory m.virtualMemory ::
    (m.caches.values.map .cache ++ m.walkers.values.map .walker ++ m.cores.map .core)

theorem elements_perm (m : Model) : m.elements.Perm m.contents := by
  rw [elements, contents, List.append_assoc]
  refine List.Perm.cons _ (List.Perm.cons _ ?_)
  exact (List.mergeSort_perm m.records Element.before).append_right _

end Model

/-! ## Where the order fails

Elements are checked one after the other against the names that are declared before them. The error
is told in terms of the order alone: the first element that points forward, and the first name in it
that is not declared yet. -/

/-- A name that can be pointed at behind some elements: that of one of them, or the sentinel. The
sentinel counts because the physical memory is printed under a name of its own. -/
def Declares (before : List Element) (name : String) : Prop :=
  name = memorySentinel ∨ ∃ e ∈ before, e.name = name

/-- Each element points at nothing but what is declared before it. Objects are constructed in the
order of their declarations, so this is what makes the addresses in them usable. -/
def Backward (order : List Element) : Prop :=
  ∀ before element after, order = before ++ element :: after →
    ∀ name ∈ element.references, Declares before name

/-- An element is the first that points forward, and a name the first that it points forward to.
Both are determined by the order, so that a report about them is determined too. -/
def FirstForward (order : List Element) (element : Element) (name : String) : Prop :=
  ∃ before after, order = before ++ element :: after ∧ Backward before ∧
    ∃ earlier later, element.references = earlier ++ name :: later ∧
      (∀ other ∈ earlier, Declares before other) ∧ ¬Declares before name

/-- What is declared when some more elements are. -/
def declaredWith (declared : NameSet) (elements : List Element) : NameSet :=
  elements.foldl (fun declared e => declared.insert e.name) declared

theorem mem_declaredWith_iff {declared : NameSet} {elements : List Element} {name : String} :
    name ∈ declaredWith declared elements ↔
      name ∈ declared ∨ ∃ e ∈ elements, e.name = name := by
  induction elements generalizing declared with
  | nil => simp [declaredWith]
  | cons e elements ih =>
    show name ∈ declaredWith (declared.insert e.name) elements ↔ _
    rw [ih, Std.ExtTreeSet.mem_insert, Std.compare_eq_iff_eq]
    simp [or_left_comm, or_assoc]

theorem firstForwardReference?_append (declared : NameSet) (before after : List Element) :
    firstForwardReference? declared (before ++ after) =
      (firstForwardReference? declared before).or
        (firstForwardReference? (declaredWith declared before) after) := by
  induction before generalizing declared with
  | nil => rfl
  | cons e before ih =>
    rw [List.cons_append, firstForwardReference?, firstForwardReference?]
    cases e.references.find? fun name => !declared.contains name with
    | some name => rfl
    | none => exact ih _

/-- A search that finds something stops at the first element behind which nothing is found. -/
theorem exists_of_firstForwardReference? {declared : NameSet} {elements : List Element}
    {element : Element} {name : String}
    (hfound : firstForwardReference? declared elements = some (element, name)) :
    ∃ before after, elements = before ++ element :: after ∧
      firstForwardReference? declared before = none ∧
      element.references.find? (fun name => !(declaredWith declared before).contains name) =
        some name := by
  induction elements generalizing declared with
  | nil => cases hfound
  | cons first rest ih =>
    rw [firstForwardReference?] at hfound
    -- the first element points forward itself, or it is declared and the rest is searched
    cases hfind : first.references.find? fun name => !declared.contains name with
    | some other =>
      rw [hfind] at hfound
      cases hfound
      exact ⟨[], rest, rfl, rfl, hfind⟩
    | none =>
      rw [hfind] at hfound
      obtain ⟨before, after, rfl, hnone, hname⟩ := ih hfound
      refine ⟨first :: before, after, rfl, ?_, hname⟩
      rw [firstForwardReference?, hfind]
      exact hnone

theorem mem_sentinel_iff {name : String} :
    name ∈ ({memorySentinel} : NameSet) ↔ name = memorySentinel := by
  rw [eq_comm, ← Std.compare_eq_iff_eq]
  simp [eq_comm]

theorem backward_iff {order : List Element} :
    Backward order ↔ firstForwardReference? {memorySentinel} order = none := by
  rw [firstForwardReference?_eq_none_iff]
  simp only [Backward, Declares, mem_sentinel_iff]

theorem contains_declaredWith_iff {before : List Element} {name : String} :
    (declaredWith {memorySentinel} before).contains name = true ↔ Declares before name := by
  rw [Std.ExtTreeSet.contains_iff_mem, mem_declaredWith_iff, mem_sentinel_iff, Declares]

theorem find?_references_iff {before : List Element} {element : Element} {name : String} :
    element.references.find? (fun name => !(declaredWith {memorySentinel} before).contains name) =
        some name ↔
      ∃ earlier later, element.references = earlier ++ name :: later ∧
        (∀ other ∈ earlier, Declares before other) ∧ ¬Declares before name := by
  rw [List.find?_eq_some_iff_append]
  simp only [Bool.not_not, contains_declaredWith_iff, Bool.not_eq_true', ← Bool.not_eq_true]
  constructor
  · rintro ⟨hforward, earlier, later, hsplit, hearlier⟩
    exact ⟨earlier, later, hsplit, hearlier, hforward⟩
  · rintro ⟨earlier, later, hsplit, hearlier, hforward⟩
    exact ⟨hforward, earlier, later, hsplit, hearlier⟩

theorem firstForward_iff {order : List Element} {element : Element} {name : String} :
    FirstForward order element name ↔
      firstForwardReference? {memorySentinel} order = some (element, name) := by
  constructor
  · rintro ⟨before, after, rfl, hbackward, hname⟩
    rw [firstForwardReference?_append, backward_iff.mp hbackward, Option.none_or,
      firstForwardReference?, find?_references_iff.mpr hname]
  · intro hfound
    obtain ⟨before, after, rfl, hnone, hname⟩ := exists_of_firstForwardReference? hfound
    exact ⟨before, after, rfl, backward_iff.mpr hnone, find?_references_iff.mp hname⟩

theorem declarationOrder_eq_ok_iff {m : Model} {order : List Element} :
    declarationOrder m = .ok order ↔ order = m.elements ∧ Backward m.elements := by
  rw [backward_iff, declarationOrder]
  cases firstForwardReference? {memorySentinel} m.elements with
  | none => simp [eq_comm]
  | some found => simp

theorem declarationOrder_eq_error_iff {m : Model} {error : CompileError} :
    declarationOrder m = .error error ↔ ∃ element name, FirstForward m.elements element name ∧
      error = .forwardReference element.name name := by
  simp only [firstForward_iff, declarationOrder]
  cases firstForwardReference? {memorySentinel} m.elements with
  | none => simp
  | some found =>
    obtain ⟨element, name⟩ := found
    simp [eq_comm]

/-! ## What can be operated

Besides the declarations the wiring has arrays. The one of all that can be operated is the longest,
and the simulator goes through it in its order: cores, caches, walkers, and the physical memory
last. -/

/-- Elements of one kind are listed once each, in the order of their declarations. Between them
there may be elements of other kinds. -/
structure ListsEach {α : Type} (order : List Element) (item : α → Element)
    (members listed : List α) : Prop where
  once : listed.Perm members
  ordered : (listed.map item).Sublist order

namespace Model

/-- The names of all cores, then of all caches, then of all walkers, and at the end that of the
physical memory. -/
def ListsOperables (m : Model) (order : List Element) (names : List String) : Prop :=
  ∃ (cores : List Core) (caches : List Cache) (walkers : List Walker),
    ListsEach order .core m.cores cores ∧
    ListsEach order .cache m.caches.values caches ∧
    ListsEach order .walker m.walkers.values walkers ∧
    names = cores.map (·.name) ++ caches.map (·.name) ++ walkers.map (·.name)
      ++ [m.physicalMemory.name]

theorem listsEach_filterMap {α : Type} {m : Model} {view : Element → Option α}
    {item : α → Element} {members : List α} (hview : ∀ e a, view e = some a → item a = e)
    (hmembers : m.contents.filterMap view = members) :
    ListsEach m.elements item members (m.elements.filterMap view) where
  once := hmembers ▸ m.elements_perm.filterMap view
  ordered := map_filterMap_sublist hview m.elements

theorem filterMap_core?_contents (m : Model) : m.contents.filterMap Element.core? = m.cores := by
  simp [contents, List.filterMap_cons, List.filterMap_map, Function.comp_def, Element.core?]

theorem filterMap_cache?_contents (m : Model) :
    m.contents.filterMap Element.cache? = m.caches.values := by
  simp [contents, List.filterMap_cons, List.filterMap_map, Function.comp_def, Element.cache?]

theorem filterMap_walker?_contents (m : Model) :
    m.contents.filterMap Element.walker? = m.walkers.values := by
  simp [contents, List.filterMap_cons, List.filterMap_map, Function.comp_def, Element.walker?]

/-- The line that declares an array of all that can be operated, which is never empty. -/
def operablesLine (names : List String) : String :=
  "std::array<champsim::operable*, " ++ toString names.length ++ "> operables\x7b\x7b"
    ++ ", ".intercalate (names.map ("&" ++ ·)) ++ "\x7d\x7d;"

theorem line_operables {names : List String} (hnames : names ≠ []) :
    PointerArray.line ⟨"champsim::operable", "operables", names⟩ = operablesLine names := by
  have hfull : ¬names.isEmpty := by simpa using hnames
  have hclass : "std::array<champsim::operable*, " =
      "std::array<" ++ "champsim::operable" ++ "*, " := by decide
  have hname : "> operables\x7b\x7b" = "> " ++ "operables" ++ "\x7b\x7b" := by decide
  unfold PointerArray.line operablesLine
  rw [if_neg hfull, hclass, hname]
  simp only [String.append_assoc]

/-- The array of what can be operated is one of its kind, and it stands in the text. -/
theorem listsOperables_wiring (m : Model) :
    ∃ names, m.ListsOperables m.elements names ∧
      m.wiring.arrays.filter (·.name = "operables") =
        [⟨"champsim::operable", "operables", names⟩] ∧
      operablesLine names ∈ m.wiring.lines := by
  have hcores : ∀ e, Element.coreName? e = e.core?.map (·.name) := by rintro ⟨⟩ <;> rfl
  have hcaches : ∀ e, Element.cacheName? e = e.cache?.map (·.name) := by rintro ⟨⟩ <;> rfl
  have hwalkers : ∀ e, Element.walkerName? e = e.walker?.map (·.name) := by rintro ⟨⟩ <;> rfl
  -- the views of the order are what the wiring lists, kind by kind
  have hlists : m.ListsOperables m.elements _ :=
    ⟨_, _, _, listsEach_filterMap ?_ m.filterMap_core?_contents,
      listsEach_filterMap ?_ m.filterMap_cache?_contents,
      listsEach_filterMap ?_ m.filterMap_walker?_contents, rfl⟩
  rotate_left
  · rintro ⟨⟩ a h <;> cases h
    rfl
  · rintro ⟨⟩ a h <;> cases h
    rfl
  · rintro ⟨⟩ a h <;> cases h
    rfl
  refine ⟨_, hlists, ?_, ?_⟩
  · simp [wiring, Wiring.ofOrder, List.map_filterMap, hcores, hcaches, hwalkers]
  · rw [← line_operables (by simp)]
    apply Wiring.line_mem_lines_of_array
    simp [wiring, Wiring.ofOrder, List.map_filterMap, hcores, hcaches, hwalkers]

end Model

/-- **The order of declarations, exactly.** There is one list in the order, it has all that the
model has, and it is declared just in case no element points forward. Otherwise the first that does
is named, with the first name that it points forward to. What is operated keeps the order, kind by
kind, in the one array of its kind and in the line of the text that declares it. -/
theorem declarationOrder_exact (m : Model) :
    (∀ order, m.Lists order ↔ order = m.elements) ∧
      m.elements.Perm m.contents ∧
      (∀ order, declarationOrder m = .ok order ↔ order = m.elements ∧ Backward m.elements) ∧
      (∀ error, declarationOrder m = .error error ↔
        ∃ element name, FirstForward m.elements element name ∧
          error = .forwardReference element.name name) ∧
      ∃ names, m.ListsOperables m.elements names ∧
        m.wiring.arrays.filter (·.name = "operables") =
          [⟨"champsim::operable", "operables", names⟩] ∧
        Model.operablesLine names ∈ m.wiring.lines :=
  ⟨fun _ => Model.lists_iff, m.elements_perm, fun _ => declarationOrder_eq_ok_iff,
    fun _ => declarationOrder_eq_error_iff, m.listsOperables_wiring⟩

end MemoryHierarchy
