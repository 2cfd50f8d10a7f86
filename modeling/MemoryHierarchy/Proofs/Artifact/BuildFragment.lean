import Mathlib.Data.Set.Pairwise.List
import MemoryHierarchy.Proofs.Artifact.Wiring
import MemoryHierarchy.Proofs.Module.Identifier

/-!
# Where objects go

Each block of the build fragment puts the objects of a module into a directory below the directory
for all objects. The name of the module alone tells these directories apart, whatever its category,
and names are unique in each of the four sets of modules only. So no directory belongs to two blocks
just in case no name is given in two categories (`nodup_objects_iff_of_compile`): a directory in
which modules of two categories are found has two blocks for the same objects.
-/

namespace MemoryHierarchy

/-! ## Directories of objects

The objects of a module go to a directory below that of its category's objects, under the name of
the module. Slashes are normalized on the way, which leaves a name alone that has none. -/

/-- A text in which a path has no separators. Module names have this form because separators are
replaced when a name is made from a path. -/
def Module.Plain (name : String) : Prop := ∀ c ∈ name.toList, c ≠ '/' ∧ c ≠ '\\'

theorem Module.plain_of_isWord {name : String} (hname : IsWord name) : Plain name := by
  intro c hc
  constructor
  · rintro rfl
    exact absurd (hname _ hc) (by decide)
  · rintro rfl
    exact absurd (hname _ hc) (by decide)

theorem Module.plain_nameOf (directory root : Path) : Plain (nameOf directory root) :=
  plain_of_isWord (isWord_nameOf directory root)

/-- A plain name stands unchanged behind a directory. -/
theorem Path.exists_toList_slashed_join (directory : Path) :
    ∃ front : List Char, ∀ name, Module.Plain name →
      (directory.join ⟨name⟩).slashed.toList = front ++ name.toList := by
  let slash (c : Char) : Char := if c = '\\' then '/' else c
  have hkept : ∀ name, Module.Plain name → name.toList.map slash = name.toList := by
    intro name hplain
    calc name.toList.map slash
        = name.toList.map id := List.map_congr_left fun c hc => if_neg (hplain c hc).2
      _ = name.toList := List.map_id _
  -- a name is appended as it is, since it starts no path and has nothing to be normalized
  have hrelative : ∀ name, Module.Plain name → (⟨name⟩ : Path).isAbsolute = false := by
    intro name hplain
    rw [isAbsolute, decide_eq_false_iff_not]
    intro hslash
    exact (hplain '/' (List.mem_of_head? hslash)).1 rfl
  by_cases hended : directory.text = "" ∨ directory.text.toList.getLast? = some '/'
  · refine ⟨directory.text.toList.map slash, fun name hplain => ?_⟩
    rw [join, hrelative name hplain, if_neg Bool.false_ne_true, if_pos hended, slashed,
      String.toList_map, String.toList_append, List.map_append, hkept name hplain]
  · refine ⟨(directory.text.toList ++ ['/']).map slash, fun name hplain => ?_⟩
    rw [join, hrelative name hplain, if_neg Bool.false_ne_true, if_neg hended, slashed,
      String.toList_map, String.toList_append, List.map_append, hkept name hplain,
      String.toList_append]
    rfl

/-- **Names are told apart by the directories of their objects.** A name without separators stands
as it is behind a front that is the same for all. -/
theorem Path.eq_of_slashed_join_eq {directory : Path} {name name' : String}
    (hplain : Module.Plain name) (hplain' : Module.Plain name')
    (heq : (directory.join ⟨name⟩).slashed = (directory.join ⟨name'⟩).slashed) :
    name = name' := by
  obtain ⟨front, hfront⟩ := directory.exists_toList_slashed_join
  have htext := congrArg String.toList heq
  rw [hfront name hplain, hfront name' hplain', List.append_right_inj] at htext
  exact String.ext htext

/-! ## Names in all categories

The category of a module is not part of the directory of its objects. Within a category names are
distinct, so what has to be asked is that no two categories share a name. -/

namespace ModuleCatalog

variable {c : ModuleCatalog}

/-- The names of all modules. -/
def names (c : ModuleCatalog) : List String :=
  ModuleKind.all.flatMap fun kind => (c.get kind).modules.map (·.name)

/-- No module has the name of one in another category. Within a category this always holds, since a
set keeps the first module of each name only. -/
def NamesApart (c : ModuleCatalog) : Prop :=
  ∀ kind kind', kind ≠ kind' →
    ∀ m ∈ (c.get kind).modules, ∀ m' ∈ (c.get kind').modules, m.name ≠ m'.name

/-- **The names of all modules are distinct** iff no two categories share one. Within a category
they are distinct anyway. -/
theorem nodup_names_iff (hsets : ∀ kind, (c.get kind).Consistent) :
    c.names.Nodup ↔ c.NamesApart := by
  have hnodup : ModuleKind.all.Nodup := by decide
  have hsymm : Std.Symm (Function.onFun List.Disjoint
      fun kind => (c.get kind).modules.map (·.name)) := ⟨fun _ _ => List.disjoint_symm⟩
  rw [names, List.nodup_flatMap, and_iff_right fun kind _ => (hsets kind).names,
    ← hnodup.pairwise_coe]
  constructor
  · intro hapart kind kind' hne m hm m' hm' hname
    exact hapart kind.mem_all kind'.mem_all hne (List.mem_map_of_mem hm)
      (hname ▸ List.mem_map_of_mem hm')
  · intro hapart kind _ kind' _ hne name hname hname'
    obtain ⟨m, hm, rfl⟩ := List.mem_map.mp hname
    obtain ⟨m', hm', heq⟩ := List.mem_map.mp hname'
    exact hapart kind kind' hne m hm m' hm' heq.symm

end ModuleCatalog

/-- The directories of objects, block by block. -/
def BuildFragment.objects (objectDirectory : Path) (catalog : ModuleCatalog) : List String :=
  (blocks objectDirectory catalog).map (·.objects)

theorem BuildFragment.objects_eq (objectDirectory : Path) (catalog : ModuleCatalog) :
    objects objectDirectory catalog =
      catalog.names.map fun name => (objectDirectory.join ⟨name⟩).slashed := by
  simp only [objects, blocks, ModuleCatalog.sets, ModuleCatalog.names, List.map_flatMap,
    List.flatMap_map, List.map_map]
  rfl

/-- **Directories of objects are distinct** iff the names of modules are. A directory of objects is
the name of the module below one directory for all. -/
theorem BuildFragment.nodup_objects_iff {catalog : ModuleCatalog} (objectDirectory : Path)
    (hplain : ∀ name ∈ catalog.names, Module.Plain name) :
    (objects objectDirectory catalog).Nodup ↔ catalog.names.Nodup := by
  rw [objects_eq]
  refine ⟨List.Nodup.of_map _, fun hnodup => hnodup.map_on ?_⟩
  intro name hname name' hname' heq
  exact Path.eq_of_slashed_join_eq (hplain name hname) (hplain name' hname') heq

/-! ## Compilation

The name of a module comes from its directory, and two directories below one module root have the
same name only where they are the same directory or differ in characters that are replaced. -/

/-- A module is a directory, and is named after it. This is what every search yields, so that the
name of a module says which directory it is in. -/
structure ModuleData.In (data : ModuleData) (fs : FileSystem) (root : Path) : Prop where
  isDirectory : fs.isDirectory data.path = true
  name : data.name = Module.nameOf data.path root

/-- The directories of all modules. -/
def ModuleCatalog.paths (c : ModuleCatalog) : List Path :=
  ModuleKind.all.flatMap fun kind => (c.get kind).modules.map (·.data.path)

theorem ModuleCatalog.names_eq_map_paths {c : ModuleCatalog} {fs : FileSystem} {root : Path}
    (hin : ∀ kind, ∀ info ∈ (c.get kind).modules, info.data.In fs root) :
    c.names = c.paths.map (Module.nameOf · root) := by
  simp only [names, paths, List.map_flatMap, List.map_map]
  refine List.flatMap_congr fun kind _ => List.map_congr_left fun info hinfo => ?_
  exact (hin kind info hinfo).name

theorem ModuleRegistry.in_of_finds {r : ModuleRegistry} {fs : FileSystem} {data : ModuleData}
    (hfinds : (r.lookup fs).Finds data) : data.In fs r.root := by
  obtain ⟨found, hfound | ⟨name, hfind⟩, rfl⟩ := hfinds
  · obtain ⟨hdirectory, hname⟩ := eq_of_mem_all hfound
    exact ⟨hdirectory, hname⟩
  · obtain ⟨hdirectory, hname⟩ := eq_of_find? hfind
    exact ⟨hdirectory, hname⟩

/-- The modules of a registry are directories below the module root. -/
theorem NormalizedConfiguration.modules_resolve_ofOptions (n : NormalizedConfiguration)
    (fs : FileSystem) (options : Options) (kind : ModuleKind) :
    let set := (n.resolve options (.ofOptions fs options n.root)).configuration.modules.get kind
    set.Consistent ∧ ∀ m ∈ set.modules, m.data.In fs options.moduleRoot := by
  intro set
  obtain ⟨hset, hfinds⟩ := n.modules_resolve options (.ofOptions fs options n.root) kind
  exact ⟨hset, fun m hm => ModuleRegistry.in_of_finds (hfinds m hm)⟩

theorem compile_eq_ok_iff {fs : FileSystem} {options : Options} {docs : List Document}
    {artifacts : Artifacts} :
    compile fs options docs = .ok artifacts ↔
      ∃ n, NormalizedConfiguration.ofDocuments docs = .ok n ∧
        (n.resolve options (.ofOptions fs options n.root)).configuration.emit = .ok artifacts := by
  unfold compile resolveDocuments
  simp only [bind_eq_ok_iff, pure_eq_ok_iff]
  constructor
  · rintro ⟨_, ⟨n, hread, rfl⟩, hemit⟩
    exact ⟨n, hread, hemit⟩
  · rintro ⟨n, hread, hemit⟩
    exact ⟨_, ⟨n, hread, rfl⟩, hemit⟩

/-- What is compiled is the text of a model. -/
theorem exists_model_of_compile {fs : FileSystem} {options : Options} {docs : List Document}
    {artifacts : Artifacts} (hcompile : compile fs options docs = .ok artifacts) :
    ∃ n m, NormalizedConfiguration.ofDocuments docs = .ok n ∧
      Model.ofResolved (n.resolve options (.ofOptions fs options n.root)).configuration = .ok m ∧
      m.modules = (n.resolve options (.ofOptions fs options n.root)).configuration.modules ∧
      artifacts.buildFragment = textOfLines (BuildFragment.lines m) := by
  obtain ⟨n, hread, hemit⟩ := compile_eq_ok_iff.mp hcompile
  obtain ⟨m, hmodel, htexts⟩ := ResolvedConfiguration.exists_ofModel_of_emit hemit
  obtain ⟨_, rfl⟩ := Artifacts.ofModel_eq_ok_iff.mp htexts
  exact ⟨n, m, hread, hmodel, Model.modules_of_ofResolved hmodel, rfl⟩

/-- **Where something is compiled, no two modules have their objects in one directory** iff no two
categories have modules whose directories have the same name. -/
theorem nodup_objects_iff_of_compile {fs : FileSystem} {options : Options} {docs : List Document}
    {artifacts : Artifacts} (hcompile : compile fs options docs = .ok artifacts) :
    ∃ n m, NormalizedConfiguration.ofDocuments docs = .ok n ∧
      Model.ofResolved (n.resolve options (.ofOptions fs options n.root)).configuration = .ok m ∧
      artifacts.buildFragment = textOfLines (BuildFragment.lines m) ∧
      (∀ kind, ∀ info ∈ (m.modules.get kind).modules, info.data.In fs options.moduleRoot) ∧
      ((BuildFragment.objects m.environment.objectDirectory m.modules).Nodup ↔
        m.modules.NamesApart) := by
  obtain ⟨n, m, hread, hmodel, hmodules, htext⟩ := exists_model_of_compile hcompile
  have hsets := n.modules_resolve_ofOptions fs options
  rw [← hmodules] at hsets
  refine ⟨n, m, hread, hmodel, htext, fun kind => (hsets kind).2, ?_⟩
  -- a name of a module has no slash, so it is one component of the directory of its objects
  have hplain : ∀ name ∈ m.modules.names, Module.Plain name := by
    rw [ModuleCatalog.names_eq_map_paths fun kind => (hsets kind).2]
    intro name hname
    obtain ⟨directory, _, rfl⟩ := List.mem_map.mp hname
    exact Module.plain_nameOf directory options.moduleRoot
  rw [BuildFragment.nodup_objects_iff _ hplain,
    ModuleCatalog.nodup_names_iff fun kind => (hsets kind).1]

/-- A core whose predictors of branches and of targets have one name. -/
def twoPredictors : List Document := [[("branch_predictor", .string "m"), ("btb", .string "m")]]

/-- A directory for each of the predictors. -/
def predictorsApart : FileSystem :=
  .around (.directory [("branch", .directory [("m", .empty)]), ("btb", .directory [("m", .empty)])])

open NormalizedConfiguration in
theorem emit_predictorsApart :
    ∃ n, ofDocuments twoPredictors = .ok n ∧
      (n.resolve {} (.ofOptions predictorsApart {} n.root)).configuration.modules.paths =
        [⟨"./branch/m"⟩, ⟨"./btb/m"⟩] ∧
      ∃ artifacts,
        (n.resolve {} (.ofOptions predictorsApart {} n.root)).configuration.emit =
          .ok artifacts := by
  simp -zeta only [resolve_eq_sorting, ResolvedConfiguration.emit_eq_sorting]
  decide +kernel

open NormalizedConfiguration in
theorem nodup_objects_of_predictorsApart :
    ∃ artifacts n m, compile predictorsApart {} twoPredictors = .ok artifacts ∧
      ofDocuments twoPredictors = .ok n ∧
      Model.ofResolved (n.resolve {} (.ofOptions predictorsApart {} n.root)).configuration =
        .ok m ∧
      artifacts.buildFragment = textOfLines (BuildFragment.lines m) ∧
      m.modules.paths = [⟨"./branch/m"⟩, ⟨"./btb/m"⟩] ∧
      (BuildFragment.objects m.environment.objectDirectory m.modules).Nodup := by
  obtain ⟨n, hread, hpaths, artifacts, hemit⟩ := emit_predictorsApart
  have hcompile : compile predictorsApart {} twoPredictors = .ok artifacts :=
    compile_eq_ok_iff.mpr ⟨n, hread, hemit⟩
  obtain ⟨n', m, hread', hmodel, htext, hin, hnodup⟩ := nodup_objects_iff_of_compile hcompile
  obtain rfl : n = n' := Except.ok.inj (hread.symm.trans hread')
  have hmodules := Model.modules_of_ofResolved hmodel
  have hsets := n.modules_resolve_ofOptions predictorsApart {}
  rw [← hmodules] at hpaths hsets
  refine ⟨artifacts, n, m, hcompile, hread, hmodel, htext, hpaths, hnodup.mpr ?_⟩
  rw [← ModuleCatalog.nodup_names_iff fun kind => (hsets kind).1,
    ModuleCatalog.names_eq_map_paths hin, hpaths]
  -- the names differ in the part that stands for the category
  have hbranch : Path.Below ⟨"./branch/m"⟩ ⟨"."⟩ ["branch", "m"] := by decide
  have hbtb : Path.Below ⟨"./btb/m"⟩ ⟨"."⟩ ["btb", "m"] := by decide
  have hnames : Module.nameOf ⟨"./branch/m"⟩ ⟨"."⟩ ≠ Module.nameOf ⟨"./btb/m"⟩ ⟨"."⟩ := by
    rw [Module.nameOf_of_below hbranch, Module.nameOf_of_below hbtb, ne_eq, ← String.toList_inj,
      String.toList_map, String.toList_map]
    decide +kernel
  simpa using hnames

/-- One directory for both predictors. Two blocks of the fragment then compile into the same
directory of objects. -/
def predictorsTogether : FileSystem := .around (.directory [("m", .empty)])

open NormalizedConfiguration in
/-- The directory has two blocks, with one directory of objects. -/
theorem not_nodup_objects_of_predictorsTogether :
    ∃ artifacts n m, compile predictorsTogether {} twoPredictors = .ok artifacts ∧
      ofDocuments twoPredictors = .ok n ∧
      Model.ofResolved (n.resolve {} (.ofOptions predictorsTogether {} n.root)).configuration =
        .ok m ∧
      artifacts.buildFragment = textOfLines (BuildFragment.lines m) ∧
      m.modules.paths = [⟨"m"⟩, ⟨"m"⟩] ∧
      ¬(BuildFragment.objects m.environment.objectDirectory m.modules).Nodup := by
  have hcomputed : ∃ n, ofDocuments twoPredictors = .ok n ∧
      (n.resolve {} (.ofOptions predictorsTogether {} n.root)).configuration.modules.paths =
        [⟨"m"⟩, ⟨"m"⟩] ∧
      ∃ artifacts,
        (n.resolve {} (.ofOptions predictorsTogether {} n.root)).configuration.emit =
          .ok artifacts := by
    simp -zeta only [resolve_eq_sorting, ResolvedConfiguration.emit_eq_sorting]
    decide +kernel
  obtain ⟨n, hread, hpaths, artifacts, hemit⟩ := hcomputed
  have hcompile : compile predictorsTogether {} twoPredictors = .ok artifacts :=
    compile_eq_ok_iff.mpr ⟨n, hread, hemit⟩
  obtain ⟨n', m, hread', hmodel, hmodules, htext⟩ := exists_model_of_compile hcompile
  obtain rfl : n = n' := Except.ok.inj (hread.symm.trans hread')
  have hsets := n.modules_resolve_ofOptions predictorsTogether {}
  rw [← hmodules] at hpaths hsets
  refine ⟨artifacts, n, m, hcompile, hread, hmodel, htext, hpaths, ?_⟩
  -- both categories find a module in the one directory, and name it alike
  rw [BuildFragment.objects_eq, ModuleCatalog.names_eq_map_paths fun kind => (hsets kind).2, hpaths]
  simp

end MemoryHierarchy
