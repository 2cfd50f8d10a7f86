import MemoryHierarchy.Module.Registry
import MemoryHierarchy.Proofs.FileTree
import MemoryHierarchy.Proofs.Module.Resolution

/-!
# Modules are told apart by the names of their directories

A module is known by the name that its directory has below the module root, with the characters that
cannot stand in an identifier replaced. Two directories may have the same name: then what is found
in the second one is taken for the module of the first, which keeps its bit, and is not compiled.

Where it is known that the two names differ, no module is lost: the requests mean two modules with
two bits (`resolved_apart_iff`). Names differ for directories that lie below the root by names only
and in which no two characters are replaced alike.
-/

namespace MemoryHierarchy

/-! ## Names

A slash and a hyphen are replaced by letters, and whatever else cannot stand in an identifier by an
underscore. Two directories are told apart by their names if no two of their characters are replaced
alike. -/

/-- A directory lies below a root, with nothing but names in between. A path with a step up behind
the root is not below it in this sense, even if it leads back. -/
def Path.Below (directory root : Path) (names : List String) : Prop :=
  directory.components = root.components ++ names.map .name

instance (directory root : Path) (names : List String) : Decidable (directory.Below root names) :=
  inferInstanceAs (Decidable (_ = _))

namespace Module

/-- No two characters of two texts are replaced alike. Where this fails two directories can be given
one name, as with a dot and an underscore. -/
def ReplacedApart (s t : String) : Prop :=
  ∀ c ∈ s.toList, ∀ c' ∈ t.toList, nameChar c = nameChar c' → c = c'

instance (s t : String) : Decidable (ReplacedApart s t) :=
  let _ : DecidablePred fun c => ∀ c' ∈ t.toList, nameChar c = nameChar c' → c = c' :=
    fun _ => List.decidableBAll _ _
  List.decidableBAll _ _

theorem eq_of_map_nameChar_eq {s t : String} (happart : ReplacedApart s t)
    (hname : s.map nameChar = t.map nameChar) : s = t := by
  have hchars : s.toList.map nameChar = t.toList.map nameChar := by
    rw [← String.toList_map, ← String.toList_map, hname]
  refine String.ext ?_
  unfold ReplacedApart at happart
  -- two texts with the same replacement have the same length
  generalize s.toList = cs at happart hchars
  generalize t.toList = cs' at happart hchars
  induction cs generalizing cs' with
  | nil =>
    rw [List.map_nil, eq_comm, List.map_eq_nil_iff] at hchars
    exact hchars.symm
  | cons c cs ih =>
    cases cs' with
    | nil => cases hchars
    | cons c' cs' =>
      rw [List.map_cons, List.map_cons, List.cons.injEq] at hchars
      rw [happart c List.mem_cons_self c' List.mem_cons_self hchars.1,
        ih cs' (fun a ha b hb => happart a (List.mem_cons_of_mem _ ha) b
          (List.mem_cons_of_mem _ hb)) hchars.2]

/-- Names make up a text that is not blank. -/
theorem intercalate_ne_blank {names : List String} (hne : names ≠ [])
    (hnames : ∀ s ∈ names, s ≠ "" ∧ '/' ∉ s.toList) : "/".intercalate names ≠ "" := by
  intro hblank
  have hsplit := Path.splitOn_toList_intercalate hne fun s hs => (hnames s hs).2
  rw [hblank] at hsplit
  obtain ⟨s, rfl, htext⟩ := List.map_eq_singleton_iff.mp hsplit.symm
  exact (hnames s (List.mem_singleton_self s)).1 (String.ext htext)

/-- Names without slashes can be read back from the path they make up. -/
theorem eq_of_intercalate_eq {names names' : List String}
    (hnames : ∀ s ∈ names, s ≠ "" ∧ '/' ∉ s.toList)
    (hnames' : ∀ s ∈ names', s ≠ "" ∧ '/' ∉ s.toList)
    (htext : "/".intercalate names = "/".intercalate names') : names = names' := by
  by_cases hnil : names = []
  · by_cases hnil' : names' = []
    · rw [hnil, hnil']
    · rw [hnil] at htext
      exact absurd htext.symm (intercalate_ne_blank hnil' hnames')
  · by_cases hnil' : names' = []
    · rw [hnil'] at htext
      exact absurd htext (intercalate_ne_blank hnil hnames)
    · have hboth := congrArg (fun text : String => text.toList.splitOn '/') htext
      rw [Path.splitOn_toList_intercalate hnil fun s hs => (hnames s hs).2,
        Path.splitOn_toList_intercalate hnil' fun s hs => (hnames' s hs).2] at hboth
      exact List.map_injective_iff.mpr (fun _ _ heq => String.ext heq) hboth

theorem nameOf_of_below {directory root : Path} {names : List String}
    (hbelow : directory.Below root names) :
    nameOf directory root = ("/".intercalate names).map nameChar := by
  have hbehind : directory.componentsBehind? root = some (names.map .name) :=
    List.isPrefixOf?_eq_some_iff_append_eq.mpr hbelow.symm
  have hname : (names.map Path.Component.name).filterMap Path.Component.name? = names := by
    rw [List.filterMap_map]
    exact List.filterMap_some
  simp only [nameOf, hbehind, Option.getD_some, hname]

/-- **Directories with the same name are one place**, where no two of their characters are replaced
alike. Characters are replaced one by one, so a name gives back the text of the path below the root.
-/
theorem place_eq_of_nameOf_eq {directory directory' root : Path} {names names' : List String}
    (hbelow : directory.Below root names) (hbelow' : directory'.Below root names')
    (happart : ReplacedApart ("/".intercalate names) ("/".intercalate names'))
    (hname : nameOf directory root = nameOf directory' root) (working : List String) :
    directory.place working = directory'.place working := by
  -- the names of a directory below the root are among its components
  have hnames : ∀ {directory : Path} {names : List String}, directory.Below root names →
      ∀ s ∈ names, s ≠ "" ∧ '/' ∉ s.toList := by
    intro directory names hbelow s hs
    refine Path.name_of_mem_components (p := directory) ?_
    rw [hbelow]
    exact List.mem_append_right _ (List.mem_map_of_mem hs)
  rw [nameOf_of_below hbelow, nameOf_of_below hbelow'] at hname
  have htext := eq_of_map_nameChar_eq happart hname
  have hsame := eq_of_intercalate_eq (hnames hbelow) (hnames hbelow') htext
  unfold Path.Below at hbelow hbelow'
  rw [Path.place, Path.place, hbelow, hbelow', hsame]

end Module

/-! ## Modules

A set keeps one module of each name. A directory whose name is taken is found, but it is not
compiled, and requests for it mean the module that came first. -/

/-- What is found under a name is a directory, and the module is named after it. -/
theorem ModuleRegistry.eq_of_find? {r : ModuleRegistry} {fs : FileSystem} {name : String}
    {found : FoundModule} (hfind : r.find? fs name = some found) :
    fs.isDirectory found.data.path = true ∧
      found.data.name = Module.nameOf found.data.path r.root := by
  obtain ⟨directory, hdirectory, rfl⟩ := Option.map_eq_some_iff.mp hfind
  exact ⟨List.find?_some hdirectory, rfl⟩

/-- So it is with all modules of a registry. -/
theorem ModuleRegistry.eq_of_mem_all {r : ModuleRegistry} {fs : FileSystem} {found : FoundModule}
    (hfound : found ∈ r.all fs) :
    fs.isDirectory found.data.path = true ∧
      found.data.name = Module.nameOf found.data.path r.root := by
  obtain ⟨directory, _, hbelow⟩ := List.mem_flatMap.mp hfound
  obtain ⟨name, hname, rfl⟩ := List.mem_map.mp hbelow
  refine ⟨?_, rfl⟩
  unfold FileSystem.subdirectories at hname
  split at hname
  · rw [List.mem_mergeSort, List.mem_filter] at hname
    exact hname.2
  · cases hname

/-- A name that records ask for and that is found stands for a module of the set, which has the name
of what was found. -/
theorem ModuleResolution.exists_module_of_find? (kind : ModuleKind) (lookup : ModuleLookup)
    (compileAll : Bool) {slot name : String} {records : List Document} {record : Document}
    (hrecord : record ∈ records) (hname : name ∈ record.names slot) {found : FoundModule}
    (hfind : lookup.find? name = some found) :
    ∃ m ∈ (resolve kind lookup compileAll slot records).set.modules,
      (resolve kind lookup compileAll slot records).set.resolve? name = some m.name ∧
        m.name = found.data.name := by
  obtain ⟨hanswered, hlookups⟩ := answered_resolve kind lookup compileAll slot records
  have hresolved := hanswered.resolved name (hlookups record hrecord name hname)
  rw [hfind, Option.map_some] at hresolved
  obtain ⟨m, hm, hsame⟩ := hanswered.consistent.aliases name found.data.name hresolved
  exact ⟨m, hm, by rw [hresolved, hsame], hsame⟩

/-- **No module is lost whose directory has a name of its own.** Two names that records ask for, and
that are found, mean modules of the set. These are the same module, with the same bit, just in case
the two directories have the same name; and directories in different places, below the module root
by names in which no two characters are replaced alike, mean different modules. -/
theorem resolved_apart_iff (r : ModuleRegistry) (fs : FileSystem) (compileAll : Bool)
    (slot : String) (records : List Document) {name name' : String}
    (hname : ∃ record ∈ records, name ∈ record.names slot)
    (hname' : ∃ record ∈ records, name' ∈ record.names slot) {found found' : FoundModule}
    (hfind : r.find? fs name = some found) (hfind' : r.find? fs name' = some found') :
    let set := (ModuleResolution.resolve r.kind (r.lookup fs) compileAll slot records).set
    ∃ m ∈ set.modules, ∃ m' ∈ set.modules,
      set.resolve? name = some m.name ∧ set.resolve? name' = some m'.name ∧
      (m.bit = m'.bit ↔ m = m') ∧
      (m = m' ↔ Module.nameOf found.data.path r.root = Module.nameOf found'.data.path r.root) ∧
      ∀ names names', found.data.path.Below r.root names → found'.data.path.Below r.root names' →
        Module.ReplacedApart ("/".intercalate names) ("/".intercalate names') →
        fs.locate found.data.path ≠ fs.locate found'.data.path → m.bit ≠ m'.bit := by
  intro set
  obtain ⟨record, hrecord, hname⟩ := hname
  obtain ⟨record', hrecord', hname'⟩ := hname'
  obtain ⟨hdirectory, hnamed⟩ := ModuleRegistry.eq_of_find? hfind
  obtain ⟨hdirectory', hnamed'⟩ := ModuleRegistry.eq_of_find? hfind'
  obtain ⟨m, hm, hresolve, hsame⟩ :=
    ModuleResolution.exists_module_of_find? r.kind (r.lookup fs) compileAll hrecord hname
      hfind
  obtain ⟨m', hm', hresolve', hsame'⟩ :=
    ModuleResolution.exists_module_of_find? r.kind (r.lookup fs) compileAll hrecord' hname'
      hfind'
  have hset : set.Consistent :=
    (ModuleResolution.answered_resolve r.kind (r.lookup fs) compileAll slot records).1.consistent
  -- in a set bits, modules and module names go together
  have hbit : m.bit = m'.bit ↔ m = m' := ⟨hset.eq_of_bit_eq hm hm', fun heq => heq ▸ rfl⟩
  have heq : m = m' ↔
      Module.nameOf found.data.path r.root = Module.nameOf found'.data.path r.root := by
    rw [← hnamed, ← hnamed', ← hsame, ← hsame']
    exact ⟨fun heq => heq ▸ rfl, hset.eq_of_name_eq hm hm'⟩
  refine ⟨m, hm, m', hm', hresolve, hresolve', hbit, heq, ?_⟩
  -- directories with the same name would be one place
  intro names names' hbelow hbelow' happart hplaces
  rw [FileSystem.exists_locate_of_isDirectory hdirectory,
    FileSystem.exists_locate_of_isDirectory hdirectory'] at hplaces
  rw [ne_eq, hbit, heq]
  intro hsameName
  exact hplaces (by rw [Module.place_eq_of_nameOf_eq hbelow hbelow' happart hsameName])

/-- A working directory with three prefetchers, two of which are told apart by a dot. -/
def dottedPrefetchers : FileSystem :=
  .around (.directory [("prefetcher", .directory
    [("stride", .empty), ("a.b", .empty), ("a_b", .empty)])])

/-- A cache that asks for all of them. -/
def greedyCache : Document :=
  Document.named "LLC" ++ [("prefetcher", .ofStrings ["stride", "a.b", "a_b"])]

/-- Where prefetchers are searched by default. -/
def defaultPrefetchers : ModuleRegistry := .ofOptions .prefetcher {} []

theorem exists_find?_dottedPrefetchers :
    ∀ name ∈ ["stride", "a.b", "a_b"],
      (∃ found, defaultPrefetchers.find? dottedPrefetchers name = some found ∧
        found.data.path.Below defaultPrefetchers.root ["prefetcher", name] ∧
        dottedPrefetchers.locate found.data.path = .ok ["workspace", "prefetcher", name]) ∧
      ∃ record ∈ [greedyCache], name ∈ record.names "prefetcher" := by
  have hcomputed : ∀ name ∈ ["stride", "a.b", "a_b"],
      (defaultPrefetchers.candidates name).find? dottedPrefetchers.isDirectory =
          some ⟨"./prefetcher/" ++ name⟩ ∧
        Path.Below ⟨"./prefetcher/" ++ name⟩ defaultPrefetchers.root ["prefetcher", name] ∧
        dottedPrefetchers.locate ⟨"./prefetcher/" ++ name⟩ = .ok ["workspace", "prefetcher", name] ∧
        name ∈ greedyCache.names "prefetcher" := by
    decide +kernel
  intro name hname
  obtain ⟨hfind, hbelow, hlocate, hasked⟩ := hcomputed name hname
  refine ⟨⟨defaultPrefetchers.moduleAt dottedPrefetchers ⟨"./prefetcher/" ++ name⟩, ?_, hbelow,
    hlocate⟩, greedyCache, List.mem_singleton_self _, hasked⟩
  rw [ModuleRegistry.find?, hfind, Option.map_some]

/-- The first two have different bits. -/
theorem resolved_apart_dottedPrefetchers :
    let set := (ModuleResolution.resolve defaultPrefetchers.kind
      (defaultPrefetchers.lookup dottedPrefetchers) false "prefetcher" [greedyCache]).set
    ∃ m ∈ set.modules, ∃ m' ∈ set.modules,
      set.resolve? "stride" = some m.name ∧ set.resolve? "a.b" = some m'.name ∧
        m.bit ≠ m'.bit := by
  intro set
  obtain ⟨⟨found, hfind, hbelow, hlocate⟩, hasked⟩ :=
    exists_find?_dottedPrefetchers "stride" (by decide)
  obtain ⟨⟨found', hfind', hbelow', hlocate'⟩, hasked'⟩ :=
    exists_find?_dottedPrefetchers "a.b" (by decide)
  obtain ⟨m, hm, m', hm', hresolve, hresolve', _, _, happart⟩ :=
    resolved_apart_iff defaultPrefetchers dottedPrefetchers false "prefetcher" [greedyCache]
      hasked hasked' hfind hfind'
  refine ⟨m, hm, m', hm', hresolve, hresolve', happart _ _ hbelow hbelow' (by decide +kernel) ?_⟩
  rw [hlocate, hlocate']
  decide

/-- The last two are found in different places, but mean the same module with the same bit. -/
theorem not_resolved_apart_dottedPrefetchers :
    let set := (ModuleResolution.resolve defaultPrefetchers.kind
      (defaultPrefetchers.lookup dottedPrefetchers) false "prefetcher" [greedyCache]).set
    ∃ found found', defaultPrefetchers.find? dottedPrefetchers "a.b" = some found ∧
      defaultPrefetchers.find? dottedPrefetchers "a_b" = some found' ∧
      dottedPrefetchers.locate found.data.path ≠ dottedPrefetchers.locate found'.data.path ∧
      ∃ m ∈ set.modules, set.resolve? "a.b" = some m.name ∧ set.resolve? "a_b" = some m.name ∧
        ∀ m' ∈ set.modules, m'.name = m.name → m' = m := by
  intro set
  obtain ⟨⟨found, hfind, hbelow, hlocate⟩, record, hrecord, hname⟩ :=
    exists_find?_dottedPrefetchers "a.b" (by decide)
  obtain ⟨⟨found', hfind', hbelow', hlocate'⟩, record', hrecord', hname'⟩ :=
    exists_find?_dottedPrefetchers "a_b" (by decide)
  have hplaces : dottedPrefetchers.locate found.data.path ≠
      dottedPrefetchers.locate found'.data.path := by
    rw [hlocate, hlocate']
    decide
  -- a dot is replaced by what the other directory has in its place
  have hsame : found.data.name = found'.data.name := by
    rw [(ModuleRegistry.eq_of_find? hfind).2, (ModuleRegistry.eq_of_find? hfind').2,
      Module.nameOf_of_below hbelow, Module.nameOf_of_below hbelow', ← String.toList_inj,
      String.toList_map, String.toList_map]
    decide +kernel
  obtain ⟨m, hm, hresolve, hnamed⟩ :=
    ModuleResolution.exists_module_of_find? defaultPrefetchers.kind
      (defaultPrefetchers.lookup dottedPrefetchers) false hrecord hname hfind
  obtain ⟨m', _, hresolve', hnamed'⟩ :=
    ModuleResolution.exists_module_of_find? defaultPrefetchers.kind
      (defaultPrefetchers.lookup dottedPrefetchers) false hrecord' hname' hfind'
  have hboth : m'.name = m.name := by rw [hnamed, hnamed', hsame]
  have hset : set.Consistent := (ModuleResolution.answered_resolve defaultPrefetchers.kind
    (defaultPrefetchers.lookup dottedPrefetchers) false "prefetcher" [greedyCache]).1.consistent
  exact ⟨found, found', hfind, hfind', hplaces, m, hm, hresolve, hboth ▸ hresolve',
    fun other hother hname => hset.eq_of_name_eq hother hm hname⟩

end MemoryHierarchy
