import Mathlib.Data.List.Find
import MemoryHierarchy.Module.Registry
import MemoryHierarchy.Proofs.FileTree

/-!
# A module is found by name where listing meets it first

A registry looks for a name in its directories one after the other, by appending the name to the
path of each, and it lists all modules by going through the same directories. Both read a module off
the path at which it is met, so they agree: of the modules that are listed, the first one of a class
is the one that is found by that name (`ModuleRegistry.find?_eq_first_listed`).
-/

namespace MemoryHierarchy

namespace FileSystem

variable {fs : FileSystem} {p : Path} {name : String}

/-- A path is not refused when what lies behind it is not. -/
theorem refusal?_of_join (hname : Path.IsName name) (hblank : p.text ≠ "")
    (hjoin : refusal? (p.join ⟨name⟩) = none) : refusal? p = none := by
  obtain ⟨rest, htext⟩ := Path.exists_text_join hname p
  unfold refusal? at hjoin ⊢
  rw [htext, String.toList_append, String.utf8ByteSize_append] at hjoin
  split at hjoin
  · cases hjoin
  split at hjoin
  · cases hjoin
  split at hjoin
  · cases hjoin
  next hnul _ hlong =>
  rw [if_neg fun hmem => hnul (List.mem_append_left _ hmem), if_neg hblank, if_neg (by omega)]

/-- Where a name is followed to, there is a directory with an entry of that name. -/
theorem exists_entry_of_step (hname : Path.IsName name) {place next : List String}
    (hstep : fs.step place name = .ok next) :
    ∃ entries, fs.root.at? place = some (.directory entries) ∧
      (entries.lookup name).isSome = true := by
  obtain ⟨hplace, hthere, _⟩ := contentAt?_of_step hstep
  obtain ⟨entries, hentries⟩ := FileTree.contentAt?_eq_directory_iff.mp hplace
  have hnext : next = place ++ [name] := by
    rw [eq_follow_of_step hstep, hname.1]
    rfl
  refine ⟨entries, hentries, ?_⟩
  rw [hnext, contentAt?, FileTree.contentAt?, FileTree.at?_append, hentries, Option.bind_some,
    ← FileTree.contentAt?, FileTree.contentAt?_cons, FileTree.child?] at hthere
  rw [Option.isSome_iff_ne_none]
  intro habsent
  rw [habsent] at hthere
  exact hthere rfl

/-- A path behind which a name can be followed leads to a directory with an entry of that name. -/
theorem exists_lookup_of_locate_join (hname : Path.IsName name) (hblank : p.text ≠ "")
    {place : List String} (hlocate : fs.locate (p.join ⟨name⟩) = .ok place) :
    ∃ entries, fs.lookup p = .ok (.directory entries) ∧ (entries.lookup name).isSome = true := by
  -- the path with the name is followed through the segments in front, and the name comes last
  obtain ⟨front, _, hjoin, hsegments⟩ := Path.exists_segments_join hname hblank
  have hstart : fs.start (p.join ⟨name⟩) = fs.start p := by
    rw [start, start, Path.isAbsolute_join hname hblank]
  unfold locate at hlocate
  split at hlocate
  · cases hlocate
  next hrefusal =>
  rw [hjoin, hstart, List.foldlM_append, bind_eq_ok_iff] at hlocate
  obtain ⟨last, hwalk, hlast⟩ := hlocate
  rw [List.foldlM_cons, bind_eq_ok_iff] at hlast
  obtain ⟨next, hstep, -⟩ := hlast
  obtain ⟨entries, hentries, hentry⟩ := exists_entry_of_step hname hstep
  have hp : fs.locate p = .ok last := by
    unfold locate
    rw [refusal?_of_join hname hblank hrefusal]
    dsimp only
    rcases hsegments with hsegments | hsegments
    · rw [hsegments, hwalk]
    · -- a slash at the end of the path is followed to where it is
      have hslash : fs.step last "" = .ok last := by
        rw [step, hentries]
        rfl
      rw [hsegments, List.foldlM_append, hwalk]
      show (fs.step last "" >>= pure) = .ok last
      rw [hslash]
      rfl
  refine ⟨entries, ?_, hentry⟩
  rw [lookup, hp]
  dsimp only
  rw [hentries]

/-- **The subdirectories that are listed are those that a path can lead to.** In a well-named tree
the name of an entry is a path of one component, which leads to the entry. -/
theorem mem_subdirectories_iff (hname : Path.IsName name) (hblank : p.text ≠ "") :
    name ∈ fs.subdirectories p ↔ fs.isDirectory (p.join ⟨name⟩) = true := by
  constructor
  · intro hmem
    unfold subdirectories at hmem
    split at hmem
    · rw [List.mem_mergeSort, List.mem_filter] at hmem
      exact hmem.2
    · cases hmem
  · intro hdirectory
    -- where a path leads to a directory, the directory above has an entry of the last name
    obtain ⟨entries, hlookup, hentry⟩ :=
      exists_lookup_of_locate_join hname hblank (exists_locate_of_isDirectory hdirectory)
    unfold subdirectories
    rw [hlookup]
    dsimp only
    rw [List.mem_mergeSort, List.mem_filter]
    refine ⟨List.mem_map.mpr ?_, hdirectory⟩
    obtain ⟨entry, hmem, hkey⟩ := List.lookup_isSome_iff.mp hentry
    exact ⟨entry, hmem, (beq_iff_eq.mp hkey).symm⟩

/-- Where entries have names that a path can spell, so have the subdirectories that are listed. -/
theorem isName_of_mem_subdirectories (htree : fs.root.wellNamed = true) {other : String}
    (hother : other ∈ fs.subdirectories p) : Path.IsName other := by
  unfold subdirectories lookup at hother
  cases hlocate : fs.locate p with
  | error e =>
    rw [hlocate] at hother
    cases hother
  | ok place =>
    rw [hlocate] at hother
    dsimp only at hother
    cases hfound : fs.root.at? place with
    | none =>
      rw [hfound] at hother
      cases hother
    | some tree =>
      rw [hfound, List.mem_mergeSort, List.mem_filter] at hother
      -- a part of a well-named tree is well named
      have hnamed := FileTree.wellNamed_of_at? htree hfound
      cases tree with
      | file content => exact absurd hother.1 List.not_mem_nil
      | directory entries =>
        obtain ⟨entry, hentry, rfl⟩ := List.mem_map.mp hother.1
        exact (FileTree.entriesWellNamed_iff.mp hnamed entry hentry).1

end FileSystem

namespace ModuleRegistry

variable {r : ModuleRegistry} {fs : FileSystem} {name : String}

/-- The class of a module below a directory is called as its own directory is. -/
theorem className_moduleAt_join (hname : Path.IsName name) (directory : Path) :
    (r.moduleAt fs (directory.join ⟨name⟩)).data.className = name := by
  have hlast : (directory.join ⟨name⟩).fileName? = some name := by
    rw [Path.fileName?, Path.components_join hname, List.getLast?_concat]
    rfl
  show (directory.join ⟨name⟩).fileName?.getD _ = name
  rw [hlast, Option.getD_some]

/-- Of the modules below a directory, the first one of a class is the one behind that name. -/
theorem find?_modulesBelow (hname : Path.IsName name) {directory : Path}
    (hblank : directory.text ≠ "") (htree : fs.root.wellNamed = true) :
    (r.modulesBelow fs directory).find? (·.data.className = name) =
      if fs.isDirectory (directory.join ⟨name⟩) then
        some (r.moduleAt fs (directory.join ⟨name⟩)) else none := by
  -- the class of a module below the directory is the name of its entry
  have hfind : (fs.subdirectories directory).find?
      ((fun found => decide (found.data.className = name)) ∘
        fun other => r.moduleAt fs (directory.join ⟨other⟩)) =
      (fs.subdirectories directory).find? (· = name) :=
    List.find?_congr fun other hother => by
      rw [Function.comp_apply,
        className_moduleAt_join (FileSystem.isName_of_mem_subdirectories htree hother)]
  have hnames : (fs.subdirectories directory).find? (· = name) =
      if name ∈ fs.subdirectories directory then some name else none := by
    induction fs.subdirectories directory with
    | nil => rfl
    | cons other names ih => grind
  rw [modulesBelow, List.find?_map, hfind, hnames]
  simp only [FileSystem.mem_subdirectories_iff hname hblank]
  split <;> rfl

/-- What is found first in the directories of a registry, by listing or by name. -/
theorem find?_all (hname : Path.IsName name) (hblank : ∀ d ∈ r.directories, d.text ≠ "")
    (htree : fs.root.wellNamed = true) :
    (r.all fs).find? (·.data.className = name) =
      (r.directories.find? fun d => fs.isDirectory (d.join ⟨name⟩)).map
        fun d => r.moduleAt fs (d.join ⟨name⟩) := by
  unfold all
  generalize r.directories = directories at hblank ⊢
  induction directories with
  | nil => rfl
  | cons d directories ih =>
    rw [List.forall_mem_cons] at hblank
    rw [List.flatMap_cons, List.find?_append, find?_modulesBelow hname hblank.1 htree,
      ih hblank.2, List.find?_cons]
    cases fs.isDirectory (d.join ⟨name⟩) <;> rfl

theorem find?_eq_or (r : ModuleRegistry) (fs : FileSystem) (name : String) :
    r.find? fs name =
      ((r.directories.find? fun d => fs.isDirectory (d.join ⟨name⟩)).map
        fun d => r.moduleAt fs (d.join ⟨name⟩)).or
      (if fs.isDirectory ⟨name⟩ then some (r.moduleAt fs ⟨name⟩) else none) := by
  rw [find?, candidates, List.find?_append, List.find?_map, List.find?_singleton, Option.map_or,
    Option.map_map]
  refine congrArg (Option.or _) ?_
  split <;> rfl

/-- **Looking for a name and listing all modules agree.** Where some directory of a registry has a
subdirectory of the name, what is found is the first of all modules whose class is the name. Where
none has, a module is found just in case the name by itself leads to a directory. Directories are
not spelled by the blank text, and may lead anywhere, up to the root. In the tree every entry has a
name of one component, without a slash, and neither `.` nor `..`. -/
theorem find?_eq_first_listed (r : ModuleRegistry) (fs : FileSystem) {name : String}
    (hname : Path.IsName name) (hblank : ∀ d ∈ r.directories, d.text ≠ "")
    (htree : fs.root.wellNamed = true) :
    ((∃ d ∈ r.directories, fs.isDirectory (d.join ⟨name⟩) = true) →
      ∃ found, r.find? fs name = some found ∧
        (r.all fs).find? (·.data.className = name) = some found) ∧
      ((¬∃ d ∈ r.directories, fs.isDirectory (d.join ⟨name⟩) = true) →
        ((r.find? fs name).isSome = true ↔ fs.isDirectory ⟨name⟩ = true)) := by
  rw [find?_eq_or, find?_all hname hblank htree]
  constructor
  · intro hthere
    obtain ⟨d, hd⟩ := Option.isSome_iff_exists.mp (List.find?_isSome.mpr hthere)
    exact ⟨r.moduleAt fs (d.join ⟨name⟩), by rw [hd]; rfl, by rw [hd]; rfl⟩
  · intro hnowhere
    -- only the name by itself is left to try
    have hnone : (r.directories.find? fun d => fs.isDirectory (d.join ⟨name⟩)) = none :=
      List.find?_eq_none.mpr fun d hd hdirectory => hnowhere ⟨d, hd, hdirectory⟩
    rw [hnone, Option.map_none, Option.none_or]
    split
    · next hdirectory => simp [hdirectory]
    · next hdirectory => simp [hdirectory]

/-- Directories of prefetchers, two of which hold one of the same name. -/
def shadowedPrefetchers : FileSystem :=
  .around (.directory [
    ("other", .directory [("stride", .empty)]),
    ("mine", .directory [("next", .directory [("__legacy__", .file "")])]),
    ("theirs", .directory [("next", .empty)])])

/-- A registry that searches them, behind a directory that is missing and the root. The missing one
is passed over, and the root has no entry but the working directory. -/
def shadowingRegistry : ModuleRegistry :=
  ⟨.prefetcher, ⟨"."⟩, [⟨"missing"⟩, ⟨".."⟩, ⟨"other"⟩, ⟨"./mine/"⟩, ⟨"theirs"⟩]⟩

/-- The first of the two is found and listed first. -/
theorem find?_eq_first_listed_shadowed :
    Path.IsName "next" ∧ (∀ d ∈ shadowingRegistry.directories, d.text ≠ "") ∧
      shadowedPrefetchers.root.wellNamed = true ∧
      ∃ found, shadowingRegistry.find? shadowedPrefetchers "next" = some found ∧
        (shadowingRegistry.all shadowedPrefetchers).find? (·.data.className = "next") =
          some found ∧
        found.data.path = ⟨"./mine/next"⟩ := by
  have hname : Path.IsName "next" := by decide
  have hblank : ∀ d ∈ shadowingRegistry.directories, d.text ≠ "" := by decide
  have htree : shadowedPrefetchers.root.wellNamed = true := by decide +kernel
  have hthere : ∃ d ∈ shadowingRegistry.directories,
      shadowedPrefetchers.isDirectory (d.join ⟨"next"⟩) = true :=
    ⟨⟨"theirs"⟩, by decide, by decide +kernel⟩
  obtain ⟨found, hfind, hall⟩ :=
    (find?_eq_first_listed shadowingRegistry shadowedPrefetchers hname hblank htree).1 hthere
  refine ⟨hname, hblank, htree, found, hfind, hall, ?_⟩
  have hpath : (shadowingRegistry.find? shadowedPrefetchers "next").map (·.data.path) =
      some ⟨"./mine/next"⟩ := by
    decide +kernel
  rw [hfind] at hpath
  exact Option.some.inj hpath

end ModuleRegistry

end MemoryHierarchy
