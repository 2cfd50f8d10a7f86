import MemoryHierarchy.CommandLine
import MemoryHierarchy.Proofs.Artifact.Order
import MemoryHierarchy.Proofs.FileTree

/-!
# What the command line leaves behind

A run computes everything it may write before the first directory is created. So what is only
checked or printed, or cannot be compiled, leaves the files as they are, and what succeeds leaves
the texts in the output directory and changes nothing else, `Artifacts.FilledIn`.
-/

namespace MemoryHierarchy

open MemoryHierarchy.Path (IsName)

namespace Artifacts

variable {directory : Path} {w w' : Written} {files : List (Path × String)}

/-! ## Writing the files of a directory

Files are written in turn to different places of one directory. A file that has been written is not
touched by those behind it. -/

theorem exists_of_writeFiles_cons {file : Path × String}
    (hwrite : writeFiles directory w (file :: files) = (w', none)) :
    ∃ between, w.files.write (directory.join file.1) file.2 = .ok between.files ∧
      writeFiles directory between files = (w', none) := by
  unfold writeFiles at hwrite
  -- the equation of `writeFile` takes long to make, and nothing else needs it
  delta writeFile at hwrite
  dsimp only at hwrite
  cases hfirst : w.files.write (directory.join file.1) file.2 with
  | error cause =>
    rw [hfirst] at hwrite
    cases hwrite
  | ok fs =>
    rw [hfirst] at hwrite
    exact ⟨_, rfl, hwrite⟩

/-- No directory is overwritten. -/
theorem contentAt?_writeFiles_of_directory {q : List String}
    (hworking : w.files.contentAt? w.files.working = some none)
    (hwrite : writeFiles directory w files = (w', none)) (hq : w.files.contentAt? q = some none) :
    w'.files.contentAt? q = some none := by
  induction files generalizing w with
  | nil =>
    cases hwrite
    exact hq
  | cons file files ih =>
    obtain ⟨between, hfirst, hrest⟩ := exists_of_writeFiles_cons hwrite
    exact ih (FileSystem.contentAt?_working_write hworking hfirst) hrest
      (FileSystem.contentAt?_write_of_directory hworking hfirst hq)

theorem contentAt?_writeFiles_of_forall_ne {q : List String}
    (hworking : w.files.contentAt? w.files.working = some none)
    (hwrite : writeFiles directory w files = (w', none))
    (hq : ∀ file ∈ files, q ≠ (directory.join file.1).place w.files.working) :
    w'.files.contentAt? q = w.files.contentAt? q := by
  induction files generalizing w with
  | nil =>
    cases hwrite
    rfl
  | cons file files ih =>
    obtain ⟨between, hfirst, hrest⟩ := exists_of_writeFiles_cons hwrite
    obtain ⟨hne, hq⟩ := List.forall_mem_cons.mp hq
    rw [← FileSystem.working_write hfirst] at hq
    rw [ih (FileSystem.contentAt?_working_write hworking hfirst) hrest hq,
      (FileSystem.contentAt?_write hworking hfirst).2, if_neg hne]

/-- A file keeps its text while the files behind it are written to other places. -/
theorem contentAt?_writeFiles_of_mem {file : Path × String}
    (hworking : w.files.contentAt? w.files.working = some none)
    (hapart : files.Pairwise fun file other =>
      (directory.join file.1).place w.files.working ≠
        (directory.join other.1).place w.files.working)
    (hwrite : writeFiles directory w files = (w', none)) (hfile : file ∈ files) :
    w'.files.contentAt? ((directory.join file.1).place w.files.working) = some (some file.2) := by
  induction files generalizing w with
  | nil => exact absurd hfile List.not_mem_nil
  | cons first files ih =>
    obtain ⟨between, hfirst, hrest⟩ := exists_of_writeFiles_cons hwrite
    have hbetween := FileSystem.contentAt?_working_write hworking hfirst
    have hsame := FileSystem.working_write hfirst
    obtain ⟨hne, hapart⟩ := List.pairwise_cons.mp hapart
    rw [← hsame] at hne hapart ⊢
    -- the first file is written, and the files behind it go to other places
    rcases List.mem_cons.mp hfile with rfl | hfile
    · rw [contentAt?_writeFiles_of_forall_ne hbetween hrest hne,
        (FileSystem.contentAt?_write hworking hfirst).2, hsame, if_pos rfl]
    · exact ih hbetween hapart hrest hfile

theorem working_writeFiles (hwrite : writeFiles directory w files = (w', none)) :
    w'.files.working = w.files.working := by
  induction files generalizing w with
  | nil =>
    cases hwrite
    rfl
  | cons file files ih =>
    obtain ⟨between, hfirst, hrest⟩ := exists_of_writeFiles_cons hwrite
    rw [ih hrest, FileSystem.working_write hfirst]

theorem names_files (a : Artifacts) : a.files.map (fun file => file.1.text) =
    ["instantiation.inc", "constants.h", "config.mk", "module_glue.inc"] := rfl

theorem isName_of_mem_files {a : Artifacts} {file : Path × String} (hfile : file ∈ a.files) :
    IsName file.1.text := by
  have hnames : ∀ name ∈ a.files.map fun file => file.1.text, IsName name := by
    rw [names_files]
    decide
  exact hnames _ (List.mem_map_of_mem hfile)

theorem pairwise_place_files (a : Artifacts) (directory : Path) (working : List String) :
    a.files.Pairwise fun file other =>
      (directory.join file.1).place working ≠ (directory.join other.1).place working := by
  have hnames : (a.files.map fun file => file.1.text).Nodup := by
    rw [names_files]
    decide
  refine (List.pairwise_map.mp hnames).imp_of_mem fun {file other} hfile hother hne heq => hne ?_
  rw [Path.place_join (isName_of_mem_files hfile), Path.place_join (isName_of_mem_files hother),
    List.append_right_inj, List.singleton_inj] at heq
  exact heq

/-! ## Writing the texts

The directory is created with those above it, and the files are written into it. Both are seen in
the whole tree: each place is accounted for, the ones that change and all others. -/

/-- The texts fill a directory, each in the file of its own, and nothing else is different. The
directory is created where it is missing, with the directories on the way to it, and nothing that
was there before was a file. -/
structure FilledIn (a : Artifacts) (directory : Path) (before after : FileSystem) : Prop where
  working : after.working = before.working
  /-- The output directory is there, with its parents, and none of them replaces a file. -/
  directories : ∀ q ∈ directory.way before.working, after.contentAt? q = some none ∧
    (before.contentAt? q = none ∨ before.contentAt? q = some none)
  wiring : after.contentAt? ((directory.join ⟨"instantiation.inc"⟩).place before.working) =
    some (some a.wiring)
  constants : after.contentAt? ((directory.join ⟨"constants.h"⟩).place before.working) =
    some (some a.constants)
  buildFragment : after.contentAt? ((directory.join ⟨"config.mk"⟩).place before.working) =
    some (some a.buildFragment)
  moduleGlue : after.contentAt? ((directory.join ⟨"module_glue.inc"⟩).place before.working) =
    some (some a.moduleGlue)
  /-- What is neither a directory on the way nor one of the four files is as it was. -/
  others : ∀ q ∉ directory.way before.working,
    (∀ file ∈ ["instantiation.inc", "constants.h", "config.mk", "module_glue.inc"],
      q ≠ (directory.join ⟨file⟩).place before.working) →
    after.contentAt? q = before.contentAt? q

theorem filledIn_of_writeTo {a : Artifacts} {fs : FileSystem}
    (hworking : fs.contentAt? fs.working = some none)
    (hwrite : a.writeTo fs directory = (w, none)) : a.FilledIn directory fs w.files := by
  unfold writeTo at hwrite
  split at hwrite
  · cases hwrite
  next made hmake =>
  obtain ⟨hcreates, hway⟩ := FileSystem.createsOn_of_makeDirectories hworking hmake
  have hmade := hcreates.contentAt?_working hworking
  -- no file is overwritten by a later one, since the four names lead to different places
  have hholds : ∀ file ∈ a.files,
      w.files.contentAt? ((directory.join file.1).place fs.working) = some (some file.2) :=
    fun file hfile => hcreates.working ▸
      contentAt?_writeFiles_of_mem hmade (a.pairwise_place_files directory _) hwrite hfile
  simp only [files, List.forall_mem_cons] at hholds
  obtain ⟨hwiring, hconstants, hbuildFragment, hmoduleGlue, -⟩ := hholds
  exact {
    working := (working_writeFiles hwrite).trans hcreates.working
    directories := fun q hq => by
      refine ⟨contentAt?_writeFiles_of_directory hmade hwrite (hway q hq), ?_⟩
      rcases hcreates.changes q with hsame | ⟨-, hnone, -⟩
      · exact .inr (hsame ▸ hway q hq)
      · exact .inl hnone
    wiring := hwiring
    constants := hconstants
    buildFragment := hbuildFragment
    moduleGlue := hmoduleGlue
    others := fun q hq hfiles => by
      have hne : ∀ file ∈ a.files, q ≠ (directory.join file.1).place made.working :=
        fun file hfile => hcreates.working ▸
          hfiles file.1.text (a.names_files ▸ List.mem_map_of_mem hfile)
      rw [contentAt?_writeFiles_of_forall_ne hmade hwrite hne]
      exact (hcreates.changes q).resolve_right fun hnew => hq hnew.1 }

end Artifacts

namespace Command

variable {c : Command} {fs : FileSystem}

/-! ## Runs of a command

A run that writes is one that has compiled. All failures come before the first change of the tree,
but for those of the tree itself. -/

/-- The configuration that a command is about. Commands that only look at a configuration stop here.
-/
def resolved (c : Command) (fs : FileSystem) : Except CompileError ResolvedConfiguration := do
  let options ← c.compilerOptions fs
  let docs ← loadDocuments fs c.configs
  let resolution ← resolveDocuments fs options docs
  pure resolution.configuration

/-- The texts that are compiled from what a command names. A failure on the way is the failure that
the command reports. -/
def compiled (c : Command) (fs : FileSystem) : Except CompileError Artifacts := do
  let options ← c.compilerOptions fs
  let docs ← loadDocuments fs c.configs
  compile fs options docs

theorem compiled_eq (c : Command) (fs : FileSystem) :
    c.compiled fs = c.resolved fs >>= ResolvedConfiguration.emit := by
  simp only [compiled, resolved, compile, bind_assoc, pure_bind]

theorem run_of_resolved_eq_error {e : CompileError} (hresolved : c.resolved fs = .error e) :
    c.run fs = .failure fs e := by
  unfold resolved at hresolved
  rw [run, hresolved]

theorem run_of_resolved_eq_ok {r : ResolvedConfiguration} (hresolved : c.resolved fs = .ok r) :
    c.run fs = c.finish fs r := by
  unfold resolved at hresolved
  rw [run, hresolved]

/-- What is checked or printed is not written. -/
theorem files_run_of_flag (hflag : c.check = true ∨ c.dumpResolved = true) :
    (c.run fs).files = fs := by
  cases hresolved : c.resolved fs with
  | error e =>
    rw [run_of_resolved_eq_error hresolved]
    rfl
  | ok r =>
    rw [run_of_resolved_eq_ok hresolved, finish]
    split
    · rfl
    next hdump =>
    rw [if_pos (hflag.resolve_right hdump)]
    split <;> rfl

/-- What cannot be compiled is not written. -/
theorem files_run_of_error {e : CompileError} (herror : c.compiled fs = .error e) :
    (c.run fs).files = fs := by
  rw [compiled_eq] at herror
  cases hresolved : c.resolved fs with
  | error e =>
    rw [run_of_resolved_eq_error hresolved]
    rfl
  | ok r =>
    rw [hresolved] at herror
    have hemit : r.emit = .error e := herror
    rw [run_of_resolved_eq_ok hresolved, finish, hemit]
    split
    · rfl
    split
    · split <;> rfl
    · rfl

theorem exists_writeTo_of_exitCode_run (hcheck : ¬c.check) (hdump : ¬c.dumpResolved)
    (hexit : (c.run fs).exitCode = 0) :
    ∃ artifacts w, c.compiled fs = .ok artifacts ∧
      artifacts.writeTo fs (c.outputDirectory.getD ⟨"."⟩) = (w, none) ∧
      (c.run fs).files = w.files := by
  rw [compiled_eq]
  -- each way to fail ends with another exit code
  cases hresolved : c.resolved fs with
  | error e =>
    rw [run_of_resolved_eq_error hresolved] at hexit
    cases hexit
  | ok r =>
    rw [run_of_resolved_eq_ok hresolved, finish, if_neg hdump, if_neg hcheck] at hexit ⊢
    cases hemit : r.emit with
    | error e =>
      rw [hemit] at hexit
      cases hexit
    | ok artifacts =>
      rw [hemit] at hexit
      dsimp only at hexit ⊢
      rcases hwrite : artifacts.writeTo fs (c.outputDirectory.getD ⟨"."⟩) with ⟨w, _ | e⟩
      · exact ⟨artifacts, w, hemit, hwrite, rfl⟩
      · rw [hwrite] at hexit
        cases hexit

end Command

/-- **A compilation that fails leaves nothing behind.** Where only a check or a print is asked for,
or a part of the compilation fails, the files are as before; where a run succeeds that is to write,
the output directory is there and holds the texts, and all else is as before. -/
theorem files_of_runArguments {arguments : List String} {c : Command} {fs : FileSystem}
    (harguments : Command.ofArguments arguments = .ok c) :
    (c.check ∨ c.dumpResolved → (runArguments arguments fs).files = fs) ∧
      (∀ e, c.compiled fs = .error e → (runArguments arguments fs).files = fs) ∧
      (fs.isDirectory ⟨"."⟩ → ¬c.check → ¬c.dumpResolved →
        (runArguments arguments fs).exitCode = 0 →
        ∃ artifacts, c.compiled fs = .ok artifacts ∧
          artifacts.FilledIn (c.outputDirectory.getD ⟨"."⟩) fs
            (runArguments arguments fs).files) := by
  have hrun : runArguments arguments fs = c.run fs := by rw [runArguments, harguments]
  rw [hrun]
  refine ⟨Command.files_run_of_flag, fun e => Command.files_run_of_error, ?_⟩
  -- a run that succeeds has written all files, so nothing has stopped it on the way
  intro hdirectory hcheck hdump hexit
  obtain ⟨artifacts, w, hcompiled, hwrite, hfiles⟩ :=
    Command.exists_writeTo_of_exitCode_run hcheck hdump hexit
  have hworking : fs.contentAt? fs.working = some none :=
    FileSystem.contentAt?_of_isDirectory hdirectory
  exact ⟨artifacts, hcompiled, hfiles ▸ Artifacts.filledIn_of_writeTo hworking hwrite⟩

/-- A working directory with a document in which nothing is declared. -/
def oneDocument : FileSystem := .around (.directory [("config.json", .file "{}")])

open NormalizedConfiguration in
theorem files_of_runArguments_oneDocument :
    (runArguments ["config.json", "--check"] oneDocument).files = oneDocument ∧
      (runArguments ["other.json"] oneDocument).files = oneDocument ∧
      ∃ artifacts, Command.compiled { configs := [⟨"config.json"⟩] } oneDocument = .ok artifacts ∧
        artifacts.FilledIn ⟨"out/gen"⟩ oneDocument
          (runArguments ["config.json", "-o", "out/gen"] oneDocument).files := by
  have hcheck : Command.ofArguments ["config.json", "--check"] =
      .ok { configs := [⟨"config.json"⟩], check := true } := by decide +kernel
  have hother : Command.ofArguments ["other.json"] = .ok { configs := [⟨"other.json"⟩] } := by
    decide +kernel
  have hgen : Command.ofArguments ["config.json", "-o", "out/gen"] =
      .ok { configs := [⟨"config.json"⟩], outputDirectory := some ⟨"out/gen"⟩ } := by
    decide +kernel
  have hmissing : Command.compiled { configs := [⟨"other.json"⟩] } oneDocument =
      .error (.io "other.json" .notFound) := rfl
  have hsuccess : (runArguments ["config.json", "-o", "out/gen"] oneDocument).exitCode = 0 := by
    simp -zeta only [runArguments, Command.run, Command.finish, resolveDocuments,
      resolve_eq_sorting, ResolvedConfiguration.emit_eq_sorting]
    decide +kernel
  have hfilled := (files_of_runArguments hgen).2.2 (by decide +kernel) Bool.false_ne_true
    Bool.false_ne_true hsuccess
  exact ⟨(files_of_runArguments hcheck).1 (.inl rfl),
    (files_of_runArguments hother).2.1 _ hmissing, hfilled⟩

end MemoryHierarchy
