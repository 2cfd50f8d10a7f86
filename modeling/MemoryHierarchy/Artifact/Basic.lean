import MemoryHierarchy.Artifact.BuildFragment
import MemoryHierarchy.Artifact.Glue
import MemoryHierarchy.Artifact.Header
import MemoryHierarchy.Artifact.Wiring
import MemoryHierarchy.FileTree

/-!
# Generated texts

The four texts that are generated from a model, and the files they are written to.
-/

namespace MemoryHierarchy

/-- The texts that are generated from a model. A model has all four of them or none. -/
structure Artifacts where
  wiring : String
  constants : String
  buildFragment : String
  moduleGlue : String
deriving DecidableEq

namespace Artifacts

/-- The texts of a model, if its elements can be declared in order. The order is all that can fail
here, and the error names the first element that points forward. -/
def ofModel (m : Model) : Except CompileError Artifacts :=
  (declarationOrder m).map fun order =>
    { wiring := textOfLines (Wiring.ofOrder m order).lines
      constants := textOfLines (Header.lines m)
      buildFragment := textOfLines (BuildFragment.lines m)
      moduleGlue := textOfLines (Glue.lines m.modules) }

/-- The files of the texts, in the order in which they are written. Their names are fixed, whatever
the configuration is called. -/
def files (a : Artifacts) : List (Path × String) :=
  [(⟨"instantiation.inc"⟩, a.wiring), (⟨"constants.h"⟩, a.constants),
    (⟨"config.mk"⟩, a.buildFragment), (⟨"module_glue.inc"⟩, a.moduleGlue)]

/-- Files with what has been written of them. It is carried along while files are written, so that a
failure can say how far it got. -/
structure Written where
  files : FileSystem
  paths : List Path

/-- Writes a text to a file of a directory. A failure names the path and leaves the files as they
were. -/
def writeFile (directory : Path) (w : Written) (file : Path × String) :
    Written × Option CompileError :=
  let path := directory.join file.1
  match w.files.write path file.2 with
  | .ok fs => (⟨fs, w.paths ++ [path]⟩, none)
  | .error cause => (w, some (.io path.text cause))

/-- Writes texts to files of a directory, up to the first one that cannot be written. What has been
written before stays. -/
def writeFiles (directory : Path) : Written → List (Path × String) → Written × Option CompileError
  | w, [] => (w, none)
  | w, file :: rest =>
    match writeFile directory w file with
    | (w, none) => writeFiles directory w rest
    | (w, some e) => (w, some e)

/-- Writes the texts into a directory, which is created where it is missing. What has been written
stays when a later file cannot be. -/
def writeTo (a : Artifacts) (fs : FileSystem) (directory : Path) : Written × Option CompileError :=
  match fs.makeDirectories directory with
  | .error cause => (⟨fs, []⟩, some (.io directory.text cause))
  | .ok fs => writeFiles directory ⟨fs, []⟩ a.files

end Artifacts

end MemoryHierarchy
