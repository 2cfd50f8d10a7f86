import MemoryHierarchy.Artifact.Basic
import MemoryHierarchy.Check.Topology

/-!
# Compilation

Documents are loaded, normalized, resolved, checked, and turned into texts. `emit` does nothing for
a configuration that does not pass its checks.
-/

namespace MemoryHierarchy

/-- Reads a document from a file. A file that cannot be read, that is no JSON, or that holds
anything but a mapping is refused with its path. -/
def loadDocument (fs : FileSystem) (path : Path) : Except CompileError Document :=
  match fs.read path with
  | .error cause => .error (.io path.text cause)
  | .ok text =>
    match Json.parse? text with
    | none => .error (.parse path.text)
    | some (.object fields) => .ok fields
    | some other => .error (.structural path.text "a mapping at the top level" other)

/-- Reads documents in order of priority. The first that cannot be loaded is the error. -/
def loadDocuments (fs : FileSystem) (paths : List Path) : Except CompileError (List Document) :=
  paths.mapM (loadDocument fs)

/-- Resolves layered documents with the modules of a file system. The directories to search are
taken from the root, so documents have to be normalized first. -/
def resolveDocuments (fs : FileSystem) (options : Options) (docs : List Document) :
    Except CompileError Resolution := do
  let normalized ← NormalizedConfiguration.ofDocuments docs
  pure (normalized.resolve options (.ofOptions fs options normalized.root))

namespace ResolvedConfiguration

/-- The texts of a configuration that passes its checks. All that is wrong is reported together, and
nothing is typed or ordered then. -/
def emit (r : ResolvedConfiguration) : Except CompileError Artifacts := do
  let diagnostics := r.diagnostics
  if !diagnostics.isEmpty then throw (.invalid diagnostics)
  Artifacts.ofModel (← Model.ofResolved r)

end ResolvedConfiguration

/-- Compiles layered documents with the modules of a file system. The file system is only read. -/
def compile (fs : FileSystem) (options : Options) (docs : List Document) :
    Except CompileError Artifacts := do
  let resolution ← resolveDocuments fs options docs
  resolution.configuration.emit

end MemoryHierarchy
