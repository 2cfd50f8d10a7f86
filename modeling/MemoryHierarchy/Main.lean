import MemoryHierarchy.CommandLine

/-!
# The program

What stands in the working directory is read, the arguments are carried out on it, and what has
changed is written back. Everything in between is `runArguments`.
-/

namespace MemoryHierarchy

/-- Reads an entry of a directory with everything below it. A file that holds no text is left
out. -/
partial def readEntry (entry : IO.FS.DirEntry) : IO (List (String × FileTree)) := do
  if ← entry.path.isDir then
    let below ← (← entry.path.readDir).toList.mapM readEntry
    return [(entry.fileName, .directory below.flatten)]
  else
    try
      return [(entry.fileName, .file (← IO.FS.readFile entry.path))]
    catch _ =>
      return []

/-- Reads the working directory. -/
def readWorking : IO FileTree := do
  let entries ← (← (← IO.currentDir).readDir).toList.mapM readEntry
  return .directory entries.flatten

/-- Writes what a run has added to the working directory or changed there. -/
def writeChanges (before after : FileTree) : IO Unit := do
  let known := before.contents ""
  for (path, content) in after.contents "" do
    unless known.contains (path, content) do
      match content with
      | some text => IO.FS.writeFile path text
      | none => IO.FS.createDirAll path

end MemoryHierarchy

open MemoryHierarchy in
/-- Runs the program on the working directory. -/
def main (arguments : List String) : IO UInt32 := do
  let before ← readWorking
  let outcome := runArguments arguments (.around before)
  writeChanges before outcome.files.workingTree
  IO.print outcome.stdout
  IO.eprint outcome.stderr
  return UInt32.ofNat outcome.exitCode
