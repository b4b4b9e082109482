import TimeTrials.Cli.Run

/-!
# The command

The command works on the files below the current directory: they are read before the run, and those that
the run has changed are written back after it.  Colors and the log are asked for through the environment.
-/

namespace TimeTrials

open Host (FileSystem)

/-- How many directories below the current one are looked into. -/
def depthLimit : Nat := 16

/-- Reads the files of a directory and of those below it.  Hidden ones are left out. -/
def readEntries : Nat → String → List IO.FS.DirEntry → FileSystem → IO FileSystem
  | 0, _, _, fs => return fs
  | depth + 1, directory, entries, fs => do
    let mut fs := fs
    for entry in entries do
      let path := directory ++ entry.fileName
      unless entry.fileName.startsWith "." do
        if ← entry.path.isDir then
          fs ← readEntries depth (path ++ "/") (← entry.path.readDir).toList fs
        else
          fs := fs.put path (← IO.FS.readBinFile entry.path).toList
    return fs

/-- Writes back the files that are new or have changed. -/
def writeBack (before after : FileSystem) : IO Unit := do
  let old := before.files
  for (path, content) in after.files do
    unless old.lookup path = some content do
      IO.FS.writeBinFile path ⟨content.toArray⟩

end TimeTrials

open TimeTrials

/-- Runs the command on the files below the current directory. -/
def main (words : List String) : IO UInt32 := do
  let before ← readEntries depthLimit "" (← (← IO.currentDir).readDir).toList .empty
  let colored := (← IO.getEnv "FORCE_COLOR").isSome
  let filter := Cli.Log.Filter.ofRequest (← IO.getEnv "RUST_LOG")
  let outcome := Cli.run (.ofHost colored filter) words before
  writeBack before outcome.fs
  IO.print outcome.output
  (← IO.getStderr).write ⟨outcome.errors.toArray⟩
  return outcome.status.toUInt32
