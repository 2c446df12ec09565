import ShaderAssets.Cli.Run

/-!
# The program

Reads the files below the working directory, runs the command line on them, and
writes back the file that a command has changed.
-/

open ShaderAssets

/-- The files below a directory, each at its location, read into a disk. -/
partial def readTree (disk : Disk) (location : Location) (entries : Array IO.FS.DirEntry) :
    IO Disk := do
  let mut disk := disk
  for entry in entries do
    let here := location ++ [entry.fileName]
    if ← entry.path.isDir then
      disk := { disk with directories := here :: disk.directories }
      disk ← readTree disk here (← entry.path.readDir)
    else
      disk := disk.put here (← IO.FS.readBinFile entry.path)
  return disk

/-- Whether two disks hold the same bytes at a location. -/
def sameFile (old new : Disk) (location : Location) : Bool :=
  match old.files.lookup location, new.files.lookup location with
  | some a, some b => a.data == b.data
  | none, none => true
  | _, _ => false

/-- Runs the program with the given arguments. -/
def main (args : List String) : IO UInt32 := do
  let directory ← IO.currentDir
  let location := (directory.toString.splitOn "/").filter (· != "")
  let disk ← readTree (Disk.empty location) location (← directory.readDir)
  let outcome := Cli.run disk args
  for (file, bytes) in outcome.disk.files do
    unless sameFile disk outcome.disk file do
      IO.FS.writeBinFile ("/" ++ "/".intercalate file) bytes
  (← IO.getStdout).putStr outcome.output
  (← IO.getStderr).putStr outcome.errors
  return outcome.code.toUInt32
