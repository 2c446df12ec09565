import ShaderAssets.Files.Path

/-!
# Files

A disk is a tree of files and directories with a working directory from which
relative paths start.  Reading distinguishes the reasons for which a file cannot
be read, since they are reported.
-/

namespace ShaderAssets

/-- The names that lead from the root to a file or directory. -/
abbrev Location := List String

/-- Why a file could not be read. -/
inductive FileError where
  | notFound
  | notDirectory
  | isDirectory
  | invalidText
deriving DecidableEq, Repr, Inhabited

namespace FileError

/-- The wording of a file error. -/
def message : FileError → String
  | .notFound => "No such file or directory (os error 2)"
  | .notDirectory => "Not a directory (os error 20)"
  | .isDirectory => "Is a directory (os error 21)"
  | .invalidText => "stream did not contain valid UTF-8"

end FileError

/-- Files and directories by location, with a working directory. -/
structure Disk where
  working : Location
  files : List (Location × ByteArray)
  directories : List Location

namespace Disk

/-- The locations that lead to a location, itself included. -/
def leading (location : Location) : List Location :=
  (List.range (location.length + 1)).map location.take

/-- A disk with nothing but its working directory and what leads there. -/
def empty (working : Location) : Disk where
  working := working
  files := []
  directories := leading working

/-- What a location holds. -/
inductive Entry where
  | file (bytes : ByteArray)
  | directory

/-- The entry at a location. -/
def entry? (d : Disk) (location : Location) : Option Entry :=
  match d.files.lookup location with
  | some bytes => some (.file bytes)
  | none => if d.directories.contains location then some .directory else none

/-- Follows segments from a directory.  Only directories can be walked through. -/
def walk (d : Disk) (start : Location) : List (List Char) → Except FileError Location
  | [] => .ok start
  | segment :: rest =>
      if Path.isIdle segment then d.walk start rest
      else if segment = ['.', '.'] then d.walk start.dropLast rest
      else
        let next := start ++ [String.ofList segment]
        match d.entry? next with
        | none => .error .notFound
        | some .directory => d.walk next rest
        | some (.file _) => if rest.isEmpty then .ok next else .error .notDirectory

/-- The location that a path leads to. -/
def locate (d : Disk) (path : String) : Except FileError Location :=
  match path.toList with
  | [] => .error .notFound
  | '/' :: rest => d.walk [] (rest.splitOn '/')
  | segments => d.walk d.working (segments.splitOn '/')

/-- Whether a path leads to a file or directory. -/
def contains (d : Disk) (path : String) : Bool :=
  (d.locate path).isOk

/-- Whether a path leads to a file. -/
def isFile (d : Disk) (path : String) : Bool :=
  match d.locate path with
  | .ok location => (d.files.lookup location).isSome
  | .error _ => false

/-- The text of the file that a path leads to. -/
def read (d : Disk) (path : String) : Except FileError String := do
  let location ← d.locate path
  match d.files.lookup location with
  | none => .error .isDirectory
  | some bytes =>
      match String.fromUTF8? bytes with
      | some text => .ok text
      | none => .error .invalidText

/-- Puts a file at a location, and directories on the way there. -/
def put (d : Disk) (location : Location) (bytes : ByteArray) : Disk :=
  { d with
    files := (location, bytes) :: d.files.filter (·.1 != location)
    directories := (leading location.dropLast).filter (!d.directories.contains ·) ++
      d.directories }

/-- The location that a path names below the working directory, whether or not
anything is there. -/
def target (d : Disk) (path : String) : Location :=
  (path.toList.splitOn '/').foldl (fun location segment =>
      if Path.isIdle segment then location
      else if segment = ['.', '.'] then location.dropLast
      else location ++ [String.ofList segment])
    (if path.toList.head? = some '/' then [] else d.working)

/-- Writes a file. -/
def write (d : Disk) (path : String) (bytes : ByteArray) : Disk :=
  d.put (d.target path) bytes

/-- Removes a file, if it is there. -/
def remove (d : Disk) (path : String) : Disk :=
  { d with files := d.files.filter (·.1 != d.target path) }

end Disk

end ShaderAssets
