import ShaderAssets.Files.Disk

/-!
# Where included files come from

An included path is looked up among the registered sources first, then as a file
in the directory of the including shader and in each include directory.  The first
file found counts, even if it cannot be read.
-/

namespace ShaderAssets

/-- The places where included files are looked up. -/
structure IncludeSearch where
  registered : List (String × String)
  /-- The directory of the including shader. -/
  base : Option String
  directories : List String
deriving DecidableEq, Repr, Inhabited

namespace IncludeSearch

/-- The paths at which a file is looked for, in order. -/
def candidates (s : IncludeSearch) (path : String) : List String :=
  (s.base.toList ++ s.directories).map fun directory => Path.join directory path

/-- The text that an included path stands for. -/
def resolve (s : IncludeSearch) (disk : Disk) (path : String) : Option String :=
  match s.registered.lookup path with
  | some text => some text
  | none =>
      ((s.candidates path).find? disk.isFile).bind fun candidate =>
        (disk.read candidate).toOption

end IncludeSearch

end ShaderAssets
