/-!
# Paths

A path is a text whose segments are separated by slashes.  Empty segments and
segments `.` carry no meaning, except that a path may begin at the root or
explicitly at the current directory.  Nothing else is normalized: `a/../b` and
`b` are different paths.

Two paths are the same when their components are.
-/

namespace ShaderAssets
namespace Path

/-- A meaningful part of a path. -/
inductive Component where
  | root
  | current
  | up
  | name (text : String)
deriving DecidableEq, Repr, Inhabited

/-- How a path begins, as written, and the text after that. -/
def splitStart (path : List Char) : List Char × List Char :=
  match path with
  | '/' :: rest => (['/'], rest)
  | ['.'] => (['.'], [])
  | '.' :: '/' :: rest => (['.'], '/' :: rest)
  | other => ([], other)

/-- Whether a segment carries no meaning. -/
def isIdle (segment : List Char) : Bool :=
  segment == [] || segment == ['.']

/-- The component that a meaningful segment stands for. -/
def ofSegment (segment : List Char) : Component :=
  if segment = ['.', '.'] then .up else .name (String.ofList segment)

/-- The components of a path, in order. -/
def components (path : String) : List Component :=
  let (start, body) := splitStart path.toList
  let first := match start with
    | ['/'] => [.root]
    | ['.'] => [.current]
    | _ => []
  first ++ ((body.splitOn '/').filter (!isIdle ·)).map ofSegment

/-- The path `part` seen from `path`.  A path from the root stands for itself. -/
def join (path part : String) : String :=
  if part.toList.head? = some '/' then part
  else if path = "" ∨ path.toList.getLast? = some '/' then path ++ part
  else path ++ "/" ++ part

/-- The path without its last component, with everything before that as
written; the root and the empty path have none. -/
def parent? (path : String) : Option String :=
  let (start, body) := splitStart path.toList
  match (body.splitOn '/').reverse.dropWhile isIdle with
  | _ :: before =>
      some (String.ofList (start ++ ['/'].intercalate (before.dropWhile isIdle).reverse))
  | [] => if start = ['.'] then some "" else none

/-- A file name without what follows its last dot.  A name whose only dot comes
first stays whole. -/
def withoutExtension (name : List Char) : List Char :=
  let backwards := name.reverse
  match backwards.dropWhile (· != '.') with
  | _ :: before => if before.isEmpty then name else before.reverse
  | [] => name

/-- The last component up to its last dot; empty if the last component is not a
name. -/
def stem (path : String) : String :=
  match (components path).getLast? with
  | some (.name text) => String.ofList (withoutExtension text.toList)
  | _ => ""

/-- Whether two paths have the same components. -/
def same (p q : String) : Bool :=
  components p == components q

end Path
end ShaderAssets
