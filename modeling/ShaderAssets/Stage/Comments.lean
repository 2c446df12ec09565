/-!
# Comments in stage code

Removing line comments and block comments from code.  Every line feed is kept,
so line numbers stay as they are.  Neither kind of comment is recognised inside
the other.
-/

namespace ShaderAssets
namespace Comments

/-- Where the reader of the code stands. -/
inductive Place where
  | code
  | line
  /-- Before the star that opens a block comment. -/
  | opening
  | block
  /-- Before the slash that closes a block comment. -/
  | closing
deriving DecidableEq, Repr, Inhabited

/-- The code that remains of a text read from a given place. -/
def stripFrom : Place → List Char → List Char
  | _, [] => []
  | .code, c :: rest =>
      if c = '/' ∧ rest.head? = some '/' then stripFrom .line rest
      else if c = '/' ∧ rest.head? = some '*' then stripFrom .opening rest
      else c :: stripFrom .code rest
  | .line, c :: rest => if c = '\n' then c :: stripFrom .code rest else stripFrom .line rest
  | .opening, _ :: rest => stripFrom .block rest
  | .block, c :: rest =>
      if c = '*' ∧ rest.head? = some '/' then stripFrom .closing rest
      else if c = '\n' then c :: stripFrom .block rest
      else stripFrom .block rest
  | .closing, _ :: rest => stripFrom .code rest

/-- The code without its comments. -/
def strip (code : List Char) : List Char :=
  stripFrom .code code

end Comments
end ShaderAssets
