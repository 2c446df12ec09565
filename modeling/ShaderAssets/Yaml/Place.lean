/-!
# Characters and places of a YAML text

The character classes that YAML distinguishes, line breaks in one common form,
and the place of a character in its text.  A text in common form ends a line
with a line feed or with one of the two Unicode separators.
-/

namespace ShaderAssets
namespace Yaml

/-- Spaces and tabs. -/
def isBlank (c : Char) : Bool :=
  c == ' ' || c == '\t'

/-- The line breaks of a text in common form. -/
def isBreak (c : Char) : Bool :=
  c == '\n' || c == '\u2028' || c == '\u2029'

/-- Whether a text goes on with white space or ends. -/
def endsWord : List Char → Bool
  | [] => true
  | c :: _ => isBlank c || isBreak c

/-- The characters of anchors, directive names and tag handles. -/
def isNameChar (c : Char) : Bool :=
  c.isAlphanum || c == '_' || c == '-'

/-- The characters that a YAML text may hold. -/
def isAllowed (c : Char) : Bool :=
  let n := c.toNat
  n == 0x09 || n == 0x0A || n == 0x0D || (0x20 ≤ n && n ≤ 0x7E) || n == 0x85 ||
    (0xA0 ≤ n && n ≤ 0xD7FF) || (0xE000 ≤ n && n ≤ 0xFFFD) || 0x10000 ≤ n

/-- Carriage returns, pairs of a carriage return and a line feed, and next-line
characters all become line feeds. -/
def commonBreaks : List Char → List Char
  | [] => []
  | '\r' :: '\n' :: rest => '\n' :: commonBreaks rest
  | c :: rest => (if c = '\r' ∨ c = '\u0085' then '\n' else c) :: commonBreaks rest

/-- Where a character stands, counting from zero. -/
structure Place where
  line : Nat
  column : Nat
  index : Nat
deriving DecidableEq, Repr, Inhabited

namespace Place

/-- The beginning of a text. -/
def start : Place := ⟨0, 0, 0⟩

/-- The place behind a character. -/
def after (p : Place) (c : Char) : Place :=
  if isBreak c then ⟨p.line + 1, 0, p.index + 1⟩ else ⟨p.line, p.column + 1, p.index + 1⟩

/-- The place behind a text. -/
def afterAll (p : Place) (s : List Char) : Place :=
  s.foldl after p

end Place

/-- Whether a line that begins here is a document marker. -/
def startsMarker (p : Place) : List Char → Bool
  | '-' :: '-' :: '-' :: rest => p.column == 0 && endsWord rest
  | '.' :: '.' :: '.' :: rest => p.column == 0 && endsWord rest
  | _ => false

end Yaml
end ShaderAssets
