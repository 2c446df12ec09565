import ShaderAssets.Yaml.Value

/-!
# Writing scalars in YAML

The style in which a text is written, and the text in that style.  A text that
reads as something else is put in single quotes, a text of several lines becomes a
literal block, and everything else is plain if that is possible.  What a style
cannot express goes to the next one; double quotes express everything.
-/

namespace ShaderAssets
namespace Yaml

/-! ## What a text is made of -/

/-- The characters that are written as they are. -/
def isPrintable (c : Char) : Bool :=
  let n := c.toNat
  n == 0x0A || (0x20 ≤ n && n ≤ 0x7E) || (0xA0 ≤ n && n ≤ 0xD7FF) ||
    (0xE000 ≤ n && n ≤ 0xFFFD && n != 0xFEFF)

/-- Line breaks, in any form. -/
def isAnyBreak (c : Char) : Bool :=
  isBreak c || c == '\r' || c == '\u0085'

/-- Whether a text goes on with white space or ends. -/
def spaceFollows : List Char → Bool
  | [] => true
  | c :: _ => isBlank c || isAnyBreak c

/-- Whether some space stands right before some line break. -/
def hasSpaceBreak (s : List Char) : Bool :=
  (s.zip (s.drop 1)).any fun (a, b) => a == ' ' && isAnyBreak b

/-- Whether some line break stands right before some space. -/
def hasBreakSpace (s : List Char) : Bool :=
  (s.zip (s.drop 1)).any fun (a, b) => isAnyBreak a && b == ' '

/-- Whether the first character has a meaning in YAML. -/
def startsSpecial : List Char → Bool
  | [] => false
  | c :: rest =>
      "#,[]\x7b\x7d&*!|>'\"%@`".toList.contains c ||
        ((c == '?' || c == ':' || c == '-') && spaceFollows rest)

/-- Whether some later character has a meaning in YAML. -/
def holdsSpecial : List Char → Bool
  | [] => false
  | [_] => false
  | a :: b :: rest =>
      (b == ':' && spaceFollows rest) || (b == '#' && spaceFollows [a]) ||
        holdsSpecial (b :: rest)

/-- Whether the text begins like a document marker. -/
def startsLikeMarker (s : List Char) : Bool :=
  ['-', '-', '-'].isPrefixOf s || ['.', '.', '.'].isPrefixOf s

/-- Whether characters of the text need an escape. -/
def needsEscapes (s : List Char) : Bool :=
  s.any (!isPrintable ·) || hasSpaceBreak s

/-- Whether the text begins or ends with a space or a line break. -/
def hasLooseEnds (s : List Char) : Bool :=
  let loose (c : Option Char) : Bool := (c.map fun c => c == ' ' || isAnyBreak c).getD false
  loose s.head? || loose s.getLast?

/-- Whether a text can be written plain. -/
def plainAllowed (s : List Char) : Bool :=
  !(startsSpecial s || holdsSpecial s || startsLikeMarker s || needsEscapes s ||
    hasLooseEnds s || s.any isAnyBreak)

/-- Whether a text can be written in single quotes. -/
def singleAllowed (s : List Char) : Bool :=
  !(needsEscapes s || hasBreakSpace s)

/-- Whether a text can be written as a block. -/
def blockAllowed (s : List Char) : Bool :=
  !s.isEmpty && !needsEscapes s && s.getLast? != some ' '

/-! ## The style of a text -/

/-- Whether a text would read as something else if it were plain. -/
def readsOtherwise (s : String) : Bool :=
  match Value.ofPlain? s with
  | some (.text _) => isPaddedNumber s.toList
  | _ => true

/-- The style in which a text is written. -/
def styleOf (s : String) : ScalarStyle :=
  let chars := s.toList
  if chars.contains '\n' then if blockAllowed chars then .literal else .doubleQuoted
  else if readsOtherwise s || !plainAllowed chars then
    if singleAllowed chars then .singleQuoted else .doubleQuoted
  else .plain

/-! ## Texts in a style -/

/-- The indentation of a line. -/
def margin (indent : Nat) : List Char :=
  List.replicate indent ' '

/-- The characters between single quotes; a line that follows a break is
indented. -/
def singleBody (indent : Nat) (atLineStart : Bool) : List Char → List Char
  | [] => if atLineStart then margin indent else []
  | c :: rest =>
      if c == ' ' then c :: singleBody indent atLineStart rest
      else if isAnyBreak c then c :: singleBody indent true rest
      else
        (if atLineStart then margin indent else []) ++
          (if c = '\'' then ['\'', '\''] else [c]) ++ singleBody indent false rest

/-- A number of a given width in hexadecimal digits. -/
def upperHex (width n : Nat) : List Char :=
  let digits := (Nat.toDigits 16 n).map Char.toUpper
  List.replicate (width - digits.length) '0' ++ digits

/-- An escaped character. -/
def escapeChar (c : Char) : List Char :=
  let n := c.toNat
  '\\' ::
    (if n = 0x00 then ['0']
    else if n = 0x07 then ['a']
    else if n = 0x08 then ['b']
    else if n = 0x09 then ['t']
    else if n = 0x0A then ['n']
    else if n = 0x0B then ['v']
    else if n = 0x0C then ['f']
    else if n = 0x0D then ['r']
    else if n = 0x1B then ['e']
    else if n = 0x22 then ['"']
    else if n = 0x5C then ['\\']
    else if n = 0x85 then ['N']
    else if n = 0x2028 then ['L']
    else if n = 0x2029 then ['P']
    else if n ≤ 0xFF then 'x' :: upperHex 2 n
    else if n ≤ 0xFFFF then 'u' :: upperHex 4 n
    else 'U' :: upperHex 8 n)

/-- The characters between double quotes. -/
def doubleBody (s : List Char) : List Char :=
  s.flatMap fun c =>
    if !isPrintable c || isBreak c || c == '"' || c == '\\' then escapeChar c else [c]

/-- The lines of a literal block, each indented unless it is empty. -/
def literalBody (indent : Nat) (atLineStart : Bool) : List Char → List Char
  | [] => []
  | c :: rest =>
      if isBreak c then c :: literalBody indent true rest
      else (if atLineStart then margin indent else []) ++ c :: literalBody indent false rest

/-- The indicators of a literal block: the indentation if it cannot be seen, and
what becomes of the final line breaks. -/
def literalHeader (s : List Char) : List Char :=
  let indentation := match s with
    | c :: _ => if c == ' ' || isBreak c then ['2'] else []
    | [] => []
  let chomping := match s.reverse with
    | [] => ['-']
    | [c] => if isBreak c then ['+'] else ['-']
    | c :: b :: _ => if !isBreak c then ['-'] else if isBreak b then ['+'] else []
  '|' :: (indentation ++ chomping)

/-- A text as it is written within a collection at an indentation. -/
def scalarText (indent : Nat) (s : String) : List Char :=
  let chars := s.toList
  match styleOf s with
  | .plain => chars
  | .singleQuoted => '\'' :: (singleBody (indent + 2) false chars ++ ['\''])
  | .literal => literalHeader chars ++ '\n' :: literalBody (indent + 2) true chars
  | _ => '"' :: (doubleBody chars ++ ['"'])

/-- A text with the end of its line, which a block may bring along. -/
def scalarLine (indent : Nat) (s : String) : List Char :=
  let text := scalarText indent s
  if styleOf s = .literal ∧ (s.toList.getLast?.map isBreak).getD false then text
  else text ++ ['\n']

end Yaml
end ShaderAssets
