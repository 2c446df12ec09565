import ShaderAssets.Yaml.Scalar

/-!
# Tokens of a YAML text

A token is an indicator, a property of a node, a scalar, or the beginning or end
of a collection.  The words of names, tags and directives are read here.
-/

namespace ShaderAssets
namespace Yaml

/-- The short or long name of a node's type. -/
structure TagName where
  /-- The abbreviation, empty if the suffix is the whole name. -/
  handle : String
  suffix : String
deriving DecidableEq, Repr, Inhabited

/-- A token. -/
inductive Token where
  | versionDirective (major minor : Nat)
  | tagDirective (handle start : String)
  | documentStart
  | documentEnd
  | blockSequenceStart
  | blockMappingStart
  | blockEnd
  | flowSequenceStart
  | flowSequenceEnd
  | flowMappingStart
  | flowMappingEnd
  | blockEntry
  | flowEntry
  | key
  | value
  | reference (name : String)
  | anchor (name : String)
  | tag (name : TagName)
  | scalar (style : ScalarStyle) (text : String)
deriving DecidableEq, Repr, Inhabited

/-! ## Names -/

/-- The name of an anchor, which must be followed by white space or by an
indicator. -/
def readAnchor? (s : List Char) : Option (String × List Char) :=
  let name := s.takeWhile isNameChar
  let rest := s.dropWhile isNameChar
  let closed := endsWord rest ||
    (match rest with
    | c :: _ => "?:,]\x7d%@`".toList.contains c
    | [] => true)
  if name.isEmpty || !closed then none else some (String.ofList name, rest)

/-! ## Tags -/

/-- The characters of a tag; those of the second list only where a tag cannot
run into a collection. -/
def isTagChar (wide : Bool) (c : Char) : Bool :=
  isNameChar c || ";/?:@&=+$.%!~*'()".toList.contains c ||
    (wide && ",[]".toList.contains c)

/-- The bytes that a tag's text stands for; a percent sign precedes the two
digits of a byte. -/
def percentBytes? : List Char → Option (List UInt8)
  | [] => some []
  | '%' :: a :: b :: rest => do
      let high ← Text.digitValue? 16 a
      let low ← Text.digitValue? 16 b
      return (16 * high + low).toUInt8 :: (← percentBytes? rest)
  | '%' :: _ => none
  | c :: rest => do
      return (String.singleton c).toUTF8.toList ++ (← percentBytes? rest)

/-- The text that a tag's text stands for. -/
def decodeTag? (s : List Char) : Option String := do
  let bytes ← percentBytes? s
  String.fromUTF8? ⟨bytes.toArray⟩

/-- A handle: an exclamation mark, and name characters up to a second one if
there is one. -/
def readHandle? : List Char → Option (List Char × List Char)
  | '!' :: s =>
      let name := s.takeWhile isNameChar
      match s.dropWhile isNameChar with
      | '!' :: rest => some ('!' :: name ++ ['!'], rest)
      | rest => some ('!' :: name, rest)
  | _ => none

/-- The name of a tag and what follows it.  A tag in angle brackets is taken
literally. -/
def readTagName? : List Char → Option (TagName × List Char)
  | '!' :: '<' :: s => do
      let name := s.takeWhile (isTagChar true)
      if name.isEmpty then none
      match s.dropWhile (isTagChar true) with
      | '>' :: rest => return (⟨"", ← decodeTag? name⟩, rest)
      | _ => none
  | s => do
      let (handle, after) ← readHandle? s
      let word := after.takeWhile (isTagChar false)
      let rest := after.dropWhile (isTagChar false)
      if 2 ≤ handle.length ∧ handle.getLast? = some '!' then
        if word.isEmpty then none
        return (⟨String.ofList handle, ← decodeTag? word⟩, rest)
      else
        let suffix := handle.drop 1 ++ word
        if suffix.isEmpty then return (⟨"", "!"⟩, rest)
        else return (⟨"!", ← decodeTag? suffix⟩, rest)

/-- A tag, which must be followed by white space, or by a comma in a flow
collection. -/
def readTag? (flow : Bool) (s : List Char) : Option (TagName × List Char) := do
  let (name, rest) ← readTagName? s
  if endsWord rest || (flow && rest.head? == some ',') then some (name, rest) else none

/-! ## Directives -/

/-- A number of at most nine digits. -/
def readNumber? (s : List Char) : Option (Nat × List Char) :=
  let digits := s.takeWhile Char.isDigit
  if 9 < digits.length then none
  else (Text.readDigits? 10 digits).map fun n => (n, s.dropWhile Char.isDigit)

/-- The version after the word `YAML`. -/
def readVersion? (s : List Char) : Option (Token × List Char) := do
  let (major, rest) ← readNumber? (s.dropWhile isBlank)
  match rest with
  | '.' :: rest =>
      let (minor, rest) ← readNumber? rest
      return (.versionDirective major minor, rest)
  | _ => none

/-- The abbreviation after the word `TAG`. -/
def readAbbreviation? (s : List Char) : Option (Token × List Char) := do
  let (handle, rest) ← readHandle? (s.dropWhile isBlank)
  if ¬(handle = ['!'] ∨ (2 ≤ handle.length ∧ handle.getLast? = some '!')) then none
  if ¬(rest.head?.map isBlank).getD false then none
  let rest := rest.dropWhile isBlank
  let start := rest.takeWhile (isTagChar true)
  let rest := rest.dropWhile (isTagChar true)
  if start.isEmpty || !endsWord rest then none
  return (.tagDirective (String.ofList handle) (← decodeTag? start), rest)

/-- A directive from behind its percent sign. -/
def readDirective? (s : List Char) : Option (Token × List Char) :=
  let name := String.ofList (s.takeWhile isNameChar)
  let rest := s.dropWhile isNameChar
  if !endsWord rest then none
  else if name = "YAML" then readVersion? rest
  else if name = "TAG" then readAbbreviation? rest
  else none

end Yaml
end ShaderAssets
