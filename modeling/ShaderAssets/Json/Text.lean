import ShaderAssets.Data
import ShaderAssets.Number.Layout

/-!
# Writing JSON

Two forms of a data tree: compact, without blanks, and pretty, with a line for
each item and an indentation of two blanks per level.
-/

namespace ShaderAssets
namespace Json

open Number

/-- Small and large numbers have an exponent, which carries its sign; the nearer
of two shortest forms is taken, at a tie the even one. -/
def numberLayout : MixedLayout := ⟨-6, 12, ['+'], .toEven⟩

/-! ## Scalars -/

/-- The text of a number; what is not finite is null. -/
def singleText (x : Single) : List Char :=
  if x.isNaN || x.isInfinite then "null".toList else numberLayout.text x

/-- The four digits of a control character. -/
def controlDigits (c : Char) : List Char :=
  ['0', '0', Nat.digitChar (c.toNat / 16), Nat.digitChar (c.toNat % 16)]

/-- A character of a text as it is written. -/
def escapeChar (c : Char) : List Char :=
  if c = '"' then ['\\', '"']
  else if c = '\\' then ['\\', '\\']
  else if c = '\x08' then ['\\', 'b']
  else if c = '\x0c' then ['\\', 'f']
  else if c = '\n' then ['\\', 'n']
  else if c = '\r' then ['\\', 'r']
  else if c = '\t' then ['\\', 't']
  else if c.toNat < 0x20 then '\\' :: 'u' :: controlDigits c
  else [c]

/-- A text in quotes. -/
def quote (s : String) : List Char :=
  '"' :: (s.toList.flatMap escapeChar ++ ['"'])

/-- Parts with a text between them. -/
def separate (separator : List Char) : List (List Char) → List Char
  | [] => []
  | [part] => part
  | part :: rest => part ++ separator ++ separate separator rest

/-! ## Trees -/

mutual

/-- The compact form of a tree. -/
def compactText : Data → List Char
  | .null => "null".toList
  | .bool b => if b then "true".toList else "false".toList
  | .natural n => natText n
  | .single x => singleText x
  | .text s => quote s
  | .list items => '[' :: (separate [','] (compactItems items) ++ [']'])
  | .record fields => '\x7b' :: (separate [','] (compactFields fields) ++ ['\x7d'])

/-- The compact forms of items. -/
def compactItems : List Data → List (List Char)
  | [] => []
  | item :: rest => compactText item :: compactItems rest

/-- The compact forms of fields. -/
def compactFields : List (String × Data) → List (List Char)
  | [] => []
  | (name, value) :: rest => (quote name ++ ':' :: compactText value) :: compactFields rest

end

/-- A line break and the indentation of a level. -/
def newLine (level : Nat) : List Char :=
  '\n' :: List.replicate (2 * level) ' '

/-- Parts between brackets, each on its own line. -/
def bracket (level : Nat) (opening closing : Char) (parts : List (List Char)) : List Char :=
  if parts.isEmpty then [opening, closing]
  else
    opening :: (newLine (level + 1) ++ separate (',' :: newLine (level + 1)) parts ++
      newLine level ++ [closing])

mutual

/-- The pretty form of a tree at a level. -/
def prettyText (level : Nat) : Data → List Char
  | .null => "null".toList
  | .bool b => if b then "true".toList else "false".toList
  | .natural n => natText n
  | .single x => singleText x
  | .text s => quote s
  | .list items => bracket level '[' ']' (prettyItems (level + 1) items)
  | .record fields => bracket level '\x7b' '\x7d' (prettyFields (level + 1) fields)

/-- The pretty forms of items. -/
def prettyItems (level : Nat) : List Data → List (List Char)
  | [] => []
  | item :: rest => prettyText level item :: prettyItems level rest

/-- The pretty forms of fields. -/
def prettyFields (level : Nat) : List (String × Data) → List (List Char)
  | [] => []
  | (name, value) :: rest =>
      (quote name ++ ':' :: ' ' :: prettyText level value) :: prettyFields level rest

end

/-- A tree without blanks. -/
def compact (d : Data) : String :=
  String.ofList (compactText d)

/-- A tree over several lines. -/
def pretty (d : Data) : String :=
  String.ofList (prettyText 0 d)

end Json
end ShaderAssets
