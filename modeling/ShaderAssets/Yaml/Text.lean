import ShaderAssets.Data
import ShaderAssets.Number.Layout
import ShaderAssets.Yaml.Quote

/-!
# Writing YAML

The block form of a data tree.  Each field stands on its own line; the items of a
list begin with a dash at the indentation of the field that holds the list.
-/

namespace ShaderAssets
namespace Yaml

open Number

/-- Small and large numbers have an exponent without a plus sign; the nearer of two
shortest forms is taken, at a tie the even one. -/
def numberLayout : MixedLayout := ⟨-6, 12, [], .toEven⟩

/-- The text of a number. -/
def singleText (x : Single) : List Char :=
  if x.isNaN then ".nan".toList
  else if x.isInfinite then if x.negative then "-.inf".toList else ".inf".toList
  else numberLayout.text x

/-- A scalar with the end of its line; collections count as empty ones. -/
def leafLine (indent : Nat) : Data → List Char
  | .null => "null\n".toList
  | .bool b => if b then "true\n".toList else "false\n".toList
  | .natural n => natText n ++ ['\n']
  | .single x => singleText x ++ ['\n']
  | .text s => scalarLine indent s
  | .list _ => "[]\n".toList
  | .record _ => "\x7b\x7d\n".toList

mutual

/-- The items of a list, each behind a dash.  The line of the first one has begun
already. -/
def itemTexts (indent : Nat) : List Data → List Char
  | [] => []
  | item :: rest =>
      '-' :: ' ' :: (itemText (indent + 2) item ++
        (if rest.isEmpty then [] else margin indent) ++ itemTexts indent rest)

/-- An item behind its dash. -/
def itemText (indent : Nat) : Data → List Char
  | .list (item :: items) => itemTexts indent (item :: items)
  | .record (field :: fields) => fieldTexts indent (field :: fields)
  | leaf => leafLine (indent - 2) leaf

/-- The fields of a record.  The line of the first one has begun already. -/
def fieldTexts (indent : Nat) : List (String × Data) → List Char
  | [] => []
  | (name, value) :: rest =>
      scalarText indent name ++ ':' :: (valueText indent value ++
        (if rest.isEmpty then [] else margin indent) ++ fieldTexts indent rest)

/-- The value of a field behind its colon. -/
def valueText (indent : Nat) : Data → List Char
  | .list (item :: items) => '\n' :: (margin indent ++ itemTexts indent (item :: items))
  | .record (field :: fields) =>
      '\n' :: (margin (indent + 2) ++ fieldTexts (indent + 2) (field :: fields))
  | leaf => ' ' :: leafLine indent leaf

end

/-- The text of a tree. -/
def render (d : Data) : String :=
  String.ofList (itemText 0 d)

end Yaml
end ShaderAssets
