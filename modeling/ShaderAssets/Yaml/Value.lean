import ShaderAssets.Text.Integer
import ShaderAssets.Number.Single
import ShaderAssets.Yaml.Node

/-!
# Values of a YAML text

The values that nodes stand for.  A plain scalar is null, a truth value, a number
or a text by its spelling; any other scalar is a text, unless a tag of the core
schema says otherwise.  A node with a tag of its own is a tagged value.

Whole numbers range over what sixty-four bits hold with or without a sign; larger
ones that fit twice as many bits have no value.
-/

namespace ShaderAssets
namespace Yaml

open Number

/-! ## Spellings of plain scalars -/

/-- Whether a text spells null. -/
def isNullWord (s : String) : Bool :=
  s == "null" || s == "Null" || s == "NULL" || s == "~"

/-- The truth value that a text spells. -/
def readBool? (s : String) : Option Bool :=
  if s = "true" ∨ s = "True" ∨ s = "TRUE" then some true
  else if s = "false" ∨ s = "False" ∨ s = "FALSE" then some false
  else none

/-- Whether a text is a number with leading zeros, which counts as a text. -/
def isPaddedNumber (s : List Char) : Bool :=
  match (match s with
    | '-' :: rest => rest
    | '+' :: rest => rest
    | _ => s) with
  | '0' :: c :: rest => (c :: rest).all Char.isDigit
  | _ => false

/-- The whole number, at least zero, that digits behind a base mark spell. -/
def readBased? : List Char → Option Nat
  | '0' :: 'x' :: digits => Text.readDigits? 16 digits
  | '0' :: 'o' :: digits => Text.readDigits? 8 digits
  | '0' :: 'b' :: digits => Text.readDigits? 2 digits
  | digits => Text.readDigits? 10 digits

/-- The whole number that a text spells, of any size. -/
def readInteger? (s : List Char) : Option Int :=
  if isPaddedNumber s then none
  else
    match s with
    | '+' :: rest => (readBased? rest).map Int.ofNat
    | '-' :: rest => (readBased? rest).map fun n => -(n : Int)
    | _ => (readBased? s).map Int.ofNat

/-- The finite or infinite number, or "not a number", that a text spells. -/
def readFloat? (s : List Char) : Option Double :=
  let positive := match s with
    | '+' :: rest => rest
    | _ => s
  let word := String.ofList s
  let positiveWord := String.ofList positive
  if positiveWord = ".inf" ∨ positiveWord = ".Inf" ∨ positiveWord = ".INF" then
    some (Double.infinite false)
  else if word = "-.inf" ∨ word = "-.Inf" ∨ word = "-.INF" then some (Double.infinite true)
  else if word = ".nan" ∨ word = ".NaN" ∨ word = ".NAN" then some Double.notANumber
  else if s != positive && (positive.head? == some '+' || positive.head? == some '-') then none
  else
    match Numeral.read? positive with
    | some ⟨negative, .finite d⟩ =>
        let x := Double.ofDecimal negative d
        if x.isFinite then some x else none
    | _ => none

/-! ## Values -/

/-- A number: whole ones are kept apart from the others. -/
inductive YamlNumber where
  | int (n : Int)
  | float (x : Double)
deriving DecidableEq, Repr, Inhabited

/-- A value. -/
inductive Value where
  | null
  | bool (b : Bool)
  | number (n : YamlNumber)
  | text (s : String)
  | sequence (items : List Value)
  | mapping (entries : List (Value × Value))
  | tagged (value : Value)
deriving Repr, Inhabited

namespace YamlNumber

/-- Equality of values: the zeros are equal, and so is "not a number" to
itself. -/
def same : YamlNumber → YamlNumber → Bool
  | .int m, .int n => m == n
  | .float x, .float y =>
      let infinity := BinaryFormat.double.infinity
      (infinity < x.code && infinity < y.code) ||
        (!(infinity < x.code) && !(infinity < y.code) &&
          (x == y || (x.code == 0 && y.code == 0)))
  | _, _ => false

end YamlNumber

namespace Value

mutual

/-- Equality of values; the order of a mapping's entries does not matter. -/
def same : Value → Value → Bool
  | .null, .null => true
  | .bool a, .bool b => a == b
  | .number m, .number n => m.same n
  | .text s, .text t => s == t
  | .sequence xs, .sequence ys => sameItems xs ys
  | .mapping xs, .mapping ys => xs.length == ys.length && within xs ys
  | .tagged x, .tagged y => same x y
  | _, _ => false

/-- Equality item by item. -/
def sameItems : List Value → List Value → Bool
  | [], [] => true
  | x :: xs, y :: ys => same x y && sameItems xs ys
  | _, _ => false

/-- Whether every entry is also among others. -/
def within : List (Value × Value) → List (Value × Value) → Bool
  | [], _ => true
  | (k, v) :: rest, ys => ys.any (fun e => same k e.1 && same v e.2) && within rest ys

end

/-- The whole number itself if it is representable. -/
def integer? (n : Int) : Option Value :=
  if -0x8000000000000000 ≤ n ∧ n < 0x10000000000000000 then some (.number (.int n)) else none

/-- Whether a whole number is held apart from the floating-point numbers. -/
def isWide (n : Int) : Bool :=
  -0x80000000000000000000000000000000 ≤ n && n < 0x100000000000000000000000000000000

/-- The value that a plain scalar without a tag spells. -/
def ofPlain? (s : String) : Option Value :=
  let chars := s.toList
  let otherwise : Value :=
    if isPaddedNumber chars then .text s
    else
      match readFloat? chars with
      | some x => .number (.float x)
      | none => .text s
  if s = "" ∨ isNullWord s then some .null
  else
    match readBool? s, readInteger? chars with
    | some b, _ => some (.bool b)
    | none, some n => if isWide n then integer? n else some otherwise
    | none, none => some otherwise

/-- The start of the tags of the core schema. -/
def core (name : String) : String :=
  "tag:yaml.org,2002:" ++ name

/-- The value of a scalar with a tag.  A tag of the core schema demands its own
spelling. -/
def ofCoreTag? (tag : String) (s : String) : Option Value :=
  if tag = core "bool" then (readBool? s).map .bool
  else if tag = core "int" then (readInteger? s.toList).bind integer?
  else if tag = core "float" then (readFloat? s.toList).map fun x => .number (.float x)
  else if tag = core "null" then if isNullWord s then some .null else none
  else some (.text s)

/-- Whether a tag is one of the writer's own, and so not of a schema. -/
def isOwnTag (tag : Option String) : Bool :=
  match tag with
  | some t => t.toList.head? == some '!'
  | none => false

/-- The value of a scalar. -/
def ofScalar? (tag : Option String) (style : ScalarStyle) (s : String) : Option Value :=
  let untagged := if style = .plain then ofPlain? s else some (.text s)
  match tag with
  | none => untagged
  | some t => if isOwnTag tag then untagged.map .tagged else ofCoreTag? t s

/-- Marks a value that has a tag of its own. -/
def withTag (tag : Option String) (v : Value) : Value :=
  if isOwnTag tag then .tagged v else v

/-- Adds an entry to a mapping unless it holds the key already. -/
def addEntry (entries : List (Value × Value)) (key value : Value) :
    Option (List (Value × Value)) :=
  if entries.any (fun e => key.same e.1) then none else some (entries ++ [(key, value)])

mutual

/-- The value that a node stands for, with a bound on nested collections. -/
def ofNode? : Nat → Node → Option Value
  | _, .scalar tag style s => ofScalar? tag style s
  | 0, _ => none
  | depth + 1, .sequence tag items => do
      return withTag tag (.sequence (← ofNodes? depth items))
  | depth + 1, .mapping tag entries => do
      return withTag tag (.mapping (← ofEntries? depth [] entries))
  | _ + 1, .cyclic => none

/-- The values that nodes stand for. -/
def ofNodes? : Nat → List Node → Option (List Value)
  | _, [] => some []
  | depth, n :: rest => do
      let v ← ofNode? depth n
      return v :: (← ofNodes? depth rest)

/-- The entries that pairs of nodes stand for, each key once. -/
def ofEntries? : Nat → List (Value × Value) → List (Node × Node) →
    Option (List (Value × Value))
  | _, done, [] => some done
  | depth, done, (k, v) :: rest => do
      let key ← ofNode? depth k
      let value ← ofNode? depth v
      ofEntries? depth (← addEntry done key value) rest

end

/-- The number of nested collections that a value may have. -/
def maxDepth : Nat := 128

/-- The value of a text; an empty one is null. -/
def read? (text : String) : Option Value := do
  match ← Document.read? text with
  | none => return .null
  | some node => ofNode? maxDepth node

/-! ## Views of a value -/

/-- The value without its tags. -/
def untagged : Value → Value
  | .tagged v => v.untagged
  | v => v

/-- The whole number, if it is one. -/
def integerOf? (v : Value) : Option Int :=
  match v.untagged with
  | .number (.int n) => some n
  | _ => none

/-- The number in double precision, if it is one. -/
def doubleOf? (v : Value) : Option Double :=
  match v.untagged with
  | .number (.int n) => some (Double.ofInt n)
  | .number (.float x) => some x
  | _ => none

/-- The items, if the value is a sequence. -/
def itemsOf? (v : Value) : Option (List Value) :=
  match v.untagged with
  | .sequence items => some items
  | _ => none

end Value

end Yaml
end ShaderAssets
