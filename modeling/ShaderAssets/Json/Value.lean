import ShaderAssets.Text.Integer
import ShaderAssets.Number.Single

/-!
# Reading JSON

The values of a JSON text.  Numbers are kept as they are written, and the fields
of an object keep their order and may repeat a name, so that a reader of records
can decide what to make of them.
-/

namespace ShaderAssets
namespace Json

open Number

/-- A value. -/
inductive Value where
  | null
  | bool (b : Bool)
  | number (literal : List Char)
  | text (s : String)
  /-- A text with an escape that names no character. -/
  | brokenText
  | list (items : List Value)
  | object (fields : List (String × Value))
deriving Repr, Inhabited

namespace Value

/-! ## Characters -/

/-- White space between the parts of a text. -/
def isSpace (c : Char) : Bool :=
  c == ' ' || c == '\n' || c == '\r' || c == '\t'

/-- A text without leading white space. -/
def skipSpace (s : List Char) : List Char :=
  s.dropWhile isSpace

/-! ## Texts -/

/-- What a letter after a backslash stands for. -/
def escaped? (c : Char) : Option Char :=
  match c with
  | '"' => some '"'
  | '\\' => some '\\'
  | '/' => some '/'
  | 'b' => some '\x08'
  | 'f' => some '\x0c'
  | 'n' => some '\n'
  | 'r' => some '\r'
  | 't' => some '\t'
  | _ => none

/-- The number that four digits spell. -/
def readUnit? (a b c d : Char) : Option Nat :=
  Text.readDigits? 16 [a, b, c, d]

/-- A unit of a text: a character, or a number from an escape that may be half of
a character. -/
inductive TextUnit where
  | char (c : Char)
  | code (n : Nat)
deriving DecidableEq, Repr, Inhabited

/-- The units of a text up to its closing quote, and what follows that. -/
def readUnits? : List Char → Option (List TextUnit × List Char)
  | [] => none
  | '"' :: rest => some ([], rest)
  | '\\' :: 'u' :: a :: b :: c :: d :: rest => do
      let n ← readUnit? a b c d
      let (units, rest) ← readUnits? rest
      return (.code n :: units, rest)
  | '\\' :: c :: rest => do
      let e ← escaped? c
      let (units, rest) ← readUnits? rest
      return (.char e :: units, rest)
  | c :: rest =>
      if c.toNat < 0x20 then none
      else do
        let (units, rest) ← readUnits? rest
        return (.char c :: units, rest)

/-- Whether a number is the first half of a character. -/
def isHigh (n : Nat) : Bool := 0xD800 ≤ n && n < 0xDC00

/-- Whether a number is the second half of a character. -/
def isLow (n : Nat) : Bool := 0xDC00 ≤ n && n < 0xE000

/-- The characters that units stand for, unless half a character stands alone. -/
def joinUnits? : List TextUnit → Option (List Char)
  | [] => some []
  | .char c :: rest => (joinUnits? rest).map (c :: ·)
  | .code n :: .code m :: rest =>
      if isHigh n then
        if isLow m then
          (joinUnits? rest).map
            (Char.ofNat (0x10000 + (n - 0xD800) * 0x400 + (m - 0xDC00)) :: ·)
        else none
      else if isLow n then none
      else (joinUnits? (.code m :: rest)).map (Char.ofNat n :: ·)
  | .code n :: rest =>
      if isHigh n || isLow n then none else (joinUnits? rest).map (Char.ofNat n :: ·)

/-- The text up to its closing quote, if its escapes name characters, and what
follows. -/
def readText? (s : List Char) : Option (Option String × List Char) := do
  let (units, rest) ← readUnits? s
  return ((joinUnits? units).map String.ofList, rest)

/-! ## Numbers -/

/-- The digits at the front of a text, at least one. -/
def someDigits? (s : List Char) : Option (List Char × List Char) :=
  let digits := s.takeWhile Char.isDigit
  if digits.isEmpty then none else some (digits, s.dropWhile Char.isDigit)

/-- The whole part of a number, which has no leading zeros. -/
def readWhole? : List Char → Option (List Char × List Char)
  | '0' :: rest => if (rest.head?.map Char.isDigit).getD false then none else some (['0'], rest)
  | s => someDigits? s

/-- The point and the digits behind it, if there is a point. -/
def readFraction? : List Char → Option (List Char × List Char)
  | '.' :: s => (someDigits? s).map fun (digits, rest) => ('.' :: digits, rest)
  | s => some ([], s)

/-- The exponent, if there is one. -/
def readExponent? : List Char → Option (List Char × List Char)
  | c :: s =>
      if c = 'e' ∨ c = 'E' then
        match s with
        | '+' :: t => (someDigits? t).map fun (digits, rest) => (c :: '+' :: digits, rest)
        | '-' :: t => (someDigits? t).map fun (digits, rest) => (c :: '-' :: digits, rest)
        | t => (someDigits? t).map fun (digits, rest) => (c :: digits, rest)
      else some ([], c :: s)
  | [] => some ([], [])

/-- The number at the front of a text, as it is written, and what follows. -/
def readNumber? (s : List Char) : Option (List Char × List Char) := do
  let (sign, s) := match s with
    | '-' :: rest => (['-'], rest)
    | _ => ([], s)
  let (whole, s) ← readWhole? s
  let (fraction, s) ← readFraction? s
  let (exponent, s) ← readExponent? s
  return (sign ++ whole ++ fraction ++ exponent, s)

/-! ## Values -/

/-- What follows a word at the front of a text. -/
def dropWord? (word : String) (s : List Char) : Option (List Char) :=
  Text.dropPrefix? word.toList s

mutual

/-- The value at the front of a text, and what follows.  Each call takes at least
one character, so the bound need not exceed their number. -/
def read? : Nat → List Char → Option (Value × List Char)
  | 0, _ => none
  | fuel + 1, s =>
      match skipSpace s with
      | [] => none
      | '"' :: rest => do
          let (content, rest) ← readText? rest
          return ((content.map Value.text).getD .brokenText, rest)
      | '[' :: rest => do
          match skipSpace rest with
          | ']' :: rest => return (.list [], rest)
          | rest =>
              let (items, rest) ← readItems? fuel rest
              return (.list items, rest)
      | '\x7b' :: rest => do
          match skipSpace rest with
          | '\x7d' :: rest => return (.object [], rest)
          | rest =>
              let (fields, rest) ← readFields? fuel rest
              return (.object fields, rest)
      | 'n' :: rest => (dropWord? "ull" rest).map fun rest => (.null, rest)
      | 't' :: rest => (dropWord? "rue" rest).map fun rest => (.bool true, rest)
      | 'f' :: rest => (dropWord? "alse" rest).map fun rest => (.bool false, rest)
      | s => (readNumber? s).map fun (literal, rest) => (.number literal, rest)

/-- The items of a list up to its end. -/
def readItems? : Nat → List Char → Option (List Value × List Char)
  | 0, _ => none
  | fuel + 1, s => do
      let (item, rest) ← read? fuel s
      match skipSpace rest with
      | ']' :: rest => return ([item], rest)
      | ',' :: rest =>
          let (items, rest) ← readItems? fuel rest
          return (item :: items, rest)
      | _ => none

/-- The fields of an object up to its end. -/
def readFields? : Nat → List Char → Option (List (String × Value) × List Char)
  | 0, _ => none
  | fuel + 1, s => do
      let '"' :: rest := skipSpace s | none
      let (name, rest) ← readText? rest
      let name ← name
      let ':' :: rest := skipSpace rest | none
      let (value, rest) ← read? fuel rest
      match skipSpace rest with
      | '\x7d' :: rest => return ([(name, value)], rest)
      | ',' :: rest =>
          let (fields, rest) ← readFields? fuel rest
          return ((name, value) :: fields, rest)
      | _ => none

end

/-- The value of a whole text. -/
def ofText? (s : List Char) : Option Value := do
  let (value, rest) ← read? (s.length + 1) s
  if (skipSpace rest).isEmpty then some value else none

end Value

end Json
end ShaderAssets
