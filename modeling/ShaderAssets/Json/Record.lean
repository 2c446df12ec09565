import ShaderAssets.Json.Number

/-!
# Records in JSON

Reading records with known fields.  A record is an object, whose unknown fields
do not count and whose known fields come at most once, or the list of its leading
fields in their declared order.  A word that stands for a choice may be written as
an object whose only field has that name and the value null.
-/

namespace ShaderAssets
namespace Json

/-- The known fields that a record gives. -/
abbrev Record := List (String × Value)

namespace Record

/-- Whether no name comes twice. -/
def isUnique (fields : Record) : Bool :=
  (fields.map (·.1)).Nodup

/-- The record with the given field names that a value is. -/
def read? (names : List String) : Value → Option Record
  | .object fields =>
      let known := fields.filter fun f => names.contains f.1
      if isUnique known then some known else none
  | .list items => if items.length ≤ names.length then some (names.zip items) else none
  | _ => none

/-- The value of a field that must be there. -/
def required {α : Type} (r : Record) (name : String) (read : Value → Option α) : Option α :=
  (r.lookup name).bind read

/-- The value of a field that may be left out. -/
def orElse {α : Type} (r : Record) (name : String) (default : α) (read : Value → Option α) :
    Option α :=
  match r.lookup name with
  | none => some default
  | some v => read v

end Record

namespace Value

/-- The text that a value is. -/
def textOf? : Value → Option String
  | .text s => some s
  | _ => none

/-- The truth value that a value is. -/
def boolOf? : Value → Option Bool
  | .bool b => some b
  | _ => none

/-- The items that a value holds. -/
def listOf? {α : Type} (read : Value → Option α) : Value → Option (List α)
  | .list items => items.mapM read
  | _ => none

/-- A value that may be null. -/
def nullable? {α : Type} (read : Value → Option α) : Value → Option (Option α)
  | .null => some none
  | v => (read v).map some

/-- The word that names a choice. -/
def wordOf? : Value → Option String
  | .text s => some s
  | .object [(name, .null)] => some name
  | _ => none

mutual

/-- Whether every text and number within a value is usable. -/
def isSound : Value → Bool
  | .brokenText => false
  | .number literal => (Value.number literal).numberOf?.isSome
  | .list items => areSound items
  | .object fields => fieldsAreSound fields
  | _ => true

/-- Whether all items are usable. -/
def areSound : List Value → Bool
  | [] => true
  | v :: rest => isSound v && areSound rest

/-- Whether the values of all fields are usable. -/
def fieldsAreSound : List (String × Value) → Bool
  | [] => true
  | (_, v) :: rest => isSound v && fieldsAreSound rest

end

end Value

end Json
end ShaderAssets
