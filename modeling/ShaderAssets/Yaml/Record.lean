import ShaderAssets.Yaml.Value

/-!
# Records in YAML

Reading records with known fields from the nodes of a text.  A record is a
mapping, or nothing at all for a record without fields.  Unknown fields do not
count, and known fields come at most once.  Where a text is asked for, any scalar
will do as it is written.
-/

namespace ShaderAssets
namespace Yaml

/-- The fields that a record gives. -/
abbrev Record := List (String × Node)

namespace Node

/-- The text of a scalar. -/
def textOf? : Node → Option String
  | .scalar _ _ s => some s
  | _ => none

/-- Whether the node is left out. -/
def isEmpty : Node → Bool
  | .scalar _ .plain s => s == ""
  | _ => false

/-- The truth value that a plain scalar spells. -/
def boolOf? : Node → Option Bool
  | .scalar tag style s =>
      if style = .plain ∨ (style = .literal ∧ tag = some (Value.core "bool")) then readBool? s
      else none
  | _ => none

/-- Whether a scalar stands for null where a value may be missing; a wrong scalar
with the tag of null is an error. -/
def isNull? : Node → Option Bool
  | .scalar tag style s =>
      if style ≠ .plain then some false
      else if tag = some (Value.core "null") then
        if isNullWord s then some true else none
      else if tag.isSome then some false
      else some (s == "" || isNullWord s)
  | _ => some false

/-- A value that may be null. -/
def nullable? {α : Type} (read : Node → Option α) (n : Node) : Option (Option α) := do
  if ← n.isNull? then return none else return some (← read n)

/-- The items of a sequence; a node that is left out has none. -/
def listOf? {α : Type} (read : Node → Option α) : Node → Option (List α)
  | .sequence _ items => items.mapM read
  | n => if n.isEmpty then some [] else none

/-- The word that names a choice: the text of a scalar, or its own tag if the
scalar is null. -/
def wordOf? : Node → Option String
  | .scalar tag style s =>
      match tag with
      | some t =>
          if Value.isOwnTag tag then
            if style = .plain ∧ (s = "" ∨ isNullWord s) then
              some (String.ofList (t.toList.drop 1))
            else none
          else some s
      | none => some s
  | _ => none

end Node

namespace Record

/-- The fields of a mapping whose keys are scalars. -/
def entries? (entries : List (Node × Node)) : Option Record :=
  entries.mapM fun (k, v) => k.textOf?.map fun name => (name, v)

/-- The record with the given field names that a node is. -/
def read? (names : List String) : Node → Option Record
  | .mapping _ entries => do
      let known := (← entries? entries).filter fun f => names.contains f.1
      if (known.map (·.1)).Nodup then some known else none
  | n => if n.isEmpty then some [] else none

/-- The record that a document is; an empty one has no fields. -/
def ofDocument? (names : List String) : Document → Option Record
  | none => some []
  | some n => read? names n

/-- The value of a field that must be there. -/
def required {α : Type} (r : Record) (name : String) (read : Node → Option α) : Option α :=
  (r.lookup name).bind read

/-- The value of a field that may be left out. -/
def orElse {α : Type} (r : Record) (name : String) (default : α) (read : Node → Option α) :
    Option α :=
  match r.lookup name with
  | none => some default
  | some n => read n

end Record

end Yaml
end ShaderAssets
