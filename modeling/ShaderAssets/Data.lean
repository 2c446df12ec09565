import ShaderAssets.Number.Single

/-!
# Data trees

What the library writes in a data format, before the format is chosen.  The
fields of a record keep their order.
-/

namespace ShaderAssets

open Number

/-- A tree of data. -/
inductive Data where
  | null
  | bool (b : Bool)
  | natural (n : Nat)
  | single (x : Single)
  | text (s : String)
  | list (items : List Data)
  | record (fields : List (String × Data))
deriving Repr, Inhabited

namespace Data

/-- A list of texts. -/
def texts (items : List String) : Data :=
  .list (items.map .text)

/-- A value that may be missing. -/
def optional {α : Type} (encode : α → Data) : Option α → Data
  | none => .null
  | some a => encode a

end Data

end ShaderAssets
