import ShaderAssets.Text.Blank
import ShaderAssets.Text.Split
import ShaderAssets.Text.Hash

/-!
# Sets of defines

A raw defines string is a list of `NAME=VALUE` tokens separated by semicolons.
A set of defines keeps its entries sorted by name with each name once, so the
text of a set is a canonical form: raw strings that define the same names with
the same values have the same normalized text, whatever the order of their
tokens.
-/

namespace ShaderAssets

/-- Names with values, sorted by name, each name once. -/
structure Defines where
  entries : List (String × String)
  sorted : entries.Pairwise (fun a b => a.1 < b.1)
deriving DecidableEq, Repr

namespace Defines

/-- The empty set. -/
def empty : Defines := ⟨[], .nil⟩

/-! ## Insertion -/

/-- Puts an entry into sorted entries, in place of one with the same name. -/
def insertEntry (name value : String) : List (String × String) → List (String × String)
  | [] => [(name, value)]
  | (n, v) :: rest =>
      if name < n then (name, value) :: (n, v) :: rest
      else if name = n then (name, value) :: rest
      else (n, v) :: insertEntry name value rest

/-- Insertion adds no name but its own. -/
theorem mem_insertEntry {name value : String} {entries : List (String × String)}
    {e : String × String} (h : e ∈ insertEntry name value entries) :
    e = (name, value) ∨ e ∈ entries := by
  induction entries with
  | nil => simpa [insertEntry] using h
  | cons head rest ih =>
      obtain ⟨n, v⟩ := head
      simp only [insertEntry] at h
      split at h
      · simpa using h
      · split at h
        · rcases List.mem_cons.mp h with h | h
          · exact Or.inl h
          · exact Or.inr (List.mem_cons_of_mem _ h)
        · rcases List.mem_cons.mp h with h | h
          · exact Or.inr (by simp [h])
          · rcases ih h with h | h
            · exact Or.inl h
            · exact Or.inr (List.mem_cons_of_mem _ h)

/-- Of two different names that do not precede each other one way, the other
way holds. -/
theorem lt_of_not_lt_of_ne {a b : String} (h : ¬a < b) (hne : a ≠ b) : b < a := by
  by_cases hlt : b < a
  · exact hlt
  · exact absurd (String.le_antisymm (String.not_lt.mp hlt) (String.not_lt.mp h)) hne

/-- Insertion keeps entries sorted. -/
theorem insertEntry_sorted {name value : String} {entries : List (String × String)}
    (h : entries.Pairwise (fun a b => a.1 < b.1)) :
    (insertEntry name value entries).Pairwise (fun a b => a.1 < b.1) := by
  induction entries with
  | nil => simp [insertEntry]
  | cons head rest ih =>
      obtain ⟨n, v⟩ := head
      obtain ⟨hhead, hrest⟩ := List.pairwise_cons.mp h
      simp only [insertEntry]
      split
      · rename_i hlt
        refine List.pairwise_cons.mpr ⟨?_, h⟩
        intro e he
        rcases List.mem_cons.mp he with rfl | he
        · exact hlt
        · exact String.lt_trans hlt (hhead e he)
      · rename_i hnot
        split
        · rename_i heq
          subst heq
          exact List.pairwise_cons.mpr ⟨hhead, hrest⟩
        · rename_i hne
          refine List.pairwise_cons.mpr ⟨?_, ih hrest⟩
          intro e he
          rcases mem_insertEntry he with rfl | he
          · exact lt_of_not_lt_of_ne hnot hne
          · exact hhead e he

/-- Gives a name a value. -/
def set (d : Defines) (name value : String) : Defines :=
  ⟨insertEntry name value d.entries, insertEntry_sorted d.sorted⟩

/-- The value of a name. -/
def get? (d : Defines) (name : String) : Option String :=
  d.entries.lookup name

/-! ## Text -/

/-- The name and value that a token gives: the parts around its first equals
sign, or the value `1` for a bare name.  Blank tokens and empty names give
nothing. -/
def readToken? (token : List Char) : Option (String × String) :=
  let token := Text.trim token
  let (name, value) := match Text.splitOnce '=' token with
    | some (name, value) => (Text.trim name, Text.trim value)
    | none => (token, ['1'])
  if name.isEmpty then none else some (String.ofList name, String.ofList value)

/-- The entries that a raw defines string gives, in order. -/
def readTokens (raw : String) : List (String × String) :=
  (raw.toList.splitOn ';').filterMap readToken?

/-- The set that a raw defines string gives; the last token for a name counts. -/
def parse (raw : String) : Defines :=
  (readTokens raw).foldl (fun d (name, value) => d.set name value) empty

/-- The `NAME=VALUE` tokens of a set, sorted by name. -/
def tokens (d : Defines) : List String :=
  d.entries.map fun (name, value) => name ++ "=" ++ value

/-- The text of a set: its tokens with semicolons between them. -/
def text (d : Defines) : String :=
  ";".intercalate d.tokens

/-- Whether the text of the set holds the literal `NAME=1`. -/
def isSet (d : Defines) (name : String) : Bool :=
  Text.occursIn (name ++ "=1").toList d.text.toList

/-- The hash of the text of a set. -/
def hash (d : Defines) : UInt64 :=
  Text.fnv1a d.text

/-- The normalized form of a raw defines string. -/
def normalize (raw : String) : String :=
  (parse raw).text

/-- The hash of the normalized form of a raw defines string. -/
def hashOf (raw : String) : UInt64 :=
  (parse raw).hash

end Defines

end ShaderAssets
