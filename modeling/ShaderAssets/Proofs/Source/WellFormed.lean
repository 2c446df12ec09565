import ShaderAssets.Source.Basic
import ShaderAssets.Proofs.Source.Tokens

/-!
# Well-formed sources

Which sources can be written without losing anything.  Names that are written bare
hold nothing that would end or hide them, quoted texts hold no quote, and raw
sections close exactly the braces that they open.

Braces in `//` comments of a raw section do not count, and a section must not end
inside such a comment, since the brace behind it would belong to the comment.

All conditions are decidable.
-/

namespace ShaderAssets
namespace Source

open Text

/-! ## Words and values -/

/-- Braces delimit the blocks of a file. -/
def isBrace (c : Char) : Bool :=
  c == '{' || c == '}'

/-- A text that can be written bare inside a block. -/
structure IsBare (colons : Bool) (s : List Char) : Prop extends IsWord colons s where
  no_brace : ∀ c ∈ s, isBrace c = false

instance (colons : Bool) (s : List Char) : Decidable (IsBare colons s) :=
  decidable_of_iff (IsWord colons s ∧ ∀ c ∈ s, isBrace c = false)
    ⟨fun h => ⟨h.1, h.2⟩, fun h => ⟨h.toIsWord, h.no_brace⟩⟩

/-- A value that a tag can carry.  A comment mark is harmless only where white space
makes the value quoted. -/
structure IsValue (v : String) : Prop where
  no_quote : '"' ∉ v.toList
  no_newline : '\n' ∉ v.toList
  no_brace : ∀ c ∈ v.toList, isBrace c = false
  no_bare_comment : hasComment v.toList = true → v.toList.any isBlank = true

instance (v : String) : Decidable (IsValue v) :=
  decidable_of_iff ('"' ∉ v.toList ∧ '\n' ∉ v.toList ∧ (∀ c ∈ v.toList, isBrace c = false) ∧
      (hasComment v.toList = true → v.toList.any isBlank = true))
    ⟨fun h => ⟨h.1, h.2.1, h.2.2.1, h.2.2.2⟩,
      fun h => ⟨h.no_quote, h.no_newline, h.no_brace, h.no_bare_comment⟩⟩

/-! ## Uniforms -/

namespace UniformDeclaration

/-- The components of the default literal. -/
def components (u : UniformDeclaration) : List (List Char) :=
  u.defaultValue.toList.splitOn ','

/-- A declaration that can be written on one line. -/
structure WellFormed (u : UniformDeclaration) : Prop where
  bind_bare : IsBare true u.bindName.toList
  display_no_quote : '"' ∉ u.displayName.toList
  display_no_newline : '\n' ∉ u.displayName.toList
  components_bare : ∀ part ∈ u.components, IsBare true part
  components_length : u.components.length ≤ u.type.arity
  lower_number : ∀ x ∈ u.lower, x.isNaN = false
  upper_number : ∀ x ∈ u.upper, x.isNaN = false
  ranged : u.lower.isSome = true ∨ u.upper.isSome = true → u.type.isRanged = true

instance (u : UniformDeclaration) : Decidable u.WellFormed :=
  decidable_of_iff (IsBare true u.bindName.toList ∧ '"' ∉ u.displayName.toList ∧
      '\n' ∉ u.displayName.toList ∧ (∀ part ∈ u.components, IsBare true part) ∧
      u.components.length ≤ u.type.arity ∧ (∀ x ∈ u.lower, x.isNaN = false) ∧
      (∀ x ∈ u.upper, x.isNaN = false) ∧
      (u.lower.isSome = true ∨ u.upper.isSome = true → u.type.isRanged = true))
    ⟨fun h => ⟨h.1, h.2.1, h.2.2.1, h.2.2.2.1, h.2.2.2.2.1, h.2.2.2.2.2.1, h.2.2.2.2.2.2.1,
        h.2.2.2.2.2.2.2⟩,
      fun h => ⟨h.bind_bare, h.display_no_quote, h.display_no_newline, h.components_bare,
        h.components_length, h.lower_number, h.upper_number, h.ranged⟩⟩

end UniformDeclaration

/-! ## Tags -/

namespace Tag

/-- A tag that can be written on one line.  The marks of the conditional form may
not be taken for values, and a conditional tag needs a value in some branch. -/
def WellFormed : Tag → Prop
  | .plain name values =>
      IsBare false name.toList ∧ (∀ v ∈ values, IsValue v) ∧ values ≠ [] ∧
        values.head? ≠ some "="
  | .conditional name define ifSet ifUnset =>
      IsBare false name.toList ∧ IsBare false define.toList ∧ define ≠ "?" ∧
        (∀ v ∈ ifSet ++ ifUnset, IsValue v ∧ v ≠ ":") ∧ ifSet ++ ifUnset ≠ []

instance : DecidablePred WellFormed
  | .plain name values => inferInstanceAs (Decidable (IsBare false name.toList ∧
      (∀ v ∈ values, IsValue v) ∧ values ≠ [] ∧ values.head? ≠ some "="))
  | .conditional name define ifSet ifUnset => inferInstanceAs (Decidable
      (IsBare false name.toList ∧ IsBare false define.toList ∧ define ≠ "?" ∧
        (∀ v ∈ ifSet ++ ifUnset, IsValue v ∧ v ≠ ":") ∧ ifSet ++ ifUnset ≠ []))

end Tag

/-! ## Raw sections -/

/-- What a text holds outside its `//` comments, line breaks apart. -/
def codeOf (text : List Char) : List Char :=
  (text.splitOn '\n').flatMap (beforeMark ['/', '/'])

/-- A text that the brace after it encloses: outside comments it closes no brace
that it did not open and leaves none open, and its last line has no comment. -/
structure IsEnclosed (text : List Char) : Prop where
  opened_first : ∀ n ≤ (codeOf text).length,
    ((codeOf text).take n).count '}' ≤ ((codeOf text).take n).count '{'
  all_closed : (codeOf text).count '{' = (codeOf text).count '}'
  comment_ended : hasComment ((text.splitOn '\n').getLastD []) = false

instance (text : List Char) : Decidable (IsEnclosed text) :=
  decidable_of_iff ((∀ n ≤ (codeOf text).length,
        ((codeOf text).take n).count '}' ≤ ((codeOf text).take n).count '{') ∧
      (codeOf text).count '{' = (codeOf text).count '}' ∧
      hasComment ((text.splitOn '\n').getLastD []) = false)
    ⟨fun h => ⟨h.1, h.2.1, h.2.2⟩, fun h => ⟨h.opened_first, h.all_closed, h.comment_ended⟩⟩

/-! ## Passes and sources -/

/-- A pass whose tags and raw sections can be written. -/
structure PassSource.WellFormed (p : PassSource) : Prop where
  tags_wellFormed : ∀ tag ∈ p.tags, tag.WellFormed
  varying_enclosed : IsEnclosed p.varying.toList
  vertex_enclosed : IsEnclosed p.vertex.toList
  fragment_enclosed : IsEnclosed p.fragment.toList

instance (p : PassSource) : Decidable p.WellFormed :=
  decidable_of_iff ((∀ tag ∈ p.tags, tag.WellFormed) ∧ IsEnclosed p.varying.toList ∧
      IsEnclosed p.vertex.toList ∧ IsEnclosed p.fragment.toList)
    ⟨fun h => ⟨h.1, h.2.1, h.2.2.1, h.2.2.2⟩, fun h =>
      ⟨h.tags_wellFormed, h.varying_enclosed, h.vertex_enclosed, h.fragment_enclosed⟩⟩

/-- A source that can be written without losing anything. -/
structure ShaderSource.WellFormed (s : ShaderSource) : Prop where
  name_no_quote : '"' ∉ s.name.toList
  name_no_newline : '\n' ∉ s.name.toList
  uniforms_wellFormed : ∀ u ∈ s.uniforms, u.WellFormed
  passes_wellFormed : ∀ p ∈ s.passes, p.WellFormed

instance (s : ShaderSource) : Decidable s.WellFormed :=
  decidable_of_iff ('"' ∉ s.name.toList ∧ '\n' ∉ s.name.toList ∧
      (∀ u ∈ s.uniforms, u.WellFormed) ∧ ∀ p ∈ s.passes, p.WellFormed)
    ⟨fun h => ⟨h.1, h.2.1, h.2.2.1, h.2.2.2⟩, fun h =>
      ⟨h.name_no_quote, h.name_no_newline, h.uniforms_wellFormed, h.passes_wellFormed⟩⟩

end Source
end ShaderAssets
