import ShaderAssets.Proofs.Source.Reading
import ShaderAssets.Proofs.Source.RoundTrip

/-!
# Formatting a file

Formatting reads a file and writes its source in the canonical form.  The canonical
form puts quotes around display names and around values with white space, and leaves
everything else bare.  A source that was read keeps its meaning whenever what is left
bare can stand bare and its bounds are numbers.  Nothing else is lost, since all other
conditions on sources that can be written hold of everything that is read.

A quoted text of a file may be one that cannot stand bare, and then formatting does
lose it: a value with a comment mark and no white space ends in front of the mark.
Declarations and tags are the only parts that can be lost.  The name and the raw
sections of any file whatsoever, unbalanced ones included, were cut out of it so that
they can be written again.

Main results:

- Structure {lit}`ShaderSource.Expressible`: what is left bare can stand bare.
- Theorem {lit}`ShaderSource.parse_write_of_legible`: which sources are read back.
- Theorem {lit}`ShaderSource.parse_write_parse`: formatting keeps what a file says.
- Theorem {lit}`ShaderSource.format_loses_comment_mark`: it does not do so always.
- Theorem {lit}`ShaderSource.parse_write_rawParts`: formatting keeps all raw sections.
-/

namespace ShaderAssets
namespace Source

open Text

/-! ## What the canonical form expresses -/

namespace UniformDeclaration

/-- The bind name and the components of the default literal are left bare. -/
structure Expressible (u : UniformDeclaration) : Prop where
  bind_bare : IsBare true u.bindName.toList
  components_bare : ∀ part ∈ u.components, IsBare true part

instance (u : UniformDeclaration) : Decidable u.Expressible :=
  decidable_of_iff (IsBare true u.bindName.toList ∧ ∀ part ∈ u.components, IsBare true part)
    ⟨fun h => ⟨h.1, h.2⟩, fun h => ⟨h.bind_bare, h.components_bare⟩⟩

/-- The bounds of a declaration are numbers. -/
def HasNumbers (u : UniformDeclaration) : Prop :=
  (∀ x ∈ u.lower, x.isNaN = false) ∧ ∀ x ∈ u.upper, x.isNaN = false

instance : DecidablePred HasNumbers := fun u =>
  inferInstanceAs (Decidable ((∀ x ∈ u.lower, x.isNaN = false) ∧ ∀ x ∈ u.upper, x.isNaN = false))

/-- A declaration that was read can be written if what is left bare can stand bare. -/
theorem Shaped.wellFormed {u : UniformDeclaration} (h : u.Shaped) (hbare : u.Expressible)
    (hnumbers : u.HasNumbers) : u.WellFormed where
  bind_bare := hbare.bind_bare
  display_no_quote := h.display_quotable.no_quote
  display_no_newline := h.display_quotable.no_newline
  components_bare := hbare.components_bare
  components_length := h.components_length
  lower_number := hnumbers.1
  upper_number := hnumbers.2
  ranged := h.ranged

end UniformDeclaration

namespace Tag

/-- A value that is left bare has no comment mark. -/
def NoBareComment (v : String) : Prop :=
  hasComment v.toList = true → v.toList.any isBlank = true

instance : DecidablePred NoBareComment := fun v =>
  inferInstanceAs (Decidable (hasComment v.toList = true → v.toList.any isBlank = true))

/-- Names, defines and values without white space are left bare, and a conditional tag
needs a value in some branch. -/
def Expressible : Tag → Prop
  | .plain name values => IsWord false name.toList ∧ ∀ v ∈ values, NoBareComment v
  | .conditional name define ifSet ifUnset =>
      IsWord false name.toList ∧ IsWord false define.toList ∧
        (∀ v ∈ ifSet ++ ifUnset, NoBareComment v) ∧ ifSet ++ ifUnset ≠ []

instance : DecidablePred Expressible
  | .plain name values => inferInstanceAs (Decidable
      (IsWord false name.toList ∧ ∀ v ∈ values, NoBareComment v))
  | .conditional name define ifSet ifUnset => inferInstanceAs (Decidable
      (IsWord false name.toList ∧ IsWord false define.toList ∧
        (∀ v ∈ ifSet ++ ifUnset, NoBareComment v) ∧ ifSet ++ ifUnset ≠ []))

/-- A tag that was read is read back if what is left bare can stand bare. -/
theorem Shaped.legible {tag : Tag} (h : tag.Shaped) (hbare : tag.Expressible) : tag.Legible := by
  have hvalue : ∀ v : String, IsQuotable v → NoBareComment v → (valueToken v).Stands false :=
    fun v hv hmark => stands_valueToken hv.no_quote hv.no_newline hmark
  cases tag with
  | plain name values =>
      obtain ⟨hvalues, hmarks⟩ := h
      obtain ⟨hname, hcomments⟩ := hbare
      exact ⟨stands_of_mem_plain hname fun v hv => hvalue v (hvalues v hv) (hcomments v hv), hmarks⟩
  | conditional name define ifSet ifUnset =>
      obtain ⟨hvalues, hmark⟩ := h
      obtain ⟨hname, hdefine, hcomments, hne⟩ := hbare
      exact ⟨stands_of_mem_conditional hname hdefine
        fun v hv => hvalue v (hvalues v hv).1 (hcomments v hv),
        hmark, fun v hv => (hvalues v hv).2, hne⟩

end Tag

/-- All tags are expressed, and the braces in them are enclosed by the tag section. -/
structure PassSource.Expressible (p : PassSource) : Prop where
  tags_expressible : ∀ tag ∈ p.tags, tag.Expressible
  tags_enclosed : IsEnclosed (tagsText p.tags).toList

instance (p : PassSource) : Decidable p.Expressible :=
  decidable_of_iff ((∀ tag ∈ p.tags, tag.Expressible) ∧ IsEnclosed (tagsText p.tags).toList)
    ⟨fun h => ⟨h.1, h.2⟩, fun h => ⟨h.tags_expressible, h.tags_enclosed⟩⟩

/-- A pass that was read is read back if what is left bare can stand bare. -/
theorem PassSource.Shaped.legible {p : PassSource} (h : p.Shaped) (hbare : p.Expressible) :
    p.Legible where
  tags_legible tag htag := (h.tags_shaped tag htag).legible (hbare.tags_expressible tag htag)
  tags_enclosed := hbare.tags_enclosed
  varying_enclosed := h.varying_enclosed
  vertex_enclosed := h.vertex_enclosed
  fragment_enclosed := h.fragment_enclosed

namespace ShaderSource

/-- The canonical form expresses every declaration and every pass. -/
structure Expressible (s : ShaderSource) : Prop where
  uniforms_expressible : ∀ u ∈ s.uniforms, u.Expressible
  passes_expressible : ∀ p ∈ s.passes, p.Expressible

instance (s : ShaderSource) : Decidable s.Expressible :=
  decidable_of_iff ((∀ u ∈ s.uniforms, u.Expressible) ∧ ∀ p ∈ s.passes, p.Expressible)
    ⟨fun h => ⟨h.1, h.2⟩, fun h => ⟨h.uniforms_expressible, h.passes_expressible⟩⟩

/-! ## Reading what was written -/

/-- The reader behind the canonical text of a source has collected its parts. -/
theorem feedText_write {s : ShaderSource} (hname : IsQuotable s.name)
    (huniforms : ∀ u ∈ s.uniforms, u.WellFormed) (hpasses : ∀ p ∈ s.passes, p.Legible) :
    Reader.initial.feedText s.write.toList =
      { Reader.initial with
        name := s.name
        renderMode := s.renderMode
        parameterText := paramsText s.uniforms
        passes := s.passes
        warnings := passListWarnings 0 s.passes }.ready (some '\n') := by
  have hstart : Reader.initial.feedText s.write.toList =
      (Reader.initial.ready none).feedText s.write.toList := rfl
  rw [hstart, toList_write, Reader.feedText_append,
    Reader.feedText_name Reader.initial rfl none hname.no_quote hname.no_newline,
    Reader.feedText_append, Reader.feedText_mode _ rfl, Reader.feedText_append,
    feedText_paramsBlock rfl rfl huniforms, Reader.feedText_legible_passes _ rfl rfl hpasses]
  simp [Reader.initial]

/-- A source whose declarations are well formed and whose passes are legible is read
back from its canonical text. -/
theorem parse_write_of_legible {s : ShaderSource} (hname : IsQuotable s.name)
    (huniforms : ∀ u ∈ s.uniforms, u.WellFormed) (hpasses : ∀ p ∈ s.passes, p.Legible) :
    parse s.write = ⟨s, s.writtenWarnings⟩ := by
  obtain ⟨hread, hwarnings⟩ := Params.uniforms_paramsText huniforms
  rw [parse, feedText_write hname huniforms hpasses]
  simp [Reader.finish, Reader.endWord, Reader.endLine, Reader.endPass, Reader.result,
    Reader.ready, Reader.initial, hread, hwarnings, writtenWarnings]

/-- Passes with code are written without warnings. -/
theorem writtenWarnings_eq_nil {s : ShaderSource} (hne : s.passes ≠ [])
    (hcode : ∀ p ∈ s.passes, p.HasCode) : s.writtenWarnings = [] := by
  have hpasses : passListWarnings 0 s.passes = [] := by
    rw [passListWarnings, List.flatMap_eq_nil_iff]
    rintro ⟨p, index⟩ hp
    have hp' : (isBlankText p.vertex && isBlankText p.fragment) = false :=
      hcode p (List.fst_mem_of_mem_zipIdx hp)
    simp [PassSource.writtenWarnings, hp']
  simp [writtenWarnings, hpasses, hne]

/-! ## Formatting -/

/-- Formatting keeps what a file says, provided that the canonical form expresses it and
its bounds are numbers.  Formatting again changes nothing, and a file without warnings
stays so. -/
theorem parse_write_parse (text : String) (hbare : (parse text).source.Expressible)
    (hnumbers : ∀ u ∈ (parse text).source.uniforms, u.HasNumbers) :
    (parse (parse text).source.write).source = (parse text).source ∧
      (parse (parse text).source.write).source.write = (parse text).source.write ∧
      ((parse text).warnings = [] → (parse (parse text).source.write).warnings = []) := by
  have hshaped := shaped_parse text
  have hread : parse (parse text).source.write =
      ⟨(parse text).source, (parse text).source.writtenWarnings⟩ :=
    parse_write_of_legible hshaped.name_quotable
      (fun u hu => (hshaped.uniforms_shaped u hu).wellFormed
        (hbare.uniforms_expressible u hu) (hnumbers u hu))
      (fun p hp => (hshaped.passes_shaped p hp).legible (hbare.passes_expressible p hp))
  rw [hread]
  refine ⟨rfl, rfl, fun hnil => ?_⟩
  obtain ⟨hne, hcode⟩ := hasCode_of_parse hnil
  exact writtenWarnings_eq_nil hne hcode

/-- A file with a bound, a comment, a quoted comment mark, braces in a tag and a brace
in a comment of a raw section. -/
def sampleText : String :=
  "params\x7bfloat g \"G: d\" 1 : - 2 // x\n\x7dpass\x7btags\x7b" ++
    "Q = F ? a : \"b // c\"\nR \x7b0\x7d\n\x7dvertex\x7bv // \x7d\n\x7d\x7d"

/-- The sample is expressed, so formatting keeps it. -/
theorem parse_write_parse_sample : (parse sampleText).warnings = [] ∧
    (parse (parse sampleText).source.write).source = (parse sampleText).source := by
  have hsample : (parse sampleText).warnings = [] ∧ (parse sampleText).source.Expressible ∧
      ∀ u ∈ (parse sampleText).source.uniforms, u.HasNumbers := by
    decide +kernel
  obtain ⟨hwarnings, hbare, hnumbers⟩ := hsample
  exact ⟨hwarnings, (parse_write_parse sampleText hbare hnumbers).1⟩

/-- A file with a quoted value that has a comment mark and no white space. -/
def markedText : String :=
  "pass\x7btags\x7blabel \"a//b\"\n\x7dvertex\x7bv\x7d\x7d"

/-- The marked file has no warning and no bounds, and yet formatting changes what it
says: the value is written bare and ends in front of the mark. -/
theorem format_loses_comment_mark : (parse markedText).warnings = [] ∧
    (parse markedText).source.uniforms = [] ∧
    (parse (parse markedText).source.write).source ≠ (parse markedText).source := by
  decide +kernel

end ShaderSource

/-! ## Raw sections -/

/-- A pass with its raw sections alone. -/
def PassSource.untagged (p : PassSource) : PassSource :=
  { p with tags := [] }

/-- A source with its name, its mode and the raw sections of its passes. -/
def ShaderSource.rawParts (s : ShaderSource) : ShaderSource :=
  { s with uniforms := [], passes := s.passes.map PassSource.untagged }

/-- The raw sections of a pass that was read are read back. -/
theorem PassSource.Shaped.legible_untagged {p : PassSource} (h : p.Shaped) :
    p.untagged.Legible where
  tags_legible := by simp [PassSource.untagged]
  tags_enclosed := isEnclosed_nil
  varying_enclosed := h.varying_enclosed
  vertex_enclosed := h.vertex_enclosed
  fragment_enclosed := h.fragment_enclosed

/-- Without its declarations and tags, whatever was read is read back from its canonical
text, with the same texts in all raw sections. -/
theorem ShaderSource.parse_write_rawParts (text : String) :
    (parse (parse text).source.rawParts.write).source = (parse text).source.rawParts ∧
      (parse (parse text).source.rawParts.write).warnings =
        (parse text).source.rawParts.writtenWarnings := by
  have hshaped := shaped_parse text
  have hpasses : ∀ p ∈ (parse text).source.rawParts.passes, p.Legible := by
    intro p hp
    obtain ⟨q, hq, rfl⟩ := List.mem_map.mp hp
    exact (hshaped.passes_shaped q hq).legible_untagged
  have huniforms : ∀ u ∈ (parse text).source.rawParts.uniforms, u.WellFormed := by
    simp [rawParts]
  have hread := parse_write_of_legible (s := (parse text).source.rawParts)
    hshaped.name_quotable huniforms hpasses
  rw [hread]
  exact ⟨rfl, rfl⟩

end Source
end ShaderAssets
