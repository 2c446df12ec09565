import ShaderAssets.Proofs.Source.FileBlocks
import ShaderAssets.Proofs.Source.BlockTexts

/-!
# Written sources are read back

Writing a well-formed source and reading the text gives the source back.  Nothing is
reported except the passes that have neither vertex nor fragment code, and a source
without passes.

Main results:

- Theorem {lit}`feedText_pass`: the block of a pass adds the pass.
- Theorem {lit}`parse_write`: a well-formed source is read back from its canonical
  text.
-/

namespace ShaderAssets
namespace Source

open Text

/-! ## Warnings -/

/-- The warning about a pass without vertex and fragment code. -/
def PassSource.writtenWarnings (p : PassSource) (index : Nat) : List Warning :=
  if isBlankText p.vertex && isBlankText p.fragment then [.missingProgram index] else []

/-- The warnings about passes that are numbered from `first` on. -/
def passListWarnings (first : Nat) (ps : List PassSource) : List Warning :=
  (ps.zipIdx first).flatMap fun (p, index) => p.writtenWarnings index

/-- The warnings about a well-formed source. -/
def ShaderSource.writtenWarnings (s : ShaderSource) : List Warning :=
  passListWarnings 0 s.passes ++ if s.passes.isEmpty then [.noPasses] else []

@[simp]
theorem passListWarnings_cons (first : Nat) (p : PassSource) (ps : List PassSource) :
    passListWarnings first (p :: ps) =
      p.writtenWarnings first ++ passListWarnings (first + 1) ps := by
  simp [passListWarnings]

/-! ## Passes -/

/-- A pass that is read back from its block.  The braces of its tags need only be
enclosed together. -/
structure PassSource.Legible (p : PassSource) : Prop where
  tags_legible : ∀ tag ∈ p.tags, tag.Legible
  tags_enclosed : IsEnclosed (tagsText p.tags).toList
  varying_enclosed : IsEnclosed p.varying.toList
  vertex_enclosed : IsEnclosed p.vertex.toList
  fragment_enclosed : IsEnclosed p.fragment.toList

/-- A well-formed pass is read back from its block. -/
theorem PassSource.WellFormed.legible {p : PassSource} (h : p.WellFormed) : p.Legible where
  tags_legible tag htag := (h.tags_wellFormed tag htag).legible
  tags_enclosed := isEnclosed_tagsText h.tags_wellFormed
  varying_enclosed := h.varying_enclosed
  vertex_enclosed := h.vertex_enclosed
  fragment_enclosed := h.fragment_enclosed

namespace Reader

variable (s : Reader)

/-- The word `pass` and an opening brace open a pass. -/
theorem feedText_pass_open (hdepth : s.depth = 0) :
    (s.ready (some '\n')).feedText "pass\n\x7b\n".toList =
      { s with depth := 1 }.ready (some '\n') := by
  obtain ⟨last', hword⟩ := feedText_ready_keyword s (some '\n') "pass" (by decide)
  have hopen : (s.afterWord "pass" last').feedText ['\n', '{', '\n'] =
      { s with depth := 1 }.ready (some '\n') := by
    simp [afterWord, feedText, feed, step, feedTop, feedPlain, ready, keywordMode?, hdepth,
      isWordChar, Section.ofKeyword?]
  have hsplit : "pass\n\x7b\n".toList = "pass".toList ++ ['\n', '{', '\n'] := by decide
  rw [hsplit, feedText_append, hword, hopen]

/-- The raw texts of a written pass. -/
def textsOf (p : PassSource) : OpenPass :=
  ⟨tagsText p.tags, p.varying, p.vertex, p.fragment⟩

/-- The raw texts of a written pass make the pass. -/
theorem passOf_textsOf {p : PassSource} (h : p.Legible) : passOf (textsOf p) = p := by
  rw [passOf, textsOf, (Tags.tags_tagsText h.tags_legible).1]

/-- The raw texts of a written pass give no warning about its tags. -/
theorem passWarnings_textsOf {p : PassSource} (h : p.Legible) (index : Nat) :
    passWarnings (textsOf p) index = p.writtenWarnings index := by
  rw [passWarnings, textsOf, (Tags.tags_tagsText h.tags_legible).2]
  rfl

/-- The closing brace of a pass adds the pass that its texts make. -/
theorem feedText_pass_close (hdepth : s.depth = 1) {p : PassSource} (hp : passOf s.pass = p) :
    (s.ready (some '\n')).feedText ['}', '\n'] =
      { s with
        depth := 0
        pass := .empty
        passes := s.passes ++ [p]
        warnings := s.warnings ++ passWarnings s.pass s.passes.length }.ready (some '\n') := by
  subst hp
  simp [feedText, feed, step, feedTop, feedPlain, ready, keywordMode?_empty, hdepth, isWordChar,
    storePass]

/-- The block of a pass adds the pass. -/
theorem feedText_pass (hdepth : s.depth = 0) (hpass : s.pass = .empty) {p : PassSource}
    (h : p.Legible) :
    (s.ready (some '\n')).feedText p.text.toList =
      { s with
        passes := s.passes ++ [p]
        warnings := s.warnings ++ p.writtenWarnings s.passes.length }.ready (some '\n') := by
  have hopen := feedText_pass_open s hdepth
  have htags := feedText_sectionText { s with depth := 1 } rfl .tags
    h.tags_enclosed (by rw [hpass]; rfl)
  have hvarying := feedText_sectionText
    { s with depth := 1, pass := s.pass.set (tagsText p.tags) .tags } rfl .varying
    h.varying_enclosed (by rw [hpass]; rfl)
  have hvertex := feedText_sectionText
    { s with depth := 1, pass := (s.pass.set (tagsText p.tags) .tags).set p.varying .varying }
    rfl .vertex h.vertex_enclosed (by rw [hpass]; rfl)
  have hfragment := feedText_sectionText
    { s with depth := 1, pass := ((s.pass.set (tagsText p.tags) .tags).set p.varying
        .varying).set p.vertex .vertex }
    rfl .fragment h.fragment_enclosed (by rw [hpass]; rfl)
  have htexts : ((((s.pass.set (tagsText p.tags) .tags).set p.varying .varying).set p.vertex
      .vertex).set p.fragment .fragment) = textsOf p := by
    rw [hpass]
    rfl
  rw [htexts] at hfragment
  have hsplit : p.text.toList = "pass\n\x7b\n".toList ++
      ((PassSource.sectionText Section.tags.keyword (tagsText p.tags)).toList ++
        ((PassSource.sectionText Section.varying.keyword p.varying).toList ++
          ((PassSource.sectionText Section.vertex.keyword p.vertex).toList ++
            ((PassSource.sectionText Section.fragment.keyword p.fragment).toList ++
              ['}', '\n'])))) := by
    simp only [Section.keyword, sectionText_tagsText, PassSource.text]
    simp
  rw [hsplit, feedText_append, hopen, feedText_append, htags, feedText_append, hvarying,
    feedText_append, hvertex, feedText_append, hfragment,
    feedText_pass_close { s with depth := 1, pass := textsOf p } rfl (passOf_textsOf h)]
  simp [ready, passWarnings_textsOf h, hdepth, hpass]

/-- The blocks of legible passes add the passes. -/
theorem feedText_legible_passes (hdepth : s.depth = 0) (hpass : s.pass = .empty)
    {ps : List PassSource} (h : ∀ p ∈ ps, p.Legible) :
    (s.ready (some '\n')).feedText (String.join (ps.map PassSource.text)).toList =
      { s with
        passes := s.passes ++ ps
        warnings := s.warnings ++ passListWarnings s.passes.length ps }.ready (some '\n') := by
  induction ps generalizing s with
  | nil => simp [feedText, passListWarnings]
  | cons p ps ih =>
      have hfirst := feedText_pass s hdepth hpass (h p (by simp))
      have hmore := ih { s with
          passes := s.passes ++ [p]
          warnings := s.warnings ++ p.writtenWarnings s.passes.length } hdepth hpass
        fun q hq => h q (List.mem_cons_of_mem p hq)
      rw [List.map_cons, String.join_cons, String.toList_append, feedText_append, hfirst, hmore]
      simp

/-- The blocks of well-formed passes add the passes. -/
theorem feedText_passes (hdepth : s.depth = 0) (hpass : s.pass = .empty)
    {ps : List PassSource} (h : ∀ p ∈ ps, p.WellFormed) :
    (s.ready (some '\n')).feedText (String.join (ps.map PassSource.text)).toList =
      { s with
        passes := s.passes ++ ps
        warnings := s.warnings ++ passListWarnings s.passes.length ps }.ready (some '\n') :=
  feedText_legible_passes s hdepth hpass fun p hp => (h p hp).legible

end Reader

/-! ## Files -/

namespace ShaderSource

/-- A written file is its name line, its mode line, its parameter block and its passes. -/
theorem toList_write (s : ShaderSource) :
    s.write.toList = ("name \"" ++ s.name ++ "\"\n").toList ++
      (("render_mode " ++ s.renderMode.keyword ++ "\n").toList ++
        ((if s.uniforms.isEmpty then ""
          else "params\n\x7b\n" ++
            String.join (s.uniforms.map fun u => "    " ++ u.line ++ "\n") ++ "\x7d\n").toList ++
          (String.join (s.passes.map PassSource.text)).toList)) := by
  rw [write]
  simp

/-- The parameter block of a file is collected, if there is one. -/
theorem feedText_paramsBlock {r : Reader} (hdepth : r.depth = 0) (hempty : r.parameterText = "")
    {us : List UniformDeclaration} (h : ∀ u ∈ us, u.WellFormed) :
    (r.ready (some '\n')).feedText
        (if us.isEmpty then ""
          else "params\n\x7b\n" ++
            String.join (us.map fun u => "    " ++ u.line ++ "\n") ++ "\x7d\n").toList =
      { r with parameterText := paramsText us }.ready (some '\n') := by
  cases us with
  | nil =>
      have hnone : paramsText [] = r.parameterText := hempty.symm
      rw [hnone]
      rfl
  | cons u us =>
      rw [paramsText, List.isEmpty_cons, if_neg Bool.false_ne_true, if_neg Bool.false_ne_true]
      exact Reader.feedText_params r hdepth hempty h (some '\n')

/-- A well-formed source is read back from its canonical text, with a warning about
each pass without code and about a file without passes. -/
theorem parse_write (s : ShaderSource) (h : s.WellFormed) :
    ShaderSource.parse s.write = ⟨s, s.writtenWarnings⟩ := by
  have hname := Reader.feedText_name Reader.initial rfl none h.name_no_quote h.name_no_newline
  have hmode := Reader.feedText_mode { Reader.initial with name := s.name } rfl (some '\n')
    s.renderMode
  have hparams := feedText_paramsBlock
    (r := { Reader.initial with name := s.name, renderMode := s.renderMode }) rfl rfl
    h.uniforms_wellFormed
  have hpasses := Reader.feedText_passes
    { Reader.initial with
      name := s.name, renderMode := s.renderMode, parameterText := paramsText s.uniforms }
    rfl rfl h.passes_wellFormed
  have hinitial : Reader.initial = Reader.initial.ready none := rfl
  obtain ⟨huniforms, hwarnings⟩ := Params.uniforms_paramsText h.uniforms_wellFormed
  rw [parse, toList_write, hinitial, Reader.feedText_append, hname, Reader.feedText_append, hmode,
    Reader.feedText_append, hparams, hpasses]
  simp [Reader.finish, Reader.endWord, Reader.endLine, Reader.endPass, Reader.result,
    Reader.ready, Reader.initial, huniforms, hwarnings, writtenWarnings]

/-- A source with a missing lower bound, quoted marks, a conditional tag without a
first branch, braces in a comment and a pass without code. -/
def sample : ShaderSource where
  name := "Lit // \x7b"
  renderMode := .deferred
  uniforms :=
    [{ type := .float, bindName := "u_Gain", displayName := "Gain: \x7d // dB",
       defaultValue := "1", isDefine := false, isHidden := true, backBuffer := none,
       lower := none, upper := some (Number.Single.ofCode false 0x3fc00000) },
     { type := .vec3, bindName := "u_Tint", displayName := "", defaultValue := "1,0.5,0",
       isDefine := true, isHidden := false, backBuffer := some .depth,
       lower := none, upper := none }]
  passes :=
    [{ varying := "", vertex := "void main() \x7b // \x7d\n\x7d", fragment := "/",
       tags := [.conditional "Queue" "FADE" [] ["a b", ""], .plain "Cull" ["x//y z"]] },
     { varying := "vec2 uv;", vertex := "", fragment := " \n", tags := [] }]

/-- The sample is well formed and read back with the warning about its second pass. -/
theorem parse_write_sample : sample.WellFormed ∧
    ShaderSource.parse sample.write = ⟨sample, [.missingProgram 1]⟩ :=
  ⟨by decide, parse_write sample (by decide)⟩

end ShaderSource
end Source
end ShaderAssets
