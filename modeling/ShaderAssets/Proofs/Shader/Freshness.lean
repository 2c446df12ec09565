import ShaderAssets.Proofs.Defines.Normal
import ShaderAssets.Proofs.Shader.History

/-!
# Variants never go stale

Adding and removing passes changes what other passes inherit, and reloading changes the
declarations.  The variants that stay are those for which nothing changed: compiling
their pass now, on any device that can include the same files, gives a variant with the
same settings and the same bindings.

Main results:

- Definition {lit}`Pass.Fresh`: the variants of a pass are what compiling it gives now.
- Theorem {lit}`Pass.Fresh.advances`: compiling keeps variants fresh.
- Theorem {lit}`Shader.Reachable.variants_fresh`: in every history texts are inherited
  from the nearest pass, and variants are fresh.
-/

namespace ShaderAssets

open Source (UniformDeclaration PassSource)
open Render (RenderSettings)

namespace Pass

/-- Every variant of a pass has normalized defines, the layout to which the pass compiles
for them and the settings that its tags make under them. -/
def Fresh (files : String → Option String) (declarations : List UniformDeclaration)
    (p : Pass) : Prop :=
  ∀ v ∈ p.variants, Defines.normalize v.defines = v.defines ∧
    p.layout? files declarations (.parse v.defines) = some (v.bindings.map Binding.shape) ∧
    v.settings = RenderSettings.ofTags p.source.tags v.defines

/-- Compiling a pass keeps its variants fresh. -/
theorem Fresh.advances {files : String → Option String} {declarations : List UniformDeclaration}
    {raw : String} {p p' : Pass} {d d' : Device} {n : Nat} (h : Fresh files declarations p)
    (hadvances : Advances files declarations (.parse raw) p d n p' d') :
    Fresh files declarations p' := by
  cases hadvances with
  | settled _ => exact h
  | failed _ _ _ => exact h
  | compiled _ hlayout hsettings hdefines _ _ _ =>
      intro v hv
      rcases List.mem_append.mp hv with hv | hv
      · exact h v hv
      · obtain rfl := List.mem_singleton.mp hv
        rw [hdefines]
        refine ⟨Defines.normalize_normalize raw, ?_, hsettings⟩
        rw [Defines.parse_text_parse, ← hlayout]
        rfl

/-- A pass with a layout compiles, and its variant has this layout and the settings of
its tags. -/
theorem compile_of_layout {p : Pass} {declarations : List UniformDeclaration}
    {defines : Defines} {shapes : List (UniformDeclaration × Bool)} {disk : Disk}
    {path : String} {d : Device}
    (h : p.layout? ((d.includeSearch path).resolve disk) declarations defines = some shapes)
    (index : Nat) (options : CompileOptions) :
    ∃ v d', (p.compile disk path index declarations defines options d).value = (.ok v, d') ∧
      v.defines = defines.text ∧ v.settings = RenderSettings.ofTags p.source.tags defines.text ∧
      v.bindings.map Binding.shape = shapes := by
  obtain ⟨d', -, ⟨v, q, hcompile, hlayout, hsettings, hdefines, -⟩ | ⟨hlayout, -⟩⟩ :=
    p.compile_outcome disk path index declarations defines options d
  · rw [h] at hlayout
    exact ⟨v, d', hcompile, hdefines, hsettings, (Option.some.inj hlayout).symm⟩
  · rw [h] at hlayout
    cases hlayout

end Pass

namespace Shader

variable {files : String → Option String} {s : Shader} {d : Device}

/-- In every history in which the same files are included the variants are fresh. -/
theorem Reachable.fresh (h : Reachable (· = files) s d) :
    ∀ p ∈ s.passes, p.Fresh files s.uniforms := by
  refine h.forall_passes (P := fun declarations p => p.Fresh files declarations) ?_ ?_
  · intro declarations p hvariants _ v hv
    rw [hvariants] at hv
    cases hv
  · intro files' declarations raw p d n p' d' hfiles hfresh hadvances
    subst hfiles
    exact hfresh.advances hadvances

/-- In every history in which the same files are included, each text of a pass is that
of the nearest pass, from this one to the front, that has one, or empty if none has.
Every variant has the settings that the tags of its pass give now, and compiling the
pass now for the defines of the variant, on any device that can include these files,
gives the same settings and bindings: names, types, order and which have a handle. -/
theorem Reachable.variants_fresh (h : Reachable (· = files) s d) :
    ∀ (i : Nat) p, s.passes[i]? = some p →
      Pass.Nearest PassSource.varying "" s.passes i p.resolved.varying ∧
      Pass.Nearest PassSource.vertex "" s.passes i p.resolved.vertex ∧
      Pass.Nearest PassSource.fragment "" s.passes i p.resolved.fragment ∧
      ∀ v ∈ p.variants, v.settings = RenderSettings.ofTags p.source.tags v.defines ∧
        ∀ disk options d', (d'.includeSearch s.path).resolve disk = files →
          ∃ v' d'', (p.compile disk s.path i s.uniforms (.parse v.defines) options d').value =
              (.ok v', d'') ∧
            v'.defines = v.defines ∧ v'.settings = v.settings ∧
            v'.bindings.map Binding.shape = v.bindings.map Binding.shape := by
  intro i p hp
  refine ⟨Pass.Inherited.nearest _ StageTexts.varying (fun _ _ => rfl) h.inherited hp,
    Pass.Inherited.nearest _ StageTexts.vertex (fun _ _ => rfl) h.inherited hp,
    Pass.Inherited.nearest _ StageTexts.fragment (fun _ _ => rfl) h.inherited hp, ?_⟩
  intro v hv
  obtain ⟨hnormal, hlayout, hsettings⟩ := h.fresh p (List.mem_of_getElem? hp) v hv
  refine ⟨hsettings, ?_⟩
  rintro disk options d' rfl
  obtain ⟨v', d'', hcompile, hdefines, hsettings', hshapes⟩ :=
    Pass.compile_of_layout hlayout i options
  have htext : (Defines.parse v.defines).text = v.defines := hnormal
  rw [htext] at hdefines hsettings'
  exact ⟨v', d'', hcompile, hdefines, hsettings'.trans hsettings.symm, hshapes⟩

/-- The files that the sample history can include: none. -/
def noFiles : String → Option String :=
  ((Device.empty .noop).includeSearch "a.shader").resolve (.empty [])

/-- A shader with two passes, the second of which has no vertex text of its own. -/
def sampleText : String :=
  "\x7bvertex\x7bmain()\x7b\x7d\x7dfragment\x7bmain()\x7b\x7d\x7d\x7d" ++
    "\x7bfragment\x7buniform vec4 u;main()\x7b\x7d\x7d\x7d"

/-- The sample shader after it was compiled. -/
def compiledSample : Shader × Device :=
  (ShaderOperation.compileFor (.empty []) "A" .standard).run (ofText "a.shader" sampleText).value
    (.empty .noop)

/-- The sample shader after a third pass was added. -/
def extendedSample : Shader × Device :=
  (ShaderOperation.addPass .empty).run compiledSample.1 compiledSample.2

/-- The second pass of the sample inherits its vertex text, and its variant is what
compiling it on another device gives. -/
theorem variants_fresh_sample :
    ∃ p v, extendedSample.1.passes[1]? = some p ∧ p.variants = [v] ∧
      Pass.Nearest PassSource.vertex "" extendedSample.1.passes 1 p.resolved.vertex ∧
      ∃ v' d', (p.compile (.empty []) extendedSample.1.path 1 extendedSample.1.uniforms
          (.parse v.defines) .standard (.empty .vulkan)).value = (.ok v', d') ∧
        v'.defines = v.defines ∧ v'.settings = v.settings ∧
        v'.bindings.map Binding.shape = v.bindings.map Binding.shape := by
  have hcompiled : Reachable (· = noFiles) compiledSample.1 compiledSample.2 :=
    (Reachable.start "a.shader" sampleText (.empty .noop)).call
      (.compileFor (.empty []) "A" .standard) rfl
  have hextended : Reachable (· = noFiles) extendedSample.1 extendedSample.2 :=
    hcompiled.call (.addPass .empty) trivial
  have hlength : (extendedSample.1.passes[1]?.map fun p => p.variants.length) = some 1 := by
    decide +kernel
  have hpath : extendedSample.1.path = "a.shader" := by decide +kernel
  obtain ⟨p, hp, hcount⟩ := Option.map_eq_some_iff.mp hlength
  obtain ⟨v, hv⟩ := List.length_eq_one_iff.mp hcount
  obtain ⟨-, hvertex, -, hfresh⟩ := hextended.variants_fresh 1 p hp
  exact ⟨p, v, hp, hv, hvertex, (hfresh v (by simp [hv])).2 _ _ _ (by rw [hpath]; rfl)⟩

end Shader
end ShaderAssets
