import ShaderAssets.Material.Basic

/-!
# What calls leave of tokens and defines string

A material keeps its tokens and, beside them, the defines string that they make.  The string
is made anew whenever the tokens are brought in line with a uniform, and the material is
marked then; everything else leaves both alone.

Main results:

- Definition {lit}`IsSpelled`: the defines string is that of the tokens.
- Inductive {lit}`Changes`: what may happen to tokens, string and mark.
- Theorem {lit}`Changes.isSpelled`: the string stays that of the tokens.
- Theorem {lit}`Changes.dirty_of_ne`: a change of the string is marked.
-/

namespace ShaderAssets
namespace Material

/-- Setting a uniform where it stands touches the uniforms alone. -/
theorem replaceUniform_frame (m : Material) (u : MaterialUniform) :
    m.replaceUniform u = { m with uniforms := (m.replaceUniform u).uniforms } := by
  unfold replaceUniform
  split
  · rfl
  · rfl

/-- The tokens after a uniform was set where it stands. -/
@[simp]
theorem tokens_replaceUniform (m : Material) (u : MaterialUniform) :
    (m.replaceUniform u).tokens = m.tokens := by
  rw [replaceUniform_frame]

/-- The shader after a uniform was set where it stands. -/
@[simp]
theorem shader_replaceUniform (m : Material) (u : MaterialUniform) :
    (m.replaceUniform u).shader = m.shader := by
  rw [replaceUniform_frame]

/-- The defines string of a material is that of its tokens. -/
def IsSpelled (m : Material) : Prop :=
  m.defines = spell m.tokens

/-- A new material has no tokens. -/
theorem isSpelled_create (name : String) : (create name).IsSpelled :=
  rfl

/-- What may happen to tokens, string and mark: the string is made anew and the material
marked, or tokens and string are kept and a mark is not taken away. -/
inductive Changes (m m' : Material) : Prop where
  | remade (hdefines : m'.IsSpelled) (hdirty : m'.dirty = true)
  | kept (htokens : m'.tokens = m.tokens) (hdefines : m'.defines = m.defines)
      (hdirty : m.dirty = true → m'.dirty = true)

namespace Changes

variable {m m' m'' : Material}

/-- The string stays that of the tokens. -/
theorem isSpelled (h : Changes m m') (hm : m.IsSpelled) : m'.IsSpelled := by
  cases h with
  | remade hdefines => exact hdefines
  | kept htokens hdefines => rw [IsSpelled, hdefines, htokens, hm]

/-- A mark is not taken away. -/
theorem dirty (h : Changes m m') (hm : m.dirty = true) : m'.dirty = true := by
  cases h with
  | remade _ hdirty => exact hdirty
  | kept _ _ hdirty => exact hdirty hm

/-- A change of the string is marked. -/
theorem dirty_of_ne (h : Changes m m') (hne : m'.defines ≠ m.defines) : m'.dirty = true := by
  cases h with
  | remade _ hdirty => exact hdirty
  | kept _ hdefines => exact absurd hdefines hne

/-- One change after another. -/
theorem trans (h : Changes m m') (h' : Changes m' m'') : Changes m m'' := by
  cases h' with
  | remade hdefines hdirty => exact .remade hdefines hdirty
  | kept htokens hdefines hdirty =>
      cases h with
      | remade hspelled hmarked =>
          exact .remade ((kept htokens hdefines hdirty).isSpelled hspelled) (hdirty hmarked)
      | kept htokens' hdefines' hdirty' =>
          exact .kept (htokens.trans htokens') (hdefines.trans hdefines') (hdirty ∘ hdirty')

/-! ## The functions -/

/-- What touches neither tokens nor string nor mark. -/
theorem of_eq (htokens : m'.tokens = m.tokens) (hdefines : m'.defines = m.defines)
    (hdirty : m'.dirty = m.dirty) : Changes m m' :=
  .kept htokens hdefines hdirty.trans

/-- Setting a uniform where it stands touches none of them. -/
theorem replaceUniform (m : Material) (u : MaterialUniform) :
    Changes m (m.replaceUniform u) := by
  rw [replaceUniform_frame]
  exact .of_eq rfl rfl rfl

/-- Setting a uniform makes the string anew or leaves it. -/
theorem assign (m : Material) (name : String) (value : UniformValue) (define : Bool) :
    Changes m (m.assign name value define) := by
  unfold Material.assign
  split
  · dsimp only
    split
    · exact .remade rfl rfl
    · exact .replaceUniform ..
  · dsimp only
    split
    · exact .remade rfl rfl
    · exact .of_eq rfl rfl rfl

/-- Setting a uniform to a value that may be no define does so too. -/
theorem setUniform (m : Material) (name : String) (value : UniformValue) (define : Bool) :
    Changes m (m.setUniform name value define).value := by
  unfold Material.setUniform
  split
  · exact .assign ..
  · exact .assign ..

/-- Giving a sampler a texture touches the uniforms alone. -/
theorem setTexture (m : Material) (name : String) (texture : Option TextureHandle) :
    Changes m (m.setTexture name texture).2 := by
  unfold Material.setTexture
  split
  · exact .of_eq rfl rfl rfl
  · split
    · exact .of_eq rfl rfl rfl
    · exact .replaceUniform ..

/-- Adding declared uniforms sets one after another. -/
theorem seed (us : List Source.UniformDeclaration) (m : Material) :
    Changes m (seed us m).value := by
  induction us generalizing m with
  | nil => exact .of_eq rfl rfl rfl
  | cons u us ih =>
      rw [Material.seed]
      split
      · exact ih m
      · exact (setUniform ..).trans (ih _)

/-- Binding a shader marks the material before its uniforms are added. -/
theorem setShader (m : Material) (handle : ShaderHandle) (shader : Shader) :
    Changes m (m.setShader handle shader).value := by
  unfold Material.setShader
  split
  · exact .of_eq rfl rfl rfl
  · have hbound : Changes m { m with shader := some handle, dirty := true } :=
      .kept rfl rfl fun _ => rfl
    exact hbound.trans (seed ..)

/-- A copy has the same tokens and is marked. -/
theorem copy (m : Material) (name : String) : Changes m (m.copy name) :=
  .kept rfl rfl fun _ => rfl

end Changes

end Material
end ShaderAssets
