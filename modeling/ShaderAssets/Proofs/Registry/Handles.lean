import ShaderAssets.Proofs.Registry.Changes

/-!
# Handles stay valid

A registry hands out numbers: the index of a shader among the shaders and of a material
among the materials.  Nothing is ever taken out of these lists except all at once, so a
handle stays valid until everything is released, and the path that it was registered under
keeps standing for it.

Main results:

- Inductive {lit}`Registry.Extends`: how a table of paths grows.
- Structure {lit}`Registry.Sound`: all handles in a registry are valid.
- Theorem {lit}`Registry.addMaterialFile_spec`: what adding the material of a file adds.
- Theorems {lit}`Registry.loadShader_spec` and {lit}`Registry.loadMaterial_spec`: loading gives
  the handle that the path stands for afterwards.
- Theorem {lit}`World.continues_step`: every operation but the release of everything keeps
  handles and paths.
-/

namespace ShaderAssets

namespace Material

/-! ## What a material is bound to -/

/-- Setting a uniform does not change the shader. -/
@[simp]
theorem shader_assign (m : Material) (name : String) (value : UniformValue) (define : Bool) :
    (m.assign name value define).shader = m.shader := by
  unfold assign
  split
  · simp only []
    split
    · exact m.shader_replaceUniform _
    · exact m.shader_replaceUniform _
  · simp only []
    split
    · rfl
    · rfl

/-- Setting a uniform that may be a define does not change the shader. -/
@[simp]
theorem shader_setUniform (m : Material) (name : String) (value : UniformValue)
    (define : Bool) : (m.setUniform name value define).value.shader = m.shader := by
  unfold setUniform
  split
  · exact m.shader_assign name value false
  · exact m.shader_assign name value define

/-- Giving a sampler a texture does not change the shader. -/
@[simp]
theorem shader_setTexture (m : Material) (name : String) (texture : Option TextureHandle) :
    (m.setTexture name texture).2.shader = m.shader := by
  unfold setTexture
  split
  · rfl
  · split
    · rfl
    · exact m.shader_replaceUniform _

/-- Adding declared uniforms does not change the shader. -/
@[simp]
theorem shader_seed (us : List Source.UniformDeclaration) (m : Material) :
    (seed us m).value.shader = m.shader := by
  induction us generalizing m with
  | nil => rfl
  | cons u us ih =>
      rw [seed]
      split
      · exact ih m
      · exact (ih _).trans (m.shader_setUniform _ _ _)

/-- A material is bound to the shader that it was last bound to. -/
@[simp]
theorem shader_setShader (m : Material) (x : ShaderHandle) (s : Shader) :
    (m.setShader x s).value.shader = some x := by
  unfold setShader
  split
  · assumption
  · exact shader_seed s.uniforms _

end Material

namespace Registry

/-! ## Tables of paths -/

section Tables

variable {α : Type} {index : α → Nat} {count count' count'' : Nat}
  {known known' known'' : List (String × α)}

/-- A table of paths for things that are numbered from zero up to a count: every entry is
for one of them, and different entries have different paths and are for different things. -/
structure IsTable (index : α → Nat) (count : Nat) (known : List (String × α)) : Prop where
  inRange : ∀ e ∈ known, index e.2 < count
  distinct : known.Pairwise fun e e' => Path.same e.1 e'.1 = false ∧ index e.2 ≠ index e'.2

/-- A table grows: there is one more thing, and it may get a path that has no meaning yet. -/
inductive Extends (index : α → Nat) (count : Nat) (known : List (String × α)) :
    Nat → List (String × α) → Prop where
  | refl : Extends index count known count known
  | unnamed {count' : Nat} {known' : List (String × α)}
      (h : Extends index count known count' known') : Extends index count known (count' + 1) known'
  | named {count' : Nat} {known' : List (String × α)}
      (h : Extends index count known count' known') {path : String}
      (hnew : lookupPath path known' = none) {a : α} (ha : index a = count') :
      Extends index count known (count' + 1) (known' ++ [(path, a)])

/-- What a path stands for is in the table, under the same path. -/
theorem exists_of_lookupPath {path : String} {a : α} (h : lookupPath path known = some a) :
    ∃ e ∈ known, Path.same e.1 path = true ∧ e.2 = a := by
  obtain ⟨e, he, rfl⟩ := Option.map_eq_some_iff.mp h
  exact ⟨e, List.mem_of_find?_eq_some he, by simpa using List.find?_some he, rfl⟩

/-- A path without meaning differs from all paths in the table. -/
theorem lookupPath_eq_none_iff {path : String} :
    lookupPath path known = none ↔ ∀ e ∈ known, Path.same e.1 path = false := by
  simp [lookupPath]

/-- The same path stands for the same thing. -/
theorem lookupPath_congr {path path' : String} (h : Path.same path path' = true) :
    lookupPath path' known = lookupPath path known := by
  have hsame : ∀ p, Path.same p path' = Path.same p path := by
    intro p
    rw [Path.same, Path.same, beq_iff_eq.mp h]
  simp only [lookupPath, hsame]

/-- A new entry is found under its path. -/
theorem lookupPath_concat {path : String} (hnew : lookupPath path known = none) (a : α) :
    lookupPath path (known ++ [(path, a)]) = some a := by
  have hnone := Option.map_eq_none_iff.mp hnew
  have hself : Path.same path path = true := beq_self_eq_true _
  rw [lookupPath, List.find?_append, hnone, Option.none_or]
  simp [hself]

namespace IsTable

/-- The empty table. -/
theorem nil : IsTable index count [] where
  inRange _ he := absurd he List.not_mem_nil
  distinct := .nil

/-- What a path stands for is in range. -/
theorem lookup_lt (h : IsTable index count known) {path : String} {a : α}
    (ha : lookupPath path known = some a) : index a < count := by
  obtain ⟨e, he, -, rfl⟩ := exists_of_lookupPath ha
  exact h.inRange e he

/-- Growing keeps a table sound. -/
theorem extend (h : IsTable index count known)
    (hextends : Extends index count known count' known') : IsTable index count' known' := by
  induction hextends with
  | refl => exact h
  | unnamed _ ih => exact ⟨fun e he => Nat.lt_succ_of_lt (ih.inRange e he), ih.distinct⟩
  | @named count' known' _ path hnew a ha ih =>
      -- The new thing has the next number, so it differs from all that are in range.
      have hfresh := lookupPath_eq_none_iff.mp hnew
      refine ⟨fun e he => ?_, List.pairwise_append.mpr ⟨ih.distinct, List.pairwise_singleton _ _,
        fun e he e' he' => ?_⟩⟩
      · rcases List.mem_append.mp he with he | he
        · exact Nat.lt_succ_of_lt (ih.inRange e he)
        · obtain rfl := List.mem_singleton.mp he
          exact ha ▸ Nat.lt_succ_self _
      · obtain rfl := List.mem_singleton.mp he'
        exact ⟨hfresh e he, ha ▸ Nat.ne_of_lt (ih.inRange e he)⟩

end IsTable

namespace Extends

/-- Things are only added. -/
theorem count_le (h : Extends index count known count' known') : count ≤ count' := by
  induction h with
  | refl => exact Nat.le_refl _
  | unnamed _ ih => exact Nat.le_succ_of_le ih
  | named _ _ _ ih => exact Nat.le_succ_of_le ih

/-- Growing twice. -/
theorem trans (h : Extends index count known count' known')
    (h' : Extends index count' known' count'' known'') :
    Extends index count known count'' known'' := by
  induction h' with
  | refl => exact h
  | unnamed _ ih => exact .unnamed ih
  | named _ hnew ha ih => exact .named ih hnew ha

/-- A path that stands for something goes on doing so. -/
theorem lookup (h : Extends index count known count' known') {path : String} {a : α}
    (ha : lookupPath path known = some a) : lookupPath path known' = some a := by
  induction h with
  | refl => exact ha
  | unnamed _ ih => exact ih
  | named _ _ _ ih =>
      obtain ⟨e, he, rfl⟩ := Option.map_eq_some_iff.mp ih
      rw [lookupPath, List.find?_append, he]
      rfl

end Extends

end Tables

/-! ## Valid handles -/

/-- Every material is bound to a registered shader, if to any. -/
def Bound (r : Registry) : Prop :=
  ∀ m ∈ r.materials, ∀ x, m.shader = some x → x.index < r.shaders.length

/-- All handles in a registry are valid. -/
structure Sound (r : Registry) : Prop where
  shaderPaths : IsTable ShaderHandle.index r.shaders.length r.shaderPaths
  materialPaths : IsTable MaterialHandle.index r.materials.length r.materialPaths
  bound : r.Bound

/-- A registry without shaders, materials and paths. -/
theorem Sound.of_nil {r : Registry} (hmaterials : r.materials = [])
    (hshaderPaths : r.shaderPaths = []) (hmaterialPaths : r.materialPaths = []) : r.Sound where
  shaderPaths := hshaderPaths ▸ .nil
  materialPaths := hmaterialPaths ▸ .nil
  bound _ hm := absurd (hmaterials ▸ hm) List.not_mem_nil

/-- A registry after a step that releases nothing. -/
structure Continues (r r' : Registry) : Prop where
  shaderPaths : Extends ShaderHandle.index r.shaders.length r.shaderPaths
    r'.shaders.length r'.shaderPaths
  materialPaths : Extends MaterialHandle.index r.materials.length r.materialPaths
    r'.materials.length r'.materialPaths
  bound : r.Bound → r'.Bound

/-- A registry stays sound. -/
theorem Sound.continue {r r' : Registry} (h : r.Sound) (hcontinues : r.Continues r') :
    r'.Sound where
  shaderPaths := h.shaderPaths.extend hcontinues.shaderPaths
  materialPaths := h.materialPaths.extend hcontinues.materialPaths
  bound := hcontinues.bound h.bound

namespace Continues

/-- Nothing happens. -/
theorem refl (r : Registry) : r.Continues r :=
  ⟨.refl, .refl, id⟩

/-- One step after another. -/
theorem trans {r r' r'' : Registry} (h : r.Continues r') (h' : r'.Continues r'') :
    r.Continues r'' :=
  ⟨h.shaderPaths.trans h'.shaderPaths, h.materialPaths.trans h'.materialPaths,
    fun hbound => h'.bound (h.bound hbound)⟩

section

variable (r : Registry)

/-! ## Elementary steps -/

/-- A shader takes the place of another. -/
theorem setShader (x : ShaderHandle) (s : Shader) : r.Continues (r.setShader x s) := by
  have hlength : (r.setShader x s).shaders.length = r.shaders.length := List.length_set
  refine ⟨hlength ▸ .refl, .refl, fun hbound m hm y hy => ?_⟩
  rw [hlength]
  exact hbound m hm y hy

/-- A material takes the place of another. -/
theorem setMaterial (h : MaterialHandle) {m : Material}
    (hm : r.Bound → ∀ x, m.shader = some x → x.index < r.shaders.length) :
    r.Continues (r.setMaterial h m) := by
  have hlength : (r.setMaterial h m).materials.length = r.materials.length := List.length_set
  refine ⟨.refl, hlength ▸ .refl, fun hbound m' hm' => ?_⟩
  rcases List.mem_or_eq_of_mem_set hm' with hm' | rfl
  · exact hbound m' hm'
  · exact hm hbound

/-- A material takes the place of one that is bound to the same shader. -/
theorem replaceMaterial {h : MaterialHandle} {m m' : Material} (hm : r.material? h = some m)
    (hshader : m'.shader = m.shader) : r.Continues (r.setMaterial h m') :=
  setMaterial r h fun hbound x hx =>
    hbound m (List.mem_of_getElem? hm) x (hshader ▸ hx)

/-- A material is put behind the others. -/
theorem concat {m : Material}
    (hm : r.Bound → ∀ x, m.shader = some x → x.index < r.shaders.length) :
    r.Continues { r with materials := r.materials ++ [m] } := by
  have hlength : (r.materials ++ [m]).length = r.materials.length + 1 := List.length_append
  refine ⟨.refl, hlength ▸ .unnamed .refl, fun hbound m' hm' => ?_⟩
  rcases List.mem_append.mp hm' with hm' | hm'
  · exact hbound m' hm'
  · exact List.mem_singleton.mp hm' ▸ hm hbound

/-- A material is put behind the others under a path. -/
theorem concatNamed {path : String} (hnew : lookupPath path r.materialPaths = none) {m : Material}
    (hm : r.Bound → ∀ x, m.shader = some x → x.index < r.shaders.length) :
    r.Continues { r with
      materials := r.materials ++ [m]
      materialPaths := r.materialPaths ++ [(path, ⟨r.materials.length⟩)] } := by
  have hlength : (r.materials ++ [m]).length = r.materials.length + 1 := List.length_append
  exact ⟨.refl, hlength ▸ .named .refl hnew rfl, (concat r hm).bound⟩

/-- A shader is put behind the others under a path. -/
theorem placeShader {path : String} (hnew : lookupPath path r.shaderPaths = none) (s : Shader) :
    r.Continues (r.placeShader path s).2 := by
  have hlength : (r.shaders ++ [s]).length = r.shaders.length + 1 := List.length_append
  refine ⟨hlength ▸ .named .refl hnew rfl, .refl, fun hbound m hm x hx => ?_⟩
  show x.index < (r.shaders ++ [s]).length
  rw [hlength]
  exact Nat.lt_succ_of_lt (hbound m hm x hx)

end

end Continues

/-! ## What each function does -/

section Functions

variable (r : Registry)

/-- A shader that is found is in range. -/
theorem lt_of_shader? {r : Registry} {x : ShaderHandle} {s : Shader} (hs : r.shader? x = some s) :
    x.index < r.shaders.length :=
  (List.getElem?_eq_some_iff.mp hs).1

/-- Adding a material puts one behind the others, bound to the shader if that is
registered. -/
theorem addMaterial_spec (name : String) (shader : Option ShaderHandle) :
    ∃ m : Material, (r.addMaterial name shader).value =
        (⟨r.materials.length⟩, { r with materials := r.materials ++ [m] }) ∧
      ∀ x, m.shader = some x → x.index < r.shaders.length := by
  cases shader with
  | none => exact ⟨.create name, rfl, fun x hx => by cases hx⟩
  | some x =>
      rw [addMaterial]
      simp only [Logged.value_bind, bindMaterial]
      split
      · rename_i m s hm hs
        refine ⟨(m.setShader x s).value, ?_, fun y hy => ?_⟩
        · simp [Registry.setMaterial]
        · rw [Material.shader_setShader] at hy
          cases hy
          exact lt_of_shader? hs
      · exact ⟨.create name, rfl, fun x hx => by cases hx⟩

/-- Applying the values of a file does not change the shader. -/
theorem shader_applyEntries (name : String) (shader : Option Shader) (es : List MaterialEntry)
    (m : Material) : (applyEntries name shader es m).value.shader = m.shader := by
  induction es generalizing m with
  | nil => rfl
  | cons e es ih =>
      rw [applyEntries]
      simp only [Logged.value_bind]
      split
      · exact (ih _).trans (m.shader_setUniform _ _ _)
      · exact ih m

/-- Adding the material of a file puts one behind the others, under its path. -/
theorem addMaterialFile_spec (path : String) (file : MaterialFile)
    (shader : Option ShaderHandle) :
    ∃ m : Material, (r.addMaterialFile path file shader).value =
        (⟨r.materials.length⟩, { r with
          materials := r.materials ++ [m]
          materialPaths := r.materialPaths ++ [(path, ⟨r.materials.length⟩)] }) ∧
      ∀ x, m.shader = some x → x.index < r.shaders.length := by
  obtain ⟨m, hadd, hm⟩ := r.addMaterial_spec (file.name.getD (Path.stem path)) shader
  let added : Registry := { r with materials := r.materials ++ [m] }
  have hfound : added.material? ⟨r.materials.length⟩ = some m := List.getElem?_concat_length
  refine ⟨(applyEntries (file.name.getD (Path.stem path)) (shader.bind added.shader?)
    file.uniforms m).value, ?_, fun x hx => hm x ?_⟩
  · rw [addMaterialFile]
    simp only [Logged.value_bind, hadd]
    rw [show Registry.material? _ _ = _ from hfound]
    simp [Registry.setMaterial, added]
  · -- The values of the file do not change what the material was bound to.
    rwa [shader_applyEntries] at hx

/-- Binding a material changes what it is bound to, if it and the shader are registered. -/
theorem continues_bindMaterial (h : MaterialHandle) (x : ShaderHandle) :
    r.Continues (r.bindMaterial h x).value.2 := by
  unfold bindMaterial
  split
  · rename_i m s hm hs
    refine .setMaterial r h fun _ y hy => ?_
    rw [Material.shader_setShader] at hy
    cases hy
    exact lt_of_shader? hs
  · exact .refl r

/-- Adding a material. -/
theorem continues_addMaterial (name : String) (shader : Option ShaderHandle) :
    r.Continues (r.addMaterial name shader).value.2 := by
  obtain ⟨m, hadd, hm⟩ := r.addMaterial_spec name shader
  rw [hadd]
  exact .concat r fun _ => hm

/-- Copying a material. -/
theorem continues_copyMaterial {r r' : Registry} {source h : MaterialHandle} {name : String}
    (hcopy : r.copyMaterial source name = some (h, r')) : r.Continues r' := by
  obtain ⟨m, hm, heq⟩ := Option.map_eq_some_iff.mp hcopy
  cases heq
  exact .concat r fun hbound => hbound m (List.mem_of_getElem? hm)

/-- Adding the material of a file whose path has no meaning yet. -/
theorem continues_addMaterialFile {path : String} (hnew : lookupPath path r.materialPaths = none)
    (file : MaterialFile) (shader : Option ShaderHandle) :
    r.Continues (r.addMaterialFile path file shader).value.2 := by
  obtain ⟨m, hadd, hm⟩ := r.addMaterialFile_spec path file shader
  rw [hadd]
  exact .concatNamed r hnew fun _ => hm

/-- Reloading a shader marks the materials that are bound to it. -/
theorem continues_reloadShader (disk : Disk) (x : ShaderHandle) (text : String) (d : Device) :
    r.Continues (r.reloadShader disk x text d).value.2.1 := by
  unfold reloadShader
  split
  · exact .refl r
  · have hmarked : r.Continues (r.invalidate x) := by
      have hlength : (r.invalidate x).materials.length = r.materials.length := List.length_map _
      refine ⟨.refl, hlength ▸ .refl, fun hbound m' hm' => ?_⟩
      obtain ⟨m, hm, rfl⟩ := List.mem_map.mp hm'
      split
      · exact hbound m hm
      · exact hbound m hm
    exact hmarked.trans (.setShader _ x _)

/-- Compiling a material changes its shader and its mark. -/
theorem continues_compileMaterial (disk : Disk) (h : MaterialHandle) (d : Device) :
    r.Continues (r.compileMaterial disk h d).value.2.1 := by
  unfold compileMaterial
  split
  · exact .refl r
  · rename_i m hm
    split
    · exact .refl r
    · rename_i x _
      split
      · exact .refl r
      · split
        · exact .refl r
        · exact (Continues.setShader r x _).trans (.replaceMaterial (m := m) _ hm rfl)

/-- Making the stand-in textures. -/
theorem continues_ensureStandIns (d : Device) : r.Continues (r.ensureStandIns d).2.1 := by
  unfold ensureStandIns
  split
  · exact .refl r
  · exact ⟨.refl, .refl, id⟩

/-- Preparing a draw changes what compiling the material changes. -/
theorem continues_prepare (disk : Disk) (h : MaterialHandle) (pass : Nat)
    (camera : Option CameraImages) (baseline : Render.StateWords) (d : Device) :
    r.Continues (r.prepare disk h pass camera baseline d).value.2.1 := by
  have hcompiled := (r.continues_compileMaterial disk h d).trans
    (continues_ensureStandIns _ (r.compileMaterial disk h d).value.2.2)
  unfold prepare
  simp only [Logged.value_bind]
  split
  · exact hcompiled
  · exact hcompiled

end Functions

/-! ## Loading -/

section Loading

variable {r r' : Registry} {disk : Disk} {path : String}

/-- Loading a shader gives the handle that its path stands for, and leaves the materials
alone. -/
theorem loadShader_spec {x : ShaderHandle}
    (hload : (r.loadShader disk path).value = .ok (x, r')) :
    r.Continues r' ∧ lookupPath path r'.shaderPaths = some x ∧
      r'.materialPaths = r.materialPaths := by
  rcases loadShader_cases hload with ⟨hknown, rfl⟩ | ⟨hnew, text, -, heq⟩
  · exact ⟨.refl r', hknown, rfl⟩
  · cases heq
    exact ⟨.placeShader r hnew _, lookupPath_concat hnew _, rfl⟩

/-- Adding a shader gives the handle that its path stands for. -/
theorem addShader_spec (r : Registry) (disk : Disk) (path text : String) (d : Device) :
    r.Continues (r.addShader disk path text d).value.2.1 ∧
      lookupPath path (r.addShader disk path text d).value.2.1.shaderPaths =
        some (r.addShader disk path text d).value.1 := by
  unfold addShader
  split
  · rename_i x hknown
    have hcontinues := r.continues_reloadShader disk x text d
    exact ⟨hcontinues, hcontinues.shaderPaths.lookup hknown⟩
  · rename_i hnew
    exact ⟨.placeShader r hnew _, lookupPath_concat hnew _⟩

/-- Adding the material of a file gives the handle that its path stands for. -/
theorem lookupPath_addMaterialFile (hnew : lookupPath path r.materialPaths = none)
    (file : MaterialFile) (shader : Option ShaderHandle) :
    lookupPath path (r.addMaterialFile path file shader).value.2.materialPaths =
      some (r.addMaterialFile path file shader).value.1 := by
  obtain ⟨m, hadd, -⟩ := r.addMaterialFile_spec path file shader
  rw [hadd]
  exact lookupPath_concat hnew _

/-- Loading a material gives the handle that its path stands for. -/
theorem loadMaterial_spec {h : MaterialHandle}
    (hload : (r.loadMaterial disk path).value = .ok (h, r')) :
    r.Continues r' ∧ lookupPath path r'.materialPaths = some h := by
  rcases loadMaterial_cases hload with
    ⟨hknown, rfl⟩ | ⟨hnew, -, file, -, -, ⟨-, heq⟩ | ⟨x, r₁, hshader, heq⟩⟩
  · exact ⟨.refl r', hknown⟩
  · have hcontinues := r.continues_addMaterialFile hnew file none
    have hknown := lookupPath_addMaterialFile hnew file none
    rw [← heq] at hcontinues hknown
    exact ⟨hcontinues, hknown⟩
  · obtain ⟨hloaded, -, hpaths⟩ := loadShader_spec hshader
    rw [← hpaths] at hnew
    have hcontinues := r₁.continues_addMaterialFile hnew file (some x)
    have hknown := lookupPath_addMaterialFile hnew file (some x)
    rw [← heq] at hcontinues hknown
    exact ⟨hloaded.trans hcontinues, hknown⟩

/-- Reading the file of a shader again reloads it. -/
theorem continues_reloadShaderFile {x : ShaderHandle} {d d' : Device}
    (hload : (r.reloadShaderFile disk x d).value = .ok (r', d')) : r.Continues r' := by
  unfold reloadShaderFile at hload
  cases hs : r.shader? x with
  | none =>
      rw [hs] at hload
      cases hload
      exact .refl r
  | some s =>
      rw [hs] at hload
      cases hread : disk.read s.path with
      | error e =>
          simp only [hread] at hload
          cases hload
      | ok text =>
          simp only [hread, Logged.value_bind] at hload
          have hr' : (r.reloadShader disk x text d).value.2.1 = r' :=
            congrArg Prod.fst (Except.ok.inj hload)
          exact hr' ▸ r.continues_reloadShader disk x text d

end Loading

end Registry

namespace World

/-! ## Operations -/

/-- Every operation but the release of everything continues the registry. -/
theorem continues_step (w : World) {operation : Operation} (hkeeps : operation ≠ .clear) :
    w.registry.Continues (w.step operation).registry := by
  cases operation with
  | loadShader disk path =>
      rw [step]
      split
      · rename_i hload
        exact (Registry.loadShader_spec hload).1
      · exact .refl _
  | addShader disk path text => exact (w.registry.addShader_spec disk path text w.device).1
  | loadMaterial disk path =>
      rw [step]
      split
      · rename_i hload
        exact (Registry.loadMaterial_spec hload).1
      · exact .refl _
  | addMaterial name shader => exact w.registry.continues_addMaterial name shader
  | copyMaterial source name =>
      rw [step]
      split
      · rename_i hcopy
        exact Registry.continues_copyMaterial hcopy
      · exact .refl _
  | bindMaterial material shader => exact w.registry.continues_bindMaterial material shader
  | setUniform material name value define =>
      rw [step]
      split
      · rename_i m hm
        exact .replaceMaterial _ hm (m.shader_setUniform name value define)
      · exact .refl _
  | setTexture material name texture =>
      rw [step]
      split
      · rename_i m hm
        exact .replaceMaterial _ hm (m.shader_setTexture name texture)
      · exact .refl _
  | compileMaterial disk material =>
      exact w.registry.continues_compileMaterial disk material w.device
  | reloadShader disk shader text =>
      exact w.registry.continues_reloadShader disk shader text w.device
  | reloadShaderFile disk shader =>
      rw [step]
      split
      · rename_i hload
        exact Registry.continues_reloadShaderFile hload
      · exact .refl _
  | prepare disk material pass camera baseline =>
      exact w.registry.continues_prepare disk material pass camera baseline w.device
  | ensureStandIns => exact w.registry.continues_ensureStandIns w.device
  | clear => exact absurd rfl hkeeps
  | onShader shader call =>
      rw [step]
      split
      · exact .setShader _ shader _
      · exact .refl _
  | register | addIncludeDirectory | addTexture | takeEvents => exact .refl _

end World
end ShaderAssets
