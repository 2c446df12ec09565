import ShaderAssets.Proofs.Registry.Changes

/-!
# The materials of a registry

A registry makes and changes its materials by calls on them, so whatever holds of a material
after any calls holds of every registered material.

Main results:

- Definition {lit}`Material.IsMade`: a material that calls make of a new one.
- Theorem {lit}`World.Reachable.isMade`: all materials of a reachable world are made so.
-/

namespace ShaderAssets

namespace Material

/-- A material that calls make of a new one. -/
def IsMade (m : Material) : Prop :=
  ∃ name calls, m = ofCalls name calls

namespace IsMade

variable {m : Material}

/-- A new material. -/
theorem create (name : String) : (create name).IsMade :=
  ⟨name, [], rfl⟩

/-- One more call. -/
theorem run (h : m.IsMade) (call : Call) : (call.run m).IsMade := by
  obtain ⟨name, calls, rfl⟩ := h
  refine ⟨name, calls ++ [call], ?_⟩
  rw [ofCalls, ofCalls, List.foldl_append]
  rfl

/-- Marking a material as not compiled is copying it under its own name. -/
theorem mark (h : m.IsMade) : ({ m with dirty := true } : Material).IsMade :=
  h.run (.copy m.name)

/-- The defines string is that of the tokens. -/
theorem isSpelled (h : m.IsMade) : m.IsSpelled := by
  obtain ⟨name, calls, rfl⟩ := h
  exact isSpelled_ofCalls name calls

/-- The uniforms have different names. -/
theorem nodup (h : m.IsMade) : (m.uniforms.map MaterialUniform.name).Nodup := by
  obtain ⟨name, calls, rfl⟩ := h
  exact nodup_ofCalls name calls

end IsMade

end Material

namespace Registry

open Material (IsMade)

/-- All materials are made by calls. -/
def Made (r : Registry) : Prop :=
  ∀ m ∈ r.materials, m.IsMade

namespace Made

variable {r : Registry}

/-- Only the materials matter. -/
theorem congr {r' : Registry} (h : r.Made) (hmaterials : r'.materials = r.materials) : r'.Made :=
  fun m hm => h m (hmaterials ▸ hm)

/-- A registered material is made by calls. -/
theorem material? (h : r.Made) {x : MaterialHandle} {m : Material}
    (hm : r.material? x = some m) : m.IsMade :=
  h m (List.mem_of_getElem? hm)

/-- A material may take the place of another. -/
theorem setMaterial (h : r.Made) (x : MaterialHandle) {m : Material} (hm : m.IsMade) :
    (r.setMaterial x m).Made := by
  intro m' hm'
  rcases List.mem_or_eq_of_mem_set hm' with hm' | rfl
  · exact h m' hm'
  · exact hm

/-- A material may be put behind the others. -/
theorem concat (h : r.Made) {m : Material} (hm : m.IsMade) :
    ({ r with materials := r.materials ++ [m] } : Registry).Made := by
  intro m' hm'
  rcases List.mem_append.mp hm' with hm' | hm'
  · exact h m' hm'
  · exact List.mem_singleton.mp hm' ▸ hm

/-! ## Materials -/

/-- Binding a material is a call. -/
theorem bindMaterial (h : r.Made) (x : MaterialHandle) (s : ShaderHandle) :
    (r.bindMaterial x s).value.2.Made := by
  unfold Registry.bindMaterial
  split
  · rename_i m shader hm _
    exact h.setMaterial x ((h.material? hm).run (.setShader s shader))
  · exact h

/-- Adding a material is making and binding it. -/
theorem addMaterial (h : r.Made) (name : String) (shader : Option ShaderHandle) :
    (r.addMaterial name shader).value.2.Made := by
  have hadded := h.concat (.create name)
  cases shader with
  | none => exact hadded
  | some s => exact hadded.bindMaterial _ s

/-- Copying a material is a call on a copy. -/
theorem copyMaterial (h : r.Made) {r' : Registry} {source x : MaterialHandle} {name : String}
    (hcopy : r.copyMaterial source name = some (x, r')) : r'.Made := by
  obtain ⟨m, hm, heq⟩ := Option.map_eq_some_iff.mp hcopy
  cases heq
  exact h.concat ((h.material? hm).run (.copy name))

/-- The values of a material file are set by calls. -/
theorem applyEntries (name : String) (shader : Option Shader) (es : List MaterialEntry)
    {m : Material} (hm : m.IsMade) : (applyEntries name shader es m).value.IsMade := by
  induction es generalizing m with
  | nil => exact hm
  | cons e es ih =>
      rw [Registry.applyEntries]
      simp only [Logged.value_bind]
      split
      · rename_i value _
        exact ih (hm.run (.setUniform e.name value e.isDefine))
      · exact ih hm

/-- The material of a file is added and then given its values. -/
theorem addMaterialFile (h : r.Made) (path : String) (file : MaterialFile)
    (shader : Option ShaderHandle) : (r.addMaterialFile path file shader).value.2.Made := by
  unfold Registry.addMaterialFile
  simp only [Logged.value_bind]
  have hadded := h.addMaterial (file.name.getD (Path.stem path)) shader
  split
  · exact hadded
  · rename_i m hm
    exact (hadded.setMaterial _ (applyEntries _ _ file.uniforms (hadded.material? hm))).congr rfl

/-! ## Loading -/

/-- Loading a shader leaves the materials alone. -/
theorem loadShader (h : r.Made) {r' : Registry} {disk : Disk} {path : String}
    {x : ShaderHandle} (hload : (r.loadShader disk path).value = .ok (x, r')) : r'.Made := by
  rcases loadShader_cases hload with ⟨-, rfl⟩ | ⟨-, text, -, heq⟩
  · exact h
  · cases heq
    exact h.congr rfl

/-- Loading a material adds that of its file. -/
theorem loadMaterial (h : r.Made) {r' : Registry} {disk : Disk} {path : String}
    {x : MaterialHandle} (hload : (r.loadMaterial disk path).value = .ok (x, r')) : r'.Made := by
  rcases loadMaterial_cases hload with
    ⟨-, rfl⟩ | ⟨-, -, file, -, -, ⟨-, heq⟩ | ⟨s, r₁, hshader, heq⟩⟩
  · exact h
  · have hadded := h.addMaterialFile path file none
    rwa [← heq] at hadded
  · have hadded := (h.loadShader hshader).addMaterialFile path file (some s)
    rwa [← heq] at hadded

/-! ## Compiling -/

/-- Reloading a shader at most marks materials. -/
theorem reloadShader (h : r.Made) (disk : Disk) (x : ShaderHandle) (text : String)
    (d : Device) : (r.reloadShader disk x text d).value.2.1.Made := by
  unfold Registry.reloadShader
  split
  · exact h
  · intro m' hm'
    obtain ⟨m, hm, rfl⟩ := List.mem_map.mp hm'
    split
    · exact (h m hm).mark
    · exact h m hm

/-- Compiling a material at most marks it. -/
theorem compileMaterial (h : r.Made) (disk : Disk) (x : MaterialHandle) (d : Device) :
    (r.compileMaterial disk x d).value.2.1.Made := by
  unfold Registry.compileMaterial
  split
  · exact h
  · rename_i m hm
    split
    · exact h
    · split
      · exact h
      · split
        · exact h
        · exact (h.congr rfl).setMaterial x ((h.material? hm).run .markCompiled)

/-- Making the stand-in textures leaves the materials alone. -/
theorem ensureStandIns (h : r.Made) (d : Device) : (r.ensureStandIns d).2.1.Made := by
  unfold Registry.ensureStandIns
  split
  · exact h
  · exact h.congr rfl

/-- Preparing a draw at most marks its material. -/
theorem prepare (h : r.Made) (disk : Disk) (x : MaterialHandle) (pass : Nat)
    (camera : Option CameraImages) (baseline : Render.StateWords) (d : Device) :
    (r.prepare disk x pass camera baseline d).value.2.1.Made := by
  have hcompiled := (h.compileMaterial disk x d).ensureStandIns
    (r.compileMaterial disk x d).value.2.2
  unfold Registry.prepare
  simp only [Logged.value_bind]
  split
  · exact hcompiled
  · exact hcompiled

end Made
end Registry

namespace World

/-- Every move makes and changes materials by calls. -/
theorem Moves.made {w w' : World} (hmoves : Moves w w') (h : w.registry.Made) :
    w'.registry.Made := by
  cases hmoves with
  | stays => exact h
  | shaderLoaded hload => exact h.loadShader hload
  | shaderPlaced path text => exact h.congr rfl
  | shaderReloaded disk x text => exact h.reloadShader disk x text w.device
  | shaderCalled hs call => exact h.congr rfl
  | materialLoaded hload => exact h.loadMaterial hload
  | materialAdded name shader => exact h.addMaterial name shader
  | materialCopied hcopy => exact h.copyMaterial hcopy
  | materialBound x s => exact h.bindMaterial x s
  | materialCalled hm call => exact h.setMaterial _ ((h.material? hm).run call)
  | materialCompiled disk x => exact h.compileMaterial disk x w.device
  | drawPrepared disk x pass camera baseline =>
      exact h.prepare disk x pass camera baseline w.device
  | standInsMade => exact h.ensureStandIns w.device
  | cleared => exact fun m hm => absurd hm List.not_mem_nil
  | deviceCalled call hsame => exact h

/-- The materials of a reachable world are made by calls. -/
theorem Reachable.isMade {w : World} (h : w.Reachable) : w.registry.Made :=
  Reachable.invariant (P := fun w => w.registry.Made)
    (fun _ _ _ _ hm => absurd hm List.not_mem_nil)
    (fun w operation hmade => (w.moves_step operation).made hmade) h

end World
end ShaderAssets
