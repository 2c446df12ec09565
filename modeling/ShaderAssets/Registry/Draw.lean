import ShaderAssets.Registry.Basic

/-!
# Preparing draws

A material is drawn with the variant that its defines select, which is compiled
if it is missing.  Preparing a draw sends the values of the material to the
uniforms of the variant: samplers bind a texture, other values upload rows.
-/

namespace ShaderAssets

open Material (UniformValue)
open Render (StateWords)

/-- The images that a camera renders into. -/
structure CameraImages where
  color : TextureHandle
  depth : TextureHandle
deriving DecidableEq, Repr, Inhabited

/-- What a prepared draw needs. -/
structure Draw where
  program : ProgramHandle
  stateWords : StateWords
deriving DecidableEq, Repr, Inhabited

namespace Material

/-- The texture of a sampler: an image of the camera if the declaration asks for
one, else its own.  A stand-in takes the place of a missing texture. -/
def textureFor (kind : TextureKind) (texture : Option TextureHandle)
    (image : Option Source.BackBuffer) (camera : Option CameraImages)
    (standIns : StandIns) : TextureHandle :=
  match kind with
  | .cube => texture.getD standIns.cube
  | .flat =>
      match image with
      | some .color => (camera.map CameraImages.color).getD standIns.flat
      | some .depth => (camera.map CameraImages.depth).getD standIns.flat
      | none => texture.getD standIns.flat

/-- The event by which the value of a uniform reaches a variant, if it does. -/
def eventFor (variant : Variant) (camera : Option CameraImages)
    (standIns : StandIns) (u : MaterialUniform) : Option DeviceEvent :=
  if u.isDefine then none
  else do
    let binding ← variant.bindingByHash? u.nameHash
    let handle ← binding.handle
    match u.value with
    | .sampler kind slot texture =>
        return .bind slot handle
          (textureFor kind texture binding.declaration.backBuffer camera standIns)
    | value => return .upload handle value.rows

/-- The events of a draw, in the order of the uniforms. -/
def events (m : Material) (variant : Variant) (camera : Option CameraImages)
    (standIns : StandIns) : List DeviceEvent :=
  m.uniforms.filterMap (eventFor variant camera standIns)

end Material

namespace Registry

/-- Compiles the variant that a material selects and counts the new variants. -/
def compileMaterial (r : Registry) (disk : Disk) (h : MaterialHandle) (d : Device) :
    Logged (Nat × Registry × Device) :=
  match r.material? h with
  | none => return (0, r, d)
  | some m =>
      match m.shader with
      | none => return (0, r, d)
      | some sh =>
          match r.shader? sh with
          | none => return (0, r, d)
          | some s =>
              if !m.dirty && s.isSettled m.definesHash then return (0, r, d)
              else do
                let (created, s, d) ← s.compileFor disk m.defines r.options d
                return (created, (r.setShader sh s).setMaterial h { m with dirty := false }, d)

/-- The stand-in textures, made on first use. -/
def ensureStandIns (r : Registry) (d : Device) : StandIns × Registry × Device :=
  match r.standIns with
  | some b => (b, r, d)
  | none =>
      let (flat, d) := d.addTexture .flat
      let (cube, d) := d.addTexture .cube
      (⟨flat, cube⟩, { r with standIns := some ⟨flat, cube⟩ }, d)

/-- The material of a draw and the variant that it selects for a pass. -/
def selectVariant (r : Registry) (h : MaterialHandle) (pass : Nat) :
    Option (Material × Variant) := do
  let m ← r.material? h
  let s ← r.shader? (← m.shader)
  let p ← s.passes[pass]?
  let v ← p.variantByHash? m.definesHash
  return (m, v)

/-- Prepares a draw of a pass with a material.  Nothing is drawn if the pass has no
variant for the material. -/
def prepare (r : Registry) (disk : Disk) (h : MaterialHandle) (pass : Nat)
    (camera : Option CameraImages) (baseline : StateWords) (d : Device) :
    Logged (Option Draw × Registry × Device) := do
  let (_, r, d) ← r.compileMaterial disk h d
  let (standIns, r, d) := r.ensureStandIns d
  match r.selectVariant h pass with
  | none => return (none, r, d)
  | some (m, v) =>
      let d := (m.events v camera standIns).foldl (fun d e => d.record e) d
      return (some ⟨v.program, v.stateWords baseline⟩, r, d)

end Registry

end ShaderAssets
