import ShaderAssets.Registry.Draw

/-!
# Histories of a registry and its device

A registry is used together with one device.  An operation is one call: on the
registry, on a material, on a registered shader or on the device.  The files on disk
may change between two operations, so each operation that reads them comes with the
disk that it sees.

A shader whose passes still hold programs has to be unloaded before it is given a new
text; a call that disregards this is not an operation, and here it does nothing.

Main results:

- Structure {lit}`World`: a registry and its device.
- Inductive {lit}`World.Reachable`: the worlds that operations lead to.
- Theorem {lit}`World.Reachable.invariant`: what each operation keeps holds of every
  reachable world.
-/

namespace ShaderAssets

open Material (UniformValue)
open Render (StateWords)

/-- A registry and the device that it is used with. -/
structure World where
  registry : Registry
  device : Device
deriving DecidableEq, Repr, Inhabited

/-- A call on a registered shader. -/
inductive ShaderOperation where
  | compileFor (disk : Disk) (defines : String) (options : CompileOptions)
  | unload
  | loadText (text : String)
  | reload (disk : Disk) (text : String) (definesList : List String) (options : CompileOptions)
  | addPass (source : Source.PassSource)
  | erasePass (index : Nat)
  | clearPasses

namespace ShaderOperation

/-- Carries out a call on a shader. -/
def run (s : Shader) (d : Device) : ShaderOperation → Shader × Device
  | .compileFor disk defines options =>
      let (_, s, d) := (s.compileFor disk defines options d).value
      (s, d)
  | .unload => (s.unload d).value
  | .loadText text =>
      if s.passes.all (·.variants.isEmpty) then ((s.loadText text).value, d) else (s, d)
  | .reload disk text definesList options => (s.reload disk text definesList options d).value
  | .addPass source => ((s.addPass source).2, d)
  | .erasePass index =>
      let (_, s, d) := (s.erasePass index d).value
      (s, d)
  | .clearPasses => (s.clearPasses d).value

end ShaderOperation

/-- A call on a registry, on something in it or on its device. -/
inductive Operation where
  | loadShader (disk : Disk) (path : String)
  | addShader (disk : Disk) (path text : String)
  | loadMaterial (disk : Disk) (path : String)
  | addMaterial (name : String) (shader : Option ShaderHandle)
  | copyMaterial (source : MaterialHandle) (name : String)
  | bindMaterial (material : MaterialHandle) (shader : ShaderHandle)
  | setUniform (material : MaterialHandle) (name : String) (value : UniformValue)
      (define : Bool)
  | setTexture (material : MaterialHandle) (name : String) (texture : Option TextureHandle)
  | compileMaterial (disk : Disk) (material : MaterialHandle)
  | reloadShader (disk : Disk) (shader : ShaderHandle) (text : String)
  | reloadShaderFile (disk : Disk) (shader : ShaderHandle)
  | prepare (disk : Disk) (material : MaterialHandle) (pass : Nat)
      (camera : Option CameraImages) (baseline : StateWords)
  | ensureStandIns
  | clear
  | onShader (shader : ShaderHandle) (call : ShaderOperation)
  | register (path text : String)
  | addIncludeDirectory (path : String)
  | addTexture (kind : Material.TextureKind)
  | takeEvents

namespace World

/-- The world before the first operation. -/
def start (root : String) (options : CompileOptions) (renderer : Renderer) : World :=
  ⟨.empty root options, .empty renderer⟩

/-- Carries out an operation. -/
def step (w : World) : Operation → World
  | .loadShader disk path =>
      match (w.registry.loadShader disk path).value with
      | .ok (_, r) => { w with registry := r }
      | .error _ => w
  | .addShader disk path text =>
      let (_, r, d) := (w.registry.addShader disk path text w.device).value
      ⟨r, d⟩
  | .loadMaterial disk path =>
      match (w.registry.loadMaterial disk path).value with
      | .ok (_, r) => { w with registry := r }
      | .error _ => w
  | .addMaterial name shader =>
      { w with registry := (w.registry.addMaterial name shader).value.2 }
  | .copyMaterial source name =>
      match w.registry.copyMaterial source name with
      | some (_, r) => { w with registry := r }
      | none => w
  | .bindMaterial material shader =>
      { w with registry := (w.registry.bindMaterial material shader).value.2 }
  | .setUniform material name value define =>
      match w.registry.material? material with
      | some m =>
          { w with
            registry := w.registry.setMaterial material (m.setUniform name value define).value }
      | none => w
  | .setTexture material name texture =>
      match w.registry.material? material with
      | some m =>
          { w with registry := w.registry.setMaterial material (m.setTexture name texture).2 }
      | none => w
  | .compileMaterial disk material =>
      let (_, r, d) := (w.registry.compileMaterial disk material w.device).value
      ⟨r, d⟩
  | .reloadShader disk shader text =>
      let (_, r, d) := (w.registry.reloadShader disk shader text w.device).value
      ⟨r, d⟩
  | .reloadShaderFile disk shader =>
      match (w.registry.reloadShaderFile disk shader w.device).value with
      | .ok (r, d) => ⟨r, d⟩
      | .error _ => w
  | .prepare disk material pass camera baseline =>
      let (_, r, d) := (w.registry.prepare disk material pass camera baseline w.device).value
      ⟨r, d⟩
  | .ensureStandIns =>
      let (_, r, d) := w.registry.ensureStandIns w.device
      ⟨r, d⟩
  | .clear =>
      let (r, d) := (w.registry.clear w.device).value
      ⟨r, d⟩
  | .onShader shader call =>
      match w.registry.shader? shader with
      | some s =>
          let (s, d) := call.run s w.device
          ⟨w.registry.setShader shader s, d⟩
      | none => w
  | .register path text => { w with device := w.device.register path text }
  | .addIncludeDirectory path => { w with device := w.device.addIncludeDirectory path }
  | .addTexture kind => { w with device := (w.device.addTexture kind).2 }
  | .takeEvents => { w with device := w.device.takeEvents.2 }

/-- The worlds that operations lead to. -/
inductive Reachable : World → Prop where
  | start (root : String) (options : CompileOptions) (renderer : Renderer) :
      Reachable (start root options renderer)
  | step {w : World} (h : Reachable w) (operation : Operation) : Reachable (w.step operation)

/-- Several operations one after the other. -/
def run (w : World) (operations : List Operation) : World :=
  operations.foldl step w

/-- What holds at the start and is kept by every operation holds of every reachable
world. -/
theorem Reachable.invariant {P : World → Prop}
    (hstart : ∀ root options renderer, P (World.start root options renderer))
    (hstep : ∀ w operation, P w → P (w.step operation)) {w : World} (h : w.Reachable) : P w := by
  induction h with
  | start root options renderer => exact hstart root options renderer
  | step _ operation ih => exact hstep _ operation ih

/-- Operations lead from reachable worlds to reachable worlds. -/
theorem Reachable.run {w : World} (h : w.Reachable) (operations : List Operation) :
    (w.run operations).Reachable := by
  induction operations generalizing w with
  | nil => exact h
  | cons operation operations ih => exact ih (h.step operation)

end World
end ShaderAssets
