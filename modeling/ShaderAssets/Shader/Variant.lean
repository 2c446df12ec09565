import ShaderAssets.Device.Basic
import ShaderAssets.Render.SettingChange
import ShaderAssets.Render.Pipeline
import ShaderAssets.Render.State
import ShaderAssets.Text.Hash

/-!
# Program variants

A pass is compiled once for every set of defines it is used with.  Each such
variant has a program on the device, the uniforms that it binds and the render
settings that its tags give for the defines.
-/

namespace ShaderAssets

open Source (UniformDeclaration)
open Render (RenderSettings StateWords)

/-- A declared uniform in a compiled program. -/
structure Binding where
  declaration : UniformDeclaration
  /-- Where values are sent; none for a uniform that is a define. -/
  handle : Option UniformHandle
deriving DecidableEq, Repr, Inhabited

namespace Binding

/-- The name that the stages use. -/
def name (b : Binding) : String :=
  b.declaration.bindName

/-- The hash of the name. -/
def nameHash (b : Binding) : UInt64 :=
  Text.fnv1a b.name

end Binding

/-- A compiled program of a pass. -/
structure Variant where
  /-- The normalized defines. -/
  defines : String
  definesHash : UInt64
  program : ProgramHandle
  bindings : List Binding
  settings : RenderSettings
deriving DecidableEq, Repr, Inhabited

namespace Variant

/-- The first binding with a given name. -/
def binding? (v : Variant) (name : String) : Option Binding :=
  v.bindings.find? fun b => b.name == name

/-- The first binding whose name has a given hash. -/
def bindingByHash? (v : Variant) (hash : UInt64) : Option Binding :=
  v.bindings.find? fun b => b.nameHash == hash

/-- The render state of a draw with this program. -/
def stateWords (v : Variant) (baseline : StateWords) : StateWords :=
  v.settings.stateWords baseline

end Variant

/-! ## Bindings -/

namespace Binding

/-- The bindings of reflected uniforms: each declared name that is not a define at
its first occurrence. -/
def reflected (declarations : List UniformDeclaration) (uniforms : List ModuleUniform) :
    List Binding :=
  uniforms.foldl (fun bindings u =>
      if bindings.any (·.name == u.name) then bindings
      else
        match declarations.find? fun d => !d.isDefine && d.bindName == u.name with
        | some d => bindings ++ [⟨d, some u.handle⟩]
        | none => bindings)
    []

/-- Puts the declarations that are defines among the bindings, each at its own
index among the declarations or at the end. -/
def insertDefines (declarations : List UniformDeclaration) (bindings : List Binding) :
    List Binding :=
  declarations.zipIdx.foldl (fun bindings (d, index) =>
      if d.isDefine then bindings.insertIdx (min index bindings.length) ⟨d, none⟩
      else bindings)
    bindings

/-- The bindings of a program. -/
def ofReflection (declarations : List UniformDeclaration) (uniforms : List ModuleUniform) :
    List Binding :=
  insertDefines declarations (reflected declarations uniforms)

end Binding

end ShaderAssets
