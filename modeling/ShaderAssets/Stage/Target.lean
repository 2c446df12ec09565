/-!
# Stages, platforms and renderers

What a stage is compiled for.  A renderer has a default profile for each stage,
or leaves the choice to the compiler.
-/

namespace ShaderAssets

/-- A programmable stage. -/
inductive Stage where
  | vertex
  | fragment
deriving DecidableEq, Repr, Inhabited

namespace Stage

/-- The name of a stage. -/
def name : Stage → String
  | .vertex => "vertex"
  | .fragment => "fragment"

/-- The stage with a given name. -/
def ofName? : String → Option Stage
  | "vertex" => some .vertex
  | "fragment" => some .fragment
  | _ => none

/-- Every stage is found by its name. -/
@[simp]
theorem ofName?_name (s : Stage) : ofName? s.name = some s := by
  cases s <;> rfl

/-- The name that is defined while a stage is compiled. -/
def macroName : Stage → String
  | .vertex => "BGFX_SHADER_TYPE_VERTEX"
  | .fragment => "BGFX_SHADER_TYPE_FRAGMENT"

end Stage

/-- A platform that shaders are compiled for. -/
inductive Platform where
  | linux
  | windows
  | android
  | web
  | ios
  | macOS
deriving DecidableEq, Repr, Inhabited

namespace Platform

/-- The platform that shaders are compiled for unless a project says otherwise. -/
def current : Platform := .linux

/-- The platform with a given name in a project file. -/
def ofName? : String → Option Platform
  | "linux" => some .linux
  | "windows" => some .windows
  | "android" => some .android
  | "web" => some .web
  | "ios" => some .ios
  | "macos" => some .macOS
  | _ => none

/-- The name that shader compilers use for a platform. -/
def compilerName : Platform → String
  | .linux => "linux"
  | .windows => "windows"
  | .android => "android"
  | .web => "asm.js"
  | .ios => "ios"
  | .macOS => "osx"

end Platform

/-- A rendering interface. -/
inductive Renderer where
  | noop
  | direct3D11
  | direct3D12
  | openGl
  | openGlEs
  | metal
  | vulkan
deriving DecidableEq, Repr, Inhabited

namespace Renderer

/-- The renderer with a given name in a project file or on a command line. -/
def ofName? : String → Option Renderer
  | "noop" => some .noop
  | "d3d11" => some .direct3D11
  | "d3d12" => some .direct3D12
  | "opengl" => some .openGl
  | "opengles" => some .openGlEs
  | "metal" => some .metal
  | "vulkan" => some .vulkan
  | _ => none

/-- The profile that a renderer compiles a stage with, unless the choice is left
to the compiler. -/
def defaultProfile : Renderer → Stage → Option String
  | .direct3D11, .vertex => some "vs_4_0"
  | .direct3D11, .fragment => some "ps_4_0"
  | .direct3D12, .vertex => some "vs_5_0"
  | .direct3D12, .fragment => some "ps_5_0"
  | .openGl, _ => some "120"
  | .openGlEs, _ => some "100_es"
  | .metal, _ => some "metal"
  | .vulkan, _ => some "spirv"
  | .noop, _ => none

end Renderer

end ShaderAssets
