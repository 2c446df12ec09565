import ShaderAssets.Shader.Basic

/-!
# Compiling shaders

Compiling a shader for a defines string gives every pass that is not settled yet
either a variant or a recorded failure.  A failing pass is reported and has no
influence on the others.  Passes that are removed or replaced release their
programs.
-/

namespace ShaderAssets

open Source (UniformDeclaration)
open Render (RenderSettings)

/-- What a project may choose for the compiler. -/
structure CompileOptions where
  platform : Platform
  vertexProfile : Option String
  fragmentProfile : Option String
deriving DecidableEq, Repr, Inhabited

namespace CompileOptions

/-- The current platform with the profiles of the renderer. -/
def standard : CompileOptions := ⟨.current, none, none⟩

/-- The profile for a stage: the chosen one, else that of the renderer. -/
def profile (o : CompileOptions) (renderer : Renderer) (stage : Stage) :
    Option String :=
  match stage with
  | .vertex => o.vertexProfile <|> renderer.defaultProfile .vertex
  | .fragment => o.fragmentProfile <|> renderer.defaultProfile .fragment

end CompileOptions

/-! ## One pass -/

namespace Pass

/-- What is asked of the compiler for a stage of a pass. -/
def request (p : Pass) (path : String) (defines : Defines) (options : CompileOptions)
    (renderer : Renderer) (stage : Stage) : StageInput where
  stage := stage
  path := path
  source := match stage with
    | .vertex => p.resolved.vertex
    | .fragment => p.resolved.fragment
  varying := p.resolved.varying
  defines := defines.tokens
  platform := options.platform
  profile := options.profile renderer stage

/-- Compiles both stages of a pass. -/
def compileStages (p : Pass) (disk : Disk) (path : String) (defines : Defines)
    (options : CompileOptions) (d : Device) :
    Except DeviceError (Bytecode × Bytecode) × Device :=
  match d.compileStage disk (p.request path defines options d.renderer .vertex) with
  | .error e => (.error e, d)
  | .ok (vertex, d) =>
      match d.compileStage disk (p.request path defines options d.renderer .fragment) with
      | .error e => (.error e, d)
      | .ok (fragment, d) => (.ok (vertex, fragment), d)

/-- Links two compiled stages.  If they do not fit, their modules are destroyed. -/
def linkStages (vertex fragment : Bytecode) (d : Device) :
    Logged (Except DeviceError (ProgramHandle × List ModuleUniform) × Device) :=
  let (v, d) := d.addModule vertex
  let (f, d) := d.addModule fragment
  match d.link v f with
  | .ok (program, d) => return (.ok (program, d.reflect v ++ d.reflect f), d)
  | .error e => do
      let d ← d.destroyModule v
      let d ← d.destroyModule f
      return (.error e, d)

/-- Compiles a pass for a set of defines. -/
def compile (p : Pass) (disk : Disk) (path : String) (index : Nat)
    (declarations : List UniformDeclaration) (defines : Defines) (options : CompileOptions)
    (d : Device) : Logged (Except ShaderError Variant × Device) :=
  if !p.resolved.isComplete then return (.error (.missingSource index), d)
  else
    match p.compileStages disk path defines options d with
    | (.error e, d) => return (.error (.rejected index e), d)
    | (.ok (vertex, fragment), d) => do
        match ← linkStages vertex fragment d with
        | (.error e, d) => return (.error (.rejected index e), d)
        | (.ok (program, uniforms), d) =>
            return (.ok {
              defines := defines.text
              definesHash := Defines.hashOf defines.text
              program := program
              bindings := Binding.ofReflection declarations uniforms
              settings := RenderSettings.ofTags p.source.tags defines.text }, d)

end Pass

/-! ## All passes -/

namespace Shader

/-- Compiles the passes from an index on that are not settled, and counts the new
variants. -/
def compilePasses (s : Shader) (disk : Disk) (defines : Defines) (options : CompileOptions)
    (index : Nat) : List Pass → Device → Logged (Nat × List Pass × Device)
  | [], d => return (0, [], d)
  | p :: rest, d => do
      if p.isSettled defines.hash then
        let (created, rest, d) ← s.compilePasses disk defines options (index + 1) rest d
        return (created, p :: rest, d)
      else
        match ← p.compile disk s.path index s.uniforms defines options d with
        | (.ok v, d) =>
            let (created, rest, d) ← s.compilePasses disk defines options (index + 1) rest d
            return (created + 1, p.addVariant v :: rest, d)
        | (.error e, d) =>
            Logged.warn ("Shader '" ++ s.name ++ "': " ++ e.message ++ " [defines '" ++
              defines.text ++ "']")
            let (created, rest, d) ← s.compilePasses disk defines options (index + 1) rest d
            return (created, p.addFailure defines.hash :: rest, d)

/-- Compiles a shader for a defines string and counts the new variants. -/
def compileFor (s : Shader) (disk : Disk) (defines : String) (options : CompileOptions)
    (d : Device) : Logged (Nat × Shader × Device) := do
  let (created, passes, d) ← s.compilePasses disk (Defines.parse defines) options 0 s.passes d
  return (created, { s with passes := passes }, d)

/-- Compiles a shader for several defines strings. -/
def compileEach (disk : Disk) (options : CompileOptions) :
    List String → Shader → Device → Logged (Shader × Device)
  | [], s, d => return (s, d)
  | defines :: rest, s, d => do
      let (_, s, d) ← s.compileFor disk defines options d
      compileEach disk options rest s d

/-! ## Releasing programs -/

/-- Destroys every program and forgets the content. -/
def unload (s : Shader) (d : Device) : Logged (Shader × Device) := do
  let (_, d) ← Pass.releaseEach s.passes d
  return ({ s with passes := [], uniforms := [], warnings := [], loaded := false }, d)

/-- Replaces the content by that of a text and compiles it for each of the given
defines strings. -/
def reload (s : Shader) (disk : Disk) (text : String) (definesList : List String)
    (options : CompileOptions) (d : Device) : Logged (Shader × Device) := do
  let (s, d) ← s.unload d
  let s ← s.loadText text
  compileEach disk options definesList s d

/-- Removes a pass.  Later passes may inherit differently without it, so their
programs are destroyed too. -/
def erasePass (s : Shader) (index : Nat) (d : Device) : Logged (Bool × Shader × Device) :=
  match s.passes.drop index with
  | [] => return (false, s, d)
  | removed :: later => do
      let (_, d) ← removed.releaseVariants d
      let (later, d) ← Pass.releaseEach later d
      return (true, { s with passes := Pass.resolve (s.passes.take index ++ later) }, d)

/-- Removes every pass. -/
def clearPasses (s : Shader) (d : Device) : Logged (Shader × Device) := do
  let (_, d) ← Pass.releaseEach s.passes d
  return ({ s with passes := [] }, d)

end Shader

end ShaderAssets
