import ShaderAssets.Shader.Pass
import ShaderAssets.Source.Reader

/-!
# Shader assets

A shader file that has been read: its declarations and its passes.  A shader
without a name of its own is called after its file.
-/

namespace ShaderAssets

open Source (RenderMode UniformDeclaration Warning PassSource ShaderSource)

/-- A shader asset. -/
structure Shader where
  name : String
  /-- The path of the file; included files are looked up beside it. -/
  path : String
  renderMode : RenderMode
  uniforms : List UniformDeclaration
  passes : List Pass
  warnings : List Warning
  loaded : Bool
deriving DecidableEq, Repr, Inhabited

/-- Why a shader cannot be loaded or a pass cannot be compiled. -/
inductive ShaderError where
  | file (error : FileError)
  /-- The device rejected a stage or the link of a pass. -/
  | rejected (pass : Nat) (error : DeviceError)
  /-- A pass has no vertex or no fragment code. -/
  | missingSource (pass : Nat)
deriving DecidableEq, Repr, Inhabited

namespace ShaderError

/-- The wording of a shader error. -/
def message : ShaderError → String
  | .file error => "Shader IO error: " ++ error.message
  | .rejected pass error => "Pass " ++ toString pass ++ ": " ++ error.message
  | .missingSource pass => "Pass " ++ toString pass ++ ": missing vertex or fragment source"

end ShaderError

namespace Shader

/-- A shader that has not been loaded. -/
def unloaded (path : String) : Shader where
  name := ""
  path := path
  renderMode := .forward
  uniforms := []
  passes := []
  warnings := []
  loaded := false

/-- The name of a shader at a path, given the name in its file. -/
def nameFor (path name : String) : String :=
  if name = "" then Path.stem path else name

/-- Logs the problems found while reading a shader. -/
def reportWarnings (name : String) : List Warning → Logged Unit
  | [] => return
  | w :: rest => do
      Logged.warn ("Shader '" ++ name ++ "': " ++ w.message)
      reportWarnings name rest

/-- Replaces the content of a shader by that of a text. -/
def loadText (s : Shader) (text : String) : Logged Shader := do
  let parsed := ShaderSource.parse text
  let name := nameFor s.path parsed.source.name
  reportWarnings name parsed.warnings
  return {
    name := name
    path := s.path
    renderMode := parsed.source.renderMode
    uniforms := parsed.source.uniforms
    passes := Pass.resolve (parsed.source.passes.map Pass.ofSource)
    warnings := parsed.warnings
    loaded := true }

/-- The shader that a text describes. -/
def ofText (path text : String) : Logged Shader :=
  (unloaded path).loadText text

/-- Loads the shader in a file. -/
def load (disk : Disk) (path : String) : Logged (Except ShaderError Shader) :=
  match disk.read path with
  | .error error => return .error (.file error)
  | .ok text => return .ok (← ofText path text)

/-- The source of a shader as it was read. -/
def toSource (s : Shader) : ShaderSource where
  name := s.name
  renderMode := s.renderMode
  uniforms := s.uniforms
  passes := s.passes.map Pass.source

/-- The first declaration of a name. -/
def declaration? (s : Shader) (name : String) : Option UniformDeclaration :=
  s.uniforms.find? fun u => u.bindName == name

/-- The first binding of a name among the variants for a defines string. -/
def binding? (s : Shader) (name defines : String) : Option Binding :=
  (s.passes.filterMap fun p => p.variant? defines).findSome? fun v => v.binding? name

/-- Whether there is nothing left to compile for defines with a given hash. -/
def isSettled (s : Shader) (hash : UInt64) : Bool :=
  s.passes.all fun p => p.isSettled hash

/-- Appends a pass and gives its index. -/
def addPass (s : Shader) (source : PassSource) : Nat × Shader :=
  (s.passes.length, { s with passes := Pass.resolve (s.passes ++ [Pass.ofSource source]) })

end Shader

end ShaderAssets
