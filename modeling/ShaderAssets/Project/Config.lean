import ShaderAssets.Files.Disk
import ShaderAssets.Render.State
import ShaderAssets.Shader.Compile
import ShaderAssets.Text.Blank
import ShaderAssets.Text.Integer
import ShaderAssets.Yaml.Record

/-!
# Project files

A project file names the assets root and the include directories of a project and
may choose a renderer, a platform, profiles and the words that render states start
from.  It is looked for in a directory and then in the directories above it.
-/

namespace ShaderAssets

open Yaml (Record Node Document)
open Render (StateWords)

/-- What a project chooses for rendering. -/
structure RendererChoice where
  kind : Option Renderer
  platform : Option Platform
  vertexProfile : Option String
  fragmentProfile : Option String
deriving DecidableEq, Repr, Inhabited

/-- The words of a baseline render state as they are written. -/
structure BaselineText where
  state : String
  stencil : Option String
deriving DecidableEq, Repr, Inhabited

/-- The content of a project file. -/
structure ProjectConfig where
  name : String
  version : String
  assetsRoot : String
  includeDirectories : List String
  renderer : RendererChoice
  baselineText : Option BaselineText
deriving DecidableEq, Repr, Inhabited

/-- Why a project cannot be used. -/
inductive ConfigError where
  | notFound
  | file (error : FileError)
  | malformed
  | invalidWord (text : String)
deriving DecidableEq, Repr, Inhabited

namespace ConfigError

/-- The wording of a configuration error. -/
def message : ConfigError → String
  | .notFound => "lumen.yaml not found"
  | .file error => "IO error reading lumen.yaml: " ++ error.message
  | .malformed => "Failed to parse lumen.yaml: malformed project file"
  | .invalidWord text => "Invalid baseline state word: " ++ text

end ConfigError

/-! ## Reading project files -/

namespace RendererChoice

/-- No choice. -/
def empty : RendererChoice := ⟨none, none, none, none⟩

/-- The choice that a node describes. -/
def ofNode? (n : Node) : Option RendererChoice := do
  let r ← Record.read? ["kind", "platform", "vertex_profile", "fragment_profile"] n
  let word {α : Type} (read : String → Option α) (n : Node) : Option α := n.wordOf?.bind read
  return {
    kind := ← r.orElse "kind" none (Node.nullable? (word Renderer.ofName?))
    platform := ← r.orElse "platform" none (Node.nullable? (word Platform.ofName?))
    vertexProfile := ← r.orElse "vertex_profile" none (Node.nullable? Node.textOf?)
    fragmentProfile := ← r.orElse "fragment_profile" none (Node.nullable? Node.textOf?) }

end RendererChoice

namespace BaselineText

/-- The words that a node gives. -/
def ofNode? (n : Node) : Option BaselineText := do
  let r ← Record.read? ["state", "stencil"] n
  return {
    state := ← r.required "state" Node.textOf?
    stencil := ← r.orElse "stencil" none (Node.nullable? Node.textOf?) }

end BaselineText

namespace ProjectConfig

/-- The project file that a text is. -/
def read? (text : String) : Option ProjectConfig := do
  let r ← Record.ofDocument?
    ["name", "version", "assets_root", "include_dirs", "renderer", "baseline_state"]
    (← Document.read? text)
  return {
    name := ← r.required "name" Node.textOf?
    version := ← r.orElse "version" "0.1.0" Node.textOf?
    assetsRoot := ← r.orElse "assets_root" "assets" Node.textOf?
    includeDirectories := ← r.orElse "include_dirs" [] (Node.listOf? Node.textOf?)
    renderer := ← r.orElse "renderer" .empty RendererChoice.ofNode?
    baselineText := ← r.orElse "baseline_state" none (Node.nullable? BaselineText.ofNode?) }

/-- The project file in a file. -/
def load (disk : Disk) (path : String) : Except ConfigError ProjectConfig :=
  match disk.read path with
  | .error e => .error (.file e)
  | .ok text =>
      match read? text with
      | some c => .ok c
      | none => .error .malformed

/-! ## Finding project files -/

/-- The name of a project file. -/
def fileName : String := "lumen.yaml"

/-- The path of the project file for a directory, with a bound on the directories
above it. -/
def findFrom (disk : Disk) : Nat → String → Option String
  | 0, _ => none
  | fuel + 1, directory =>
      let candidate := Path.join directory fileName
      if disk.contains candidate then some candidate
      else (Path.parent? directory).bind (findFrom disk fuel)

/-- The path of the project file for a directory, in that directory or above it. -/
def find? (disk : Disk) (directory : String) : Option String :=
  findFrom disk (directory.length + 1) directory

/-! ## Settings of a project -/

/-- The options that shaders are compiled with. -/
def compileOptions (c : ProjectConfig) : CompileOptions where
  platform := c.renderer.platform.getD .current
  vertexProfile := c.renderer.vertexProfile
  fragmentProfile := c.renderer.fragmentProfile

/-- The renderer of the project. -/
def chosenRenderer (c : ProjectConfig) : Renderer :=
  c.renderer.kind.getD .noop

/-- The directory that assets are loaded from. -/
def assetsDirectory (c : ProjectConfig) (root : String) : String :=
  Path.join root c.assetsRoot

/-- The directories in which included files are looked up. -/
def includePaths (c : ProjectConfig) (root : String) : List String :=
  c.includeDirectories.map fun d => Path.join root d

/-! ## Baseline words -/

/-- The number that a text spells: behind `0x` in hexadecimal digits with
underscores anywhere among them, else in decimal digits. -/
def readWord? (text : String) : Option UInt64 :=
  let trimmed := Text.trim text.toList
  let number := match Text.dropPrefix? ['0', 'x'] trimmed with
    | some digits => Text.readUnsigned? 16 UInt64.size (digits.filter (· != '_'))
    | none => Text.readUnsigned? 10 UInt64.size trimmed
  number.map Nat.toUInt64

/-- The state word that a text spells. -/
def readState (text : String) : Except ConfigError UInt64 :=
  match readWord? text with
  | some w => .ok w
  | none => .error (.invalidWord text)

/-- The stencil word that a text spells. -/
def readStencil (text : String) : Except ConfigError UInt32 :=
  match readWord? text with
  | some w => if w.toNat < UInt32.size then .ok w.toUInt32 else .error (.invalidWord text)
  | none => .error (.invalidWord text)

/-- The render state that the project starts from. -/
def baseline (c : ProjectConfig) : Except ConfigError StateWords :=
  match c.baselineText with
  | none => .ok .initial
  | some b => do
      let state ← readState b.state
      let stencil ← match b.stencil with
        | some text => readStencil text
        | none => pure 0
      return ⟨state, stencil⟩

end ProjectConfig

end ShaderAssets
