import ShaderAssets.Material.Basic
import ShaderAssets.Material.File
import ShaderAssets.Material.FromYaml
import ShaderAssets.Shader.Compile

/-!
# The asset registry

The shaders and materials of a project.  Files are loaded relative to the assets
root, and a path that was loaded before gives the same handle again.  Loading a
material loads the shader that it names.  A load that fails changes nothing.
-/

namespace ShaderAssets

open Material (UniformValue)

/-- The textures that stand in for missing ones. -/
structure StandIns where
  flat : TextureHandle
  cube : TextureHandle
deriving DecidableEq, Repr, Inhabited

/-- Why a material cannot be loaded. -/
inductive MaterialError where
  | file (error : FileError)
  | malformed
  | shader (error : ShaderError)
deriving DecidableEq, Repr, Inhabited

namespace MaterialError

/-- The wording of a material error. -/
def message : MaterialError → String
  | .file error => "Material IO error: " ++ error.message
  | .malformed => "Material parse error: malformed material file"
  | .shader error => "Material shader error: " ++ error.message

end MaterialError

/-- The shaders and materials of a project. -/
structure Registry where
  root : String
  options : CompileOptions
  shaders : List Shader
  materials : List Material
  /-- The paths of the shaders, each up to the meaning of a path. -/
  shaderPaths : List (String × ShaderHandle)
  materialPaths : List (String × MaterialHandle)
  standIns : Option StandIns
deriving DecidableEq, Repr, Inhabited

namespace Registry

/-- A registry that holds nothing. -/
def empty (root : String) (options : CompileOptions) : Registry where
  root := root
  options := options
  shaders := []
  materials := []
  shaderPaths := []
  materialPaths := []
  standIns := none

/-! ## Views -/

/-- The shader with a handle. -/
def shader? (r : Registry) (h : ShaderHandle) : Option Shader :=
  r.shaders[h.index]?

/-- The material with a handle. -/
def material? (r : Registry) (h : MaterialHandle) : Option Material :=
  r.materials[h.index]?

/-- The first shader with a given name. -/
def findShader (r : Registry) (name : String) : Option ShaderHandle :=
  (r.shaders.findIdx? fun s => s.name == name).map ShaderHandle.mk

/-- What a path stands for among known paths. -/
def lookupPath {α : Type} (path : String) (known : List (String × α)) : Option α :=
  (known.find? fun e => Path.same e.1 path).map (·.2)

/-- Puts a shader in the place of another. -/
def setShader (r : Registry) (h : ShaderHandle) (s : Shader) : Registry :=
  { r with shaders := r.shaders.set h.index s }

/-- Puts a material in the place of another. -/
def setMaterial (r : Registry) (h : MaterialHandle) (m : Material) : Registry :=
  { r with materials := r.materials.set h.index m }

/-! ## Materials -/

/-- Binds a material to a shader. -/
def bindMaterial (r : Registry) (m : MaterialHandle) (s : ShaderHandle) :
    Logged (Bool × Registry) :=
  match r.material? m, r.shader? s with
  | some material, some shader => do
      return (true, r.setMaterial m (← material.setShader s shader))
  | _, _ => return (false, r)

/-- Makes a material, bound to a shader if there is one. -/
def addMaterial (r : Registry) (name : String) (shader : Option ShaderHandle) :
    Logged (MaterialHandle × Registry) := do
  let h : MaterialHandle := ⟨r.materials.length⟩
  let r := { r with materials := r.materials ++ [.create name] }
  match shader with
  | none => return (h, r)
  | some s =>
      let (_, r) ← r.bindMaterial h s
      return (h, r)

/-- Makes a copy of a material under another name. -/
def copyMaterial (r : Registry) (source : MaterialHandle) (name : String) :
    Option (MaterialHandle × Registry) :=
  (r.material? source).map fun m =>
    (⟨r.materials.length⟩, { r with materials := r.materials ++ [m.copy name] })

/-- The defines strings of the materials bound to a shader, each once. -/
def definesInUse (r : Registry) (s : ShaderHandle) : List String :=
  (r.materials.filter fun m => m.shader == some s).foldl
    (fun list m => if list.contains m.defines then list else list ++ [m.defines]) []

/-! ## Shaders -/

/-- Adds a shader under a path. -/
def placeShader (r : Registry) (path : String) (s : Shader) : ShaderHandle × Registry :=
  let h : ShaderHandle := ⟨r.shaders.length⟩
  (h, { r with shaders := r.shaders ++ [s], shaderPaths := r.shaderPaths ++ [(path, h)] })

/-- Loads a shader relative to the assets root, unless its path is known. -/
def loadShader (r : Registry) (disk : Disk) (path : String) :
    Logged (Except ShaderError (ShaderHandle × Registry)) :=
  match lookupPath path r.shaderPaths with
  | some h => return .ok (h, r)
  | none => do
      match ← Shader.load disk (Path.join r.root path) with
      | .error e => return .error e
      | .ok s => return .ok (r.placeShader path s)

/-- Marks the materials bound to a shader as not compiled. -/
def invalidate (r : Registry) (s : ShaderHandle) : Registry :=
  { r with materials := r.materials.map fun m =>
      if m.shader == some s then { m with dirty := true } else m }

/-- Replaces the content of a shader and compiles it for every defines string that
its materials use. -/
def reloadShader (r : Registry) (disk : Disk) (h : ShaderHandle) (text : String) (d : Device) :
    Logged (Bool × Registry × Device) :=
  match r.shader? h with
  | none => return (false, r, d)
  | some s => do
      let (s, d) ← s.reload disk text (r.definesInUse h) r.options d
      return (true, (r.invalidate h).setShader h s, d)

/-- Adds a shader given as a text.  A known path keeps its handle and gets the new
content. -/
def addShader (r : Registry) (disk : Disk) (path text : String) (d : Device) :
    Logged (ShaderHandle × Registry × Device) :=
  match lookupPath path r.shaderPaths with
  | some h => do
      let (_, r, d) ← r.reloadShader disk h text d
      return (h, r, d)
  | none => do
      let (h, r) := r.placeShader path (← Shader.ofText path text)
      return (h, r, d)

/-- Reads the file of a shader again. -/
def reloadShaderFile (r : Registry) (disk : Disk) (h : ShaderHandle) (d : Device) :
    Logged (Except ShaderError (Registry × Device)) :=
  match r.shader? h with
  | none => return .ok (r, d)
  | some s =>
      match disk.read s.path with
      | .error e => return .error (.file e)
      | .ok text => do
          let (_, r, d) ← r.reloadShader disk h text d
          return .ok (r, d)

/-! ## Material files -/

/-- Gives a material the values of a material file.  Values that cannot be used
are reported. -/
def applyEntries (name : String) (shader : Option Shader) :
    List MaterialEntry → Material → Logged Material
  | [], m => return m
  | e :: rest, m => do
      let type := (shader.bind fun s => s.declaration? e.name).map Source.UniformDeclaration.type
      match ← UniformValue.ofYaml type e.value with
      | some value => applyEntries name shader rest (← m.setUniform e.name value e.isDefine)
      | none =>
          Logged.warn ("Material '" ++ name ++ "': unsupported value for uniform '" ++ e.name ++
            "'")
          applyEntries name shader rest m

/-- Makes a material of a material file whose shader has been loaded. -/
def addMaterialFile (r : Registry) (path : String) (file : MaterialFile)
    (shader : Option ShaderHandle) : Logged (MaterialHandle × Registry) := do
  let name := file.name.getD (Path.stem path)
  let (h, r) ← r.addMaterial name shader
  match r.material? h with
  | none => return (h, r)
  | some m =>
      let m ← applyEntries name (shader.bind r.shader?) file.uniforms m
      let r := r.setMaterial h m
      return (h, { r with materialPaths := r.materialPaths ++ [(path, h)] })

/-- Loads a material relative to the assets root, with the shader that it names,
unless its path is known. -/
def loadMaterial (r : Registry) (disk : Disk) (path : String) :
    Logged (Except MaterialError (MaterialHandle × Registry)) :=
  match lookupPath path r.materialPaths with
  | some h => return .ok (h, r)
  | none =>
      match disk.read (Path.join r.root path) with
      | .error e => return .error (.file e)
      | .ok text =>
          match MaterialFile.read? text with
          | none => return .error .malformed
          | some file =>
              if file.shader = "" then return .ok (← r.addMaterialFile path file none)
              else do
                match ← r.loadShader disk file.shader with
                | .error e => return .error (.shader e)
                | .ok (s, r) => return .ok (← r.addMaterialFile path file (some s))

/-! ## Releasing everything -/

/-- Destroys the programs of shaders. -/
def unloadShaders : List Shader → Device → Logged Device
  | [], d => return d
  | s :: rest, d => do
      let (_, d) ← s.unload d
      unloadShaders rest d

/-- Forgets every shader and material; the stand-in textures are kept. -/
def clear (r : Registry) (d : Device) : Logged (Registry × Device) := do
  let d ← unloadShaders r.shaders d
  return ({ r with shaders := [], materials := [], shaderPaths := [], materialPaths := [] }, d)

end Registry

end ShaderAssets
