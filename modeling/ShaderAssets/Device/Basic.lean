import ShaderAssets.Log
import ShaderAssets.Device.UniformTable
import ShaderAssets.Material.Value
import ShaderAssets.Stage.Compile

/-!
# The recording device

A device without a screen.  It compiles stages, keeps modules, programs and
textures, shares one handle among all uniforms of a name, and records what a draw
binds and uploads.
-/

namespace ShaderAssets

open Material (Row TextureKind)

/-- A uniform of a module, with its handle on the device. -/
structure ModuleUniform where
  name : String
  handle : UniformHandle
  count : UInt16
deriving DecidableEq, Repr, Inhabited

/-- A module on a device. -/
structure StageModule where
  stage : Stage
  inputs : List String
  outputs : List String
  uniforms : List ModuleUniform
deriving DecidableEq, Repr, Inhabited

/-- A program on a device, which owns its two modules. -/
structure Program where
  vertex : ModuleHandle
  fragment : ModuleHandle
deriving DecidableEq, Repr, Inhabited

/-- What a draw did to the device. -/
inductive DeviceEvent where
  | bind (slot : UInt8) (uniform : UniformHandle) (texture : TextureHandle)
  | upload (uniform : UniformHandle) (rows : List Row)
deriving DecidableEq, Repr, Inhabited

/-- Why the device refused something. -/
inductive DeviceError where
  | compile (stage : Stage) (error : CompileError)
  | stageKinds
  | missingOutput (name : String)
  /-- The stored form of a stage is malformed. -/
  | undecodable
  | wrongStage (expected found : Stage)
  | unknownModule (handle : ModuleHandle)
deriving DecidableEq, Repr, Inhabited

namespace DeviceError

/-- The wording of a device error. -/
def message : DeviceError → String
  | .compile stage error => stage.name ++ " stage failed to compile: " ++ error.message
  | .stageKinds => "Program link failed: stage kinds do not match"
  | .missingOutput name =>
      "Program link failed: fragment input '" ++ name ++ "' is not written by the vertex stage"
  | .undecodable => "Invalid bytecode"
  | .wrongStage expected found =>
      "Invalid bytecode: expected " ++ expected.name ++ " bytecode, found " ++ found.name
  | .unknownModule handle => "Unknown shader module " ++ toString handle.index

end DeviceError

/-- The state of a device. -/
structure Device where
  renderer : Renderer
  registered : List (String × String)
  includeDirectories : List String
  /-- The modules made so far; a destroyed one leaves a gap. -/
  modules : List (Option StageModule)
  /-- The programs made so far; a destroyed one leaves a gap. -/
  programs : List (Option Program)
  /-- The names of the uniforms, and their handles. -/
  uniforms : UniformTable
  textures : List TextureKind
  events : List DeviceEvent
  /-- The number of stages compiled so far. -/
  compiledStages : Nat
deriving DecidableEq, Repr, Inhabited

namespace Device

/-- A device that holds nothing. -/
def empty (renderer : Renderer) : Device where
  renderer := renderer
  registered := []
  includeDirectories := []
  modules := []
  programs := []
  uniforms := .empty
  textures := []
  events := []
  compiledStages := 0

/-! ## Included files -/

/-- Registers the text of an included path. -/
def register (d : Device) (path text : String) : Device :=
  { d with registered := (path, text) :: d.registered.filter (·.1 != path) }

/-- Adds a directory in which included files are looked up. -/
def addIncludeDirectory (d : Device) (path : String) : Device :=
  { d with includeDirectories := d.includeDirectories ++ [path] }

/-- Where the files that a shader includes are looked up. -/
def includeSearch (d : Device) (path : String) : IncludeSearch where
  registered := d.registered
  base := Path.parent? path
  directories := d.includeDirectories

/-! ## Views -/

/-- The module with a handle. -/
def module? (d : Device) (h : ModuleHandle) : Option StageModule :=
  d.modules[h.index]?.join

/-- The program with a handle. -/
def program? (d : Device) (h : ProgramHandle) : Option Program :=
  d.programs[h.index]?.join

/-- Whether a program is alive. -/
def isLive (d : Device) (h : ProgramHandle) : Bool :=
  (d.program? h).isSome

/-- The number of modules that are alive. -/
def liveModules (d : Device) : Nat :=
  d.modules.countP Option.isSome

/-- The number of programs that are alive. -/
def livePrograms (d : Device) : Nat :=
  d.programs.countP Option.isSome

/-- The uniforms of a module; none if there is no such module. -/
def reflect (d : Device) (h : ModuleHandle) : List ModuleUniform :=
  ((d.module? h).map StageModule.uniforms).getD []

/-- The name of the uniform with a handle. -/
def name? (d : Device) (h : UniformHandle) : Option String :=
  d.uniforms.name? h

/-- The handle of the uniform with a name. -/
def handle? (d : Device) (name : String) : Option UniformHandle :=
  d.uniforms.handle? name

/-! ## Stages -/

/-- Compiles a stage. -/
def compileStage (disk : Disk) (r : StageInput) (d : Device) :
    Except DeviceError (Bytecode × Device) :=
  match r.compile ((d.includeSearch r.path).resolve disk) with
  | .error error => .error (.compile r.stage error)
  | .ok code => .ok (code, { d with compiledStages := d.compiledStages + 1 })

/-- The handle of a uniform name, which is new if the name is. -/
def handleFor (name : String) (d : Device) : UniformHandle × Device :=
  let (h, uniforms) := d.uniforms.intern name
  (h, { d with uniforms := uniforms })

/-- The uniforms of a stage with their handles. -/
def handlesFor : List StageUniform → Device → List ModuleUniform × Device
  | [], d => ([], d)
  | u :: rest, d =>
      let (h, d) := d.handleFor u.name
      let (us, d) := handlesFor rest d
      (⟨u.name, h, u.count⟩ :: us, d)

/-- Makes a module of a compiled stage. -/
def addModule (code : Bytecode) (d : Device) : ModuleHandle × Device :=
  let (uniforms, d) := handlesFor code.uniforms d
  let m : StageModule := ⟨code.stage, code.inputs, code.outputs, uniforms⟩
  (⟨d.modules.length⟩, { d with modules := d.modules ++ [some m] })

/-- Makes a module of the stored form of a stage of a given kind. -/
def loadModule (stage : Stage) (bytes : String) (d : Device) :
    Except DeviceError (ModuleHandle × Device) :=
  match Bytecode.decode? bytes with
  | none => .error .undecodable
  | some code =>
      if code.stage = stage then .ok (d.addModule code)
      else .error (.wrongStage stage code.stage)

/-- Destroys a module; an unknown one is reported. -/
def destroyModule (h : ModuleHandle) (d : Device) : Logged Device :=
  match d.module? h with
  | some _ => return { d with modules := d.modules.set h.index none }
  | none => do
      Logged.warn ("destroy_shader: unknown module " ++ toString h.index)
      return d

/-! ## Programs -/

/-- Links two modules, which the program owns from then on.  The vertex stage has
to write every input of the fragment stage. -/
def link (vertex fragment : ModuleHandle) (d : Device) :
    Except DeviceError (ProgramHandle × Device) := do
  let some v := d.module? vertex | throw (.unknownModule vertex)
  let some f := d.module? fragment | throw (.unknownModule fragment)
  if v.stage ≠ .vertex ∨ f.stage ≠ .fragment then throw .stageKinds
  match f.inputs.find? fun name => !v.outputs.contains name with
  | some name => throw (.missingOutput name)
  | none =>
      return (⟨d.programs.length⟩, { d with programs := d.programs ++ [some ⟨vertex, fragment⟩] })

/-- Destroys a program with its modules; an unknown one is reported. -/
def destroyProgram (h : ProgramHandle) (d : Device) : Logged Device :=
  match d.program? h with
  | some p =>
      return { d with
        programs := d.programs.set h.index none
        modules := (d.modules.set p.vertex.index none).set p.fragment.index none }
  | none => do
      Logged.warn ("destroy_program: unknown program " ++ toString h.index)
      return d

/-! ## Textures and draws -/

/-- Makes a texture. -/
def addTexture (kind : TextureKind) (d : Device) : TextureHandle × Device :=
  (⟨d.textures.length⟩, { d with textures := d.textures ++ [kind] })

/-- The kind of a texture. -/
def textureKind? (d : Device) (h : TextureHandle) : Option TextureKind :=
  d.textures[h.index]?

/-- Records an event. -/
def record (event : DeviceEvent) (d : Device) : Device :=
  { d with events := d.events ++ [event] }

/-- The recorded events, and the device without them. -/
def takeEvents (d : Device) : List DeviceEvent × Device :=
  (d.events, { d with events := [] })

end Device

end ShaderAssets
