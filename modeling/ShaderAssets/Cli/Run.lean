import ShaderAssets.Cli.Command
import ShaderAssets.Json.Text
import ShaderAssets.Project.Config
import ShaderAssets.Registry.Draw
import ShaderAssets.Render.Pipeline
import ShaderAssets.Source.Data
import ShaderAssets.Source.Canonical
import ShaderAssets.Yaml.Text

/-!
# Running commands

What the program does for a command line: the text it prints, its exit code and
the files it leaves behind.
-/

namespace ShaderAssets
namespace Cli

open Render (StateWords)
open Source (ShaderSource)

/-- The end of a run. -/
structure Outcome where
  code : Nat
  output : String
  errors : String
  disk : Disk

namespace Outcome

/-- A run that printed something and succeeded. -/
def success (disk : Disk) (output : String) : Outcome := ⟨0, output, "", disk⟩

/-- A run that ended with an error message. -/
def failure (disk : Disk) (message : String) : Outcome :=
  ⟨1, "", "Error: " ++ message ++ "\n", disk⟩

end Outcome

/-! ## Projects -/

/-- What the commands run with: the project file, if there is one, with the
arguments on top. -/
structure ProjectContext where
  root : String
  config : Option ProjectConfig
  device : Device
  options : CompileOptions

namespace ProjectContext

/-- The project that an invocation names. -/
def ofInvocation (disk : Disk) (i : Invocation) : Except ConfigError ProjectContext :=
  match ProjectConfig.find? disk i.project with
  | none =>
      .ok ⟨i.project, none, .empty (i.renderer.getD .noop), .standard⟩
  | some path => do
      let config ← ProjectConfig.load disk path
      let root := (Path.parent? path).getD i.project
      let device := (config.includePaths root).foldl Device.addIncludeDirectory
        (.empty (i.renderer.getD config.chosenRenderer))
      return ⟨root, some config, device, config.compileOptions⟩

/-- The directory that assets are loaded from. -/
def assetsDirectory (p : ProjectContext) : String :=
  match p.config with
  | some c => c.assetsDirectory p.root
  | none => p.root

/-- The render state that draws start from. -/
def baseline (p : ProjectContext) : Except ConfigError StateWords :=
  match p.config with
  | some c => c.baseline
  | none => .ok .initial

end ProjectContext

/-! ## Reports -/

/-- A number of a given width in hexadecimal digits, behind their mark. -/
def hexText (width n : Nat) : String :=
  let digits := Nat.toDigits 16 n
  "0x" ++ String.ofList (List.replicate (width - digits.length) '0' ++ digits)

/-- The lines about a pass that has been compiled, or failed. -/
def passReport (index : Nat) : Option Variant → String
  | none => "pass " ++ toString index ++ ": failed\n"
  | some v =>
      let state := v.stateWords .initial
      "pass " ++ toString index ++ ": program " ++ toString v.program.index ++ " state " ++
        hexText 16 state.state.toNat ++ " stencil " ++ hexText 8 state.stencil.toNat ++
        " uniforms [" ++ ", ".intercalate (v.bindings.map Binding.name) ++ "]\n  " ++
        (v.settings.pipelineState (some .depth24PlusStencil8)).summary ++ "\n"

/-- The line about a pass that has been prepared for a draw. -/
def drawReport (index : Nat) : Option Draw → String
  | none => "pass " ++ toString index ++ ": no program\n"
  | some draw =>
      "pass " ++ toString index ++ ": program " ++ toString draw.program.index ++ " state " ++
        hexText 16 draw.stateWords.state.toNat ++ "\n"

/-- Prepares draws of the given passes and reports them. -/
def drawPasses (disk : Disk) (h : MaterialHandle) (baseline : StateWords) :
    List Nat → Registry → Device → String
  | [], _, _ => ""
  | index :: rest, r, d =>
      let (draw, r, d) := (r.prepare disk h index none baseline d).value
      drawReport index draw ++ drawPasses disk h baseline rest r d

/-! ## Commands -/

/-- Reports what a shader file declares. -/
def runParse (disk : Disk) (shader : String) (format : ReportFormat) : Outcome :=
  match disk.read shader with
  | .error e => .failure disk e.message
  | .ok text =>
      let data := (ShaderSource.parse text).source.toData
      .success disk ((match format with
        | .yaml => Yaml.render data
        | .json => Json.pretty data) ++ "\n")

/-- Writes a shader file in canonical form. -/
def runFormat (disk : Disk) (shader : String) (write : Bool) : Outcome :=
  match disk.read shader with
  | .error e => .failure disk e.message
  | .ok text =>
      let formatted := (ShaderSource.parse text).source.write
      if write then .success (disk.write shader formatted.toUTF8) ""
      else .success disk formatted

/-- Compiles every pass of a shader. -/
def runCompile (disk : Disk) (i : Invocation) (shader defines : String) : Outcome :=
  match ProjectContext.ofInvocation disk i with
  | .error e => .failure disk e.message
  | .ok project =>
      match (Shader.load disk shader).value with
      | .error e => .failure disk e.message
      | .ok s =>
          let (_, s, _) := (s.compileFor disk defines project.options project.device).value
          let variants := s.passes.map fun p => p.variant? defines
          let report := String.join (variants.zipIdx.map fun (v, index) => passReport index v)
          ⟨if variants.all Option.isSome then 0 else 1, report, "", disk⟩

/-- Loads a material and prepares a draw of every pass of its shader. -/
def runMaterial (disk : Disk) (i : Invocation) (path : String) : Outcome :=
  match ProjectContext.ofInvocation disk i with
  | .error e => .failure disk e.message
  | .ok project =>
      match project.baseline with
      | .error e => .failure disk e.message
      | .ok baseline =>
          let registry := Registry.empty project.assetsDirectory project.options
          match (registry.loadMaterial disk path).value with
          | .error e => .failure disk e.message
          | .ok (h, r) =>
              match r.material? h with
              | none => .failure disk "material was not registered"
              | some m =>
                  let passes := ((m.shader.bind r.shader?).map fun s => s.passes.length).getD 0
                  .success disk ("material '" ++ m.name ++ "' defines '" ++ m.defines ++ "'\n" ++
                    drawPasses disk h baseline (List.range passes) r project.device)

/-- The name and version of the program. -/
def versionLine : String := "lumen 0.1.11\n"

/-- How the program is called. -/
def usageText : String :=
  "Lumen - shader and material toolchain\n\n" ++
    "Usage: lumen [OPTIONS] [COMMAND]\n\n" ++
    "Commands:\n" ++
    "  parse     Parse a shader file and print its declarations and passes\n" ++
    "  fmt       Re-serialize a shader file in canonical form\n" ++
    "  compile   Compile every pass of a shader for one defines string\n" ++
    "  material  Load a material and compile the variant it selects\n" ++
    "  help      Print this message or the help of the given subcommand(s)\n"

namespace UsageError

/-- The wording of a usage error. -/
def message : UsageError → String
  | .missingArgument => "a required argument is missing"
  | .unknownArgument => "unexpected argument"
  | .invalidValue => "an option has no value or an unknown one"
  | .conflict => "an option is given more than once"
  | .tooManyValues => "a flag takes no value"
  | .unknownCommand => "unknown command"
  | .helpWanted => "help"
  | .versionWanted => "version"

end UsageError

/-- Runs a command. -/
def runInvocation (disk : Disk) (i : Invocation) : Outcome :=
  match i.command with
  | some (.parse shader format) => runParse disk shader format
  | some (.format shader write) => runFormat disk shader write
  | some (.compile shader defines) => runCompile disk i shader defines
  | some (.material path) => runMaterial disk i path
  | none => ⟨1, "", "No command given. Run `lumen --help` for usage.\n", disk⟩

/-- Runs the program with the given arguments. -/
def run (disk : Disk) (args : List String) : Outcome :=
  match Invocation.read args with
  | .ok i => runInvocation disk i
  | .error .helpWanted => .success disk usageText
  | .error .versionWanted => .success disk versionLine
  | .error e => ⟨2, "", "error: " ++ e.message ++ "\n\n" ++ usageText, disk⟩

end Cli
end ShaderAssets
