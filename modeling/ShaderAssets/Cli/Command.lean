import ShaderAssets.Cli.Arguments
import ShaderAssets.Stage.Target

/-!
# Commands

The commands of the program and how they are given on the command line.  The
options for the project and the renderer may stand before or behind the command;
if they stand in both places, the one behind counts.
-/

namespace ShaderAssets
namespace Cli

/-- A data format for reports. -/
inductive ReportFormat where
  | yaml
  | json
deriving DecidableEq, Repr, Inhabited

namespace ReportFormat

/-- The format with a given name. -/
def ofName? : String → Option ReportFormat
  | "yaml" => some .yaml
  | "json" => some .json
  | _ => none

end ReportFormat

/-- A command. -/
inductive Command where
  /-- Report what a shader file declares. -/
  | parse (shader : String) (format : ReportFormat)
  /-- Write a shader file in canonical form, in its place or to the output. -/
  | format (shader : String) (write : Bool)
  /-- Compile every pass of a shader for a defines string. -/
  | compile (shader defines : String)
  /-- Load a material and compile the variant it selects. -/
  | material (path : String)
deriving DecidableEq, Repr, Inhabited

/-- What a command line asks for. -/
structure Invocation where
  command : Option Command
  project : String
  renderer : Option Renderer
deriving DecidableEq, Repr, Inhabited

namespace Invocation

/-! ## Levels -/

/-- The options that may stand anywhere. -/
def globalOptions : List OptionSpec :=
  [⟨"project", fun _ => true⟩, ⟨"renderer", fun s => (Renderer.ofName? s).isSome⟩]

/-- The names of the commands. -/
def commandNames : List String :=
  ["parse", "fmt", "compile", "material", "help"]

/-- The arguments in front of a command. -/
def outerLevel : Level :=
  ⟨globalOptions, [], 0, commandNames, true⟩

/-- The arguments behind the name of a command. -/
def commandLevel (name : String) : Level :=
  let options := match name with
    | "parse" => [⟨"format", fun s => (ReportFormat.ofName? s).isSome⟩]
    | "compile" => [⟨"defines", fun _ => true⟩]
    | _ => []
  let flags := if name = "fmt" then ["write"] else []
  ⟨options ++ globalOptions, flags, 1, [], false⟩

/-! ## Reading -/

/-- The command that its name and arguments give. -/
def commandOf (name : String) (g : Given) (argument : String) : Command :=
  match name with
  | "parse" => .parse argument (((g.value? "format").bind ReportFormat.ofName?).getD .yaml)
  | "fmt" => .format argument (g.flags.contains "write")
  | "compile" => .compile argument ((g.value? "defines").getD "")
  | _ => .material argument

/-- The error that asking for help ends in: only one command can be asked about. -/
def helpError : List String → UsageError
  | [] => .helpWanted
  | [name] => if commandNames.contains name then .helpWanted else .unknownCommand
  | _ => .unknownCommand

/-- What the given options ask for, the later ones counting before the earlier. -/
def assemble (command : Option Command) (later earlier : Given) : Invocation where
  command := command
  project := ((later.value? "project") <|> (earlier.value? "project")).getD "."
  renderer :=
    ((later.value? "renderer") <|> (earlier.value? "renderer")).bind Renderer.ofName?

/-- Reads a command line without the name of the program. -/
def read (args : List String) : Except UsageError Invocation := do
  match ← outerLevel.read args with
  | (outer, none) => return assemble none .empty (← outer.settle)
  | (outer, some (name, rest)) =>
      if name = "help" then throw (helpError rest)
      let (inner, _) ← (commandLevel name).read rest
      let inner ← inner.settle
      match inner.positionals with
      | [] => throw .missingArgument
      | argument :: _ =>
          return assemble (some (commandOf name inner argument)) inner (← outer.settle)

end Invocation

end Cli
end ShaderAssets
