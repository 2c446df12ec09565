import ShaderAssets.Preprocess.Run
import ShaderAssets.Stage.Balance
import ShaderAssets.Stage.Bytecode
import ShaderAssets.Stage.Comments
import ShaderAssets.Stage.Include

/-!
# Compiling a stage

A stage's source is preprocessed under its defines and freed of comments.  Lines
that begin with `$input` or `$output` list names that the varying text declares;
the other lines are the body, whose brackets have to match and which needs an
entry point.
-/

namespace ShaderAssets

/-- What is asked of the compiler for one stage. -/
structure StageInput where
  stage : Stage
  /-- The path of the shader, in whose directory included files are looked up. -/
  path : String
  source : String
  varying : String
  /-- The `NAME=VALUE` tokens. -/
  defines : List String
  platform : Platform
  profile : Option String
deriving DecidableEq, Repr, Inhabited

/-- Why a stage cannot be compiled. -/
inductive CompileError where
  | preprocess (error : PreprocessError)
  | undeclared (name : String)
  | unbalanced (error : BalanceError)
  | noEntryPoint
deriving DecidableEq, Repr, Inhabited

namespace CompileError

/-- The wording of a compile error. -/
def message : CompileError → String
  | .preprocess error => error.message
  | .undeclared name => "'" ++ name ++ "' is not declared in varying"
  | .unbalanced error => error.message
  | .noEntryPoint => "entry point 'main' not found"

end CompileError

namespace StageInput

/-! ## Definitions -/

/-- The name and value that a token defines. -/
def readDefine (token : String) : String × String :=
  match Text.splitOnce '=' token.toList with
  | some (name, value) => (String.ofList (Text.trim name), String.ofList (Text.trim value))
  | none => (String.ofList (Text.trim token.toList), "1")

/-- The names defined at the beginning of the stage: those of the tokens and the
name of the stage. -/
def macros (r : StageInput) : Macros :=
  let given : Macros :=
    (r.defines.map readDefine).foldl (fun m (name, value) => Macros.define m name value) []
  given.define r.stage.macroName "1"

/-! ## Varyings -/

/-- The name that a line of a varying text declares: its second word in front of a
comment. -/
def declaredIn? (line : List Char) : Option (List Char) :=
  match Text.words (Text.beforeMark ['/', '/'] line) with
  | _ :: name :: _ => some (name.reverse.dropWhile (fun c => c == ':' || c == ';')).reverse
  | _ => none

/-- The names that a varying text declares. -/
def declaredNames (varying : String) : List (List Char) :=
  (Text.linesOf varying).filterMap declaredIn?

/-! ## Lines of the code -/

/-- What a line of the code is. -/
inductive CodeLine where
  | inputs (names : List (List Char))
  | outputs (names : List (List Char))
  | body (line : List Char)
deriving DecidableEq, Repr, Inhabited

namespace CodeLine

/-- The names in a list separated by commas or white space. -/
def readNames (s : List Char) : List (List Char) :=
  (s.splitOnP fun c => c == ',' || Text.isBlank c).filter (!·.isEmpty)

/-- Reads a line. -/
def read (line : List Char) : CodeLine :=
  let trimmed := Text.trim line
  match Text.dropPrefix? "$input".toList trimmed with
  | some rest => .inputs (readNames rest)
  | none =>
      match Text.dropPrefix? "$output".toList trimmed with
      | some rest => .outputs (readNames rest)
      | none => .body line

/-- The names that the line lists for either direction. -/
def names : CodeLine → List (List Char)
  | .inputs names => names
  | .outputs names => names
  | .body _ => []

/-- The names that the line lists as inputs. -/
def inputNames : CodeLine → List (List Char)
  | .inputs names => names
  | _ => []

/-- The names that the line lists as outputs. -/
def outputNames : CodeLine → List (List Char)
  | .outputs names => names
  | _ => []

/-- The line, if it belongs to the body. -/
def body? : CodeLine → Option (List Char)
  | .body line => some line
  | _ => none

end CodeLine

/-! ## Compilation -/

/-- The source without a byte order mark in front. -/
def markless (source : String) : String :=
  match source.toList with
  | '\ufeff' :: rest => String.ofList rest
  | _ => source

/-- The bytecode of code that is free of comments. -/
def assemble (r : StageInput) (code : List Char) : Except CompileError Bytecode := do
  let lines := (Text.lines code).map CodeLine.read
  let declared := declaredNames r.varying
  match (lines.flatMap CodeLine.names).find? fun name => !declared.contains name with
  | some name => throw (.undeclared (String.ofList name))
  | none => pure ()
  let body := Text.unlines (lines.filterMap CodeLine.body?)
  match Balance.check body with
  | .error error => throw (.unbalanced error)
  | .ok _ => pure ()
  if !Reflection.definesMain body then throw .noEntryPoint
  return {
    stage := r.stage
    platform := r.platform.compilerName
    profile := r.profile
    defines := r.defines
    inputs := (lines.flatMap CodeLine.inputNames).map String.ofList
    outputs := (lines.flatMap CodeLine.outputNames).map String.ofList
    uniforms := Reflection.uniforms body }

/-- Compiles a stage; `resolve` gives the texts of included paths. -/
def compile (resolve : String → Option String) (r : StageInput) :
    Except CompileError Bytecode :=
  match Preprocess.run resolve r.macros (markless r.source) with
  | .error error => .error (.preprocess error)
  | .ok expanded => r.assemble (Comments.strip expanded.toList)

end StageInput

end ShaderAssets
