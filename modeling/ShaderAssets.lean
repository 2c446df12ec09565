import ShaderAssets.Cli.Arguments
import ShaderAssets.Cli.Command
import ShaderAssets.Cli.Run
import ShaderAssets.Data
import ShaderAssets.Defines
import ShaderAssets.Device.Basic
import ShaderAssets.Device.Handle
import ShaderAssets.Device.UniformTable
import ShaderAssets.Files.Disk
import ShaderAssets.Files.Path
import ShaderAssets.Json.Number
import ShaderAssets.Json.Record
import ShaderAssets.Json.Text
import ShaderAssets.Json.Value
import ShaderAssets.Log
import ShaderAssets.Main
import ShaderAssets.Material.Basic
import ShaderAssets.Material.File
import ShaderAssets.Material.FromYaml
import ShaderAssets.Material.Value
import ShaderAssets.Number.Binary
import ShaderAssets.Number.Decimal
import ShaderAssets.Number.Layout
import ShaderAssets.Number.Shortest
import ShaderAssets.Number.Single
import ShaderAssets.Preprocess.Condition
import ShaderAssets.Preprocess.Directive
import ShaderAssets.Preprocess.Run
import ShaderAssets.Project.Config
import ShaderAssets.Proofs.Defines.LastToken
import ShaderAssets.Proofs.Defines.Literal
import ShaderAssets.Proofs.Defines.Normal
import ShaderAssets.Proofs.Device.Calls
import ShaderAssets.Proofs.Device.Handles
import ShaderAssets.Proofs.Device.Ownership
import ShaderAssets.Proofs.Material.Calls
import ShaderAssets.Proofs.Material.Changes
import ShaderAssets.Proofs.Material.Environment
import ShaderAssets.Proofs.Material.History
import ShaderAssets.Proofs.Material.Seeding
import ShaderAssets.Proofs.Material.Tokens
import ShaderAssets.Proofs.Material.WholeNumbers
import ShaderAssets.Proofs.Number.Display
import ShaderAssets.Proofs.Number.Shortest
import ShaderAssets.Proofs.Preprocess.Block
import ShaderAssets.Proofs.Preprocess.ByteLexing
import ShaderAssets.Proofs.Preprocess.Directives
import ShaderAssets.Proofs.Preprocess.FixedPoint
import ShaderAssets.Proofs.Preprocess.Grammar
import ShaderAssets.Proofs.Preprocess.Inclusion
import ShaderAssets.Proofs.Preprocess.Lexemes
import ShaderAssets.Proofs.Preprocess.Names
import ShaderAssets.Proofs.Preprocess.Nesting
import ShaderAssets.Proofs.Preprocess.Refinement
import ShaderAssets.Proofs.Preprocess.Relevance
import ShaderAssets.Proofs.Preprocess.Termination
import ShaderAssets.Proofs.Project.Words
import ShaderAssets.Proofs.Registry.Changes
import ShaderAssets.Proofs.Registry.Drawing
import ShaderAssets.Proofs.Registry.Handles
import ShaderAssets.Proofs.Registry.Loading
import ShaderAssets.Proofs.Registry.Materials
import ShaderAssets.Proofs.Registry.Operation
import ShaderAssets.Proofs.Registry.Ownership
import ShaderAssets.Proofs.Registry.Reloading
import ShaderAssets.Proofs.Registry.Sessions
import ShaderAssets.Proofs.Registry.Writes
import ShaderAssets.Proofs.Render.Agreement
import ShaderAssets.Proofs.Render.Baseline
import ShaderAssets.Proofs.Render.Fields
import ShaderAssets.Proofs.Render.Tags
import ShaderAssets.Proofs.Shader.Acceptance
import ShaderAssets.Proofs.Shader.Advance
import ShaderAssets.Proofs.Shader.Bindings
import ShaderAssets.Proofs.Shader.Cache
import ShaderAssets.Proofs.Shader.Compilation
import ShaderAssets.Proofs.Shader.Freshness
import ShaderAssets.Proofs.Shader.History
import ShaderAssets.Proofs.Shader.Inheritance
import ShaderAssets.Proofs.Shader.Layout
import ShaderAssets.Proofs.Shader.Order
import ShaderAssets.Proofs.Shader.Outcome
import ShaderAssets.Proofs.Shader.Ownership
import ShaderAssets.Proofs.Shader.Provenance
import ShaderAssets.Proofs.Shader.Recompile
import ShaderAssets.Proofs.Shader.Release
import ShaderAssets.Proofs.Shader.Unnumbered
import ShaderAssets.Proofs.Source.BlockLine
import ShaderAssets.Proofs.Source.BlockTexts
import ShaderAssets.Proofs.Source.Comments
import ShaderAssets.Proofs.Source.Dispatch
import ShaderAssets.Proofs.Source.FileBlocks
import ShaderAssets.Proofs.Source.FileEnd
import ShaderAssets.Proofs.Source.Formatting
import ShaderAssets.Proofs.Source.ParamsBlock
import ShaderAssets.Proofs.Source.ParamsLine
import ShaderAssets.Proofs.Source.PassBraces
import ShaderAssets.Proofs.Source.RawSection
import ShaderAssets.Proofs.Source.Reading
import ShaderAssets.Proofs.Source.RoundTrip
import ShaderAssets.Proofs.Source.SectionText
import ShaderAssets.Proofs.Source.Shape
import ShaderAssets.Proofs.Source.TagLine
import ShaderAssets.Proofs.Source.Tokens
import ShaderAssets.Proofs.Source.Turns
import ShaderAssets.Proofs.Source.WellFormed
import ShaderAssets.Proofs.Stage.Acceptance
import ShaderAssets.Proofs.Stage.Balance
import ShaderAssets.Proofs.Stage.Comments
import ShaderAssets.Proofs.Stage.Declarations
import ShaderAssets.Proofs.Stage.Reflection
import ShaderAssets.Proofs.Stage.Statements
import ShaderAssets.Proofs.Text.Bytes
import ShaderAssets.Proofs.Text.Digits
import ShaderAssets.Proofs.Text.Lines
import ShaderAssets.Proofs.Text.Parts
import ShaderAssets.Proofs.Text.Slashes
import ShaderAssets.Proofs.Text.Trim
import ShaderAssets.Registry.Basic
import ShaderAssets.Registry.Draw
import ShaderAssets.Render.Pipeline
import ShaderAssets.Render.SettingChange
import ShaderAssets.Render.Settings
import ShaderAssets.Render.State
import ShaderAssets.Shader.Basic
import ShaderAssets.Shader.Compile
import ShaderAssets.Shader.Pass
import ShaderAssets.Shader.Variant
import ShaderAssets.Source.Basic
import ShaderAssets.Source.Canonical
import ShaderAssets.Source.Data
import ShaderAssets.Source.OfJson
import ShaderAssets.Source.Params
import ShaderAssets.Source.Reader
import ShaderAssets.Source.Tags
import ShaderAssets.Source.Token
import ShaderAssets.Source.Uniform
import ShaderAssets.Stage.Balance
import ShaderAssets.Stage.Bytecode
import ShaderAssets.Stage.Comments
import ShaderAssets.Stage.Compile
import ShaderAssets.Stage.Include
import ShaderAssets.Stage.Reflection
import ShaderAssets.Stage.Target
import ShaderAssets.Text.Blank
import ShaderAssets.Text.Hash
import ShaderAssets.Text.Integer
import ShaderAssets.Text.Lines
import ShaderAssets.Text.Split
import ShaderAssets.Yaml.Node
import ShaderAssets.Yaml.Place
import ShaderAssets.Yaml.Quote
import ShaderAssets.Yaml.Record
import ShaderAssets.Yaml.Scalar
import ShaderAssets.Yaml.Text
import ShaderAssets.Yaml.Token
import ShaderAssets.Yaml.Tokens
import ShaderAssets.Yaml.Value
