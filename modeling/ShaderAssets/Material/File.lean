import ShaderAssets.Files.Disk
import ShaderAssets.Yaml.Record

/-!
# Material files

A material file names a shader and gives values to uniforms.  Every field may be
left out but the name and the value of a uniform.
-/

namespace ShaderAssets

open Yaml (Record Node Document)

/-- The value that a material file gives to a uniform. -/
structure MaterialEntry where
  name : String
  value : Yaml.Value
  isDefine : Bool
deriving Repr, Inhabited

/-- The content of a material file. -/
structure MaterialFile where
  name : Option String
  /-- The path of the shader, empty if there is none. -/
  shader : String
  uniforms : List MaterialEntry
deriving Repr, Inhabited

namespace MaterialEntry

/-- The number of nested collections that a value may have within its file. -/
def maxDepth : Nat := Yaml.Value.maxDepth - 3

/-- The entry that a node describes. -/
def ofNode? (n : Node) : Option MaterialEntry := do
  let r ← Record.read? ["name", "value", "define"] n
  return {
    name := ← r.required "name" Node.textOf?
    value := ← r.required "value" (Yaml.Value.ofNode? maxDepth)
    isDefine := ← r.orElse "define" false Node.boolOf? }

end MaterialEntry

namespace MaterialFile

/-- The material file that a text is. -/
def read? (text : String) : Option MaterialFile := do
  let r ← Record.ofDocument? ["name", "shader", "uniforms"] (← Document.read? text)
  return {
    name := ← r.orElse "name" none (Node.nullable? Node.textOf?)
    shader := ← r.orElse "shader" "" Node.textOf?
    uniforms := ← r.orElse "uniforms" [] (Node.listOf? MaterialEntry.ofNode?) }

end MaterialFile

end ShaderAssets
