import ShaderAssets.Json.Record
import ShaderAssets.Source.Data

/-!
# Shader sources from JSON

Reading the data of a shader source from a JSON text.  Only the name of a shader,
the leading fields of a uniform and the fields of a tag have to be given.
-/

namespace ShaderAssets
namespace Source

open Json (Value Record)

namespace UniformDeclaration

/-- The field names of a declaration. -/
def fieldNames : List String :=
  ["type", "bind_name", "display_name", "default_value", "is_define", "is_hidden",
    "attribute", "min", "max"]

/-- The declaration that a value describes. -/
def ofJson? (v : Value) : Option UniformDeclaration := do
  let r ← Record.read? fieldNames v
  let word {α : Type} (read : String → Option α) (v : Value) : Option α := v.wordOf?.bind read
  let bound (name : String) := r.orElse name none (Value.nullable? Value.singleOf?)
  return {
    type := ← r.required "type" (word UniformType.ofDataName?)
    bindName := ← r.required "bind_name" Value.textOf?
    displayName := ← r.required "display_name" Value.textOf?
    defaultValue := ← r.required "default_value" Value.textOf?
    isDefine := ← r.orElse "is_define" false Value.boolOf?
    isHidden := ← r.orElse "is_hidden" false Value.boolOf?
    backBuffer := ← r.orElse "attribute" none (word BackBuffer.ofDataName?)
    lower := ← bound "min"
    upper := ← bound "max" }

end UniformDeclaration

namespace Tag

/-- The form of a tag and the value that holds its other fields: an object with
the form among its fields, or a list that begins with it. -/
def splitForm? : Value → Option (String × Value)
  | .object fields => do
      let forms := fields.filter fun f => f.1 == "form"
      match forms with
      | [(_, v)] => return (← v.textOf?, .object (fields.filter fun f => f.1 != "form"))
      | _ => none
  | .list (v :: items) => do return (← v.textOf?, .list items)
  | _ => none

/-- The tag that a value describes.  A list has to hold every field. -/
def ofJson? (v : Value) : Option Tag := do
  if !v.isSound then none
  let (form, rest) ← splitForm? v
  let texts := Value.listOf? Value.textOf?
  match form with
  | "plain" =>
      let r ← Record.read? ["name", "values"] rest
      return .plain (← r.required "name" Value.textOf?) (← r.required "values" texts)
  | "conditional" =>
      let r ← Record.read? ["name", "define", "if_set", "if_unset"] rest
      return .conditional (← r.required "name" Value.textOf?)
        (← r.required "define" Value.textOf?) (← r.required "if_set" texts)
        (← r.required "if_unset" texts)
  | _ => none

end Tag

namespace PassSource

/-- The pass that a value describes. -/
def ofJson? (v : Value) : Option PassSource := do
  let r ← Record.read? ["varying", "vertex", "fragment", "tags"] v
  return {
    varying := ← r.orElse "varying" "" Value.textOf?
    vertex := ← r.orElse "vertex" "" Value.textOf?
    fragment := ← r.orElse "fragment" "" Value.textOf?
    tags := ← r.orElse "tags" [] (Value.listOf? Tag.ofJson?) }

end PassSource

namespace ShaderSource

/-- The shader source that a value describes. -/
def ofJson? (v : Value) : Option ShaderSource := do
  let r ← Record.read? ["name", "render_mode", "uniforms", "passes"] v
  return {
    name := ← r.required "name" Value.textOf?
    renderMode := ← r.orElse "render_mode" .forward fun v => v.wordOf?.bind RenderMode.ofKeyword?
    uniforms := ← r.orElse "uniforms" [] (Value.listOf? UniformDeclaration.ofJson?)
    passes := ← r.orElse "passes" [] (Value.listOf? PassSource.ofJson?) }

/-- The shader source that a JSON text describes. -/
def readJson? (text : String) : Option ShaderSource :=
  (Value.ofText? text.toList).bind ofJson?

end ShaderSource

end Source
end ShaderAssets
