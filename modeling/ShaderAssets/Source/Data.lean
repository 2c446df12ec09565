import ShaderAssets.Data
import ShaderAssets.Source.Basic

/-!
# Shader sources as data

The data tree of a shader source, for reports in a data format.
-/

namespace ShaderAssets
namespace Source

namespace UniformType

/-- The name of a type in data. -/
def dataName : UniformType → String
  | .int => "Int"
  | .float => "Float"
  | .bool => "Bool"
  | .sampler2D => "Sampler2D"
  | .samplerCube => "SamplerCube"
  | .vec2 => "Vec2"
  | .vec3 => "Vec3"
  | .vec4 => "Vec4"
  | .color => "Color"

/-- The type with a given name in data. -/
def ofDataName? : String → Option UniformType
  | "Int" => some .int
  | "Float" => some .float
  | "Bool" => some .bool
  | "Sampler2D" => some .sampler2D
  | "SamplerCube" => some .samplerCube
  | "Vec2" => some .vec2
  | "Vec3" => some .vec3
  | "Vec4" => some .vec4
  | "Color" => some .color
  | _ => none

/-- Every type is found by its name in data. -/
@[simp]
theorem ofDataName?_dataName (t : UniformType) : ofDataName? t.dataName = some t := by
  cases t <;> rfl

end UniformType

namespace BackBuffer

/-- The name of a special binding in data. -/
def dataName : Option BackBuffer → String
  | none => "None"
  | some .color => "BackBufferColor"
  | some .depth => "BackBufferDepth"

/-- The special binding with a given name in data. -/
def ofDataName? : String → Option (Option BackBuffer)
  | "None" => some none
  | "BackBufferColor" => some (some .color)
  | "BackBufferDepth" => some (some .depth)
  | _ => none

/-- Every special binding is found by its name in data. -/
@[simp]
theorem ofDataName?_dataName (b : Option BackBuffer) : ofDataName? (dataName b) = some b := by
  rcases b with _ | b
  · rfl
  · cases b <;> rfl

end BackBuffer

namespace UniformDeclaration

/-- The data of a declaration. -/
def toData (u : UniformDeclaration) : Data :=
  .record [
    ("type", .text u.type.dataName),
    ("bind_name", .text u.bindName),
    ("display_name", .text u.displayName),
    ("default_value", .text u.defaultValue),
    ("is_define", .bool u.isDefine),
    ("is_hidden", .bool u.isHidden),
    ("attribute", .text (BackBuffer.dataName u.backBuffer)),
    ("min", .optional .single u.lower),
    ("max", .optional .single u.upper)]

end UniformDeclaration

namespace Tag

/-- The data of a tag. -/
def toData : Tag → Data
  | .plain name values =>
      .record [("form", .text "plain"), ("name", .text name), ("values", .texts values)]
  | .conditional name define ifSet ifUnset =>
      .record [
        ("form", .text "conditional"),
        ("name", .text name),
        ("define", .text define),
        ("if_set", .texts ifSet),
        ("if_unset", .texts ifUnset)]

end Tag

namespace PassSource

/-- The data of a pass. -/
def toData (p : PassSource) : Data :=
  .record [
    ("varying", .text p.varying),
    ("vertex", .text p.vertex),
    ("fragment", .text p.fragment),
    ("tags", .list (p.tags.map Tag.toData))]

end PassSource

namespace ShaderSource

/-- The data of a shader source. -/
def toData (s : ShaderSource) : Data :=
  .record [
    ("name", .text s.name),
    ("render_mode", .text s.renderMode.keyword),
    ("uniforms", .list (s.uniforms.map UniformDeclaration.toData)),
    ("passes", .list (s.passes.map PassSource.toData))]

end ShaderSource

end Source
end ShaderAssets
