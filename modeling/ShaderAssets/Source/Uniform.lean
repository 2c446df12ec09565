import ShaderAssets.Number.Single

/-!
# Uniform declarations

The value types a shader may declare, the special bindings a declaration may
ask for, and the declaration itself.
-/

namespace ShaderAssets
namespace Source

open Number

/-- The type of a uniform's value. -/
inductive UniformType where
  | int
  | float
  | bool
  | sampler2D
  | samplerCube
  | vec2
  | vec3
  | vec4
  | color
deriving DecidableEq, Repr, Inhabited

namespace UniformType

/-- The word that declares a uniform of this type. -/
def keyword : UniformType → String
  | .int => "int"
  | .float => "float"
  | .bool => "bool"
  | .sampler2D => "sampler2D"
  | .samplerCube => "samplerCube"
  | .vec2 => "vec2"
  | .vec3 => "vec3"
  | .vec4 => "vec4"
  | .color => "color"

/-- The type that a word declares. -/
def ofKeyword? : String → Option UniformType
  | "int" => some .int
  | "float" => some .float
  | "bool" => some .bool
  | "sampler2D" => some .sampler2D
  | "samplerCube" => some .samplerCube
  | "vec2" => some .vec2
  | "vec3" => some .vec3
  | "vec4" => some .vec4
  | "color" => some .color
  | _ => none

/-- Every type is declared by its own keyword. -/
@[simp]
theorem ofKeyword?_keyword (t : UniformType) : ofKeyword? t.keyword = some t := by
  cases t <;> rfl

/-- The number of components in a literal of this type. -/
def arity : UniformType → Nat
  | .int | .float | .bool | .sampler2D | .samplerCube => 1
  | .vec2 => 2
  | .vec3 => 3
  | .vec4 | .color => 4

/-- Only numeric scalars take bounds. -/
def isRanged : UniformType → Bool
  | .int | .float => true
  | _ => false

end UniformType

/-- One of the two images a camera renders into. -/
inductive BackBuffer where
  | color
  | depth
deriving DecidableEq, Repr, Inhabited

namespace BackBuffer

/-- The word that asks for the image in a declaration. -/
def keyword : BackBuffer → String
  | .color => "backBufferColor"
  | .depth => "backBufferDepth"

/-- The image that a word asks for. -/
def ofKeyword? : String → Option BackBuffer
  | "backBufferColor" => some .color
  | "backBufferDepth" => some .depth
  | _ => none

/-- Every image is asked for by its own keyword. -/
@[simp]
theorem ofKeyword?_keyword (b : BackBuffer) : ofKeyword? b.keyword = some b := by
  cases b <;> rfl

end BackBuffer

/-- A declared uniform.  The default literal has its components joined with
commas. -/
structure UniformDeclaration where
  type : UniformType
  bindName : String
  displayName : String
  defaultValue : String
  isDefine : Bool
  isHidden : Bool
  backBuffer : Option BackBuffer
  lower : Option Single
  upper : Option Single
deriving DecidableEq, Repr, Inhabited

namespace UniformDeclaration

/-- A declaration with the default literal `0` and nothing else. -/
def plain (type : UniformType) (bindName displayName : String) : UniformDeclaration where
  type := type
  bindName := bindName
  displayName := displayName
  defaultValue := "0"
  isDefine := false
  isHidden := false
  backBuffer := none
  lower := none
  upper := none

/-- Two bounds agree when both are absent or their values are equal. -/
def sameBound : Option Single → Option Single → Bool
  | none, none => true
  | some x, some y => x.sameValue y
  | _, _ => false

/-- Agreement in every field, bounds being compared by value. -/
def agrees (u v : UniformDeclaration) : Bool :=
  { u with lower := none, upper := none } == { v with lower := none, upper := none } &&
    sameBound u.lower v.lower && sameBound u.upper v.upper

end UniformDeclaration

end Source
end ShaderAssets
