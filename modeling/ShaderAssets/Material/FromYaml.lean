import ShaderAssets.Log
import ShaderAssets.Material.Value
import ShaderAssets.Yaml.Value

/-!
# Uniform values of material files

A value in a material file is read as the type that the shader declares for its
uniform; without a declaration its shape decides.  Whole numbers and slots out of
range are reported and give no value.
-/

namespace ShaderAssets
namespace Material
namespace UniformValue

open Number
open Source (UniformType)

/-- The number nearest to a value, if it is a number. -/
def single? (v : Yaml.Value) : Option Single :=
  v.doubleOf?.map Single.ofDouble

/-- The numbers of a sequence, if it holds nothing else. -/
def singles? (v : Yaml.Value) : Option (List Single) := do
  (← v.itemsOf?).mapM single?

/-- A whole number as a uniform value; one out of range is reported. -/
def ofInteger (n : Int) : Logged (Option UniformValue) :=
  if -0x80000000 ≤ n ∧ n < 0x80000000 then return some (.int (Int32.ofInt n))
  else do
    Logged.warn ("Integer uniform value " ++ toString n ++ " is out of range")
    return none

/-- A sampler at a slot; one out of range is reported. -/
def ofSlot (kind : TextureKind) (n : Int) : Logged (Option UniformValue) :=
  if n < 0x100 then return some (.sampler kind n.toNat.toUInt8 none)
  else do
    Logged.warn ("Sampler slot " ++ toString n ++ " is out of range")
    return none

/-- The whole number of a value within sixty-four signed bits. -/
def signed? (v : Yaml.Value) : Option Int :=
  v.integerOf?.filter (· < 0x8000000000000000)

/-- The whole number of a value that is not negative. -/
def unsigned? (v : Yaml.Value) : Option Int :=
  v.integerOf?.filter (0 ≤ ·)

/-- A value read as a declared type. -/
def ofYamlAs (type : UniformType) (v : Yaml.Value) : Logged (Option UniformValue) :=
  let row? := (singles? v).map Row.ofList
  match type with
  | .int =>
      match signed? v with
      | some n => ofInteger n
      | none => return none
  | .float => return (single? v).map .float
  | .bool =>
      match v with
      | .bool b => return some (.bool b)
      | .number n => return some (.bool (n == .int 1))
      | _ => return none
  | .sampler2D =>
      match unsigned? v with
      | some n => ofSlot .flat n
      | none => return none
  | .samplerCube =>
      match unsigned? v with
      | some n => ofSlot .cube n
      | none => return none
  | .vec2 => return row?.map fun r => .vec2 r.x r.y
  | .vec3 => return row?.map fun r => .vec3 r.x r.y r.z
  | .vec4 => return row?.map .vec4
  | .color => return row?.map .color

/-- The value that a sequence of numbers gives by its length. -/
def ofSingles? : List Single → Option UniformValue
  | [x, y] => some (.vec2 x y)
  | [x, y, z] => some (.vec3 x y z)
  | [x, y, z, w] => some (.vec4 ⟨x, y, z, w⟩)
  | [a, b, c, d, e, f, g, h, i] =>
      some (.mat3 (.ofList [a, b, c]) (.ofList [d, e, f]) (.ofList [g, h, i]))
  | [a, b, c, d, e, f, g, h, i, j, k, l, m, n, o, p] =>
      some (.mat4 ⟨a, b, c, d⟩ ⟨e, f, g, h⟩ ⟨i, j, k, l⟩ ⟨m, n, o, p⟩)
  | _ => none

/-- A value whose type its shape decides. -/
def ofYamlShape (v : Yaml.Value) : Logged (Option UniformValue) :=
  match v with
  | .bool b => return some (.bool b)
  | .number (.int n) =>
      if n < 0x8000000000000000 then ofInteger n
      else return (single? v).map .float
  | .number (.float _) => return (single? v).map .float
  | .sequence _ => return (singles? v).bind ofSingles?
  | _ => return none

/-- A value read as the declared type, or by its shape without one. -/
def ofYaml (type : Option UniformType) (v : Yaml.Value) : Logged (Option UniformValue) :=
  match type with
  | some t => ofYamlAs t v
  | none => ofYamlShape v

end UniformValue
end Material
end ShaderAssets
