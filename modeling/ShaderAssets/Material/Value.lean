import ShaderAssets.Text.Blank
import ShaderAssets.Text.Integer
import ShaderAssets.Number.Layout
import ShaderAssets.Source.Uniform
import ShaderAssets.Device.Handle

/-!
# Uniform values

The value that a material gives to a uniform: how it is written as a define, and
the rows of four numbers that are sent to a device for it.  Samplers hold a slot
and a texture; nothing is sent for them, and neither samplers nor matrices can be
written as defines.
-/

namespace ShaderAssets
namespace Material

open Number
open Source (UniformType UniformDeclaration)

/-- Four numbers. -/
structure Row where
  x : Single
  y : Single
  z : Single
  w : Single
deriving DecidableEq, Repr, Inhabited

namespace Row

/-- The numbers in order. -/
def toList (r : Row) : List Single := [r.x, r.y, r.z, r.w]

/-- The first four numbers of a list; missing ones are zero. -/
def ofList (xs : List Single) : Row :=
  let get (i : Nat) : Single := (xs[i]?).getD .zero
  ⟨get 0, get 1, get 2, get 3⟩

/-- Equality of all four values. -/
def same (r s : Row) : Bool :=
  r.x.sameValue s.x && r.y.sameValue s.y && r.z.sameValue s.z && r.w.sameValue s.w

end Row

/-- Which kind of image a sampler reads. -/
inductive TextureKind where
  | flat
  | cube
deriving DecidableEq, Repr, Inhabited

/-- The value of a uniform. -/
inductive UniformValue where
  | int (n : Int32)
  | float (x : Single)
  | bool (b : Bool)
  | sampler (kind : TextureKind) (slot : UInt8) (texture : Option TextureHandle)
  | vec2 (x y : Single)
  | vec3 (x y z : Single)
  | vec4 (v : Row)
  | color (v : Row)
  /-- Three columns, each filled up with a zero. -/
  | mat3 (a b c : Row)
  | mat4 (a b c d : Row)
deriving DecidableEq, Repr, Inhabited

namespace UniformValue

/-- Whether the value is a sampler. -/
def isSampler : UniformValue → Bool
  | .sampler .. => true
  | _ => false

/-- Equality of values: the zeros are equal, and "not a number" differs from
itself. -/
def same : UniformValue → UniformValue → Bool
  | .int m, .int n => m == n
  | .float x, .float y => x.sameValue y
  | .bool a, .bool b => a == b
  | .sampler k s t, .sampler k' s' t' => k == k' && s == s' && t == t'
  | .vec2 x y, .vec2 x' y' => x.sameValue x' && y.sameValue y'
  | .vec3 x y z, .vec3 x' y' z' => x.sameValue x' && y.sameValue y' && z.sameValue z'
  | .vec4 v, .vec4 v' => v.same v'
  | .color v, .color v' => v.same v'
  | .mat3 a b c, .mat3 a' b' c' => a.same a' && b.same b' && c.same c'
  | .mat4 a b c d, .mat4 a' b' c' d' => a.same a' && b.same b' && c.same c' && d.same d'
  | _, _ => false

/-! ## Defaults of declarations -/

/-- The whole number that a literal gives: as it stands, else the whole part of a
real number, else zero. -/
def readInt (literal : List Char) : Int32 :=
  match Text.readInt32? literal with
  | some n => Int32.ofInt n
  | none => Int32.ofInt ((Single.read? literal).map Single.toInt32 |>.getD 0)

/-- The number that a literal gives, zero if it is none. -/
def readSingle (literal : List Char) : Single :=
  (Single.read? literal).getD .zero

/-- The sampler slot that a literal gives, zero if it is none. -/
def readSlot (literal : List Char) : UInt8 :=
  ((Text.readUnsigned? 10 UInt8.size literal).map Nat.toUInt8).getD 0

/-- The numbers that the components of a literal give. -/
def readRow (literal : List Char) : Row :=
  .ofList ((literal.splitOn ',').map fun part => readSingle (Text.trim part))

/-- The value of a type that a default literal gives. -/
def ofLiteral (type : UniformType) (literal : List Char) : UniformValue :=
  match type with
  | .int => .int (readInt literal)
  | .float => .float (readSingle literal)
  | .bool => .bool (literal == "true".toList || literal == "1".toList)
  | .sampler2D => .sampler .flat (readSlot literal) none
  | .samplerCube => .sampler .cube (readSlot literal) none
  | .vec2 => let v := readRow literal; .vec2 v.x v.y
  | .vec3 => let v := readRow literal; .vec3 v.x v.y v.z
  | .vec4 => .vec4 (readRow literal)
  | .color => .color (readRow literal)

/-- The initial value of a declared uniform. -/
def ofDeclaration (u : UniformDeclaration) : UniformValue :=
  ofLiteral u.type (Text.trim u.defaultValue.toList)

/-! ## Defines -/

/-- The text of a constructor applied to numbers with six places. -/
def constructorText (name : String) (xs : List Single) : String :=
  name ++ "(" ++ ",".intercalate (xs.map fun x => String.ofList x.sixPlaces) ++ ")"

/-- The text that stands for the value in a define, if it can be one. -/
def defineText? : UniformValue → Option String
  | .int n => some (String.ofList (intText n.toInt))
  | .float x => some (String.ofList x.sixPlaces)
  | .bool b => some (if b then "1" else "0")
  | .vec2 x y => some (constructorText "vec2" [x, y])
  | .vec3 x y z => some (constructorText "vec3" [x, y, z])
  | .vec4 v => some (constructorText "vec4" v.toList)
  | .color v => some (constructorText "vec4" v.toList)
  | .sampler .. => none
  | .mat3 .. => none
  | .mat4 .. => none

/-! ## Rows -/

/-- The rows that are sent to a device. -/
def rows : UniformValue → List Row
  | .int n => [.ofList [Single.ofInt n.toInt]]
  | .float x => [.ofList [x]]
  | .bool b => [.ofList [if b then .one else .zero]]
  | .vec2 x y => [.ofList [x, y]]
  | .vec3 x y z => [.ofList [x, y, z]]
  | .vec4 v => [v]
  | .color v => [v]
  | .mat3 a b c => [a, b, c]
  | .mat4 a b c d => [a, b, c, d]
  | .sampler .. => []

end UniformValue

end Material
end ShaderAssets
