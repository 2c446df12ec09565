/-!
# Render settings

The fixed-function choices of one compiled program: blending, culling, depth
test, light iteration and stencil test.  A stencil field that nobody set stays
absent, which is different from any value.
-/

namespace ShaderAssets
namespace Render

/-- Which faces are culled, by their winding. -/
inductive CullMode where
  | off
  | clockwise
  | counterClockwise
deriving DecidableEq, Repr, Inhabited

/-- How a fragment is combined with the image. -/
inductive BlendMode where
  | replace
  | add
  | multiply
  | alpha
deriving DecidableEq, Repr, Inhabited

/-- Whether a pass is drawn once or once per light. -/
inductive IterationMode where
  | once
  | perLight
deriving DecidableEq, Repr, Inhabited

/-- A comparison of two numbers. -/
inductive Comparison where
  | less
  | lessOrEqual
  | equal
  | greaterOrEqual
  | greater
  | notEqual
  | never
  | always
deriving DecidableEq, Repr, Inhabited

/-- The depth test: a comparison, or no test at all. -/
inductive DepthFunction where
  | off
  | test (comparison : Comparison)
deriving DecidableEq, Repr, Inhabited

/-- What happens to a stencil value. -/
inductive StencilOp where
  | zero
  | keep
  | replace
  | incr
  | incrSat
  | decr
  | decrSat
  | invert
deriving DecidableEq, Repr, Inhabited

/-! ## Keywords -/

namespace CullMode

/-- The mode that a tag value names. -/
def ofKeyword? : String → Option CullMode
  | "off" => some .off
  | "cw" => some .clockwise
  | "ccw" => some .counterClockwise
  | _ => none

end CullMode

namespace BlendMode

/-- The mode that a tag value names. -/
def ofKeyword? : String → Option BlendMode
  | "replace" => some .replace
  | "add" => some .add
  | "multiply" => some .multiply
  | "alpha" => some .alpha
  | _ => none

end BlendMode

namespace IterationMode

/-- The mode that a tag value names. -/
def ofKeyword? : String → Option IterationMode
  | "default" => some .once
  | "per_light" => some .perLight
  | _ => none

end IterationMode

namespace Comparison

/-- The comparison that a tag value names. -/
def ofKeyword? : String → Option Comparison
  | "always" => some .always
  | "equal" => some .equal
  | "greater" => some .greater
  | "gequal" => some .greaterOrEqual
  | "less" => some .less
  | "lequal" => some .lessOrEqual
  | "never" => some .never
  | "notequal" => some .notEqual
  | _ => none

/-- The number of a comparison in a state word, from one to eight. -/
def code : Comparison → Nat
  | .less => 1
  | .lessOrEqual => 2
  | .equal => 3
  | .greaterOrEqual => 4
  | .greater => 5
  | .notEqual => 6
  | .never => 7
  | .always => 8

end Comparison

namespace DepthFunction

/-- The depth test that a tag value names. -/
def ofKeyword? : String → Option DepthFunction
  | "off" => some .off
  | word => (Comparison.ofKeyword? word).map .test

/-- The number of a depth test in a state word; no test is zero. -/
def code : DepthFunction → Nat
  | .off => 0
  | .test comparison => comparison.code

end DepthFunction

namespace StencilOp

/-- The operation that a tag value names. -/
def ofKeyword? : String → Option StencilOp
  | "replace" => some .replace
  | "keep" => some .keep
  | "incr" => some .incr
  | "incrsat" => some .incrSat
  | "decr" => some .decr
  | "decrsat" => some .decrSat
  | "invert" => some .invert
  | "zero" => some .zero
  | _ => none

/-- The number of an operation in a stencil word. -/
def code : StencilOp → Nat
  | .zero => 0
  | .keep => 1
  | .replace => 2
  | .incr => 3
  | .incrSat => 4
  | .decr => 5
  | .decrSat => 6
  | .invert => 7

end StencilOp

/-! ## Settings -/

/-- The render settings of one compiled program. -/
structure RenderSettings where
  blendMode : BlendMode
  cullMode : CullMode
  depthWrite : Bool
  depthFunction : DepthFunction
  iterationMode : IterationMode
  stencilFunction : Option Comparison
  stencilReference : Option UInt32
  stencilMask : Option UInt32
  stencilFail : Option StencilOp
  stencilDepthFail : Option StencilOp
  stencilPass : Option StencilOp
deriving DecidableEq, Repr, Inhabited

namespace RenderSettings

/-- The settings of a pass without tags. -/
def initial : RenderSettings where
  blendMode := .replace
  cullMode := .clockwise
  depthWrite := true
  depthFunction := .test .lessOrEqual
  iterationMode := .once
  stencilFunction := none
  stencilReference := none
  stencilMask := none
  stencilFail := none
  stencilDepthFail := none
  stencilPass := none

end RenderSettings

end Render
end ShaderAssets
