import ShaderAssets.Number.Single
import ShaderAssets.Render.Settings

/-!
# Pipeline state

Render settings as the state objects of devices that bake them into a pipeline
instead of taking state words with each draw.  The front face winds
counter-clockwise, so culling clockwise faces is culling back faces.  The settings
say nothing about how triangles are put together and filled, by which operation
products are blended or how depth is biased; these are the same in every pipeline.
The stencil reference is no part of a pipeline and is given beside it.
-/

namespace ShaderAssets
namespace Render

/-- A side of a triangle. -/
inductive Face where
  | front
  | back
deriving DecidableEq, Repr, Inhabited

/-- How vertices are put together. -/
inductive Topology where
  | pointList
  | lineList
  | lineStrip
  | triangleList
  | triangleStrip
deriving DecidableEq, Repr, Inhabited

/-- The form of the indices of a strip. -/
inductive IndexFormat where
  | uint16
  | uint32
deriving DecidableEq, Repr, Inhabited

/-- How the corners of a front face are wound. -/
inductive FrontFace where
  | ccw
  | cw
deriving DecidableEq, Repr, Inhabited

/-- What is drawn of a triangle. -/
inductive PolygonMode where
  | fill
  | line
  | point
deriving DecidableEq, Repr, Inhabited

/-- How a pipeline makes and culls triangles. -/
structure PrimitiveState where
  topology : Topology
  stripIndexFormat : Option IndexFormat
  frontFace : FrontFace
  cullFace : Option Face
  polygonMode : PolygonMode
  unclippedDepth : Bool
  conservative : Bool
deriving DecidableEq, Repr, Inhabited

/-- A factor of a blend equation. -/
inductive BlendFactor where
  | zero
  | one
  | dst
  | srcAlpha
  | oneMinusSrcAlpha
deriving DecidableEq, Repr, Inhabited

namespace BlendFactor

/-- The name of a blend factor in reports. -/
def name : BlendFactor → String
  | .zero => "Zero"
  | .one => "One"
  | .dst => "Dst"
  | .srcAlpha => "SrcAlpha"
  | .oneMinusSrcAlpha => "OneMinusSrcAlpha"

end BlendFactor

/-- How the products of a blend equation are put together. -/
inductive BlendOperation where
  | add
  | subtract
  | reverseSubtract
  | min
  | max
deriving DecidableEq, Repr, Inhabited

/-- The factors of source and image, and what is done with the products. -/
structure BlendComponent where
  source : BlendFactor
  image : BlendFactor
  operation : BlendOperation
deriving DecidableEq, Repr, Inhabited

/-- The sum of source and image with given factors. -/
def BlendComponent.sum (source image : BlendFactor) : BlendComponent :=
  ⟨source, image, .add⟩

/-- The blend equations for colour and for alpha. -/
structure BlendState where
  color : BlendComponent
  alpha : BlendComponent
deriving DecidableEq, Repr, Inhabited

/-- What a pipeline does to a stencil value. -/
inductive StencilOperation where
  | keep
  | zero
  | replace
  | invert
  | incrementClamp
  | decrementClamp
  | incrementWrap
  | decrementWrap
deriving DecidableEq, Repr, Inhabited

/-- The stencil test of one face. -/
structure StencilFace where
  compare : Comparison
  fail : StencilOperation
  depthFail : StencilOperation
  pass : StencilOperation
deriving DecidableEq, Repr, Inhabited

namespace StencilFace

/-- A test that always passes and changes nothing. -/
def ignore : StencilFace := ⟨.always, .keep, .keep, .keep⟩

end StencilFace

/-- The stencil test of a pipeline. -/
structure StencilState where
  front : StencilFace
  back : StencilFace
  readMask : UInt32
  writeMask : UInt32
deriving DecidableEq, Repr, Inhabited

namespace StencilState

/-- No stencil test. -/
def off : StencilState := ⟨.ignore, .ignore, 0, 0⟩

/-- Whether the test can have an effect: a face does something, and a mask lets
bits through. -/
def isEnabled (s : StencilState) : Bool :=
  (s.front != .ignore || s.back != .ignore) && (s.readMask != 0 || s.writeMask != 0)

end StencilState

/-- A format of depth images. -/
inductive DepthFormat where
  | depth24PlusStencil8
  | depth32Float
deriving DecidableEq, Repr, Inhabited

/-- What is added to depths before they are compared. -/
structure DepthBias where
  constant : Int32
  slopeScale : Number.Single
  clamp : Number.Single
deriving DecidableEq, Repr, Inhabited

/-- Nothing is added. -/
def DepthBias.none : DepthBias := ⟨0, .zero, .zero⟩

/-- The depth and stencil tests of a pipeline. -/
structure DepthStencilState where
  format : DepthFormat
  depthWrite : Bool
  depthCompare : Comparison
  stencil : StencilState
  bias : DepthBias
deriving DecidableEq, Repr, Inhabited

/-- The state of a pipeline, with the stencil reference to draw with. -/
structure PipelineState where
  primitive : PrimitiveState
  /-- No equations if fragments are not blended at all. -/
  blend : Option BlendState
  depthStencil : Option DepthStencilState
  stencilReference : UInt32
deriving DecidableEq, Repr, Inhabited

namespace Comparison

/-- The name of a comparison in reports. -/
def name : Comparison → String
  | .less => "Less"
  | .lessOrEqual => "LessEqual"
  | .equal => "Equal"
  | .greaterOrEqual => "GreaterEqual"
  | .greater => "Greater"
  | .notEqual => "NotEqual"
  | .never => "Never"
  | .always => "Always"

end Comparison

namespace CullMode

/-- The face that a mode culls when the front face winds counter-clockwise. -/
def face? : CullMode → Option Face
  | .off => none
  | .clockwise => some .back
  | .counterClockwise => some .front

end CullMode

namespace BlendState

/-- The source takes the place of the image. -/
def replace : BlendState := ⟨.sum .one .zero, .sum .one .zero⟩

end BlendState

namespace BlendMode

/-- The blend equations of a mode. -/
def blendState : BlendMode → BlendState
  | .replace => .replace
  | .add => ⟨.sum .one .one, .sum .one .one⟩
  | .multiply => ⟨.sum .dst .zero, .sum .dst .zero⟩
  | .alpha => ⟨.sum .srcAlpha .oneMinusSrcAlpha, .sum .srcAlpha .one⟩

end BlendMode

namespace StencilOp

/-- The pipeline's form of an operation.  The plain increment and decrement
wrap around; the saturating ones stop at the ends. -/
def operation : StencilOp → StencilOperation
  | .zero => .zero
  | .keep => .keep
  | .replace => .replace
  | .incr => .incrementWrap
  | .incrSat => .incrementClamp
  | .decr => .decrementWrap
  | .decrSat => .decrementClamp
  | .invert => .invert

end StencilOp

namespace RenderSettings

/-- The stencil test of these settings.  Without a comparison there is none; an
operation that is not set keeps the value, and a mask that is not set lets the
low eight bits through. -/
def stencilState (s : RenderSettings) : StencilState :=
  match s.stencilFunction with
  | none => .off
  | some compare =>
      let op (field : Option StencilOp) : StencilOperation :=
        (field.map StencilOp.operation).getD .keep
      let face : StencilFace :=
        ⟨compare, op s.stencilFail, op s.stencilDepthFail, op s.stencilPass⟩
      let mask := s.stencilMask.getD 0xff
      ⟨face, face, mask, mask⟩

/-- The depth and stencil tests of these settings.  Without a depth test nothing
is written to the depth image. -/
def depthStencilState (s : RenderSettings) (format : DepthFormat) : DepthStencilState :=
  match s.depthFunction with
  | .off => ⟨format, false, .always, s.stencilState, .none⟩
  | .test comparison => ⟨format, s.depthWrite, comparison, s.stencilState, .none⟩

/-- Filled triangles, of which these settings cull some. -/
def primitiveState (s : RenderSettings) : PrimitiveState where
  topology := .triangleList
  stripIndexFormat := none
  frontFace := .ccw
  cullFace := s.cullMode.face?
  polygonMode := .fill
  unclippedDepth := false
  conservative := false

/-- The pipeline state of these settings for an optional depth image. -/
def pipelineState (s : RenderSettings) (format : Option DepthFormat) : PipelineState where
  primitive := s.primitiveState
  blend := some s.blendMode.blendState
  depthStencil := format.map s.depthStencilState
  stencilReference := s.stencilReference.getD 0

end RenderSettings

namespace PipelineState

/-- One line that sums a pipeline state up. -/
def summary (p : PipelineState) : String :=
  let cull := match p.primitive.cullFace with
    | some .back => "back"
    | some .front => "front"
    | none => "none"
  let blend := match p.blend with
    | some b =>
        if b = .replace then "replace"
        else b.color.source.name ++ " " ++ b.color.image.name
    | none => "none"
  let depth := match p.depthStencil with
    | some d =>
        d.depthCompare.name ++ (if d.depthWrite then " write" else "") ++
          (if d.stencil.isEnabled then " stencil" else "")
    | none => "none"
  "pipeline: cull " ++ cull ++ " blend " ++ blend ++ " depth " ++ depth ++
    " stencil_ref " ++ toString p.stencilReference.toNat

end PipelineState

end Render
end ShaderAssets
