import ShaderAssets.Render.Settings

/-!
# State words

The render state of a draw packed into a 64-bit state word and a 32-bit stencil
word.  Settings are written over a baseline: fields that the settings leave
alone keep the baseline's bits, so a stencil configuration shared by a whole
renderer survives passes that never mention stencil.
-/

namespace ShaderAssets
namespace Render

/-- The two words that describe the state of a draw. -/
structure StateWords where
  state : UInt64
  stencil : UInt32
deriving DecidableEq, Repr, Inhabited

/-! ## Fields of the state word -/

namespace Bits

/-- Writing of red, green, blue and alpha. -/
def writeColor : UInt64 := 0x000000000000000f

/-- Writing of depth. -/
def writeDepth : UInt64 := 0x0000004000000000

/-- The field of the depth test. -/
def depthTestMask : UInt64 := 0x00000000000000f0

/-- The field of the blend factors. -/
def blendMask : UInt64 := 0x000000000ffff000

/-- Culling of clockwise faces. -/
def cullClockwise : UInt64 := 0x0000001000000000

/-- Culling of counter-clockwise faces. -/
def cullCounterClockwise : UInt64 := 0x0000002000000000

/-- The field of face culling. -/
def cullMask : UInt64 := 0x0000003000000000

/-- Multisampling. -/
def multisample : UInt64 := 0x0100000000000000

/-- The depth test in its field. -/
def depthTest (function : DepthFunction) : UInt64 :=
  function.code.toUInt64 <<< 4

/-- The blend factor zero, in place. -/
def blendZero : UInt64 := 0x1000

/-- The blend factor one, in place. -/
def blendOne : UInt64 := 0x2000

/-- The source's alpha as a blend factor, in place. -/
def blendSourceAlpha : UInt64 := 0x5000

/-- One minus the source's alpha as a blend factor, in place. -/
def blendInverseSourceAlpha : UInt64 := 0x6000

/-- The image's colour as a blend factor, in place. -/
def blendImageColor : UInt64 := 0x9000

/-- Four factors in the blend field: source and image for colour, then source
and image for alpha. -/
def blendFactors (sourceColor imageColor sourceAlpha imageAlpha : UInt64) : UInt64 :=
  (sourceColor ||| (imageColor <<< 4)) ||| ((sourceAlpha ||| (imageAlpha <<< 4)) <<< 8)

/-- The field of the stencil reference. -/
def stencilReferenceMask : UInt32 := 0x000000ff

/-- The field of the stencil read mask. -/
def stencilReadMask : UInt32 := 0x0000ff00

/-- The field of the stencil test. -/
def stencilTestMask : UInt32 := 0x000f0000

/-- The field of the operation after a failed stencil test. -/
def stencilFailMask : UInt32 := 0x00f00000

/-- The field of the operation after a failed depth test. -/
def stencilDepthFailMask : UInt32 := 0x0f000000

/-- The field of the operation after both tests passed. -/
def stencilPassMask : UInt32 := 0xf0000000

end Bits

namespace StateWords

/-- Colour and depth are written, the depth test is `less`, clockwise faces are
culled and multisampling is on. -/
def initial : StateWords where
  state := Bits.writeColor ||| Bits.writeDepth ||| Bits.depthTest (.test .less) |||
    Bits.cullClockwise ||| Bits.multisample
  stencil := 0

end StateWords

/-! ## Writing settings into the words -/

namespace BlendMode

/-- The factors of a blend mode in the blend field; replacing needs none. -/
def bits? : BlendMode → Option UInt64
  | .replace => none
  | .add => some (Bits.blendFactors Bits.blendOne Bits.blendOne Bits.blendOne Bits.blendOne)
  | .multiply =>
      some (Bits.blendFactors Bits.blendImageColor Bits.blendZero
        Bits.blendImageColor Bits.blendZero)
  | .alpha =>
      some (Bits.blendFactors Bits.blendSourceAlpha Bits.blendInverseSourceAlpha
        Bits.blendSourceAlpha Bits.blendOne)

end BlendMode

/-- A word with one of its fields replaced. -/
def setField64 (word mask value : UInt64) : UInt64 :=
  (word &&& ~~~mask) ||| value

/-- A word with one of its fields replaced; what does not fit the field is cut
off. -/
def setField32 (word mask value : UInt32) : UInt32 :=
  (word &&& ~~~mask) ||| (value &&& mask)

namespace RenderSettings

/-- Writes the blend mode into a state word. -/
def writeBlend (s : RenderSettings) (word : UInt64) : UInt64 :=
  match s.blendMode.bits? with
  | none => word
  | some factors => setField64 word Bits.blendMask factors

/-- Writes the depth write switch into a state word. -/
def writeDepthWrite (s : RenderSettings) (word : UInt64) : UInt64 :=
  if s.depthWrite then word else word &&& ~~~Bits.writeDepth

/-- Writes the cull mode into a state word. -/
def writeCull (s : RenderSettings) (word : UInt64) : UInt64 :=
  match s.cullMode with
  | .clockwise => word
  | .off => word &&& ~~~Bits.cullMask
  | .counterClockwise => setField64 word Bits.cullClockwise Bits.cullCounterClockwise

/-- Writes the depth test into a state word. -/
def writeDepthTest (s : RenderSettings) (word : UInt64) : UInt64 :=
  setField64 word Bits.depthTestMask (Bits.depthTest s.depthFunction)

/-- Writes an optional field into a stencil word. -/
def writeStencilField (mask : UInt32) (value : Option UInt32) (word : UInt32) : UInt32 :=
  match value with
  | none => word
  | some v => setField32 word mask v

/-- The state word of these settings over a baseline. -/
def stateWord (s : RenderSettings) (word : UInt64) : UInt64 :=
  s.writeDepthTest (s.writeCull (s.writeDepthWrite (s.writeBlend word)))

/-- The stencil word of these settings over a baseline. -/
def stencilWord (s : RenderSettings) (word : UInt32) : UInt32 :=
  let op (field : Option StencilOp) (shift : UInt32) : Option UInt32 :=
    field.map fun o => o.code.toUInt32 <<< shift
  word
    |> writeStencilField Bits.stencilTestMask
        (s.stencilFunction.map fun c => c.code.toUInt32 <<< (16 : UInt32))
    |> writeStencilField Bits.stencilReferenceMask s.stencilReference
    |> writeStencilField Bits.stencilReadMask (s.stencilMask.map fun m => m <<< (8 : UInt32))
    |> writeStencilField Bits.stencilFailMask (op s.stencilFail 20)
    |> writeStencilField Bits.stencilDepthFailMask (op s.stencilDepthFail 24)
    |> writeStencilField Bits.stencilPassMask (op s.stencilPass 28)

/-- The state of a draw with these settings over a baseline. -/
def stateWords (s : RenderSettings) (baseline : StateWords) : StateWords where
  state := s.stateWord baseline.state
  stencil := s.stencilWord baseline.stencil

end RenderSettings

end Render
end ShaderAssets
