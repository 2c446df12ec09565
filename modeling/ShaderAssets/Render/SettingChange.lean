import ShaderAssets.Text.Integer
import ShaderAssets.Source.Tags
import ShaderAssets.Render.Settings

/-!
# Tags with render-state meaning

A tag with a known name and understood values sets some fields of the render
settings.  Tags are applied in order and later ones win field by field; a tag
that is not understood sets nothing.
-/

namespace ShaderAssets
namespace Render

/-- The meaning of a tag's resolved values.  A value that is not understood
gives no setting; the parts of a stencil tag are understood one by one. -/
inductive SettingChange where
  | cull (mode : CullMode)
  | blend (mode : BlendMode)
  | iteration (mode : IterationMode)
  | depthWrite (on : Bool)
  | depthFunction (function : DepthFunction)
  | stencilMask (mask : UInt32)
  | stencilFunction (function : Option Comparison) (reference : Option UInt32)
  | stencilOps (fail depthFail pass : Option StencilOp)
deriving DecidableEq, Repr, Inhabited

namespace SettingChange

/-- A number that fits thirty-two bits. -/
def readWord32? (text : String) : Option UInt32 :=
  (Text.readUnsigned? 10 UInt32.size text.toList).map Nat.toUInt32

/-- The switch that a tag value names. -/
def readSwitch? : String → Option Bool
  | "on" => some true
  | "off" => some false
  | _ => none

/-- The operations named in values that may hold several, separated by commas. -/
def readOps (values : List String) : List (Option StencilOp) :=
  ((values.flatMap fun v => v.toList.splitOn ',').filter fun part => !part.isEmpty).map
    fun part => StencilOp.ofKeyword? (String.ofList part)

/-- The setting that a tag with a given name and values makes. -/
def read? (name : String) : List String → Option SettingChange
  | [] => none
  | value :: rest =>
      match name with
      | "backface_culling" => (CullMode.ofKeyword? value).map .cull
      | "blend_mode" => (BlendMode.ofKeyword? value).map .blend
      | "iteration_mode" => (IterationMode.ofKeyword? value).map .iteration
      | "depth_write" => (readSwitch? value).map .depthWrite
      | "depth_func" => (DepthFunction.ofKeyword? value).map .depthFunction
      | "stencil_mask" => (readWord32? value).map .stencilMask
      | "stencil_func" =>
          some (.stencilFunction (Comparison.ofKeyword? value) (rest.head?.bind readWord32?))
      | "stencil_op" =>
          let ops := readOps (value :: rest)
          let op (i : Nat) : Option StencilOp := ops[i]?.join
          some (.stencilOps (op 0) (op 1) (op 2))
      | _ => none

/-- The setting that a tag makes under a defines string. -/
def ofTag? (defines : String) (tag : Source.Tag) : Option SettingChange :=
  read? tag.name (tag.resolve defines)

end SettingChange

namespace RenderSettings

/-- Sets the fields that a tag setting carries. -/
def apply (s : RenderSettings) : SettingChange → RenderSettings
  | .cull mode => { s with cullMode := mode }
  | .blend mode => { s with blendMode := mode }
  | .iteration mode => { s with iterationMode := mode }
  | .depthWrite on => { s with depthWrite := on }
  | .depthFunction function => { s with depthFunction := function }
  | .stencilMask mask => { s with stencilMask := some mask }
  | .stencilFunction function reference =>
      { s with
        stencilFunction := function <|> s.stencilFunction
        stencilReference := reference <|> s.stencilReference }
  | .stencilOps fail depthFail pass =>
      { s with
        stencilFail := fail <|> s.stencilFail
        stencilDepthFail := depthFail <|> s.stencilDepthFail
        stencilPass := pass <|> s.stencilPass }

/-- The settings that a tag list makes under a defines string. -/
def ofTags (tags : List Source.Tag) (defines : String) : RenderSettings :=
  (tags.filterMap (SettingChange.ofTag? defines)).foldl apply initial

end RenderSettings

end Render
end ShaderAssets
