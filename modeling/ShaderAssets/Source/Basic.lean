import ShaderAssets.Text.Blank
import ShaderAssets.Source.Uniform

/-!
# Shader sources

What a shader file says: its name, render mode, uniform declarations and
passes.  A pass holds three raw texts and its tags.  Problems found while
reading a file never stop the reading; they are collected as warnings.
-/

namespace ShaderAssets
namespace Source

/-- A pass tag, either unconditional or chosen by a define. -/
inductive Tag where
  | plain (name : String) (values : List String)
  | conditional (name define : String) (ifSet ifUnset : List String)
deriving DecidableEq, Repr, Inhabited

namespace Tag

/-- The name of a tag. -/
def name : Tag → String
  | .plain name _ => name
  | .conditional name .. => name

end Tag

/-- The texts and tags of one pass. -/
structure PassSource where
  varying : String
  vertex : String
  fragment : String
  tags : List Tag
deriving DecidableEq, Repr, Inhabited

namespace PassSource

/-- A pass that says nothing. -/
def empty : PassSource := ⟨"", "", "", []⟩

/-- Whether all three texts are blank and there is no tag. -/
def isEmpty (p : PassSource) : Bool :=
  Text.isBlankText p.varying && Text.isBlankText p.vertex &&
    Text.isBlankText p.fragment && p.tags.isEmpty

end PassSource

/-- When a shader's passes are drawn. -/
inductive RenderMode where
  | forward
  | deferred
deriving DecidableEq, Repr, Inhabited

namespace RenderMode

/-- The word for a render mode. -/
def keyword : RenderMode → String
  | .forward => "forward"
  | .deferred => "deferred"

/-- The render mode that a word names. -/
def ofKeyword? : String → Option RenderMode
  | "forward" => some .forward
  | "deferred" => some .deferred
  | _ => none

/-- Every render mode is named by its own keyword. -/
@[simp]
theorem ofKeyword?_keyword (m : RenderMode) : ofKeyword? m.keyword = some m := by
  cases m <;> rfl

end RenderMode

/-- The content of a shader file. -/
structure ShaderSource where
  name : String
  renderMode : RenderMode
  uniforms : List UniformDeclaration
  passes : List PassSource
deriving DecidableEq, Repr, Inhabited

namespace ShaderSource

/-- Agreement in every field, bounds of uniforms being compared by value. -/
def agrees (s t : ShaderSource) : Bool :=
  s.name == t.name && s.renderMode == t.renderMode && s.passes == t.passes &&
    s.uniforms.length == t.uniforms.length &&
    (s.uniforms.zip t.uniforms).all fun (u, v) => u.agrees v

end ShaderSource

/-- A problem found while reading a shader file. -/
inductive Warning where
  /-- A pass or one of its sections was never closed. -/
  | unbalanced (pass : Nat)
  /-- A pass has neither vertex nor fragment code. -/
  | missingProgram (pass : Nat)
  | unknownRenderMode (mode : String)
  | unknownUniformType (line : Nat) (keyword : String)
  | malformedUniform (line : Nat) (text : String)
  | malformedTag (line : Nat) (text : String)
  | noPasses
deriving DecidableEq, Repr, Inhabited

namespace Warning

/-- The pass that a warning is about. -/
def passIndex? : Warning → Option Nat
  | .unbalanced pass => some pass
  | .missingProgram pass => some pass
  | _ => none

/-- The wording of a warning. -/
def message : Warning → String
  | .unbalanced pass => "unbalanced braces (Pass " ++ toString pass ++ ")"
  | .missingProgram pass => "no vertex/fragment source (Pass " ++ toString pass ++ ")"
  | .unknownRenderMode mode => "unknown render_mode '" ++ mode ++ "'"
  | .unknownUniformType line keyword =>
      "unknown uniform type '" ++ keyword ++ "' on params line " ++ toString line
  | .malformedUniform line text =>
      "malformed uniform on params line " ++ toString line ++ ": '" ++ text ++ "'"
  | .malformedTag line text =>
      "malformed tag on line " ++ toString line ++ ": '" ++ text ++ "'"
  | .noPasses => "no passes found"

end Warning

/-- A shader source together with the problems found while reading it. -/
structure Parsed where
  source : ShaderSource
  warnings : List Warning
deriving DecidableEq, Repr, Inhabited

end Source
end ShaderAssets
