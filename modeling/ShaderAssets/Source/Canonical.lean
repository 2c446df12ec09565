import ShaderAssets.Number.Layout
import ShaderAssets.Source.Basic
import ShaderAssets.Text.Blank

/-!
# The canonical text of a shader source

Declarations and tags are written one to a line.  Raw sections are written as
they stand between their braces, so reading the text finds the same sections.
-/

namespace ShaderAssets
namespace Source

namespace UniformDeclaration

/-- The bounds of a declaration; `-` stands for a missing lower bound. -/
def boundsText (u : UniformDeclaration) : String :=
  let bound (x : Number.Single) : String := String.ofList x.display
  match u.lower, u.upper with
  | none, none => ""
  | some low, none => " : " ++ bound low
  | some low, some high => " : " ++ bound low ++ " " ++ bound high
  | none, some high => " : - " ++ bound high

/-- The special binding of a declaration. -/
def imageText (u : UniformDeclaration) : String :=
  match u.backBuffer with
  | none => ""
  | some image => " : " ++ image.keyword

/-- The line that declares a uniform. -/
def line (u : UniformDeclaration) : String :=
  (if u.isDefine then "define " else "") ++ (if u.isHidden then "hidden " else "") ++
    u.type.keyword ++ " " ++ u.bindName ++ " \"" ++ u.displayName ++ "\"" ++
    String.join ((u.defaultValue.toList.splitOn ',').map fun part =>
      " " ++ String.ofList part) ++
    u.boundsText ++ u.imageText

end UniformDeclaration

namespace Tag

/-- A value as a token: quoted when it is empty or has white space. -/
def valueText (value : String) : String :=
  if value = "" ∨ value.toList.any Text.isBlank then "\"" ++ value ++ "\"" else value

/-- Values as tokens with one blank between them. -/
def valuesText (values : List String) : String :=
  " ".intercalate (values.map valueText)

/-- The line that gives a tag. -/
def line : Tag → String
  | .plain name values => name ++ " " ++ valuesText values
  | .conditional name define ifSet ifUnset =>
      name ++ " = " ++ define ++ " ? " ++ valuesText ifSet ++
        if ifUnset.isEmpty then "" else " : " ++ valuesText ifUnset

end Tag

namespace PassSource

/-- The block of a raw section; an empty text has none. -/
def sectionText (keyword text : String) : String :=
  if text = "" then "" else "    " ++ keyword ++ "\n    \x7b" ++ text ++ "\x7d\n"

/-- The block of a pass. -/
def text (p : PassSource) : String :=
  "pass\n\x7b\n" ++
    (if p.tags.isEmpty then ""
     else "    tags\n    \x7b\n" ++
      String.join (p.tags.map fun tag => "        " ++ tag.line ++ "\n") ++ "    \x7d\n") ++
    sectionText "varying" p.varying ++ sectionText "vertex" p.vertex ++
    sectionText "fragment" p.fragment ++ "\x7d\n"

end PassSource

namespace ShaderSource

/-- The canonical text of a shader source. -/
def write (s : ShaderSource) : String :=
  "name \"" ++ s.name ++ "\"\n" ++ "render_mode " ++ s.renderMode.keyword ++ "\n" ++
    (if s.uniforms.isEmpty then ""
     else "params\n\x7b\n" ++
      String.join (s.uniforms.map fun u => "    " ++ u.line ++ "\n") ++ "\x7d\n") ++
    String.join (s.passes.map PassSource.text)

end ShaderSource

end Source
end ShaderAssets
