import ShaderAssets.Log
import ShaderAssets.Defines
import ShaderAssets.Material.Value
import ShaderAssets.Shader.Basic

/-!
# Materials

A material holds values for the uniforms of a shader.  Uniforms that are defines
contribute a `NAME=VALUE` token each; the string that the tokens make selects the variant
that the material is drawn with, and is kept beside them.  A change of the tokens marks the
material as not compiled.
-/

namespace ShaderAssets

open Material (UniformValue)
open Source (UniformDeclaration)

/-- Names a shader in a registry. -/
structure ShaderHandle where
  index : Nat
deriving DecidableEq, Repr, Inhabited

/-- Different shaders have different indices. -/
theorem ShaderHandle.index_ne {h h' : ShaderHandle} (hne : h ≠ h') : h.index ≠ h'.index :=
  fun heq => hne (congrArg mk heq)

/-- Names a material in a registry. -/
structure MaterialHandle where
  index : Nat
deriving DecidableEq, Repr, Inhabited

/-- A uniform of a material. -/
structure MaterialUniform where
  name : String
  value : UniformValue
  isDefine : Bool
deriving DecidableEq, Repr, Inhabited

namespace MaterialUniform

/-- The hash of the name. -/
def nameHash (u : MaterialUniform) : UInt64 :=
  Text.fnv1a u.name

end MaterialUniform

/-- A material. -/
structure Material where
  name : String
  shader : Option ShaderHandle
  uniforms : List MaterialUniform
  /-- The tokens of the uniforms that are defines, in the order in which they
  became defines. -/
  tokens : List String
  /-- The raw defines string, kept beside the tokens that it is made of. -/
  defines : String
  /-- The tokens or the shader changed since the last compilation. -/
  dirty : Bool
deriving DecidableEq, Repr, Inhabited

namespace Material

/-- A material without uniforms. -/
def create (name : String) : Material where
  name := name
  shader := none
  uniforms := []
  tokens := []
  defines := ""
  dirty := true

/-! ## Views -/

/-- The uniform with a given name. -/
def uniform? (m : Material) (name : String) : Option MaterialUniform :=
  m.uniforms.find? fun u => u.name == name

/-- The value of a uniform. -/
def value? (m : Material) (name : String) : Option UniformValue :=
  (m.uniform? name).map MaterialUniform.value

/-- Whether there is a uniform with a given name. -/
def has (m : Material) (name : String) : Bool :=
  (m.uniform? name).isSome

/-- Whether a uniform is a define. -/
def isDefine (m : Material) (name : String) : Bool :=
  m.uniforms.any fun u => u.name == name && u.isDefine

/-- The hash of the defines, by which variants are looked up. -/
def definesHash (m : Material) : UInt64 :=
  Defines.hashOf m.defines

/-! ## Tokens -/

/-- The name that a token defines. -/
def tokenName (token : String) : List Char :=
  token.toList.takeWhile (· != '=')

/-- The token that gives a name a value. -/
def token (name text : String) : String :=
  name ++ "=" ++ text

/-- Whether a token defines a name. -/
def definesName (name : String) (token : String) : Bool :=
  tokenName token == name.toList

/-- Replaces the token of a name, or appends it. -/
def putToken (name text : String) (tokens : List String) : List String :=
  match tokens.findIdx? (definesName name) with
  | some i => tokens.set i (token name text)
  | none => tokens ++ [token name text]

/-- Removes the token of a name. -/
def dropToken (name : String) (tokens : List String) : List String :=
  tokens.eraseP (definesName name)

/-- The raw defines string of tokens: each one followed by a semicolon. -/
def spell (tokens : List String) : String :=
  String.join (tokens.map (· ++ ";"))

/-- Brings the token of a name in line with a value that is a define or is not, and makes
the defines string anew. -/
def updateToken (m : Material) (name : String) (value : UniformValue) (define : Bool) :
    Material :=
  let tokens :=
    if define then
      match value.defineText? with
      | some text => putToken name text m.tokens
      | none => m.tokens
    else dropToken name m.tokens
  { m with tokens := tokens, defines := spell tokens, dirty := true }

/-! ## Setting values -/

/-- Sets the first uniform with a given name where it stands. -/
def replaceUniform (m : Material) (u : MaterialUniform) : Material :=
  match m.uniforms.findIdx? fun v => v.name == u.name with
  | some i => { m with uniforms := m.uniforms.set i u }
  | none => m

/-- Sets a uniform to a value that can be a define if it is to be one.  The tokens
follow a change of the flag, and a change of a define's value. -/
def assign (m : Material) (name : String) (value : UniformValue) (define : Bool) : Material :=
  match m.uniform? name with
  | some old =>
      let changed := !old.value.same value
      let m := m.replaceUniform ⟨name, value, define⟩
      if old.isDefine != define || (define && changed) then m.updateToken name value define
      else m
  | none =>
      let m := { m with uniforms := m.uniforms ++ [⟨name, value, define⟩] }
      if define then m.updateToken name value true else m

/-- Sets a uniform.  A value that cannot be a define is reported and bound as an
ordinary one. -/
def setUniform (m : Material) (name : String) (value : UniformValue) (define : Bool) :
    Logged Material :=
  if define && value.defineText?.isNone then do
    Logged.warn ("Material '" ++ m.name ++ "': " ++ name ++
      " cannot be a define, binding it as a uniform")
    return m.assign name value false
  else return m.assign name value define

/-- A sampler with another texture at the same slot. -/
def withTexture? (texture : Option TextureHandle) : UniformValue → Option UniformValue
  | .sampler kind slot _ => some (.sampler kind slot texture)
  | _ => none

/-- Gives a sampler a texture.  Nothing happens unless the uniform is one. -/
def setTexture (m : Material) (name : String) (texture : Option TextureHandle) :
    Bool × Material :=
  match m.uniform? name with
  | none => (false, m)
  | some u =>
      match withTexture? texture u.value with
      | none => (false, m)
      | some value => (true, m.replaceUniform { u with value := value })

/-! ## Shaders -/

/-- Adds the declared uniforms that the material does not have yet, at their
default values. -/
def seed : List UniformDeclaration → Material → Logged Material
  | [], m => return m
  | u :: rest, m => do
      if m.has u.bindName then seed rest m
      else seed rest (← m.setUniform u.bindName (.ofDeclaration u) u.isDefine)

/-- Binds the material to a shader. -/
def setShader (m : Material) (handle : ShaderHandle) (shader : Shader) : Logged Material :=
  if m.shader = some handle then return m
  else seed shader.uniforms { m with shader := some handle, dirty := true }

/-- A copy under another name, which is not compiled yet. -/
def copy (m : Material) (name : String) : Material :=
  { m with name := name, dirty := true }

end Material

end ShaderAssets
