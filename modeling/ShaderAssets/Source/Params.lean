import ShaderAssets.Text.Lines
import ShaderAssets.Number.Single
import ShaderAssets.Source.Basic
import ShaderAssets.Source.Token

/-!
# Parameter blocks

Each line of a parameter block declares one uniform:

    [define] [hidden] <type> <bind name> "<display name>" <default...>
        [: <min> <max>] [: <attribute>]

A bound that is no number is absent, so `-` stands for a missing lower bound.
A line of qualifiers alone tags the declaration above it.  A line that declares
nothing is reported and skipped.
-/

namespace ShaderAssets
namespace Source

open Number

/-- The words in front of a declaration. -/
structure Qualifiers where
  isDefine : Bool
  isHidden : Bool
deriving DecidableEq, Repr, Inhabited

namespace Qualifiers

/-- No qualifier. -/
def none : Qualifiers := ⟨false, false⟩

/-- The qualifiers at the front of a token list, and the tokens after them. -/
def read (q : Qualifiers) : List Token → Qualifiers × List Token
  | .word "define" :: rest => read { q with isDefine := true } rest
  | .word "hidden" :: rest => read { q with isHidden := true } rest
  | rest => (q, rest)

end Qualifiers

namespace UniformDeclaration

/-- Adds qualifiers to a declaration. -/
def qualify (u : UniformDeclaration) (q : Qualifiers) : UniformDeclaration :=
  { u with isDefine := u.isDefine || q.isDefine, isHidden := u.isHidden || q.isHidden }

/-- The components of a default literal, at most `arity` of them; empty ones do
not count. -/
def readComponents (arity : Nat) (tokens : List Token) : List String :=
  ((tokens.flatMap fun t => t.text.toList.splitOn ',').filter (fun p => !p.isEmpty)
    |>.take arity).map String.ofList

/-- The bound that a token gives, if it is a number. -/
def readBound? (token : Option Token) : Option Single :=
  token.bind fun t => Single.read? t.text.toList

/-- Adds what one part after a colon says: a special binding, or the bounds of
a type that takes them. -/
def addSuffix (u : UniformDeclaration) : List Token → UniformDeclaration
  | [] => u
  | first :: rest =>
      match BackBuffer.ofKeyword? first.text with
      | some image => { u with backBuffer := some image }
      | none =>
          if u.type.isRanged then
            { u with lower := readBound? (some first), upper := readBound? rest.head? }
          else u

/-- The declaration that the tokens after a type make, unless the bind name is
missing or empty. -/
def read? (type : UniformType) (tokens : List Token) : Option UniformDeclaration :=
  match tokens.splitOnP (· == .colon) with
  | (bind :: rest) :: suffixes =>
      if bind.text = "" then none
      else
        let display := (rest.head?.map Token.text).getD bind.text
        let components := readComponents type.arity (rest.drop 1)
        let u := plain type bind.text display
        let u := if components.isEmpty then u
          else { u with defaultValue := ",".intercalate components }
        some (suffixes.foldl addSuffix u)
  | _ => none

end UniformDeclaration

/-- What one line of a parameter block says. -/
inductive ParamsLine where
  /-- Nothing but blanks and comments. -/
  | empty
  /-- Qualifiers for the declaration above. -/
  | qualifiers (q : Qualifiers)
  | declaration (u : UniformDeclaration)
  | faulty (warning : Warning)
deriving DecidableEq, Repr, Inhabited

namespace ParamsLine

/-- Reads the line with a given number, counted from zero. -/
def read (number : Nat) (line : List Char) : ParamsLine :=
  let tokens := Token.ofLine line true
  if tokens.isEmpty then .empty
  else
    match Qualifiers.none.read tokens with
    | (q, []) => .qualifiers q
    | (q, keyword :: rest) =>
        match UniformType.ofKeyword? keyword.text with
        | none => .faulty (.unknownUniformType number keyword.text)
        | some type =>
            match UniformDeclaration.read? type rest with
            | some u => .declaration (u.qualify q)
            | none => .faulty (.malformedUniform number (String.ofList (Text.trim line)))

end ParamsLine

namespace Params

/-- Adds qualifiers to the last declaration of a list. -/
def qualifyLast (q : Qualifiers) (us : List UniformDeclaration) : List UniformDeclaration :=
  us.modify (us.length - 1) (·.qualify q)

/-- Adds what one line says to the declarations read before it. -/
def addLine (us : List UniformDeclaration) : ParamsLine → List UniformDeclaration
  | .empty => us
  | .qualifiers q => qualifyLast q us
  | .declaration u => us ++ [u]
  | .faulty _ => us

/-- The lines of a parameter block, numbered from zero. -/
def readLines (text : String) : List ParamsLine :=
  (Text.linesOf text).zipIdx.map fun (line, number) => ParamsLine.read number line

/-- The uniforms that a parameter block declares, in order. -/
def uniforms (text : String) : List UniformDeclaration :=
  (readLines text).foldl addLine []

/-- The problems of a parameter block, in order. -/
def warnings (text : String) : List Warning :=
  (readLines text).filterMap fun
    | .faulty warning => some warning
    | _ => none

end Params

end Source
end ShaderAssets
