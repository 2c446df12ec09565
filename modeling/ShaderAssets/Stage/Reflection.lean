import ShaderAssets.Text.Blank
import ShaderAssets.Text.Lines
import ShaderAssets.Text.Split
import ShaderAssets.Text.Integer

/-!
# Reflection of uniforms

The uniforms that a stage's code declares and uses.  A declaration is a
statement `uniform <type> <name>` with an optional array length, or one of the
sampler macros.  A uniform whose name occurs on no line but that of its
declaration counts as unused.
-/

namespace ShaderAssets

/-- A uniform that a stage uses; the count is one unless it is an array. -/
structure StageUniform where
  name : String
  type : String
  count : UInt16
deriving DecidableEq, Repr, Inhabited

namespace Reflection

open Text

/-- The characters of an identifier. -/
def isWordChar (c : Char) : Bool :=
  c.isAlphanum || c == '_'

/-- The identifiers and numbers of a code, in order. -/
def identifiers (code : List Char) : List (List Char) :=
  (code.splitOnP (!isWordChar ·)).filter (!·.isEmpty)

/-- Whether a code mentions an identifier. -/
def mentions (name : List Char) (code : List Char) : Bool :=
  (identifiers code).contains name

/-- Whether a code has an entry point. -/
def definesMain (code : List Char) : Bool :=
  mentions ['m', 'a', 'i', 'n'] code

/-- The macros that declare samplers, with the types they declare, in the order
in which they are tried. -/
def samplerMacros : List (String × String) :=
  [("SAMPLER2D", "sampler2D"), ("SAMPLERCUBE", "samplerCube"), ("SAMPLER3D", "sampler3D")]

/-- The sampler that the arguments of a macro declare. -/
def readSampler? (type : String) (arguments : List Char) : Option StageUniform :=
  match trim arguments with
  | '(' :: inner => some ⟨String.ofList (trim (inner.takeWhile (· != ','))), type, 1⟩
  | _ => none

/-- The array length between brackets. -/
def readLength? (length : List Char) : Option UInt16 :=
  let digits := trim (length.reverse.dropWhile (· == ']')).reverse
  (readUnsigned? 10 UInt16.size digits).map Nat.toUInt16

/-- The uniform of a type that a declarator declares. -/
def readDeclarator? (type : List Char) (declarator : List Char) : Option StageUniform := do
  let (name, count) ← match splitOnce '[' declarator with
    | some (name, length) => (readLength? length).map fun n => (name, n)
    | none => some (declarator, 1)
  if name.isEmpty then none else some ⟨String.ofList name, String.ofList type, count⟩

/-- Whether a word is a precision, which may stand before a type. -/
def isPrecision (word : List Char) : Bool :=
  let w := String.ofList word
  w = "lowp" || w = "mediump" || w = "highp"

/-- The uniform that follows the word `uniform`. -/
def readPlain? (rest : List Char) : Option StageUniform :=
  match rest with
  | [] => none
  | c :: _ =>
      if isBlank c then
        match words rest with
        | [] => none
        | first :: more =>
            if isPrecision first then
              match more with
              | [] => none
              | type :: more => readDeclarator? type more.flatten
            else readDeclarator? first more.flatten
      else none

/-- The uniform that a statement declares. -/
def ofStatement? (statement : List Char) : Option StageUniform :=
  match samplerMacros.findSome? fun (name, type) =>
      (dropPrefix? name.toList statement).map fun arguments => (arguments, type) with
  | some (arguments, type) => readSampler? type arguments
  | none => (dropPrefix? "uniform".toList statement).bind readPlain?

/-- The uniforms that the statements of a line declare. -/
def ofLine (line : List Char) : List StageUniform :=
  (line.splitOn ';').filterMap fun statement => ofStatement? (trim statement)

/-- The uniforms declared in numbered lines, each name at its first
declaration. -/
def declared (lines : List (List Char × Nat)) : List (StageUniform × Nat) :=
  (lines.flatMap fun (line, number) => (ofLine line).map fun u => (u, number)).foldl
    (fun found (u, number) =>
      if found.any (·.1.name == u.name) then found else found ++ [(u, number)])
    []

/-- The uniforms that a code declares and mentions on another line, in the order
of their declarations. -/
def uniforms (code : List Char) : List StageUniform :=
  let lines := (Text.lines code).zipIdx
  ((declared lines).filter fun (u, number) =>
    lines.any fun (line, other) => other != number && mentions u.name.toList line).map (·.1)

end Reflection
end ShaderAssets
