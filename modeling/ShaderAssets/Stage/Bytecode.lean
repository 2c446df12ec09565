import ShaderAssets.Json.Record
import ShaderAssets.Json.Text
import ShaderAssets.Stage.Reflection
import ShaderAssets.Stage.Target

/-!
# Bytecode

What a compiled stage holds, and its stored form: a JSON object with the fields
in a fixed order.
-/

namespace ShaderAssets

/-- A compiled stage. -/
structure Bytecode where
  stage : Stage
  platform : String
  profile : Option String
  defines : List String
  inputs : List String
  outputs : List String
  uniforms : List StageUniform
deriving DecidableEq, Repr, Inhabited

namespace StageUniform

/-- The data of a uniform. -/
def toData (u : StageUniform) : Data :=
  .record [("name", .text u.name), ("type", .text u.type), ("count", .natural u.count.toNat)]

open Json in
/-- A count of sixteen bits. -/
def countOf? (v : Value) : Option UInt16 :=
  match v.numberOf? with
  | some (.whole n) => if 0 ≤ n ∧ n < 0x10000 then some n.toNat.toUInt16 else none
  | _ => none

open Json in
/-- The uniform that a value describes. -/
def ofJson? (v : Value) : Option StageUniform := do
  let r ← Record.read? ["name", "type", "count"] v
  return {
    name := ← r.required "name" Value.textOf?
    type := ← r.required "type" Value.textOf?
    count := ← r.required "count" countOf? }

end StageUniform

namespace Bytecode

/-- The data of a compiled stage. -/
def toData (b : Bytecode) : Data :=
  .record [
    ("stage", .text b.stage.name),
    ("platform", .text b.platform),
    ("profile", .optional .text b.profile),
    ("defines", .texts b.defines),
    ("inputs", .texts b.inputs),
    ("outputs", .texts b.outputs),
    ("uniforms", .list (b.uniforms.map StageUniform.toData))]

/-- The stored form of a compiled stage. -/
def encode (b : Bytecode) : String :=
  Json.compact b.toData

open Json in
/-- The compiled stage that a value describes; the profile may be left out of an
object. -/
def ofJson? (v : Value) : Option Bytecode := do
  let r ← Record.read?
    ["stage", "platform", "profile", "defines", "inputs", "outputs", "uniforms"] v
  let texts := Value.listOf? Value.textOf?
  return {
    stage := ← r.required "stage" fun v => v.wordOf?.bind Stage.ofName?
    platform := ← r.required "platform" Value.textOf?
    profile := ← r.orElse "profile" none (Value.nullable? Value.textOf?)
    defines := ← r.required "defines" texts
    inputs := ← r.required "inputs" texts
    outputs := ← r.required "outputs" texts
    uniforms := ← r.required "uniforms" (Value.listOf? StageUniform.ofJson?) }

/-- The compiled stage with a given stored form. -/
def decode? (bytes : String) : Option Bytecode :=
  (Json.Value.ofText? bytes.toList).bind ofJson?

end Bytecode

end ShaderAssets
