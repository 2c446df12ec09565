import ShaderAssets.Defines
import ShaderAssets.Shader.Variant

/-!
# Passes

A pass of a shader asset: its own source, the sources it compiles with once it has
inherited the missing ones, the variants compiled so far and the defines for which
compiling failed.  A failure is remembered, so it is not tried again.
-/

namespace ShaderAssets

open Source (PassSource)

/-- The texts that a pass compiles with. -/
structure StageTexts where
  varying : String
  vertex : String
  fragment : String
deriving DecidableEq, Repr, Inhabited

namespace StageTexts

/-- No texts. -/
def empty : StageTexts := ⟨"", "", ""⟩

/-- The texts of a pass after those of the pass before it: a blank text is
inherited. -/
def inherit (before : StageTexts) (p : PassSource) : StageTexts :=
  let pick (own inherited : String) : String :=
    if Text.isBlankText own then inherited else own
  ⟨pick p.varying before.varying, pick p.vertex before.vertex,
    pick p.fragment before.fragment⟩

/-- Whether there is something to compile for both stages. -/
def isComplete (r : StageTexts) : Bool :=
  !Text.isBlankText r.vertex && !Text.isBlankText r.fragment

end StageTexts

/-- A pass of a shader asset. -/
structure Pass where
  source : PassSource
  resolved : StageTexts
  variants : List Variant
  /-- The hashes of the defines for which compiling failed. -/
  failed : List UInt64
deriving DecidableEq, Repr, Inhabited

namespace Pass

/-- A pass that has not been compiled. -/
def ofSource (source : PassSource) : Pass :=
  ⟨source, .empty, [], []⟩

/-- The variant for defines with a given hash. -/
def variantByHash? (p : Pass) (hash : UInt64) : Option Variant :=
  p.variants.find? fun v => v.definesHash == hash

/-- The variant for a defines string. -/
def variant? (p : Pass) (defines : String) : Option Variant :=
  p.variantByHash? (Defines.hashOf defines)

/-- Whether compiling failed for a defines string. -/
def hasFailed (p : Pass) (defines : String) : Bool :=
  p.failed.contains (Defines.hashOf defines)

/-- Whether there is nothing left to compile for defines with a given hash. -/
def isSettled (p : Pass) (hash : UInt64) : Bool :=
  p.failed.contains hash || (p.variantByHash? hash).isSome

/-- Adds a variant. -/
def addVariant (p : Pass) (v : Variant) : Pass :=
  { p with variants := p.variants ++ [v] }

/-- Remembers a failure. -/
def addFailure (p : Pass) (hash : UInt64) : Pass :=
  { p with failed := if p.failed.contains hash then p.failed else hash :: p.failed }

/-- Forgets variants and failures. -/
def reset (p : Pass) : Pass :=
  { p with variants := [], failed := [] }

/-- Destroys programs one after the other. -/
def destroyAll : List Variant → Device → Logged Device
  | [], d => return d
  | v :: rest, d => do destroyAll rest (← d.destroyProgram v.program)

/-- Destroys the programs of a pass and forgets its failures. -/
def releaseVariants (p : Pass) (d : Device) : Logged (Pass × Device) := do
  return (p.reset, ← destroyAll p.variants d)

/-- Destroys the programs of several passes. -/
def releaseEach : List Pass → Device → Logged (List Pass × Device)
  | [], d => return ([], d)
  | p :: rest, d => do
      let (p, d) ← p.releaseVariants d
      let (rest, d) ← releaseEach rest d
      return (p :: rest, d)

/-- Lets each pass inherit from the one before it. -/
def inheritFrom (before : StageTexts) : List Pass → List Pass
  | [] => []
  | p :: rest =>
      let resolved := before.inherit p.source
      { p with resolved := resolved } :: inheritFrom resolved rest

/-- Lets the passes of a shader inherit. -/
def resolve (passes : List Pass) : List Pass :=
  inheritFrom .empty passes

end Pass

end ShaderAssets
