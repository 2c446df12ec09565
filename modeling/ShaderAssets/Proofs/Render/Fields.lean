import ShaderAssets.Render.State

/-!
# Fields of state words

A write replaces the bits of its own field and leaves those of every other one.  So
each field of the words that settings give is known for every baseline: what the
settings say, or what the baseline holds if they say nothing.

Main results:

- Theorems {lit}`setField64_and_self` and {lit}`setField64_and_of_disjoint`: a write
  changes its own field only.
- Theorems {lit}`stateWord_and_blendMask`, {lit}`stateWord_and_writeDepth`,
  {lit}`stateWord_and_cullMask` and {lit}`stateWord_and_depthTestMask`: the fields of the
  state word.
- Theorem {lit}`stencilWord_and`: the fields of the stencil word.
-/

namespace ShaderAssets
namespace Render

/-! ## Words -/

/-- Some bits of a word in which others were replaced. -/
theorem replaced_and {n : Nat} (word mask value other : BitVec n) :
    ((word &&& ~~~mask) ||| value) &&& other =
      (word &&& (~~~mask &&& other)) ||| (value &&& other) := by
  rw [BitVec.and_or_distrib_right, BitVec.and_assoc]

/-- The bits of a word that were replaced. -/
theorem replaced_and_self {n : Nat} (word mask value : BitVec n) :
    ((word &&& ~~~mask) ||| value) &&& mask = value &&& mask := by
  rw [replaced_and, BitVec.not_and_self]
  simp

/-- Bits outside a mask are bits of its complement. -/
theorem not_and_of_disjoint {n : Nat} {mask other : BitVec n} (h : mask &&& other = 0#n) :
    ~~~mask &&& other = other := by
  calc ~~~mask &&& other
      = (~~~mask &&& other) ||| (mask &&& other) := by rw [h, BitVec.or_zero]
    _ = (~~~mask ||| mask) &&& other := BitVec.and_or_distrib_right.symm
    _ = other := by rw [BitVec.not_or_self, BitVec.allOnes_and]

/-- A field that was replaced holds the new value. -/
theorem setField64_and_self {word mask value : UInt64} (hvalue : value &&& mask = value) :
    setField64 word mask value &&& mask = value := by
  refine UInt64.toBitVec_inj.mp ?_
  have hbits : value.toBitVec &&& mask.toBitVec = value.toBitVec := congrArg UInt64.toBitVec hvalue
  simp only [setField64, UInt64.toBitVec_and, UInt64.toBitVec_or, UInt64.toBitVec_not,
    replaced_and_self, hbits]

/-- Replacing bits leaves all others. -/
theorem setField64_and_of_disjoint {word mask value other : UInt64} (hmask : mask &&& other = 0)
    (hvalue : value &&& other = 0) : setField64 word mask value &&& other = word &&& other := by
  refine UInt64.toBitVec_inj.mp ?_
  have hmask' : mask.toBitVec &&& other.toBitVec = 0#64 := congrArg UInt64.toBitVec hmask
  have hvalue' : value.toBitVec &&& other.toBitVec = 0#64 := congrArg UInt64.toBitVec hvalue
  simp only [setField64, UInt64.toBitVec_and, UInt64.toBitVec_or, UInt64.toBitVec_not,
    replaced_and, hvalue', not_and_of_disjoint hmask', BitVec.or_zero]

/-- Clearing bits leaves all others. -/
theorem clear64_and_of_disjoint {mask other : UInt64} (h : mask &&& other = 0) (word : UInt64) :
    (word &&& ~~~mask) &&& other = word &&& other := by
  have hclear : setField64 word mask 0 &&& other = word &&& other :=
    setField64_and_of_disjoint h UInt64.zero_and
  rwa [setField64, UInt64.or_zero] at hclear

/-- Bits that will be set need not be cleared. -/
theorem setField64_or (word mask value : UInt64) :
    setField64 word (mask ||| value) value = setField64 word mask value := by
  refine UInt64.toBitVec_inj.mp (BitVec.eq_of_getLsbD_eq fun i hi => ?_)
  simp only [setField64, UInt64.toBitVec_and, UInt64.toBitVec_or, UInt64.toBitVec_not,
    BitVec.getLsbD_or, BitVec.getLsbD_and, BitVec.getLsbD_not, hi, decide_true, Bool.true_and]
  cases value.toBitVec.getLsbD i <;> simp

/-- A field that was replaced holds what fits of the new value. -/
theorem setField32_and_self (word mask value : UInt32) :
    setField32 word mask value &&& mask = value &&& mask := by
  refine UInt32.toBitVec_inj.mp ?_
  simp only [setField32, UInt32.toBitVec_and, UInt32.toBitVec_or, UInt32.toBitVec_not,
    replaced_and_self, BitVec.and_assoc, BitVec.and_self]

/-- Replacing a field leaves all other bits. -/
theorem setField32_and_of_disjoint {mask other : UInt32} (h : mask &&& other = 0)
    (word value : UInt32) : setField32 word mask value &&& other = word &&& other := by
  refine UInt32.toBitVec_inj.mp ?_
  have h' : mask.toBitVec &&& other.toBitVec = 0#32 := congrArg UInt32.toBitVec h
  simp only [setField32, UInt32.toBitVec_and, UInt32.toBitVec_or, UInt32.toBitVec_not,
    replaced_and, not_and_of_disjoint h', BitVec.and_assoc, h', BitVec.and_zero, BitVec.or_zero]

/-! ## The state word -/

/-- Every depth test fits its field. -/
theorem depthTest_and_mask (function : DepthFunction) :
    Bits.depthTest function &&& Bits.depthTestMask = Bits.depthTest function := by
  cases function with
  | off => decide
  | test comparison => cases comparison <;> decide

namespace RenderSettings

variable (s : RenderSettings) (word : UInt64)

/-- Writing the blend mode changes the blend field only. -/
theorem writeBlend_and_of_disjoint {other : UInt64} (h : Bits.blendMask &&& other = 0) :
    s.writeBlend word &&& other = word &&& other := by
  unfold writeBlend
  cases hbits : s.blendMode.bits? with
  | none => rfl
  | some factors =>
      have hfits : factors &&& Bits.blendMask = factors := by
        cases hmode : s.blendMode <;> rw [hmode] at hbits <;> cases hbits <;> decide
      refine setField64_and_of_disjoint h ?_
      rw [← hfits, UInt64.and_assoc, h, UInt64.and_zero]

/-- Writing the depth switch changes its bit only. -/
theorem writeDepthWrite_and_of_disjoint {other : UInt64} (h : Bits.writeDepth &&& other = 0) :
    s.writeDepthWrite word &&& other = word &&& other := by
  unfold writeDepthWrite
  split
  · rfl
  · exact clear64_and_of_disjoint h word

/-- Writing the cull mode changes the cull field only. -/
theorem writeCull_and_of_disjoint {other : UInt64} (h : Bits.cullMask &&& other = 0) :
    s.writeCull word &&& other = word &&& other := by
  have hpart : ∀ part : UInt64, part &&& Bits.cullMask = part → part &&& other = 0 := by
    intro part hfits
    rw [← hfits, UInt64.and_assoc, h, UInt64.and_zero]
  unfold writeCull
  split
  · rfl
  · exact clear64_and_of_disjoint h word
  · exact setField64_and_of_disjoint (hpart _ (by decide)) (hpart _ (by decide))

/-- Writing the depth test changes its field only. -/
theorem writeDepthTest_and_of_disjoint {other : UInt64} (h : Bits.depthTestMask &&& other = 0) :
    s.writeDepthTest word &&& other = word &&& other := by
  refine setField64_and_of_disjoint h ?_
  rw [← depthTest_and_mask s.depthFunction, UInt64.and_assoc, h, UInt64.and_zero]

/-- The blend field: the factors of the mode, or what was there. -/
theorem stateWord_and_blendMask : s.stateWord word &&& Bits.blendMask =
    s.blendMode.bits?.getD (word &&& Bits.blendMask) := by
  rw [stateWord, writeDepthTest_and_of_disjoint s _ (by decide),
    writeCull_and_of_disjoint s _ (by decide), writeDepthWrite_and_of_disjoint s _ (by decide)]
  unfold writeBlend
  cases s.blendMode with
  | replace => rfl
  | add => exact setField64_and_self (by decide)
  | multiply => exact setField64_and_self (by decide)
  | alpha => exact setField64_and_self (by decide)

/-- The depth switch: off, or what was there. -/
theorem stateWord_and_writeDepth : s.stateWord word &&& Bits.writeDepth =
    if s.depthWrite then word &&& Bits.writeDepth else 0 := by
  rw [stateWord, writeDepthTest_and_of_disjoint s _ (by decide),
    writeCull_and_of_disjoint s _ (by decide)]
  unfold writeDepthWrite
  split
  · exact writeBlend_and_of_disjoint s word (by decide)
  · rw [UInt64.and_assoc, UInt64.not_and_self, UInt64.and_zero]

/-- The cull field: what was there, nothing, or the counter-clockwise faces in place of
the clockwise ones. -/
theorem stateWord_and_cullMask : s.stateWord word &&& Bits.cullMask =
    match s.cullMode with
    | .clockwise => word &&& Bits.cullMask
    | .off => 0
    | .counterClockwise => Bits.cullCounterClockwise := by
  rw [stateWord, writeDepthTest_and_of_disjoint s _ (by decide)]
  have hbefore : s.writeDepthWrite (s.writeBlend word) &&& Bits.cullMask =
      word &&& Bits.cullMask := by
    rw [writeDepthWrite_and_of_disjoint s _ (by decide),
      writeBlend_and_of_disjoint s _ (by decide)]
  unfold writeCull
  cases s.cullMode with
  | clockwise => exact hbefore
  | off => rw [UInt64.and_assoc, UInt64.not_and_self, UInt64.and_zero]
  | counterClockwise =>
      have hword := setField64_or (s.writeDepthWrite (s.writeBlend word)) Bits.cullClockwise
        Bits.cullCounterClockwise
      dsimp only
      rw [← hword]
      exact setField64_and_self (by decide)

/-- The depth test field. -/
theorem stateWord_and_depthTestMask : s.stateWord word &&& Bits.depthTestMask =
    Bits.depthTest s.depthFunction :=
  setField64_and_self (depthTest_and_mask s.depthFunction)

end RenderSettings

/-! ## The stencil word -/

/-- A field of the stencil word. -/
inductive StencilField where
  | test
  | reference
  | readMask
  | fail
  | depthFail
  | pass
deriving DecidableEq, Repr, Inhabited

namespace StencilField

/-- The bits of a field. -/
def mask : StencilField → UInt32
  | .test => Bits.stencilTestMask
  | .reference => Bits.stencilReferenceMask
  | .readMask => Bits.stencilReadMask
  | .fail => Bits.stencilFailMask
  | .depthFail => Bits.stencilDepthFailMask
  | .pass => Bits.stencilPassMask

/-- What settings put into a field, in place, if they say anything. -/
def value? (s : RenderSettings) : StencilField → Option UInt32
  | .test => s.stencilFunction.map fun c => c.code.toUInt32 <<< (16 : UInt32)
  | .reference => s.stencilReference
  | .readMask => s.stencilMask.map fun m => m <<< (8 : UInt32)
  | .fail => s.stencilFail.map fun o => o.code.toUInt32 <<< (20 : UInt32)
  | .depthFail => s.stencilDepthFail.map fun o => o.code.toUInt32 <<< (24 : UInt32)
  | .pass => s.stencilPass.map fun o => o.code.toUInt32 <<< (28 : UInt32)

end StencilField

namespace RenderSettings

/-- A field of the stencil word that is written: what fits of the value, or what was
there. -/
theorem writeStencilField_and_self (mask : UInt32) (value : Option UInt32) (word : UInt32) :
    writeStencilField mask value word &&& mask =
      (value.map fun v => v &&& mask).getD (word &&& mask) := by
  cases value with
  | none => rfl
  | some v => exact setField32_and_self word mask v

/-- Writing a field of the stencil word leaves all other bits. -/
theorem writeStencilField_and_of_disjoint {mask other : UInt32} (h : mask &&& other = 0)
    (value : Option UInt32) (word : UInt32) :
    writeStencilField mask value word &&& other = word &&& other := by
  cases value with
  | none => rfl
  | some v => exact setField32_and_of_disjoint h word v

/-- Each field of the stencil word: what fits of the setting, or what was there. -/
theorem stencilWord_and (s : RenderSettings) (word : UInt32) (field : StencilField) :
    s.stencilWord word &&& field.mask =
      ((field.value? s).map fun v => v &&& field.mask).getD (word &&& field.mask) := by
  cases field <;>
    simp (disch := decide) only [stencilWord, StencilField.mask, StencilField.value?,
      writeStencilField_and_self, writeStencilField_and_of_disjoint]

end RenderSettings
end Render
end ShaderAssets
