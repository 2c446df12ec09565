import Mathlib.Algebra.Group.Nat.Defs
import ShaderAssets.Proofs.Render.Fields

/-!
# Settings over a baseline

Settings are written field by field over the words of a baseline.  Reading the fields of
the result gives what the settings say, or what the baseline held where they say nothing;
every other bit is that of the baseline.  The fields cover both words, so there is only one
pair of words like that, and writing the same settings once more changes nothing.

Main results:

- Structure {lit}`Written`: words that hold settings over a baseline.
- Theorem {lit}`StateWords.stencilCode_eq`: a field of the stencil word as a number.
- Theorem {lit}`Written.unique`: settings and baseline determine the words.
- Theorem {lit}`stateWords_written`: the words that settings give hold them, no others do,
  and writing twice is writing once.
-/

namespace ShaderAssets
namespace Render

/-! ## Fields of the stencil word as numbers -/

/-- The lowest bit of a field of the stencil word. -/
def StencilField.shift : StencilField → UInt32
  | .reference => 0
  | .readMask => 8
  | .test => 16
  | .fail => 20
  | .depthFail => 24
  | .pass => 28

namespace StencilField

/-- The number of bits of a field. -/
def width : StencilField → Nat
  | .reference => 8
  | .readMask => 8
  | .test => 4
  | .fail => 4
  | .depthFail => 4
  | .pass => 4

/-- The number that settings give to a field, if they say anything. -/
def setting? (s : RenderSettings) : StencilField → Option Nat
  | .test => s.stencilFunction.map Comparison.code
  | .reference => s.stencilReference.map UInt32.toNat
  | .readMask => s.stencilMask.map UInt32.toNat
  | .fail => s.stencilFail.map StencilOp.code
  | .depthFail => s.stencilDepthFail.map StencilOp.code
  | .pass => s.stencilPass.map StencilOp.code

/-- What settings put into a field is their number at the place of the field. -/
theorem value?_eq (s : RenderSettings) (field : StencilField) :
    field.value? s = (field.setting? s).map fun n => n.toUInt32 <<< field.shift := by
  cases field with
  | reference => cases h : s.stencilReference <;> simp [value?, setting?, shift, h]
  | readMask => cases h : s.stencilMask <;> simp [value?, setting?, shift, h]
  | _ => simp [value?, setting?, shift, Function.comp_def]

end StencilField

namespace StateWords

/-- The number in a field of the stencil word. -/
def stencilCode (w : StateWords) (field : StencilField) : Nat :=
  ((w.stencil &&& field.mask) >>> field.shift).toNat

/-- The number in a field of the stencil word is the part of the word between two powers
of two. -/
theorem stencilCode_eq (w : StateWords) (field : StencilField) :
    w.stencilCode field = w.stencil.toNat / 2 ^ field.shift.toNat % 2 ^ field.width := by
  have hshift : field.shift.toNat % 32 = field.shift.toNat := by cases field <;> rfl
  have hmask : field.mask.toNat >>> field.shift.toNat = 2 ^ field.width - 1 := by
    cases field <;> rfl
  rw [stencilCode, UInt32.toNat_shiftRight, UInt32.toNat_and, hshift,
    Nat.shiftRight_and_distrib, hmask, Nat.and_two_pow_sub_one_eq_mod,
    Nat.shiftRight_eq_div_pow]

/-- A number at the place of a field is found there, as far as it fits. -/
theorem stencilCode_shiftLeft (state : UInt64) (n : Nat) (field : StencilField) :
    stencilCode ⟨state, n.toUInt32 <<< field.shift⟩ field = n % 2 ^ field.width := by
  rw [stencilCode_eq, UInt32.toNat_shiftLeft, Nat.shiftLeft_eq]
  cases field <;> simp [StencilField.shift, StencilField.width] <;> omega

/-- Words with the same numbers in all six fields have the same stencil word. -/
theorem stencil_eq_of_stencilCode {w w' : StateWords}
    (h : ∀ field, w.stencilCode field = w'.stencilCode field) : w.stencil = w'.stencil := by
  have hreference := h .reference
  have hreadMask := h .readMask
  have htest := h .test
  have hfail := h .fail
  have hdepthFail := h .depthFail
  have hpass := h .pass
  simp only [stencilCode_eq, StencilField.shift, StencilField.width, UInt32.toNat_zero,
    UInt32.reduceToNat, Nat.reducePow, Nat.pow_zero, Nat.div_one]
    at hreference hreadMask htest hfail hdepthFail hpass
  -- The fields lie side by side, so the numbers are the digits of the word.
  have hlt := w.stencil.toNat_lt
  have hlt' := w'.stencil.toNat_lt
  refine UInt32.toNat_inj.mp ?_
  omega

end StateWords

/-! ## Words that hold settings -/

namespace Bits

/-- The bits of the state word that settings can change. -/
def settingsMask : UInt64 :=
  blendMask ||| writeDepth ||| cullMask ||| depthTestMask

end Bits

/-- Words in which settings were written over a baseline, field by field. -/
structure Written (s : RenderSettings) (baseline w : StateWords) : Prop where
  others : w.state &&& ~~~Bits.settingsMask = baseline.state &&& ~~~Bits.settingsMask
  /-- The number of the depth function, which is zero for no test. -/
  depthTest : w.state &&& Bits.depthTestMask = Bits.depthTest s.depthFunction
  /-- The factors of the blend mode; replacing has none. -/
  blend : w.state &&& Bits.blendMask =
    s.blendMode.bits?.getD (baseline.state &&& Bits.blendMask)
  writeDepth : w.state &&& Bits.writeDepth =
    if s.depthWrite then baseline.state &&& Bits.writeDepth else 0
  cull : w.state &&& Bits.cullMask =
    match s.cullMode with
    | .clockwise => baseline.state &&& Bits.cullMask
    | .off => 0
    | .counterClockwise => Bits.cullCounterClockwise
  /-- What fits of each number that is set. -/
  stencil : ∀ field : StencilField, w.stencilCode field =
    ((field.setting? s).map (· % 2 ^ field.width)).getD (baseline.stencilCode field)

/-- Words that agree in two sets of bits agree in both together. -/
theorem and_or_eq {w w' a b : UInt64} (ha : w &&& a = w' &&& a) (hb : w &&& b = w' &&& b) :
    w &&& (a ||| b) = w' &&& (a ||| b) := by
  have ha' := congrArg UInt64.toBitVec ha
  have hb' := congrArg UInt64.toBitVec hb
  refine UInt64.toBitVec_inj.mp ?_
  simp only [UInt64.toBitVec_and, UInt64.toBitVec_or, BitVec.and_or_distrib_left] at ha' hb' ⊢
  rw [ha', hb']

namespace Written

variable {s : RenderSettings} {baseline w w' : StateWords}

/-- Settings and baseline determine the words. -/
theorem unique (h : Written s baseline w) (h' : Written s baseline w') : w = w' := by
  have hsettings : w.state &&& Bits.settingsMask = w'.state &&& Bits.settingsMask :=
    and_or_eq (and_or_eq (and_or_eq (h.blend.trans h'.blend.symm)
      (h.writeDepth.trans h'.writeDepth.symm)) (h.cull.trans h'.cull.symm))
      (h.depthTest.trans h'.depthTest.symm)
  have hstate : w.state = w'.state := by
    have hall := and_or_eq hsettings (h.others.trans h'.others.symm)
    rwa [UInt64.or_not_self, UInt64.and_neg_one, UInt64.and_neg_one] at hall
  have hstencil : w.stencil = w'.stencil :=
    StateWords.stencil_eq_of_stencilCode fun field =>
      (h.stencil field).trans (h'.stencil field).symm
  cases w
  cases w'
  cases hstate
  cases hstencil
  rfl

/-- Words that hold settings over a baseline hold them over themselves. -/
theorem again (h : Written s baseline w) : Written s w w where
  others := rfl
  depthTest := h.depthTest
  blend := by
    have hblend := h.blend
    cases hbits : s.blendMode.bits? with
    | none => rfl
    | some factors => rwa [hbits] at hblend
  writeDepth := by
    have hwrite := h.writeDepth
    cases hdepth : s.depthWrite with
    | true => rfl
    | false => rwa [hdepth] at hwrite
  cull := by
    have hcull := h.cull
    cases hmode : s.cullMode with
    | clockwise => rfl
    | off => rwa [hmode] at hcull
    | counterClockwise => rwa [hmode] at hcull
  stencil field := by
    have hcode := h.stencil field
    cases hsetting : field.setting? s with
    | none => rfl
    | some n => rwa [hsetting] at hcode

end Written

/-! ## The words that settings give -/

namespace RenderSettings

/-- Bits of the state word that settings cannot change are those of the baseline. -/
theorem stateWord_and_others (s : RenderSettings) (word : UInt64) :
    s.stateWord word &&& ~~~Bits.settingsMask = word &&& ~~~Bits.settingsMask := by
  rw [stateWord, writeDepthTest_and_of_disjoint s _ (by decide),
    writeCull_and_of_disjoint s _ (by decide), writeDepthWrite_and_of_disjoint s _ (by decide),
    writeBlend_and_of_disjoint s _ (by decide)]

/-- The number in a field of the stencil word: what fits of the one that is set, or the one
that was there. -/
theorem stencilCode_written (s : RenderSettings) (baseline : StateWords)
    (field : StencilField) : (s.stateWords baseline).stencilCode field =
      ((field.setting? s).map (· % 2 ^ field.width)).getD (baseline.stencilCode field) := by
  rw [StateWords.stencilCode, stateWords, stencilWord_and, StencilField.value?_eq]
  cases field.setting? s with
  | none => rfl
  | some n => exact StateWords.stencilCode_shiftLeft 0 n field

/-- The words that settings give over a baseline hold the settings. -/
theorem written_stateWords (s : RenderSettings) (baseline : StateWords) :
    Written s baseline (s.stateWords baseline) where
  others := s.stateWord_and_others baseline.state
  depthTest := s.stateWord_and_depthTestMask baseline.state
  blend := s.stateWord_and_blendMask baseline.state
  writeDepth := s.stateWord_and_writeDepth baseline.state
  cull := s.stateWord_and_cullMask baseline.state
  stencil := s.stencilCode_written baseline

end RenderSettings

/-- The words that settings give over a baseline are the only ones in which every field
holds what the settings say, or what the baseline holds if they say nothing, and every
other bit is that of the baseline.  Writing the same settings over the result changes
nothing. -/
theorem stateWords_written (s : RenderSettings) (baseline : StateWords) :
    (∀ w, Written s baseline w ↔ w = s.stateWords baseline) ∧
      s.stateWords (s.stateWords baseline) = s.stateWords baseline := by
  have hwritten := s.written_stateWords baseline
  refine ⟨fun w => ⟨fun h => h.unique hwritten, ?_⟩, ?_⟩
  · rintro rfl
    exact hwritten
  · exact (s.written_stateWords (s.stateWords baseline)).unique hwritten.again

/-- A reference that does not fit its field is cut off, and fields that are not set stay as
they were. -/
example : ({ RenderSettings.initial with
    stencilReference := some 0x103
    stencilPass := some .incrSat }.stateWords ⟨0, 0x0320ff77⟩).stencil = 0x4320ff03 := by
  decide

end Render
end ShaderAssets
