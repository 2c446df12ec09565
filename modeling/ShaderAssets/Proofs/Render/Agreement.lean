import ShaderAssets.Render.Pipeline
import ShaderAssets.Proofs.Render.Baseline

/-!
# Two encodings of the render settings

The settings of a draw are given to a device as state words or as a pipeline state.
Reading the words field by field shows that both describe the same draw over the
initial words: the same culled faces, the same blend factors, the same depth test, and
the same stencil test as far as the settings speak of it.

The two differ in what the settings leave open.  A stencil field that is not set keeps
the bits of the baseline, so that over the initial words an operation is {lit}`zero` and
the read mask lets nothing through; a pipeline state has no baseline and takes
{lit}`keep` and a mask of eight bits.

Main results:

- Definitions {lit}`StateWords.cullFace?`, {lit}`StateWords.blend?`,
  {lit}`StateWords.depth?` and {lit}`StateWords.stencilFace?`: what the words say.
- Theorem {lit}`StateWords.stencilCode_stateWords`: the stencil fields over the initial
  words.
- Theorem {lit}`stateWords_agree`: the words and the pipeline state agree.
- Theorem {lit}`unset_stencil_disagrees`: not so in stencil fields that are not set.
-/

namespace ShaderAssets
namespace Render

/-! ## Codes -/

namespace Comparison

/-- The comparison with a number. -/
def ofCode? : Nat → Option Comparison
  | 1 => some .less
  | 2 => some .lessOrEqual
  | 3 => some .equal
  | 4 => some .greaterOrEqual
  | 5 => some .greater
  | 6 => some .notEqual
  | 7 => some .never
  | 8 => some .always
  | _ => none

/-- Every comparison is found by its number. -/
@[simp]
theorem ofCode?_code (c : Comparison) : ofCode? c.code = some c := by
  cases c <;> rfl

/-- No comparison has the number of no test. -/
theorem code_ne_zero (c : Comparison) : c.code ≠ 0 := by
  cases c <;> decide

end Comparison

namespace StencilOperation

/-- The operation with a number. -/
def ofCode? : Nat → Option StencilOperation
  | 0 => some .zero
  | 1 => some .keep
  | 2 => some .replace
  | 3 => some .incrementWrap
  | 4 => some .incrementClamp
  | 5 => some .decrementWrap
  | 6 => some .decrementClamp
  | 7 => some .invert
  | _ => none

/-- Every operation of the settings is found by its number. -/
@[simp]
theorem ofCode?_code (o : StencilOp) : ofCode? o.code = some o.operation := by
  cases o <;> rfl

end StencilOperation

namespace BlendFactor

/-- The factor with a number. -/
def ofCode? : Nat → Option BlendFactor
  | 1 => some .zero
  | 2 => some .one
  | 5 => some .srcAlpha
  | 6 => some .oneMinusSrcAlpha
  | 9 => some .dst
  | _ => none

end BlendFactor

/-! ## Reading state words -/

namespace StateWords

/-- The face of the triangles that are culled, which depends on how a front face winds. -/
def cullFace? (w : StateWords) (front : FrontFace) : Option (Option Face) :=
  let field := w.state &&& Bits.cullMask
  if field = 0 then some none
  else if field = Bits.cullClockwise then some (some (if front = .cw then .front else .back))
  else if field = Bits.cullCounterClockwise then
    some (some (if front = .ccw then .front else .back))
  else none

/-- The blend equations, which are sums; without factors the source takes the place of the
image. -/
def blend? (w : StateWords) : Option BlendState :=
  let field := w.state &&& Bits.blendMask
  let factor? (shift : UInt64) := BlendFactor.ofCode? ((field >>> shift) &&& 0xf).toNat
  if field = 0 then some .replace
  else do
    return ⟨.sum (← factor? 12) (← factor? 16), .sum (← factor? 20) (← factor? 24)⟩

/-- The depth comparison, and whether depth is written; without a test everything passes
and nothing is written. -/
def depth? (w : StateWords) : Option (Comparison × Bool) :=
  let code := ((w.state &&& Bits.depthTestMask) >>> 4).toNat
  if code = 0 then some (.always, false)
  else (Comparison.ofCode? code).map fun c => (c, w.state &&& Bits.writeDepth != 0)

/-- The stencil comparison. -/
def stencilCompare? (w : StateWords) : Option Comparison :=
  Comparison.ofCode? (w.stencilCode .test)

/-- The stencil operation in a field. -/
def stencilOperation? (w : StateWords) (field : StencilField) : Option StencilOperation :=
  StencilOperation.ofCode? (w.stencilCode field)

/-- The stencil test of a face. -/
def stencilFace? (w : StateWords) : Option StencilFace := do
  return ⟨← w.stencilCompare?, ← w.stencilOperation? .fail, ← w.stencilOperation? .depthFail,
    ← w.stencilOperation? .pass⟩

/-- A field of the stencil word over the initial words: what fits of the setting, or
zero. -/
theorem stencilCode_stateWords (s : RenderSettings) (field : StencilField) :
    (s.stateWords initial).stencilCode field =
      ((field.setting? s).map (· % 2 ^ field.width)).getD 0 := by
  have hzero : initial.stencilCode field = 0 := by cases field <;> rfl
  rw [s.stencilCode_written, hzero]

/-- The operation in a field of the stencil word: the one that is set, or zero. -/
theorem stencilOperation?_stateWords {s : RenderSettings} {field : StencilField}
    {op : Option StencilOp} (hsetting : field.setting? s = op.map StencilOp.code)
    (hwidth : field.width = 4) :
    (s.stateWords initial).stencilOperation? field =
      some ((op.map StencilOp.operation).getD .zero) := by
  rw [stencilOperation?, stencilCode_stateWords, hsetting, hwidth]
  cases op with
  | none => rfl
  | some o =>
      have hfits : o.code % 2 ^ 4 = o.code := by cases o <;> rfl
      simp only [Option.map_some, Option.getD_some, hfits]
      exact StencilOperation.ofCode?_code o

/-- The stencil comparison that is set. -/
theorem stencilCompare?_stateWords {s : RenderSettings} {compare : Comparison}
    (h : s.stencilFunction = some compare) :
    (s.stateWords initial).stencilCompare? = some compare := by
  have hcode : (s.stateWords initial).stencilCode .test = compare.code := by
    rw [stencilCode_stateWords, StencilField.setting?, h]
    cases compare <;> rfl
  rw [stencilCompare?, hcode, Comparison.ofCode?_code]

/-- The low eight bits of a read mask that is set. -/
theorem stencilCode_readMask (s : RenderSettings) :
    (s.stateWords initial).stencilCode .readMask = (s.stencilMask.getD 0).toNat % 256 := by
  rw [stencilCode_stateWords, StencilField.setting?]
  cases s.stencilMask <;> rfl

/-- The low eight bits of the reference, which is zero if it is not set. -/
theorem stencilCode_reference (s : RenderSettings) :
    (s.stateWords initial).stencilCode .reference = (s.stencilReference.getD 0).toNat % 256 := by
  rw [stencilCode_stateWords, StencilField.setting?]
  cases s.stencilReference <;> rfl

/-- The culled face of the settings. -/
theorem cullFace?_stateWords (s : RenderSettings) :
    (s.stateWords initial).cullFace? .ccw = some s.cullMode.face? := by
  simp only [cullFace?, RenderSettings.stateWords, RenderSettings.stateWord_and_cullMask]
  cases s.cullMode <;> decide

/-- The blend equations of the settings. -/
theorem blend?_stateWords (s : RenderSettings) :
    (s.stateWords initial).blend? = some s.blendMode.blendState := by
  simp only [blend?, RenderSettings.stateWords, RenderSettings.stateWord_and_blendMask]
  cases s.blendMode <;> decide

/-- The depth test of the settings. -/
theorem depth?_stateWords (s : RenderSettings) (format : DepthFormat) :
    (s.stateWords initial).depth? =
      some ((s.depthStencilState format).depthCompare,
        (s.depthStencilState format).depthWrite) := by
  have hwrite : ((if s.depthWrite then initial.state &&& Bits.writeDepth else 0) != 0) =
      s.depthWrite := by
    cases s.depthWrite <;> decide
  simp only [depth?, RenderSettings.stateWords, RenderSettings.stateWord_and_depthTestMask,
    RenderSettings.stateWord_and_writeDepth, hwrite, RenderSettings.depthStencilState]
  cases s.depthFunction with
  | off => rfl
  | test comparison =>
      have hcode : (Bits.depthTest (.test comparison) >>> 4).toNat = comparison.code := by
        cases comparison <;> decide
      simp only [hcode, if_neg comparison.code_ne_zero, Comparison.ofCode?_code, Option.map_some]

end StateWords

/-! ## Agreement -/

/-- State words and a pipeline state that cull, blend and test depth alike. -/
structure SameDraw (w : StateWords) (p : PipelineState) : Prop where
  cull : w.cullFace? p.primitive.frontFace = some p.primitive.cullFace
  blend : ∃ equations, p.blend = some equations ∧ w.blend? = some equations
  depth : w.depth? = p.depthStencil.map fun d => (d.depthCompare, d.depthWrite)

/-- A stencil operation that is set is the same in both encodings; one that is not set is
{lit}`zero` in the words and {lit}`keep` in the pipeline state. -/
def SameOperation (op : Option StencilOp) (word : Option StencilOperation)
    (pipeline : StencilOperation) : Prop :=
  match op with
  | some _ => word = some pipeline
  | none => word = some .zero ∧ pipeline = .keep

/-- The operation of a field with a default of its own in each encoding. -/
theorem sameOperation_stateWords {s : RenderSettings} {field : StencilField}
    {op : Option StencilOp} (hsetting : field.setting? s = op.map StencilOp.code)
    (hwidth : field.width = 4) :
    SameOperation op ((s.stateWords .initial).stencilOperation? field)
      ((op.map StencilOp.operation).getD .keep) := by
  rw [StateWords.stencilOperation?_stateWords hsetting hwidth]
  cases op with
  | none => exact ⟨rfl, rfl⟩
  | some o => rfl

/-- State words and a pipeline state with the same stencil test as far as it is set. -/
structure SameSetStencil (s : RenderSettings) (w : StateWords) (face : StencilFace)
    (readMask reference : UInt32) : Prop where
  compare : w.stencilCompare? = some face.compare
  fail : SameOperation s.stencilFail (w.stencilOperation? .fail) face.fail
  depthFail : SameOperation s.stencilDepthFail (w.stencilOperation? .depthFail) face.depthFail
  pass : SameOperation s.stencilPass (w.stencilOperation? .pass) face.pass
  mask : match s.stencilMask with
    | some _ => w.stencilCode .readMask = readMask.toNat % 256
    | none => w.stencilCode .readMask = 0 ∧ readMask = 0xff
  reference : w.stencilCode .reference = reference.toNat % 256

/-- The state words of settings over the initial words and their pipeline state cull the
same faces, blend with the same factors and test and write depth alike.  If a stencil
function is set, they compare stencil values alike on both faces, and agree in each
operation and in the mask that is set, and in the reference. -/
theorem stateWords_agree (s : RenderSettings) (format : DepthFormat) :
    SameDraw (s.stateWords .initial) (s.pipelineState (some format)) ∧
    ∀ compare, s.stencilFunction = some compare →
      ∃ d, (s.pipelineState (some format)).depthStencil = some d ∧
        ∀ face ∈ [d.stencil.front, d.stencil.back],
          face.compare = compare ∧
          SameSetStencil s (s.stateWords .initial) face d.stencil.readMask
            (s.pipelineState (some format)).stencilReference := by
  refine ⟨⟨StateWords.cullFace?_stateWords s, ⟨_, rfl, StateWords.blend?_stateWords s⟩,
    StateWords.depth?_stateWords s format⟩, fun compare hcompare => ?_⟩
  have hstencil : ∀ d, d = s.depthStencilState format → d.stencil = s.stencilState := by
    rintro d rfl
    unfold RenderSettings.depthStencilState
    split <;> rfl
  refine ⟨_, rfl, fun face hface => ?_⟩
  rw [hstencil _ rfl, RenderSettings.stencilState, hcompare] at hface ⊢
  obtain rfl : face = ⟨compare, (s.stencilFail.map StencilOp.operation).getD .keep,
      (s.stencilDepthFail.map StencilOp.operation).getD .keep,
      (s.stencilPass.map StencilOp.operation).getD .keep⟩ := by simpa using hface
  refine ⟨rfl, StateWords.stencilCompare?_stateWords hcompare, sameOperation_stateWords rfl rfl,
    sameOperation_stateWords rfl rfl, sameOperation_stateWords rfl rfl, ?_, ?_⟩
  · rw [StateWords.stencilCode_readMask]
    cases s.stencilMask with
    | none => exact ⟨rfl, rfl⟩
    | some m => rfl
  · exact StateWords.stencilCode_reference s

/-- Settings with a stencil test whose reference and mask do not fit eight bits. -/
def stencilSample : RenderSettings :=
  { RenderSettings.initial with
    blendMode := .alpha
    cullMode := .counterClockwise
    stencilFunction := some .equal
    stencilReference := some 0x103
    stencilMask := some 0xf0f
    stencilPass := some .incrSat }

/-- The two encodings of these settings have the same stencil test as far as it is set. -/
theorem stateWords_agree_sample :
    stencilSample.stencilFunction = some .equal ∧
    ∃ d, (stencilSample.pipelineState (some .depth24PlusStencil8)).depthStencil = some d ∧
      ∀ face ∈ [d.stencil.front, d.stencil.back],
        face.compare = .equal ∧
        SameSetStencil stencilSample (stencilSample.stateWords .initial) face d.stencil.readMask
          (stencilSample.pipelineState (some .depth24PlusStencil8)).stencilReference :=
  ⟨rfl, (stateWords_agree stencilSample .depth24PlusStencil8).2 .equal rfl⟩

/-- State words and a pipeline state with the same stencil test. -/
structure SameStencil (w : StateWords) (p : PipelineState) : Prop where
  front : w.stencilFace? = p.depthStencil.map fun d => d.stencil.front
  back : w.stencilFace? = p.depthStencil.map fun d => d.stencil.back
  mask : some (w.stencilCode .readMask) =
    p.depthStencil.map fun d => d.stencil.readMask.toNat % 256
  reference : w.stencilCode .reference = p.stencilReference.toNat % 256

/-- With a stencil function and nothing else the words say that every outcome of the test
sets the stencil value to zero, and the pipeline state that it keeps it: the encodings do
not agree in what is not set. -/
theorem unset_stencil_disagrees :
    ¬∀ (s : RenderSettings) (format : DepthFormat),
      SameDraw (s.stateWords .initial) (s.pipelineState (some format)) ∧
      (s.stencilFunction.isSome = true →
        SameStencil (s.stateWords .initial) (s.pipelineState (some format))) := by
  intro h
  have hsame := (h { RenderSettings.initial with stencilFunction := some .equal }
    .depth24PlusStencil8).2 rfl
  exact absurd hsame.front (by decide)

end Render
end ShaderAssets
