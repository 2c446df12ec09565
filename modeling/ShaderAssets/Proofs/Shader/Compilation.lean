import ShaderAssets.Proofs.Device.Ownership
import ShaderAssets.Proofs.Shader.Outcome

/-!
# What compiling a pass leaves behind

Compiling a pass either fails and leaves the objects of the device as they were, or
makes one program with two modules, which the new variant holds.  Nothing is ever
recorded on the way.

Main results:

- Theorem {lit}`Pass.compile_cases`: compiling a pass.
- Theorem {lit}`Shader.compilePasses_cons_eq`: compiling several passes takes one step
  after the other.
- Theorem {lit}`Shader.compilePasses_cons`: each step settles its pass.
-/

namespace ShaderAssets

namespace Device

/-- Gaps among the modules are no objects. -/
theorem SameObjects.of_gaps {d d' : Device}
    (hmodules : d'.modules = d.modules ++ [none] ++ [none])
    (hprograms : d'.programs = d.programs) : SameObjects d d' where
  module_eq m := by
    rw [module?, hmodules, join_getElem?_concat, join_getElem?_concat, module?]
    split
    · rename_i hm
      rw [List.length_append, List.length_singleton] at hm
      rw [List.getElem?_eq_none (by omega)]
      rfl
    · split
      · rw [List.getElem?_eq_none (by omega)]
        rfl
      · rfl
  program_eq h := by
    rw [program?, hprograms, program?]
  modules_count := by
    rw [liveModules, hmodules, List.countP_append, List.countP_append, liveModules]
    rfl
  programs_count := by
    rw [livePrograms, hprograms, livePrograms]

end Device

namespace Pass

/-! ## One pass -/

/-- Compiling a pass either fails and leaves the objects as they were, or gives a
variant for the defines that holds a new program.  Neither records anything. -/
theorem compile_cases (p : Pass) (disk : Disk) (path : String) (index : Nat)
    (declarations : List Source.UniformDeclaration) (defines : Defines)
    (options : CompileOptions) (d : Device) :
    (∃ e d', (p.compile disk path index declarations defines options d).value = (.error e, d') ∧
      d.SameObjects d' ∧ d'.events = d.events) ∨
    ∃ v d', (p.compile disk path index declarations defines options d).value = (.ok v, d') ∧
      v.defines = defines.text ∧ v.definesHash = Defines.hashOf defines.text ∧
      (∀ held, d.Owns held → d'.Owns (v.program :: held)) ∧ d'.events = d.events := by
  obtain ⟨d', hgrows, ⟨v, hvalue, houtcome, -, hprogram, hmakes⟩ | ⟨e, hvalue, -, hnothing⟩⟩ :=
    p.compile_spec disk path index declarations defines options d
  · obtain ⟨hdefines, hhash, -⟩ := of_outcome_eq_ok houtcome
    obtain ⟨w, f, hmodules⟩ := hmakes.modules
    refine Or.inr ⟨v, d', hvalue, hdefines, hhash, fun held howns => ?_, hgrows.events⟩
    exact hprogram ▸ howns.create hmodules hmakes.programs
  · refine Or.inl ⟨_, d', hvalue, ?_, hgrows.events⟩
    rcases hnothing.modules with hsame | hgaps
    · exact .of_eq hsame hnothing.programs
    · exact .of_gaps hgaps hnothing.programs

/-- One step of compiling several passes, with the number of new variants: nothing if
the pass is settled, else it is compiled and gets the variant or a failure. -/
inductive Steps (p : Pass) (disk : Disk) (path : String) (index : Nat)
    (declarations : List Source.UniformDeclaration) (defines : Defines)
    (options : CompileOptions) (d : Device) : Nat → Pass → Device → Prop where
  | settled (h : p.isSettled defines.hash = true) :
      Steps p disk path index declarations defines options d 0 p d
  | compiled (h : p.isSettled defines.hash = false) {v : Variant} {d' : Device}
      (hvalue : (p.compile disk path index declarations defines options d).value = (.ok v, d')) :
      Steps p disk path index declarations defines options d 1 (p.addVariant v) d'
  | failed (h : p.isSettled defines.hash = false) {e : ShaderError} {d' : Device}
      (hvalue : (p.compile disk path index declarations defines options d).value =
        (.error e, d')) :
      Steps p disk path index declarations defines options d 0 (p.addFailure defines.hash) d'

end Pass

/-- Compiling a list of passes takes a step with the first one and goes on with the
others. -/
theorem Shader.compilePasses_cons_eq (s : Shader) (disk : Disk) (defines : Defines)
    (options : CompileOptions) (index : Nat) (p : Pass) (ps : List Pass) (d : Device) :
    ∃ n p' d₁, p.Steps disk s.path index s.uniforms defines options d n p' d₁ ∧
      (s.compilePasses disk defines options index (p :: ps) d).value =
        let r := (s.compilePasses disk defines options (index + 1) ps d₁).value
        (r.1 + n, p' :: r.2.1, r.2.2) := by
  rw [compilePasses]
  cases hsettled : p.isSettled defines.hash with
  | true =>
      rw [if_pos rfl]
      exact ⟨0, p, d, .settled hsettled, rfl⟩
  | false =>
      rw [if_neg Bool.false_ne_true]
      simp only [Logged.value_bind]
      rcases hvalue : (p.compile disk s.path index s.uniforms defines options d).value with
        ⟨result, d₁⟩
      cases result with
      | ok v => exact ⟨1, _, d₁, .compiled hsettled hvalue, rfl⟩
      | error e => exact ⟨0, _, d₁, .failed hsettled hvalue, rfl⟩

namespace Pass

/-! ## Settling -/

/-- What settling a pass for a set of defines does, with the number of new variants:
nothing if the pass is settled, else it gets a variant or a failure. -/
inductive Settles (defines : Defines) (p : Pass) (d : Device) : Nat → Pass → Device → Prop where
  | settled (h : p.isSettled defines.hash = true) : Settles defines p d 0 p d
  | compiled (h : p.isSettled defines.hash = false) {v : Variant} {d' : Device}
      (hdefines : v.defines = defines.text) (hhash : v.definesHash = Defines.hashOf defines.text)
      (howns : ∀ held, d.Owns held → d'.Owns (v.program :: held))
      (hevents : d'.events = d.events) : Settles defines p d 1 (p.addVariant v) d'
  | failed (h : p.isSettled defines.hash = false) {d' : Device} (hsame : d.SameObjects d')
      (hevents : d'.events = d.events) : Settles defines p d 0 (p.addFailure defines.hash) d'

end Pass

namespace Shader

/-- Compiling a list of passes settles the first one and goes on with the others. -/
theorem compilePasses_cons (s : Shader) (disk : Disk) (defines : Defines)
    (options : CompileOptions) (index : Nat) (p : Pass) (ps : List Pass) (d : Device) :
    ∃ n p' d₁, Pass.Settles defines p d n p' d₁ ∧
      (s.compilePasses disk defines options index (p :: ps) d).value =
        let r := (s.compilePasses disk defines options (index + 1) ps d₁).value
        (r.1 + n, p' :: r.2.1, r.2.2) := by
  obtain ⟨n, p', d₁, hstep, hvalue⟩ :=
    s.compilePasses_cons_eq disk defines options index p ps d
  refine ⟨n, p', d₁, ?_, hvalue⟩
  cases hstep with
  | settled hsettled => exact .settled hsettled
  | compiled hnew hcompile =>
      rcases p.compile_cases disk s.path index s.uniforms defines options d with
        ⟨e, d', hvalue', -⟩ | ⟨v, d', hvalue', hdefines, hhash, howns, hevents⟩
      · cases hcompile.symm.trans hvalue'
      · cases hcompile.symm.trans hvalue'
        exact .compiled hnew hdefines hhash howns hevents
  | failed hnew hcompile =>
      rcases p.compile_cases disk s.path index s.uniforms defines options d with
        ⟨e, d', hvalue', hsame, hevents⟩ | ⟨v, d', hvalue', -⟩
      · cases hcompile.symm.trans hvalue'
        exact .failed hnew hsame hevents
      · cases hcompile.symm.trans hvalue'

end Shader
end ShaderAssets
