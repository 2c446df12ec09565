import ShaderAssets.Proofs.Shader.Compilation

/-!
# What compiling does to passes

Compiling a shader goes through its passes.  A pass that is settled for the defines is
left alone, and any other gets a variant or a failure, depending on its outcome.  No pass
has an influence on another.

Main results:

- Theorem {lit}`Pass.compile_outcome`: compiling a pass gives its layout.
- Inductive {lit}`Pass.Advances`: what compiling does to one pass.
- Theorem {lit}`Shader.compilePasses_run`: what compiling several passes does to each
  of them.
-/

namespace ShaderAssets

open Source (UniformDeclaration)
open Render (RenderSettings)

namespace Pass

/-! ## One pass -/

/-- Compiling a pass gives a variant with its layout and a new program, or fails and
leaves the programs as they were; the files and older programs stay in either case. -/
theorem compile_outcome (p : Pass) (disk : Disk) (path : String) (index : Nat)
    (declarations : List UniformDeclaration) (defines : Defines) (options : CompileOptions)
    (d : Device) :
    ∃ d', d.Extends d' ∧
      ((∃ v q, (p.compile disk path index declarations defines options d).value = (.ok v, d') ∧
          p.layout? ((d.includeSearch path).resolve disk) declarations defines =
            some (v.bindings.map Binding.shape) ∧
          v.settings = RenderSettings.ofTags p.source.tags defines.text ∧
          v.defines = defines.text ∧ v.definesHash = Defines.hashOf defines.text ∧
          v.program = ⟨d.programs.length⟩ ∧ d'.programs = d.programs ++ [some q]) ∨
        (p.layout? ((d.includeSearch path).resolve disk) declarations defines = none ∧
          d'.programs = d.programs ∧
          ∃ e, (p.compile disk path index declarations defines options d).value =
            (.error e, d'))) := by
  obtain ⟨d', hgrows, ⟨v, hvalue, houtcome, -, hprogram, hmakes⟩ |
    ⟨e, hvalue, houtcome, hnothing⟩⟩ :=
    p.compile_spec disk path index declarations defines options d
  · obtain ⟨hdefines, hhash, hsettings⟩ := of_outcome_eq_ok houtcome
    have hlayout : p.layout? ((d.includeSearch path).resolve disk) declarations defines =
        some (v.bindings.map Binding.shape) := by
      rw [layout?_eq, houtcome]
      simp [Except.toOption, Variant.unnumbered, Function.comp_def]
    exact ⟨d', hgrows.toExtends, Or.inl ⟨v, _, hvalue, hlayout, hsettings, hdefines, hhash,
      hprogram, hmakes.programs⟩⟩
  · have hlayout : p.layout? ((d.includeSearch path).resolve disk) declarations defines =
        none := by
      rw [layout?_eq, houtcome]
      rfl
    exact ⟨d', hgrows.toExtends, Or.inr ⟨hlayout, hnothing.programs, _, hvalue⟩⟩

/-! ## Several passes -/

/-- What compiling does to one pass, with the number of new variants: nothing if the
pass is settled, else it gets a variant with its layout, or a failure. -/
inductive Advances (files : String → Option String) (declarations : List UniformDeclaration)
    (defines : Defines) (p : Pass) (d : Device) : Nat → Pass → Device → Prop where
  | settled (h : p.isSettled defines.hash = true) : Advances files declarations defines p d 0 p d
  | compiled (h : p.isSettled defines.hash = false) {v : Variant} {q : Program} {d' : Device}
      (hlayout : p.layout? files declarations defines = some (v.bindings.map Binding.shape))
      (hsettings : v.settings = RenderSettings.ofTags p.source.tags defines.text)
      (hdefines : v.defines = defines.text) (hhash : v.definesHash = Defines.hashOf defines.text)
      (hprogram : v.program = ⟨d.programs.length⟩)
      (hprograms : d'.programs = d.programs ++ [some q]) :
      Advances files declarations defines p d 1 (p.addVariant v) d'
  | failed (h : p.isSettled defines.hash = false) {d' : Device}
      (hlayout : p.layout? files declarations defines = none)
      (hprograms : d'.programs = d.programs) :
      Advances files declarations defines p d 0 (p.addFailure defines.hash) d'

end Pass

namespace Shader

/-- Compiling a list of passes advances the first one and goes on with the others. -/
theorem compilePasses_step (s : Shader) (disk : Disk) (defines : Defines)
    (options : CompileOptions) (index : Nat) (p : Pass) (ps : List Pass) (d : Device) :
    ∃ n p' d₁, Pass.Advances ((d.includeSearch s.path).resolve disk) s.uniforms defines p d n p' d₁ ∧
      d.Extends d₁ ∧
      (s.compilePasses disk defines options index (p :: ps) d).value =
        let r := (s.compilePasses disk defines options (index + 1) ps d₁).value
        (r.1 + n, p' :: r.2.1, r.2.2) := by
  obtain ⟨n, p', d₁, hstep, hvalue⟩ :=
    s.compilePasses_cons_eq disk defines options index p ps d
  suffices hadvances : Pass.Advances ((d.includeSearch s.path).resolve disk) s.uniforms defines p d
      n p' d₁ ∧ d.Extends d₁ from ⟨n, p', d₁, hadvances.1, hadvances.2, hvalue⟩
  obtain ⟨d', hextends, ⟨v, q, hcompile, hlayout, hsettings, hdefines, hhash, hprogram,
      hprograms⟩ | ⟨hlayout, hprograms, e, hcompile⟩⟩ :=
    p.compile_outcome disk s.path index s.uniforms defines options d
  · cases hstep with
    | settled hsettled => exact ⟨.settled hsettled, .refl d⟩
    | compiled hnew hvalue' =>
        cases hvalue'.symm.trans hcompile
        exact ⟨.compiled hnew hlayout hsettings hdefines hhash hprogram hprograms, hextends⟩
    | failed hnew hvalue' => cases hvalue'.symm.trans hcompile
  · cases hstep with
    | settled hsettled => exact ⟨.settled hsettled, .refl d⟩
    | compiled hnew hvalue' => cases hvalue'.symm.trans hcompile
    | failed hnew hvalue' =>
        cases hvalue'.symm.trans hcompile
        exact ⟨.failed hnew hlayout hprograms, hextends⟩

/-- Compiling passes advances each of them, on a device that extends the first one. -/
theorem compilePasses_run (s : Shader) (disk : Disk) (defines : Defines)
    (options : CompileOptions) (index : Nat) (ps : List Pass) (d : Device) :
    d.Extends (s.compilePasses disk defines options index ps d).value.2.2 ∧
      (s.compilePasses disk defines options index ps d).value.2.1.length = ps.length ∧
      ∀ (i : Nat) (p : Pass), ps[i]? = some p → ∃ p' n d₀ d₁,
        (s.compilePasses disk defines options index ps d).value.2.1[i]? = some p' ∧
        Pass.Advances ((d.includeSearch s.path).resolve disk) s.uniforms defines p d₀ n p' d₁ := by
  induction ps generalizing index d with
  | nil => exact ⟨.refl d, rfl, fun i p hp => by simp at hp⟩
  | cons p ps ih =>
      obtain ⟨n, p', d₁, hadvances, hextends, hvalue⟩ :=
        s.compilePasses_step disk defines options index p ps d
      obtain ⟨hrest, hlength, hpasses⟩ := ih (index + 1) d₁
      rw [hextends.includeSearch] at hpasses
      rw [hvalue]
      refine ⟨hextends.trans hrest, congrArg (· + 1) hlength, ?_⟩
      intro i q hq
      cases i with
      | zero =>
          obtain rfl : p = q := by simpa using hq
          exact ⟨p', n, d, d₁, rfl, hadvances⟩
      | succ i => exact hpasses i q hq

end Shader

end ShaderAssets
