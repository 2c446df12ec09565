import ShaderAssets.Proofs.Shader.Ownership
import ShaderAssets.Proofs.Registry.Changes

/-!
# No program leaks

Whatever is done to a registry and its device, the live programs are exactly those
that the variants of the registered shaders hold, and the live modules are exactly
theirs.  So nothing leaks, and no variant holds a program that is gone.

Main results:

- Theorem {lit}`conserves_run`: every call on a shader conserves ownership.
- Theorem {lit}`Reachable.owns`: the registry holds exactly the live programs.
- Theorem {lit}`Reachable.objects_owned`: what this means for programs, modules and
  compilations that fail.
-/

namespace ShaderAssets

/-- The programs that the variants of the registered shaders hold. -/
def Registry.programs (r : Registry) : List ProgramHandle :=
  r.shaders.flatMap Shader.programs

/-! ## Calls on shaders -/

namespace Shader

/-- Every call on a shader conserves ownership. -/
theorem conserves_run (s : Shader) (d : Device) (call : ShaderOperation) :
    Conserves s d (call.run s d).1 (call.run s d).2 := by
  cases call with
  | compileFor disk defines options => exact conserves_compileFor s disk defines options d
  | unload => exact conserves_unload s d
  | loadText text =>
      rw [ShaderOperation.run]
      split
      · rename_i hreleased
        have hnone : s.programs = [] := by
          rw [programs, List.flatMap_eq_nil_iff]
          intro p hp
          have hvariants := List.all_eq_true.mp hreleased p hp
          rw [Pass.programs, List.isEmpty_iff.mp hvariants]
          rfl
        exact .of_programs_eq d ((programs_loadText s text).trans hnone.symm)
      · exact .of_programs_eq d rfl
  | reload disk text definesList options =>
      exact conserves_reload s disk text definesList options d
  | addPass source => exact conserves_addPass s source d
  | erasePass index => exact conserves_erasePass s index d
  | clearPasses => exact conserves_clearPasses s d

end Shader

/-! ## Registered shaders -/

/-- Putting a shader in the place of another exchanges their programs. -/
theorem programs_set_perm {shaders : List Shader} {i : Nat} {s : Shader}
    (h : shaders[i]? = some s) :
    ∃ rest, (shaders.flatMap Shader.programs).Perm (s.programs ++ rest) ∧
      ∀ s', ((shaders.set i s').flatMap Shader.programs).Perm (s'.programs ++ rest) := by
  obtain ⟨hi, rfl⟩ := List.getElem?_eq_some_iff.mp h
  refine ⟨(shaders.take i).flatMap Shader.programs ++
    (shaders.drop (i + 1)).flatMap Shader.programs, ?_, fun s' => ?_⟩
  · conv =>
      lhs
      rw [← List.take_append_drop i shaders, List.drop_eq_getElem_cons hi]
    rw [List.flatMap_append, List.flatMap_cons]
    exact List.perm_append_comm_assoc ..
  · rw [List.set_eq_take_append_cons_drop, if_pos hi, List.flatMap_append, List.flatMap_cons]
    exact List.perm_append_comm_assoc ..

/-- Unloading shaders destroys their programs. -/
theorem Registry.owns_unloadShaders {shaders : List Shader} {d : Device}
    {rest : List ProgramHandle} (h : d.Owns (shaders.flatMap Shader.programs ++ rest)) :
    (unloadShaders shaders d).value.Owns rest := by
  induction shaders generalizing d with
  | nil => exact h
  | cons s shaders ih =>
      rw [List.flatMap_cons, List.append_assoc] at h
      exact ih (s.conserves_unload d _ h)

namespace World

/-- The registry holds exactly the live programs of its device. -/
def Owned (w : World) : Prop :=
  w.device.Owns w.registry.programs

/-- No change breaks the ownership of programs. -/
theorem Owned.changes {w w' : World} (h : w.Owned) (hchanges : Changes w w') : w'.Owned := by
  unfold Owned Registry.programs at h ⊢
  cases hchanges with
  | kept hshaders hsame =>
      rw [hshaders]
      exact h.of_sameObjects hsame
  | placed path text hshaders hsame =>
      have hnew : (Shader.ofText path text).value.programs = [] :=
        Shader.programs_loadText (Shader.unloaded path) text
      rw [hshaders, List.flatMap_append, List.flatMap_singleton, hnew, List.append_nil]
      exact h.of_sameObjects hsame
  | called x s call hs hshaders hsame =>
      obtain ⟨rest, hperm, hperm'⟩ := programs_set_perm hs
      rw [hshaders]
      have howns := s.conserves_run w.device call rest (h.perm hperm)
      exact (howns.of_sameObjects hsame).perm (hperm' _).symm
  | cleared hshaders hsame =>
      rw [hshaders]
      rw [← List.append_nil (w.registry.shaders.flatMap _)] at h
      exact (Registry.owns_unloadShaders h).of_sameObjects hsame

/-- The registry of a reachable world holds exactly the live programs. -/
theorem Reachable.owns {w : World} (h : w.Reachable) : w.Owned :=
  Reachable.invariant (P := Owned) (fun _ _ renderer => Device.Owns.empty renderer)
    (fun w operation howned => howned.changes (changes_step w operation)) h

/-- In a reachable world the live programs are those that the variants of registered
shaders hold, each held by one variant.  The live modules are the two modules of each
live program, and no two programs share one.  Compiling a pass without success makes
nothing that stays alive, and after the registry is cleared nothing is alive. -/
theorem Reachable.objects_owned {w : World} (h : w.Reachable) :
    (∀ x, w.device.isLive x = true ↔ x ∈ w.registry.programs) ∧
      w.registry.programs.Nodup ∧
      (∀ m, (w.device.module? m).isSome = true ↔
        ∃ x p, w.device.program? x = some p ∧ (m = p.vertex ∨ m = p.fragment)) ∧
      (∀ x p, w.device.program? x = some p → p.vertex ≠ p.fragment) ∧
      (∀ x x' p p' m, w.device.program? x = some p → w.device.program? x' = some p' →
        (m = p.vertex ∨ m = p.fragment) → (m = p'.vertex ∨ m = p'.fragment) → x = x') ∧
      w.device.liveModules = 2 * w.device.livePrograms ∧
      (∀ (p : Pass) disk path index declarations defines options e d',
        (p.compile disk path index declarations defines options w.device).value = (.error e, d') →
          (∀ x, d'.program? x = w.device.program? x) ∧
          (∀ m, d'.module? m = w.device.module? m)) ∧
      (w.step .clear).device.livePrograms = 0 ∧ (w.step .clear).device.liveModules = 0 := by
  have howns : w.device.Owns w.registry.programs := h.owns
  have hcleared : (w.step .clear).device.Owns [] := (h.step .clear).owns
  refine ⟨howns.live_iff, howns.nodup, howns.module_iff, howns.distinct, howns.unshared,
    howns.liveModules_eq, ?_, hcleared.programs_count, hcleared.modules_count⟩
  intro p disk path index declarations defines options e d' herror
  rcases p.compile_cases disk path index declarations defines options w.device with
    ⟨e', d₁, hvalue, hsame, -⟩ | ⟨v, d₁, hvalue, -⟩
  · rw [hvalue] at herror
    cases herror
    exact ⟨hsame.program_eq, hsame.module_eq⟩
  · rw [hvalue] at herror
    cases herror

/-- A shader with two passes.  The stages of the second one do not fit: its fragment
stage reads a varying that its vertex stage does not write. -/
def sampleText : String :=
  "\x7bvarying\x7bv u;\x7dvertex\x7bmain()\x7b\x7d\x7dfragment\x7bmain()\x7b\x7d\x7d\x7d" ++
    "\x7bfragment\x7b$input u\nmain()\x7b\x7d\x7d\x7d"

/-- A world after a shader was compiled for a material and its second pass removed. -/
def sample : World :=
  (start "" .standard .noop).run
    [.addShader (.empty []) "a.shader" sampleText, .addMaterial "m" (some ⟨0⟩),
     .compileMaterial (.empty []) ⟨0⟩, .onShader ⟨0⟩ (.erasePass 1)]

/-- The program of the pass that remains is the only live one. -/
theorem objects_owned_sample : sample.Reachable ∧ sample.device.livePrograms = 1 ∧
    sample.device.liveModules = 2 * sample.device.livePrograms := by
  have hreachable : sample.Reachable := (Reachable.start "" .standard .noop).run _
  obtain ⟨-, -, -, -, -, hcount, -⟩ := hreachable.objects_owned
  exact ⟨hreachable, by decide +kernel, hcount⟩

end World
end ShaderAssets
