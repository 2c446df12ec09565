import ShaderAssets.Proofs.Shader.Ownership

/-!
# What releasing leaves in place

Releasing passes destroys their programs with the modules of these.  It makes gaps in
the tables of programs and modules and touches nothing else: handles are not given out
again, and all other programs and modules stay.

Main results:

- Structure {lit}`Device.Frees`: a device with more gaps.
- Theorem {lit}`Device.frees_releaseEach`: releasing passes only makes gaps.
- Theorem {lit}`Device.program?_releaseEach`: the programs of others stay.
- Theorem {lit}`Device.module?_releaseEach`: the modules of others stay.
-/

namespace ShaderAssets
namespace Device

/-! ## Gaps -/

/-- A device after programs were destroyed: the places of programs stay, and nothing
but modules and programs is gone. -/
structure Frees (d d' : Device) : Prop where
  rest : d' = { d with modules := d'.modules, programs := d'.programs }
  length_programs : d'.programs.length = d.programs.length
  program?_eq_some : ∀ {x p}, d'.program? x = some p → d.program? x = some p

/-- Nothing has to be destroyed. -/
theorem Frees.refl (d : Device) : Frees d d :=
  ⟨rfl, rfl, id⟩

/-- Programs are destroyed one after the other. -/
theorem Frees.trans {d d' d'' : Device} (h : Frees d d') (h' : Frees d' d'') : Frees d d'' where
  rest := by
    rw [h'.rest, h.rest]
  length_programs := h'.length_programs.trans h.length_programs
  program?_eq_some hp := h.program?_eq_some (h'.program?_eq_some hp)

/-- The files that can be included stay the same. -/
theorem Frees.includeSearch {d d' : Device} (h : Frees d d') (path : String) :
    d'.includeSearch path = d.includeSearch path := by
  rw [h.rest]
  rfl

/-- Uniform handles keep their names. -/
theorem Frees.name? {d d' : Device} (h : Frees d d') (u : UniformHandle) :
    d'.name? u = d.name? u := by
  rw [h.rest]
  rfl

/-- Destroying a program makes gaps. -/
theorem frees_destroyProgram (x : ProgramHandle) (d : Device) :
    d.Frees (d.destroyProgram x).value := by
  unfold destroyProgram
  split
  · refine ⟨rfl, List.length_set, fun {y q} hq => ?_⟩
    exact ((program?_set_none rfl y q).mp hq).2
  · exact .refl d

/-- Destroying the programs of variants makes gaps. -/
theorem frees_destroyAll (vs : List Variant) (d : Device) :
    d.Frees (Pass.destroyAll vs d).value := by
  induction vs generalizing d with
  | nil => exact .refl d
  | cons v vs ih => exact (frees_destroyProgram v.program d).trans (ih _)

/-- Releasing passes makes gaps. -/
theorem frees_releaseEach (ps : List Pass) (d : Device) :
    d.Frees (Pass.releaseEach ps d).value.2 := by
  induction ps generalizing d with
  | nil => exact .refl d
  | cons p ps ih => exact (frees_destroyAll p.variants d).trans (ih _)

/-- Releasing passes does not change which files can be included. -/
theorem includeSearch_releaseEach (ps : List Pass) (d : Device) (path : String) :
    (Pass.releaseEach ps d).value.2.includeSearch path = d.includeSearch path :=
  (frees_releaseEach ps d).includeSearch path

/-! ## Programs of others -/

/-- Destroying a program leaves the others in place. -/
theorem program?_destroyProgram {x y : ProgramHandle} (hne : y ≠ x) (d : Device) :
    (d.destroyProgram x).value.program? y = d.program? y := by
  unfold destroyProgram
  split
  · simp only [Logged.value_pure, program?, join_getElem?_set_none]
    rw [if_neg (ProgramHandle.index_ne hne)]
  · rfl

/-- Destroying the programs of variants leaves the others in place. -/
theorem program?_destroyAll {vs : List Variant} {y : ProgramHandle}
    (h : y ∉ vs.map Variant.program) (d : Device) :
    (Pass.destroyAll vs d).value.program? y = d.program? y := by
  induction vs generalizing d with
  | nil => rfl
  | cons v vs ih =>
      rw [List.map_cons, List.mem_cons, not_or] at h
      exact (ih h.2 _).trans (program?_destroyProgram h.1 d)

/-- Releasing passes leaves the programs of others in place. -/
theorem program?_releaseEach {ps : List Pass} {y : ProgramHandle}
    (h : y ∉ ps.flatMap Pass.programs) (d : Device) :
    (Pass.releaseEach ps d).value.2.program? y = d.program? y := by
  induction ps generalizing d with
  | nil => rfl
  | cons p ps ih =>
      rw [List.flatMap_cons, List.mem_append, not_or] at h
      exact (ih h.2 _).trans (program?_destroyAll h.1 d)

/-! ## Modules of others -/

/-- Destroying a program leaves the modules of others in place. -/
theorem module?_destroyProgram {x : ProgramHandle} {m : ModuleHandle} {d : Device}
    (h : ∀ q, d.program? x = some q → ¬q.owns m) :
    (d.destroyProgram x).value.module? m = d.module? m := by
  unfold destroyProgram
  split
  · rename_i q hq
    have hvertex : m.index ≠ q.vertex.index :=
      ModuleHandle.index_ne fun heq => h q hq (Or.inl heq)
    have hfragment : m.index ≠ q.fragment.index :=
      ModuleHandle.index_ne fun heq => h q hq (Or.inr heq)
    simp only [Logged.value_pure, module?, join_getElem?_set_none]
    rw [if_neg hfragment, if_neg hvertex]
  · rfl

/-- Destroying the programs of variants leaves the modules of others in place. -/
theorem module?_destroyAll {vs : List Variant} {m : ModuleHandle} {d : Device}
    (h : ∀ x ∈ vs.map Variant.program, ∀ q, d.program? x = some q → ¬q.owns m) :
    (Pass.destroyAll vs d).value.module? m = d.module? m := by
  induction vs generalizing d with
  | nil => rfl
  | cons v vs ih =>
      rw [List.map_cons, List.forall_mem_cons] at h
      -- A program that is alive later was alive before and owns the same modules.
      have hfrees := frees_destroyProgram v.program d
      exact (ih fun x hx q hq => h.2 x hx q (hfrees.program?_eq_some hq)).trans
        (module?_destroyProgram h.1)

/-- Releasing passes leaves the modules of others in place. -/
theorem module?_releaseEach {ps : List Pass} {m : ModuleHandle} {d : Device}
    (h : ∀ x ∈ ps.flatMap Pass.programs, ∀ q, d.program? x = some q → ¬q.owns m) :
    (Pass.releaseEach ps d).value.2.module? m = d.module? m := by
  induction ps generalizing d with
  | nil => rfl
  | cons p ps ih =>
      rw [List.flatMap_cons, List.forall_mem_append] at h
      have hfrees := frees_destroyAll p.variants d
      exact (ih fun x hx q hq => h.2 x hx q (hfrees.program?_eq_some hq)).trans
        (module?_destroyAll h.1)

end Device
end ShaderAssets
