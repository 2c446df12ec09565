import ShaderAssets.Proofs.Shader.Compilation

/-!
# Programs held by shaders

The variants of a shader's passes hold programs.  Whatever is done to a shader, the
device still holds exactly the programs of the shader and those held elsewhere:
compiling adds what it makes, and programs are destroyed when their passes are
replaced or removed.

Main results:

- Definition {lit}`Shader.Conserves`: an operation on a shader keeps the ownership of
  programs.
- Theorem {lit}`conserves_compileFor`: compiling for a defines string does.
- Theorem {lit}`conserves_reload`: reloading does.
- Theorem {lit}`conserves_erasePass`: removing a pass does.
-/

namespace ShaderAssets

/-- The programs that the variants of a pass hold. -/
def Pass.programs (p : Pass) : List ProgramHandle :=
  p.variants.map Variant.program

/-- The programs that the passes of a shader hold. -/
def Shader.programs (s : Shader) : List ProgramHandle :=
  s.passes.flatMap Pass.programs

/-- The variants of all passes of a shader. -/
def Shader.variants (s : Shader) : List Variant :=
  s.passes.flatMap Pass.variants

/-! ## Passes -/

namespace Pass

@[simp]
theorem programs_addVariant (p : Pass) (v : Variant) :
    (p.addVariant v).programs = p.programs ++ [v.program] := by
  simp [programs, addVariant]

@[simp]
theorem programs_reset (p : Pass) : p.reset.programs = [] :=
  rfl

@[simp]
theorem programs_ofSource (source : Source.PassSource) : (ofSource source).programs = [] :=
  rfl

/-- The programs that passes hold are those of their variants. -/
theorem flatMap_programs (ps : List Pass) :
    ps.flatMap programs = (ps.flatMap variants).map Variant.program :=
  List.map_flatMap.symm

/-- Inheriting texts leaves the variants in place. -/
theorem variants_inheritFrom (before : StageTexts) (ps : List Pass) :
    (inheritFrom before ps).flatMap variants = ps.flatMap variants := by
  induction ps generalizing before with
  | nil => rfl
  | cons p ps ih => rw [inheritFrom, List.flatMap_cons, List.flatMap_cons, ih]

/-- Resolving the texts of passes leaves the variants in place. -/
@[simp]
theorem variants_resolve (ps : List Pass) :
    (resolve ps).flatMap variants = ps.flatMap variants :=
  variants_inheritFrom .empty ps

/-- Resolving the texts of passes leaves the programs in place. -/
@[simp]
theorem programs_resolve (ps : List Pass) :
    (resolve ps).flatMap programs = ps.flatMap programs := by
  rw [flatMap_programs, variants_resolve, ← flatMap_programs]

/-- Destroying the programs of variants leaves those held elsewhere. -/
theorem owns_destroyAll {vs : List Variant} {d : Device} {rest : List ProgramHandle}
    (h : d.Owns (vs.map Variant.program ++ rest)) : (destroyAll vs d).value.Owns rest := by
  induction vs generalizing d with
  | nil => exact h
  | cons v vs ih => exact ih h.destroy

/-- Releasing passes destroys their programs and leaves those held elsewhere. -/
theorem owns_releaseEach {ps : List Pass} {d : Device} {rest : List ProgramHandle}
    (h : d.Owns (ps.flatMap programs ++ rest)) : (releaseEach ps d).value.2.Owns rest := by
  induction ps generalizing d with
  | nil => exact h
  | cons p ps ih =>
      rw [List.flatMap_cons, List.append_assoc] at h
      exact ih (owns_destroyAll h)

/-- Released passes forget what was compiled. -/
theorem releaseEach_passes (ps : List Pass) (d : Device) :
    (releaseEach ps d).value.1 = ps.map reset := by
  induction ps generalizing d with
  | nil => rfl
  | cons p ps ih => exact congrArg (p.reset :: ·) (ih _)

end Pass

/-! ## Operations on a shader -/

namespace Shader

/-- An operation turns a shader and a device into others that fit together as before:
what is held elsewhere stays held. -/
def Conserves (s : Shader) (d : Device) (s' : Shader) (d' : Device) : Prop :=
  ∀ rest, d.Owns (s.programs ++ rest) → d'.Owns (s'.programs ++ rest)

/-- Operations may follow each other. -/
theorem Conserves.trans {s s' s'' : Shader} {d d' d'' : Device} (h : Conserves s d s' d')
    (h' : Conserves s' d' s'' d'') : Conserves s d s'' d'' :=
  fun rest howns => h' rest (h rest howns)

/-- A change that touches no program may follow. -/
theorem Conserves.of_programs_eq {s s' : Shader} (d : Device) (h : s'.programs = s.programs) :
    Conserves s d s' d := by
  intro rest howns
  rw [h]
  exact howns

/-- Settling a pass adds the program that is made. -/
theorem owns_settles {defines : Defines} {p p' : Pass} {d d' : Device} {n : Nat}
    (hsettles : Pass.Settles defines p d n p' d') {rest : List ProgramHandle}
    (h : d.Owns (p.programs ++ rest)) : d'.Owns (p'.programs ++ rest) := by
  cases hsettles with
  | settled _ => exact h
  | compiled _ _ _ howns _ =>
      rw [Pass.programs_addVariant, List.append_assoc]
      exact (howns _ h).perm List.perm_middle.symm
  | failed _ hsame _ => exact h.of_sameObjects hsame

/-- Compiling passes adds the programs that are made. -/
theorem owns_compilePasses (s : Shader) (disk : Disk) (defines : Defines)
    (options : CompileOptions) {ps : List Pass} (index : Nat) {d : Device}
    {rest : List ProgramHandle} (h : d.Owns (ps.flatMap Pass.programs ++ rest)) :
    (s.compilePasses disk defines options index ps d).value.2.2.Owns
      ((s.compilePasses disk defines options index ps d).value.2.1.flatMap Pass.programs ++
        rest) := by
  induction ps generalizing index d rest with
  | nil => exact h
  | cons p ps ih =>
      obtain ⟨n, p', d₁, hsettles, hvalue⟩ := s.compilePasses_cons disk defines options index p ps d
      rw [List.flatMap_cons, List.append_assoc] at h
      have hfirst := owns_settles hsettles h
      have hmore := ih (index + 1) (hfirst.perm (List.perm_append_comm_assoc ..))
      rw [hvalue, List.flatMap_cons, List.append_assoc]
      exact hmore.perm (List.perm_append_comm_assoc ..)

/-- Compiling for a defines string conserves ownership. -/
theorem conserves_compileFor (s : Shader) (disk : Disk) (defines : String)
    (options : CompileOptions) (d : Device) :
    Conserves s d (s.compileFor disk defines options d).value.2.1
      (s.compileFor disk defines options d).value.2.2 :=
  fun _ h => owns_compilePasses s disk (Defines.parse defines) options 0 h

/-- Compiling for several defines strings conserves ownership. -/
theorem conserves_compileEach (disk : Disk) (options : CompileOptions) (list : List String)
    (s : Shader) (d : Device) :
    Conserves s d (compileEach disk options list s d).value.1
      (compileEach disk options list s d).value.2 := by
  induction list generalizing s d with
  | nil => exact .of_programs_eq d rfl
  | cons defines list ih => exact (conserves_compileFor s disk defines options d).trans (ih _ _)

/-- The programs of a shader are those of its variants. -/
theorem programs_eq (s : Shader) : s.programs = s.variants.map Variant.program :=
  Pass.flatMap_programs s.passes

/-- A shader that was just read has no variant. -/
@[simp]
theorem variants_loadText (s : Shader) (text : String) : (s.loadText text).value.variants = [] := by
  have hvalue : (s.loadText text).value.variants =
      (Pass.resolve ((Source.ShaderSource.parse text).source.passes.map Pass.ofSource)).flatMap
        Pass.variants := rfl
  rw [hvalue, Pass.variants_resolve, List.flatMap_map]
  simp [Pass.ofSource]

/-- A shader that was just read holds no program. -/
theorem programs_loadText (s : Shader) (text : String) : (s.loadText text).value.programs = [] := by
  rw [programs_eq, variants_loadText, List.map_nil]

/-- Unloading destroys the programs of a shader. -/
theorem conserves_unload (s : Shader) (d : Device) :
    Conserves s d (s.unload d).value.1 (s.unload d).value.2 :=
  fun _ h => Pass.owns_releaseEach h

/-- Reloading destroys the programs of the old content and adds those of the new. -/
theorem conserves_reload (s : Shader) (disk : Disk) (text : String) (list : List String)
    (options : CompileOptions) (d : Device) :
    Conserves s d (s.reload disk text list options d).value.1
      (s.reload disk text list options d).value.2 := by
  have hload : Conserves (s.unload d).value.1 (s.unload d).value.2
      ((s.unload d).value.1.loadText text).value (s.unload d).value.2 :=
    .of_programs_eq _ (programs_loadText _ text)
  exact ((conserves_unload s d).trans hload).trans (conserves_compileEach disk options list _ _)

/-- Adding a pass touches no program. -/
theorem conserves_addPass (s : Shader) (source : Source.PassSource) (d : Device) :
    Conserves s d (s.addPass source).2 d := by
  apply Conserves.of_programs_eq
  simp [addPass, programs]

/-- Removing a pass destroys its programs and those of the passes behind it. -/
theorem conserves_erasePass (s : Shader) (index : Nat) (d : Device) :
    Conserves s d (s.erasePass index d).value.2.1 (s.erasePass index d).value.2.2 := by
  intro rest h
  unfold erasePass
  split
  · exact h
  · rename_i removed later hdrop
    have hpasses : s.passes = s.passes.take index ++ removed :: later := by
      rw [← hdrop, List.take_append_drop]
    have hsplit : s.programs ++ rest = (s.passes.take index).flatMap Pass.programs ++
        (removed.programs ++ (later.flatMap Pass.programs ++ rest)) := by
      rw [programs]
      conv =>
        lhs
        rw [hpasses]
      simp
    have hperm : (s.programs ++ rest).Perm (removed.programs ++ (later.flatMap Pass.programs ++
        ((s.passes.take index).flatMap Pass.programs ++ rest))) := by
      rw [hsplit]
      refine (List.perm_append_comm_assoc ..).trans ?_
      exact List.Perm.append_left _ (List.perm_append_comm_assoc ..)
    have hkept := Pass.owns_releaseEach (Pass.owns_destroyAll (h.perm hperm))
    have hprograms : ((Pass.resolve (s.passes.take index ++ later.map Pass.reset)).flatMap
        Pass.programs) = (s.passes.take index).flatMap Pass.programs := by
      rw [Pass.programs_resolve, List.flatMap_append, List.flatMap_map]
      simp
    simp only [Logged.value_bind, Logged.value_pure, Pass.releaseEach_passes, programs, hprograms]
    exact hkept

/-- Removing every pass destroys their programs. -/
theorem conserves_clearPasses (s : Shader) (d : Device) :
    Conserves s d (s.clearPasses d).value.1 (s.clearPasses d).value.2 :=
  fun _ h => Pass.owns_releaseEach h

end Shader
end ShaderAssets
