import ShaderAssets.Proofs.Shader.Cache
import ShaderAssets.Proofs.Shader.Inheritance
import ShaderAssets.Proofs.Shader.Release

/-!
# Histories of a shader

A shader is read from a text and then used with a device: it is compiled, reloaded and
unloaded, and passes are added and removed.  In between, other things may happen to the
device, as long as they leave the programs of the shader alive.  Whatever the history,
the texts of the passes are resolved, no two variants share a program, and every program
that a variant holds is alive.

Main results:

- Inductive {lit}`Shader.Reachable`: the shaders that calls lead to.
- Theorem {lit}`Shader.Reachable.inherited`: their texts are resolved.
- Theorem {lit}`Shader.Reachable.forall_passes`: what holds of a pass without variants
  and is kept by compiling holds of every pass.
- Theorem {lit}`Shader.Reachable.alive`: their programs are alive and differ.
-/

namespace ShaderAssets

/-! ## Devices -/

namespace Device

/-- A live program has a handle that was given out. -/
theorem index_lt_of_isLive {d : Device} {x : ProgramHandle} (h : d.isLive x = true) :
    x.index < d.programs.length := by
  by_cases hlt : x.index < d.programs.length
  · exact hlt
  · rw [isLive, program?, List.getElem?_eq_none (by omega)] at h
    cases h

/-- A program stays alive when more is compiled. -/
theorem Extends.isLive {d d' : Device} (h : d.Extends d') {x : ProgramHandle}
    (hx : d.isLive x = true) : d'.isLive x = true := by
  obtain ⟨p, hp⟩ := Option.isSome_iff_exists.mp hx
  rw [Device.isLive, h.program? hp]
  rfl

end Device

namespace Shader

/-! ## Histories -/

/-- Whether the files that a call can include are known. -/
def Sees (known : (String → Option String) → Prop) (s : Shader) (d : Device) :
    ShaderOperation → Prop
  | .compileFor disk _ _ => known ((d.includeSearch s.path).resolve disk)
  | .reload disk _ _ _ => known ((d.includeSearch s.path).resolve disk)
  | _ => True

/-- The shaders, each with its device, that calls with known files lead to from a text.
A new text may replace the content at any time, and the device may be used elsewhere. -/
inductive Reachable (known : (String → Option String) → Prop) : Shader → Device → Prop where
  | start (path text : String) (d : Device) : Reachable known (ofText path text).value d
  | call {s : Shader} {d : Device} (h : Reachable known s d) (operation : ShaderOperation)
      (hsees : Sees known s d operation) :
      Reachable known (operation.run s d).1 (operation.run s d).2
  | replaced {s : Shader} {d : Device} (h : Reachable known s d) (text : String) :
      Reachable known (s.loadText text).value d
  | elsewhere {s : Shader} {d d' : Device} (h : Reachable known s d)
      (halive : ∀ x ∈ s.programs, d'.isLive x = true) : Reachable known s d'

variable {known : (String → Option String) → Prop} {s : Shader} {d : Device}

/-- Every shader in a history has its caches in order. -/
theorem Reachable.cached (h : Reachable known s d) : s.Cached := by
  induction h with
  | start path text d => exact cached_loadText (unloaded path) text
  | @call s d _ operation _ ih => exact ih.run d operation
  | @replaced s d _ text _ => exact cached_loadText s text
  | elsewhere _ _ ih => exact ih

/-- Reloading is unloading, reading the new text and compiling. -/
theorem run_reload (s : Shader) (d : Device) (disk : Disk) (text : String)
    (definesList : List String) (options : CompileOptions) :
    (ShaderOperation.reload disk text definesList options).run s d =
      (compileEach disk options definesList ((s.unload d).value.1.loadText text).value
        (s.unload d).value.2).value := by
  rw [ShaderOperation.run, reload, Logged.value_bind, Logged.value_bind]

/-! ## Texts -/

/-- The texts of all passes are resolved. -/
def Inherited (s : Shader) : Prop :=
  Pass.Inherited .empty s.passes

/-- The texts of a shader that was just read are resolved. -/
theorem inherited_loadText (s : Shader) (text : String) : (s.loadText text).value.Inherited :=
  Pass.inherited_inheritFrom ..

/-- Removing a pass leaves the passes in front of it and forgets what was compiled for
those behind it. -/
theorem passes_erasePass (s : Shader) (index : Nat) (d : Device) :
    (s.erasePass index d).value.2.1.uniforms = s.uniforms ∧
      ((s.erasePass index d).value.2.1.passes = s.passes ∨
        ∃ later : List Pass, (s.erasePass index d).value.2.1.passes =
          Pass.resolve (s.passes.take index ++ later.map Pass.reset)) := by
  unfold erasePass
  split
  · exact ⟨rfl, Or.inl rfl⟩
  · rename_i removed later _
    refine ⟨rfl, Or.inr ⟨later, ?_⟩⟩
    simp only [Logged.value_bind, Logged.value_pure, Pass.releaseEach_passes]

/-- Compiling for several defines strings leaves the texts. -/
theorem Inherited.compileEach (disk : Disk) (options : CompileOptions) (list : List String)
    {s : Shader} (h : s.Inherited) (d : Device) :
    (compileEach disk options list s d).value.1.Inherited := by
  induction list generalizing s d with
  | nil => exact h
  | cons defines list ih => exact ih (h.congr (s.texts_compilePasses ..)) _

/-- Every call on a shader keeps its texts resolved. -/
theorem Inherited.run {s : Shader} (h : s.Inherited) (d : Device)
    (operation : ShaderOperation) : (operation.run s d).1.Inherited := by
  cases operation with
  | compileFor disk defines options => exact h.congr (s.texts_compilePasses ..)
  | unload => trivial
  | loadText text =>
      rw [ShaderOperation.run]
      split
      · exact s.inherited_loadText text
      · exact h
  | reload disk text definesList options =>
      rw [run_reload]
      exact (inherited_loadText _ text).compileEach disk options definesList _
  | addPass source => exact Pass.inherited_inheritFrom ..
  | erasePass index =>
      have hpasses : ((ShaderOperation.erasePass index).run s d).1.passes =
          (s.erasePass index d).value.2.1.passes := rfl
      rw [Inherited, hpasses]
      rcases (s.passes_erasePass index d).2 with hsame | ⟨later, hlater⟩
      · exact hsame.symm ▸ h
      · exact hlater.symm ▸ Pass.inherited_inheritFrom ..
  | clearPasses => trivial

/-- In every history the texts of the passes are resolved. -/
theorem Reachable.inherited (h : Reachable known s d) : s.Inherited := by
  induction h with
  | start path text d => exact inherited_loadText (unloaded path) text
  | @call s d _ operation _ ih => exact ih.run d operation
  | @replaced s d _ text _ => exact s.inherited_loadText text
  | elsewhere _ _ ih => exact ih

/-! ## Passes -/

/-- Passes that are resolved again behind resolved ones: those in front stay, and the
others keep their variants and failures. -/
theorem mem_resolve_append {ps qs : List Pass} (h : Pass.Inherited .empty ps) {p : Pass}
    (hp : p ∈ Pass.resolve (ps ++ qs)) :
    p ∈ ps ∨ ∃ q ∈ qs, p.variants = q.variants ∧ p.failed = q.failed := by
  obtain ⟨last, hlast⟩ := h.inheritFrom_append qs
  rw [Pass.resolve, hlast] at hp
  exact (List.mem_append.mp hp).imp_right Pass.mem_inheritFrom

section Passes

variable {P : List Source.UniformDeclaration → Pass → Prop}
  (hempty : ∀ declarations p, p.variants = [] → p.failed = [] → P declarations p)
  (hadvances : ∀ files declarations raw p d n p' d', known files → P declarations p →
    Pass.Advances files declarations (Defines.parse raw) p d n p' d' → P declarations p')

include hempty in
/-- What holds of passes without variants holds of a shader that was just read. -/
theorem forall_passes_loadText (s : Shader) (text : String) :
    ∀ p ∈ (s.loadText text).value.passes, P (s.loadText text).value.uniforms p := by
  intro p hp
  obtain ⟨q, hq, hvariants, hfailed⟩ := Pass.mem_inheritFrom hp
  obtain ⟨source, -, rfl⟩ := List.mem_map.mp hq
  exact hempty _ p hvariants hfailed

include hadvances in
/-- What compiling a pass keeps holds after a shader was compiled. -/
theorem forall_passes_compileFor {s : Shader} (h : ∀ p ∈ s.passes, P s.uniforms p)
    {disk : Disk} {d : Device} (hknown : known ((d.includeSearch s.path).resolve disk))
    (raw : String) (options : CompileOptions) :
    ∀ p ∈ (s.compileFor disk raw options d).value.2.1.passes, P s.uniforms p := by
  intro p' hp'
  obtain ⟨-, hlength, hpasses⟩ :=
    s.compilePasses_run disk (Defines.parse raw) options 0 s.passes d
  obtain ⟨i, hi, rfl⟩ := List.mem_iff_getElem.mp hp'
  have hlt : i < s.passes.length := hlength ▸ hi
  obtain ⟨p', n, d₀, d₁, hp', hadvanced⟩ := hpasses i s.passes[i] (List.getElem?_eq_getElem hlt)
  have heq : (s.compileFor disk raw options d).value.2.1.passes[i] = p' :=
    Option.some.inj ((List.getElem?_eq_getElem hi).symm.trans hp')
  rw [heq]
  exact hadvances _ _ raw _ d₀ n p' d₁ hknown (h _ (List.getElem_mem hlt)) hadvanced

include hadvances in
/-- What compiling a pass keeps holds after a shader was compiled several times. -/
theorem forall_passes_compileEach (disk : Disk) (options : CompileOptions) (list : List String)
    {s : Shader} (h : ∀ p ∈ s.passes, P s.uniforms p) {d : Device}
    (hknown : known ((d.includeSearch s.path).resolve disk)) :
    ∀ p ∈ (compileEach disk options list s d).value.1.passes,
      P (compileEach disk options list s d).value.1.uniforms p := by
  induction list generalizing s d with
  | nil => exact h
  | cons raw list ih =>
      refine ih (s := (s.compileFor disk raw options d).value.2.1)
        (forall_passes_compileFor hadvances h hknown raw options) ?_
      have hextends := (s.compilePasses_run disk (Defines.parse raw) options 0 s.passes d).1
      exact (hextends.includeSearch s.path).symm ▸ hknown

include hempty hadvances in
/-- A property of passes that holds without variants and is kept by compiling holds of
every pass in a history. -/
theorem Reachable.forall_passes (h : Reachable known s d) : ∀ p ∈ s.passes, P s.uniforms p := by
  induction h with
  | start path text d => exact forall_passes_loadText hempty (unloaded path) text
  | @replaced s d _ text _ => exact forall_passes_loadText hempty s text
  | elsewhere _ _ ih => exact ih
  | @call s d hs operation hsees ih =>
      cases operation with
      | compileFor disk raw options => exact forall_passes_compileFor hadvances ih hsees raw options
      | unload => exact fun p hp => absurd hp List.not_mem_nil
      | clearPasses => exact fun p hp => absurd hp List.not_mem_nil
      | loadText text =>
          rw [ShaderOperation.run]
          split
          · exact forall_passes_loadText hempty s text
          · exact ih
      | reload disk text definesList options =>
          rw [run_reload]
          refine forall_passes_compileEach hadvances disk options definesList
            (forall_passes_loadText hempty (s.unload d).value.1 text) ?_
          exact (Device.includeSearch_releaseEach s.passes d s.path).symm ▸ hsees
      | addPass source =>
          intro p hp
          rcases mem_resolve_append hs.inherited hp with hp | ⟨q, hq, hvariants, hfailed⟩
          · exact ih p hp
          · obtain rfl := List.mem_singleton.mp hq
            exact hempty _ p hvariants hfailed
      | erasePass index =>
          have hrun : ((ShaderOperation.erasePass index).run s d).1 =
            (s.erasePass index d).value.2.1 := rfl
          obtain ⟨huniforms, hpasses⟩ := s.passes_erasePass index d
          intro p hp
          rw [hrun] at hp ⊢
          rw [huniforms]
          rcases hpasses with hsame | ⟨later, hlater⟩
          · exact ih p (hsame ▸ hp)
          · rw [hlater] at hp
            rcases mem_resolve_append (hs.inherited.take index) hp with
              hp | ⟨q, hq, hvariants, hfailed⟩
            · exact ih p (List.mem_of_mem_take hp)
            · obtain ⟨removed, -, rfl⟩ := List.mem_map.mp hq
              exact hempty _ p hvariants hfailed

end Passes

/-! ## Programs -/

/-- The programs of a shader are alive, and each is held once. -/
structure Alive (s : Shader) (d : Device) : Prop where
  nodup : s.programs.Nodup
  live : ∀ x ∈ s.programs, d.isLive x = true

/-- A shader without programs has no dead ones. -/
theorem Alive.of_programs_nil {s : Shader} (h : s.programs = []) (d : Device) : s.Alive d where
  nodup := by rw [h]; exact List.nodup_nil
  live x hx := by rw [h] at hx; cases hx

/-- An advanced pass holds its old programs and perhaps the next one of the device, all
of them alive. -/
theorem alive_advances {files : String → Option String}
    {declarations : List Source.UniformDeclaration} {defines : Defines} {p p' : Pass}
    {d d' : Device} {n : Nat} (h : Pass.Advances files declarations defines p d n p' d')
    (hextends : d.Extends d') (hnodup : p.programs.Nodup)
    (hlive : ∀ x ∈ p.programs, d.isLive x = true) :
    p'.programs.Nodup ∧ ∀ x ∈ p'.programs,
      d'.isLive x = true ∧ (x ∈ p.programs ∨ x.index = d.programs.length) := by
  have hold : ∀ x ∈ p.programs,
      d'.isLive x = true ∧ (x ∈ p.programs ∨ x.index = d.programs.length) :=
    fun x hx => ⟨hextends.isLive (hlive x hx), Or.inl hx⟩
  cases h with
  | settled _ => exact ⟨hnodup, hold⟩
  | failed _ _ _ => exact ⟨hnodup, hold⟩
  | compiled _ _ _ _ _ hprogram hprograms =>
      rw [Pass.programs_addVariant, hprogram]
      constructor
      · refine List.nodup_append.mpr ⟨hnodup, by simp, ?_⟩
        rintro x hx y hy rfl
        obtain rfl := List.mem_singleton.mp hy
        exact absurd (Device.index_lt_of_isLive (hlive _ hx)) (Nat.lt_irrefl _)
      · intro x hx
        rcases List.mem_append.mp hx with hx | hx
        · exact hold x hx
        · obtain rfl := List.mem_singleton.mp hx
          refine ⟨?_, Or.inr rfl⟩
          simp [Device.isLive, Device.program?, hprograms]

/-- Compiling passes keeps their programs alive and different; what is new has a new
handle. -/
theorem alive_compilePasses (s : Shader) (disk : Disk) (defines : Defines)
    (options : CompileOptions) (index : Nat) {ps : List Pass} {d : Device}
    (hnodup : (ps.flatMap Pass.programs).Nodup)
    (hlive : ∀ x ∈ ps.flatMap Pass.programs, d.isLive x = true) :
    ((s.compilePasses disk defines options index ps d).value.2.1.flatMap Pass.programs).Nodup ∧
      ∀ x ∈ (s.compilePasses disk defines options index ps d).value.2.1.flatMap Pass.programs,
        (s.compilePasses disk defines options index ps d).value.2.2.isLive x = true ∧
          (x ∈ ps.flatMap Pass.programs ∨ d.programs.length ≤ x.index) := by
  induction ps generalizing index d with
  | nil => exact ⟨List.nodup_nil, fun x hx => by cases hx⟩
  | cons p ps ih =>
      obtain ⟨n, p', d₁, hadvances, hextends, hvalue⟩ :=
        s.compilePasses_step disk defines options index p ps d
      rw [List.flatMap_cons, List.nodup_append] at hnodup
      obtain ⟨hnodup_p, hnodup_ps, hdisjoint⟩ := hnodup
      simp only [List.flatMap_cons, List.mem_append] at hlive ⊢
      obtain ⟨hfirst, hmem⟩ := alive_advances hadvances hextends hnodup_p
        fun x hx => hlive x (Or.inl hx)
      obtain ⟨hrest, hmem_rest⟩ := ih (index + 1) hnodup_ps
        fun x hx => hextends.isLive (hlive x (Or.inr hx))
      have hend := (s.compilePasses_run disk defines options (index + 1) ps d₁).1
      have hgrows : d.programs.length ≤ d₁.programs.length := hextends.programs.length_le
      rw [hvalue]
      simp only [List.flatMap_cons, List.nodup_append, List.mem_append]
      refine ⟨⟨hfirst, hrest, ?_⟩, ?_⟩
      · -- A handle that is new to the later passes was not given out when the first was done.
        rintro x hx y hy rfl
        have hx_lt := Device.index_lt_of_isLive (hmem x hx).1
        rcases (hmem_rest x hy).2 with hy | hnew
        · have hx_old := Device.index_lt_of_isLive (hlive x (Or.inr hy))
          rcases (hmem x hx).2 with hx | hx
          · exact hdisjoint x hx x hy rfl
          · omega
        · omega
      · rintro x (hx | hx)
        · refine ⟨hend.isLive (hmem x hx).1, ?_⟩
          rcases (hmem x hx).2 with hx | hx
          · exact Or.inl (Or.inl hx)
          · exact Or.inr (by omega)
        · refine ⟨(hmem_rest x hx).1, ?_⟩
          rcases (hmem_rest x hx).2 with hx | hx
          · exact Or.inl (Or.inr hx)
          · exact Or.inr (by omega)

/-- Compiling for a defines string keeps the programs alive. -/
theorem Alive.compileFor {s : Shader} {d : Device} (h : s.Alive d) (disk : Disk)
    (defines : String) (options : CompileOptions) :
    (s.compileFor disk defines options d).value.2.1.Alive
      (s.compileFor disk defines options d).value.2.2 := by
  obtain ⟨hnodup, hlive⟩ :=
    s.alive_compilePasses disk (Defines.parse defines) options 0 h.nodup h.live
  exact ⟨hnodup, fun x hx => (hlive x hx).1⟩

/-- Compiling for several defines strings keeps the programs alive. -/
theorem Alive.compileEach (disk : Disk) (options : CompileOptions) (list : List String)
    {s : Shader} {d : Device} (h : s.Alive d) :
    (compileEach disk options list s d).value.1.Alive
      (compileEach disk options list s d).value.2 := by
  induction list generalizing s d with
  | nil => exact h
  | cons defines list ih => exact ih (h.compileFor disk defines options)

/-- Removing a pass keeps the programs of the passes in front of it alive. -/
theorem Alive.erasePass {s : Shader} {d : Device} (h : s.Alive d) (index : Nat) :
    (s.erasePass index d).value.2.1.Alive (s.erasePass index d).value.2.2 := by
  unfold Shader.erasePass
  split
  · exact h
  · rename_i removed later hdrop
    have hpasses : s.passes = s.passes.take index ++ removed :: later := by
      rw [← hdrop, List.take_append_drop]
    have hprograms : s.programs = (s.passes.take index).flatMap Pass.programs ++
        (removed.programs ++ later.flatMap Pass.programs) := by
      rw [programs]
      conv =>
        lhs
        rw [hpasses]
      rw [List.flatMap_append, List.flatMap_cons]
    have hnodup := h.nodup
    rw [hprograms, List.nodup_append] at hnodup
    obtain ⟨hkept, -, hdisjoint⟩ := hnodup
    have hvalue : (Pass.resolve (s.passes.take index ++ later.map Pass.reset)).flatMap
        Pass.programs = (s.passes.take index).flatMap Pass.programs := by
      rw [Pass.programs_resolve, List.flatMap_append, List.flatMap_map]
      simp
    simp only [Logged.value_bind, Logged.value_pure, Pass.releaseEach_passes]
    refine ⟨?_, fun x hx => ?_⟩
    · rw [programs, hvalue]
      exact hkept
    · rw [programs, hvalue] at hx
      have hremoved : x ∉ removed.programs := fun hmem =>
        hdisjoint x hx x (List.mem_append_left _ hmem) rfl
      have hlater : x ∉ later.flatMap Pass.programs := fun hmem =>
        hdisjoint x hx x (List.mem_append_right _ hmem) rfl
      rw [Device.isLive, Device.program?_releaseEach hlater]
      exact (Device.program?_destroyAll hremoved d).symm ▸
        h.live x (hprograms ▸ List.mem_append_left _ hx)

/-- Every call keeps the programs of a shader alive. -/
theorem Alive.run {s : Shader} {d : Device} (h : s.Alive d) (operation : ShaderOperation) :
    (operation.run s d).1.Alive (operation.run s d).2 := by
  cases operation with
  | compileFor disk defines options => exact h.compileFor disk defines options
  | unload => exact .of_programs_nil rfl _
  | loadText text =>
      rw [ShaderOperation.run]
      split
      · exact .of_programs_nil (s.programs_loadText text) d
      · exact h
  | reload disk text definesList options =>
      rw [run_reload]
      exact Alive.compileEach disk options definesList
        (.of_programs_nil (programs_loadText (s.unload d).value.1 text) (s.unload d).value.2)
  | addPass source =>
      have hprograms : (s.addPass source).2.programs = s.programs := by
        simp [Shader.addPass, programs]
      exact ⟨hprograms ▸ h.nodup, fun x hx => h.live x (hprograms ▸ hx)⟩
  | erasePass index => exact h.erasePass index
  | clearPasses => exact .of_programs_nil rfl _

/-- In every history the programs of the shader are alive. -/
theorem Reachable.alive (h : Reachable known s d) : s.Alive d := by
  induction h with
  | start path text d => exact .of_programs_nil (programs_loadText (unloaded path) text) d
  | call _ operation _ ih => exact ih.run operation
  | @replaced s d _ text _ => exact .of_programs_nil (programs_loadText s text) d
  | elsewhere _ halive ih => exact ⟨ih.nodup, halive⟩

end Shader
end ShaderAssets
