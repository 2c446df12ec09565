import ShaderAssets.Proofs.Device.Calls
import ShaderAssets.Proofs.Registry.Operation
import ShaderAssets.Proofs.Shader.Ownership

/-!
# Where variants come from

Whatever is done to a shader, the device is only called, and a variant that is there
afterwards was there before or binds what its modules reflected when it was compiled.  If its
program is still alive, its modules are too and reflect the same, and the handles are those
of the same names.

Main results:

- Structure {lit}`Provenance`: where the variants after a change come from.
- Theorem {lit}`Shader.provenance_run`: every call on a shader accounts for its variants.
- Theorem {lit}`Variant.Reflected.follows`: a variant with a live program keeps its bindings.
-/

namespace ShaderAssets

/-- Where variants come from: they were there before, or reflect what they bind on a device
on the way to the present one. -/
structure Provenance (vs : List Variant) (d : Device) (vs' : List Variant) (d' : Device) :
    Prop where
  follows : d.Follows d'
  origin : ∀ v ∈ vs', v ∈ vs ∨ ∃ declarations d₁, v.Reflected declarations d₁ ∧ d₁.Follows d'

namespace Provenance

variable {vs vs' vs'' : List Variant} {d d' d'' : Device}

/-- Variants may stay or be forgotten while the device is called. -/
theorem of_subset (hfollows : d.Follows d') (hsub : vs' ⊆ vs) : Provenance vs d vs' d' :=
  ⟨hfollows, fun _ hv => Or.inl (hsub hv)⟩

/-- Nothing may happen. -/
theorem refl (vs : List Variant) (d : Device) : Provenance vs d vs d :=
  of_subset (.refl d) (List.Subset.refl vs)

/-- One change may follow another. -/
theorem trans (h : Provenance vs d vs' d') (h' : Provenance vs' d' vs'' d'') :
    Provenance vs d vs'' d'' := by
  refine ⟨h.follows.trans h'.follows, fun v hv => ?_⟩
  rcases h'.origin v hv with hv | hnew
  · rcases h.origin v hv with hv | ⟨declarations, d₁, hreflected, hfollows⟩
    · exact Or.inl hv
    · exact Or.inr ⟨declarations, d₁, hreflected, hfollows.trans h'.follows⟩
  · exact Or.inr hnew

/-- Variants of others may stand beside those that are accounted for. -/
theorem widen {ws ws' : List Variant} (h : Provenance vs d vs' d') (hsub : vs ⊆ ws)
    (hsub' : ∀ v ∈ ws', v ∈ vs' ∨ v ∈ ws) : Provenance ws d ws' d' := by
  refine ⟨h.follows, fun v hv => ?_⟩
  rcases hsub' v hv with hv | hv
  · exact (h.origin v hv).imp_left (hsub ·)
  · exact Or.inl hv

end Provenance

/-! ## Calls for one pass -/

namespace Device

/-- Compiling a stage is a call. -/
theorem follows_compileStage {disk : Disk} {r : StageInput} {code : Bytecode} {d d' : Device}
    (h : d.compileStage disk r = .ok (code, d')) : d.Follows d' :=
  .of_run (.compileStage disk r) (by rw [Call.run, h])

/-- Linking is a call. -/
theorem follows_link {vertex fragment : ModuleHandle} {x : ProgramHandle} {d d' : Device}
    (h : d.link vertex fragment = .ok (x, d')) : d.Follows d' :=
  .of_run (.link vertex fragment) (by rw [Call.run, h])

end Device

namespace Pass

/-- Compiling the stages of a pass takes calls. -/
theorem follows_compileStages (p : Pass) (disk : Disk) (path : String) (defines : Defines)
    (options : CompileOptions) (d : Device) :
    d.Follows (p.compileStages disk path defines options d).2 := by
  unfold compileStages
  split
  · exact .refl d
  · rename_i hvertex
    have hfirst := Device.follows_compileStage hvertex
    split
    · exact hfirst
    · rename_i hfragment
      exact hfirst.trans (Device.follows_compileStage hfragment)

/-- Linking two stages takes calls. -/
theorem follows_linkStages (vertex fragment : Bytecode) (d : Device) :
    d.Follows (linkStages vertex fragment d).value.2 := by
  have hvertex : d.Follows (d.addModule vertex).2 := .of_run (.addModule vertex) rfl
  have hfragment : (d.addModule vertex).2.Follows ((d.addModule vertex).2.addModule fragment).2 :=
    .of_run (.addModule fragment) rfl
  have hmade := hvertex.trans hfragment
  unfold linkStages
  dsimp only
  split
  · rename_i hlink
    exact hmade.trans (Device.follows_link hlink)
  · refine hmade.trans ?_
    exact (Device.Follows.of_run (.destroyModule _) rfl).trans (.of_run (.destroyModule _) rfl)

/-- Compiling a pass takes calls. -/
theorem follows_compile (p : Pass) (disk : Disk) (path : String) (index : Nat)
    (declarations : List Source.UniformDeclaration) (defines : Defines)
    (options : CompileOptions) (d : Device) :
    d.Follows (p.compile disk path index declarations defines options d).value.2 := by
  have hstages := p.follows_compileStages disk path defines options d
  unfold compile
  split
  · exact .refl d
  · split
    · rename_i hcode
      rw [hcode] at hstages
      exact hstages
    · rename_i vertex fragment d₁ hcode
      rw [hcode] at hstages
      have hlinked := hstages.trans (follows_linkStages vertex fragment d₁)
      rw [Logged.value_bind]
      split
      · rename_i hlink
        rw [hlink] at hlinked
        exact hlinked
      · rename_i hlink
        rw [hlink] at hlinked
        exact hlinked

/-- Destroying programs takes calls. -/
theorem follows_destroyAll (vs : List Variant) (d : Device) :
    d.Follows (destroyAll vs d).value := by
  induction vs generalizing d with
  | nil => exact .refl d
  | cons v vs ih => exact (Device.Follows.of_run (.destroyProgram v.program) rfl).trans (ih _)

/-- Releasing passes takes calls. -/
theorem follows_releaseEach (ps : List Pass) (d : Device) :
    d.Follows (releaseEach ps d).value.2 := by
  induction ps generalizing d with
  | nil => exact .refl d
  | cons p ps ih => exact (follows_destroyAll p.variants d).trans (ih _)

/-- A step of compiling passes accounts for the variants of its pass. -/
theorem Steps.provenance {p p' : Pass} {disk : Disk} {path : String} {index n : Nat}
    {declarations : List Source.UniformDeclaration} {defines : Defines}
    {options : CompileOptions} {d d' : Device}
    (h : p.Steps disk path index declarations defines options d n p' d') :
    Provenance p.variants d p'.variants d' := by
  have hfollows := p.follows_compile disk path index declarations defines options d
  cases h with
  | settled _ => exact .refl p.variants d
  | compiled _ hvalue =>
      have hreflected := reflected_of_compile hvalue
      rw [hvalue] at hfollows
      refine ⟨hfollows, fun v hv => ?_⟩
      rcases List.mem_append.mp hv with hv | hv
      · exact Or.inl hv
      · obtain rfl := List.mem_singleton.mp hv
        exact Or.inr ⟨declarations, d', hreflected, .refl d'⟩
  | failed _ hvalue =>
      rw [hvalue] at hfollows
      exact .of_subset hfollows (List.Subset.refl p.variants)

end Pass

/-! ## Calls on a shader -/

namespace Shader

/-- Compiling passes accounts for their variants. -/
theorem provenance_compilePasses (s : Shader) (disk : Disk) (defines : Defines)
    (options : CompileOptions) (ps : List Pass) (index : Nat) (d : Device) :
    Provenance (ps.flatMap Pass.variants) d
      ((s.compilePasses disk defines options index ps d).value.2.1.flatMap Pass.variants)
      (s.compilePasses disk defines options index ps d).value.2.2 := by
  induction ps generalizing index d with
  | nil => exact .refl _ d
  | cons p ps ih =>
      obtain ⟨n, p', d₁, hstep, hvalue⟩ :=
        s.compilePasses_cons_eq disk defines options index p ps d
      rw [hvalue]
      -- First the variants of the first pass change, then those of the others beside them.
      have hfirst : Provenance ((p :: ps).flatMap Pass.variants) d
          (p'.variants ++ ps.flatMap Pass.variants) d₁ :=
        hstep.provenance.widen (List.subset_append_left ..) fun v hv =>
          (List.mem_append.mp hv).imp_right (List.mem_append_right _ ·)
      refine hfirst.trans ((ih (index + 1) d₁).widen (List.subset_append_right ..) fun v hv => ?_)
      exact (List.mem_append.mp hv).symm.imp_right (List.mem_append_left _ ·)

/-- Compiling for a defines string accounts for the variants. -/
theorem provenance_compileFor (s : Shader) (disk : Disk) (defines : String)
    (options : CompileOptions) (d : Device) :
    Provenance s.variants d (s.compileFor disk defines options d).value.2.1.variants
      (s.compileFor disk defines options d).value.2.2 :=
  s.provenance_compilePasses disk (Defines.parse defines) options s.passes 0 d

/-- Compiling for several defines strings accounts for the variants. -/
theorem provenance_compileEach (disk : Disk) (options : CompileOptions) (list : List String)
    (s : Shader) (d : Device) :
    Provenance s.variants d (compileEach disk options list s d).value.1.variants
      (compileEach disk options list s d).value.2 := by
  induction list generalizing s d with
  | nil => exact .refl _ d
  | cons defines list ih =>
      exact (s.provenance_compileFor disk defines options d).trans (ih _ _)

/-- Unloading takes calls. -/
theorem follows_unload (s : Shader) (d : Device) : d.Follows (s.unload d).value.2 :=
  Pass.follows_releaseEach s.passes d

/-- Reloading accounts for the variants. -/
theorem provenance_reload (s : Shader) (disk : Disk) (text : String) (list : List String)
    (options : CompileOptions) (d : Device) :
    Provenance s.variants d (s.reload disk text list options d).value.1.variants
      (s.reload disk text list options d).value.2 := by
  have hloaded : Provenance s.variants d ((s.unload d).value.1.loadText text).value.variants
      (s.unload d).value.2 :=
    .of_subset (s.follows_unload d) (by simp)
  exact hloaded.trans (provenance_compileEach disk options list _ _)

/-- Removing a pass accounts for the variants. -/
theorem provenance_erasePass (s : Shader) (index : Nat) (d : Device) :
    Provenance s.variants d (s.erasePass index d).value.2.1.variants
      (s.erasePass index d).value.2.2 := by
  unfold erasePass
  split
  · exact .refl _ d
  · rename_i removed later hdrop
    have hfollows := (Pass.follows_destroyAll removed.variants d).trans
      (Pass.follows_releaseEach later _)
    have hvariants : ∀ ps : List Pass, (ps.map Pass.reset).flatMap Pass.variants = [] := by
      intro ps
      rw [List.flatMap_map]
      simp [Pass.reset]
    refine .of_subset hfollows ?_
    simp only [Logged.value_bind, Logged.value_pure, Pass.releaseEach_passes, variants,
      Pass.variants_resolve, List.flatMap_append, hvariants, List.append_nil]
    intro v hv
    obtain ⟨p, hp, hv⟩ := List.mem_flatMap.mp hv
    exact List.mem_flatMap.mpr ⟨p, List.mem_of_mem_take hp, hv⟩

/-- Every call on a shader accounts for its variants. -/
theorem provenance_run (s : Shader) (d : Device) (call : ShaderOperation) :
    Provenance s.variants d (call.run s d).1.variants (call.run s d).2 := by
  cases call with
  | compileFor disk defines options => exact s.provenance_compileFor disk defines options d
  | unload => exact .of_subset (s.follows_unload d) (List.nil_subset _)
  | loadText text =>
      rw [ShaderOperation.run]
      split
      · exact .of_subset (.refl d) (by simp)
      · exact .refl _ d
  | reload disk text definesList options =>
      exact s.provenance_reload disk text definesList options d
  | addPass source =>
      refine .of_subset (.refl d) ?_
      simp [ShaderOperation.run, addPass, variants, Pass.ofSource]
  | erasePass index => exact s.provenance_erasePass index d
  | clearPasses => exact .of_subset (s.follows_unload d) (List.nil_subset _)

end Shader

/-! ## Live variants -/

/-- An object that is alive after calls was there before, if its place was. -/
theorem Device.Remains.join_eq {α : Type} {l l' : List (Option α)} (h : Device.Remains l l')
    {i : Nat} {a : α} (ha : l[i]?.join = some a) (hlive : l'[i]?.join.isSome = true) :
    l'[i]?.join = some a := by
  rcases h i (some a) (Option.join_eq_some_iff.mp ha) with hkept | hgone
  · rw [hkept]
    rfl
  · rw [hgone] at hlive
    cases hlive

/-- A variant whose program is still alive binds what its modules reflect. -/
theorem Variant.Reflected.follows {declarations : List Source.UniformDeclaration}
    {d d' : Device} {v : Variant} {held : List ProgramHandle}
    (h : v.Reflected declarations d) (hfollows : d.Follows d') (howns : d'.Owns held)
    (hheld : v.program ∈ held) : v.Reflected declarations d' := by
  obtain ⟨vertex, fragment, ⟨p, hp, hvertex, hfragment, hstages⟩, hbindings, hhandles⟩ := h
  have hkeeps := hfollows.keeps
  have hp' : d'.program? v.program = some p :=
    hkeeps.programs.join_eq hp ((howns.live_iff v.program).mpr hheld)
  have hmodule : ∀ {m code}, p.owns m → d.module? m = some code → d'.module? m = some code :=
    fun hm hcode =>
      hkeeps.modules.join_eq hcode ((howns.module_iff _).mpr ⟨v.program, p, hp', hm⟩)
  exact ⟨vertex, fragment,
    ⟨p, hp', hmodule (Or.inl rfl) hvertex, hmodule (Or.inr rfl) hfragment, hstages⟩, hbindings,
    fun u hu => hfollows.handle? (hhandles u hu)⟩

end ShaderAssets
