import Mathlib.Data.List.Induction
import Mathlib.Data.List.Nodup
import ShaderAssets.Proofs.Registry.Drawing
import ShaderAssets.Proofs.Shader.Bindings
import ShaderAssets.Proofs.Shader.Unnumbered

/-!
# Reloading is starting afresh

Reloading a shader destroys its programs, reads the new text and compiles it for the
defines strings of the materials that are bound to it.  What results is, up to the
numbers of handles, the shader that reading the text and compiling it for these strings
gives anywhere else.  Nothing of the old content survives, nothing of other shaders is
touched, and the bound materials find everything compiled.

Main results:

- Theorem {lit}`Registry.definesInUse_eq`: the defines strings of bound materials.
- Theorem {lit}`World.step_reloadShader`: what reloading a shader does.
- Theorem {lit}`World.Owned.unload`: what it destroys and what it leaves in place.
- Theorem {lit}`World.Settled.compiledStages_run`: preparing settled materials compiles
  nothing.
- Theorem {lit}`World.Reachable.reload_afresh`: reloading is starting afresh.
-/

namespace ShaderAssets

open Render (StateWords)

namespace Registry

/-! ## Bound materials -/

/-- The defines strings in use are those of the bound materials, each at its first
occurrence. -/
theorem definesInUse_eq (r : Registry) (h : ShaderHandle) :
    r.definesInUse h =
      ((r.materials.filter fun m => m.shader == some h).map Material.defines).eraseDups := by
  unfold definesInUse
  generalize r.materials.filter (fun m => m.shader == some h) = bound
  -- Both sides add new strings at the end, so materials are taken off there.
  induction bound using List.reverseRecOn with
  | nil => rfl
  | append_singleton bound m ih =>
      have hcontains : (bound.map Material.defines).eraseDups.contains m.defines =
          (bound.map Material.defines).contains m.defines := by
        rw [Bool.eq_iff_iff, List.contains_iff_mem, List.contains_iff_mem, List.mem_eraseDups]
      rw [List.foldl_append, ih, List.map_append, List.map_singleton, eraseDups_concat,
        ← hcontains]
      rfl

/-- The defines strings in use are those of the bound materials. -/
theorem mem_definesInUse {r : Registry} {h : ShaderHandle} {defines : String} :
    defines ∈ r.definesInUse h ↔ ∃ m ∈ r.materials, m.shader = some h ∧ m.defines = defines := by
  rw [definesInUse_eq]
  simp [and_assoc]

end Registry

/-! ## One shader -/

namespace Shader

/-- Reloading a shader is unloading it and compiling the shader that the text
describes. -/
theorem reload_eq (s : Shader) (disk : Disk) (text : String) (definesList : List String)
    (options : CompileOptions) (d : Device) :
    (s.reload disk text definesList options d).value =
      (compileEach disk options definesList (ofText s.path text).value
        (s.unload d).value.2).value := by
  have hload : (s.unload d).value.1.loadText text = ofText s.path text := rfl
  rw [reload, Logged.value_bind, Logged.value_bind, hload]

end Shader

/-! ## What stays in place -/

namespace World

/-- Reloading a shader replaces it and marks its materials as not compiled. -/
theorem step_reloadShader {w : World} {h : ShaderHandle} {s : Shader}
    (hs : w.registry.shader? h = some s) (disk : Disk) (text : String) :
    w.step (.reloadShader disk h text) =
      let c := (Shader.compileEach disk w.registry.options (w.registry.definesInUse h)
        (Shader.ofText s.path text).value (s.unload w.device).value.2).value
      ⟨(w.registry.invalidate h).setShader h c.1, c.2⟩ := by
  rw [step, Registry.reloadShader, hs]
  simp only [Logged.value_bind, Logged.value_pure, Shader.reload_eq]

/-- Two registered shaders have no program in common. -/
theorem Owned.not_mem_programs {w : World} (howned : w.Owned) {h h' : ShaderHandle}
    (hne : h' ≠ h) {s t : Shader} (hs : w.registry.shader? h = some s)
    (ht : w.registry.shader? h' = some t) {x : ProgramHandle} (hx : x ∈ t.programs) :
    x ∉ s.programs := by
  intro hmem
  obtain ⟨hlt, rfl⟩ := List.getElem?_eq_some_iff.mp hs
  obtain ⟨hlt', rfl⟩ := List.getElem?_eq_some_iff.mp ht
  have hdisjoint := List.pairwise_iff_getElem.mp (List.nodup_flatMap.mp howned.nodup).2
  rcases Nat.lt_or_gt_of_ne (ShaderHandle.index_ne hne) with hlt'' | hlt''
  · exact hdisjoint _ _ hlt' hlt hlt'' hx hmem
  · exact hdisjoint _ _ hlt hlt' hlt'' hmem hx

/-- When a shader is unloaded and more is compiled afterwards, its programs are dead, and
other programs stay with their modules. -/
theorem Owned.unload {w : World} (howned : w.Owned) {h : ShaderHandle} {s : Shader}
    (hs : w.registry.shader? h = some s) {d : Device}
    (hgrows : (s.unload w.device).value.2.Grows d) :
    (∀ x ∈ s.programs, d.isLive x = false) ∧
      ∀ x p, x ∉ s.programs → w.device.program? x = some p →
        d.program? x = some p ∧ ∀ m, p.owns m → d.module? m = w.device.module? m := by
  obtain ⟨rest, hperm, -⟩ := programs_set_perm hs
  have howns : w.device.Owns (s.programs ++ rest) := howned.perm hperm
  have hreleased : (s.unload w.device).value.2.Owns rest := Pass.owns_releaseEach howns
  have hfrees : w.device.Frees (s.unload w.device).value.2 :=
    Device.frees_releaseEach s.passes w.device
  constructor
  · intro x hx
    have hlive : w.device.isLive x = true := (howns.live_iff x).mpr (List.mem_append_left _ hx)
    have hnot : x ∉ rest := fun hmem =>
      (List.nodup_append.mp howns.nodup).2.2 x hx x hmem rfl
    have hdead : (s.unload w.device).value.2.program? x = none := by
      refine Option.eq_none_iff_forall_ne_some.mpr fun q hq => hnot ?_
      exact (hreleased.live_iff x).mp (Option.isSome_iff_exists.mpr ⟨q, hq⟩)
    -- The program leaves a gap, which is never filled while more is compiled.
    have hlt : x.index < (s.unload w.device).value.2.programs.length :=
      hfrees.length_programs.symm ▸ Device.index_lt_of_isLive hlive
    rw [Device.isLive, hgrows.program?_eq_none hlt hdead]
    rfl
  · intro x p hx hp
    have hkept : (s.unload w.device).value.2.program? x = some p :=
      (Device.program?_releaseEach hx w.device).trans hp
    refine ⟨hgrows.program? hkept, fun m hm => ?_⟩
    have hothers : ∀ y ∈ s.programs, ∀ q, w.device.program? y = some q → ¬q.owns m := by
      intro y hy q hq hm'
      exact hx (howns.unshared x y p q m hp hq hm hm' ▸ hy)
    have hmodule : (s.unload w.device).value.2.module? m = w.device.module? m :=
      Device.module?_releaseEach hothers
    obtain ⟨code, hcode⟩ := Option.isSome_iff_exists.mp
      ((howns.module_iff m).mpr ⟨x, p, hp, hm⟩)
    rw [hcode] at hmodule ⊢
    exact hgrows.module? hmodule

end World

/-! ## Preparing settled materials -/

namespace Registry

/-- Compiling a material whose shader is settled for it only marks it as compiled. -/
theorem compileMaterial_of_settled {r : Registry} {h : MaterialHandle} {m : Material}
    {x : ShaderHandle} {s : Shader} (hbound : r.IsBound h m x s)
    (hsettled : s.isSettled m.definesHash = true) (disk : Disk) (d : Device) :
    (r.compileMaterial disk h d).value = (0, r.setMaterial h { m with dirty := false }, d) := by
  obtain ⟨hlt, hm⟩ := List.getElem?_eq_some_iff.mp hbound.material_eq
  obtain ⟨hlt', hs⟩ := List.getElem?_eq_some_iff.mp hbound.registered
  rw [compileMaterial_of_bound hbound]
  split
  · rename_i hskip
    simp only [Bool.and_eq_true, Bool.not_eq_true'] at hskip
    have hclean : { m with dirty := false } = m := by
      cases m
      simp_all
    have hsame : r.setMaterial h m = r := by
      rw [setMaterial, ← hm, List.set_getElem_self]
    rw [hclean, hsame]
  · have hsame : r.setShader x s = r := by
      rw [setShader, ← hs, List.set_getElem_self]
    rw [Shader.compileFor_of_settled hsettled]
    simp only [Logged.value_pure, hsame]

/-- Making the stand-in textures compiles nothing. -/
theorem compiledStages_ensureStandIns (r : Registry) (d : Device) :
    (r.ensureStandIns d).2.2.compiledStages = d.compiledStages := by
  unfold ensureStandIns
  split <;> rfl

/-- Preparing a draw with a material whose shader is settled for it compiles nothing and
only marks the material as compiled. -/
theorem prepare_of_settled {r : Registry} {h : MaterialHandle} {m : Material}
    {x : ShaderHandle} {s : Shader} (hbound : r.IsBound h m x s)
    (hsettled : s.isSettled m.definesHash = true) (disk : Disk) (pass : Nat)
    (camera : Option CameraImages) (baseline : StateWords) (d : Device) {draw : Option Draw}
    {r' : Registry} {d' : Device}
    (hprepare : (r.prepare disk h pass camera baseline d).value = (draw, r', d')) :
    d'.compiledStages = d.compiledStages ∧ r'.shaders = r.shaders ∧
      r'.materials = r.materials.set h.index { m with dirty := false } := by
  have hcompile := compileMaterial_of_settled hbound hsettled disk d
  rcases hstandIns : (r.setMaterial h { m with dirty := false }).ensureStandIns d with
    ⟨standIns, r₂, d₂⟩
  have hstages : d₂.compiledStages = d.compiledStages := by
    have hkept := (r.setMaterial h { m with dirty := false }).compiledStages_ensureStandIns d
    rw [hstandIns] at hkept
    exact hkept
  obtain ⟨b, d₃, hspec, -⟩ := ensureStandIns_spec (r.setMaterial h { m with dirty := false }) d
  obtain ⟨-, rfl, -⟩ : standIns = b ∧ r₂ = _ ∧ d₂ = d₃ := by
    simpa using hstandIns.symm.trans hspec
  rw [prepare_eq hcompile hstandIns] at hprepare
  split at hprepare
  · cases hprepare
    exact ⟨hstages, rfl, rfl⟩
  · cases hprepare
    exact ⟨hstages, rfl, rfl⟩

end Registry

/-- Whether an operation prepares a draw with a material that is bound to a shader. -/
def Operation.Prepares (r : Registry) (h : ShaderHandle) : Operation → Prop
  | .prepare _ material _ _ _ => ∃ m, r.material? material = some m ∧ m.shader = some h
  | _ => False

namespace World

/-- A registered shader that is settled for all materials bound to it. -/
structure Settled (w : World) (h : ShaderHandle) (s : Shader) : Prop where
  registered : w.registry.shader? h = some s
  settled : ∀ m ∈ w.registry.materials, m.shader = some h → s.isSettled m.definesHash = true

/-- Preparing a material of a settled shader compiles nothing, and nothing about the
shader and what is bound to it changes. -/
theorem Settled.step {w : World} {h : ShaderHandle} {s : Shader} (hsettled : w.Settled h s)
    {operation : Operation} (hprepares : operation.Prepares w.registry h) :
    (w.step operation).device.compiledStages = w.device.compiledStages ∧
      (w.step operation).Settled h s ∧
      ∀ other : Operation, other.Prepares w.registry h →
        other.Prepares (w.step operation).registry h := by
  cases operation with
  | prepare disk material pass camera baseline =>
      obtain ⟨m, hm, hbound⟩ := hprepares
      have hmem : m ∈ w.registry.materials := List.mem_of_getElem? hm
      rw [World.step]
      rcases hprepare : (w.registry.prepare disk material pass camera baseline w.device).value with
        ⟨draw, r, d⟩
      obtain ⟨hstages, hshaders, hmaterials⟩ := Registry.prepare_of_settled
        ⟨hm, hbound, hsettled.registered⟩ (hsettled.settled m hmem hbound) disk pass camera
        baseline w.device hprepare
      refine ⟨hstages, ⟨?_, ?_⟩, ?_⟩
      · rw [Registry.shader?, hshaders]
        exact hsettled.registered
      · intro m' hm' hbound'
        rw [hmaterials] at hm'
        rcases List.mem_or_eq_of_mem_set hm' with hm' | rfl
        · exact hsettled.settled m' hm' hbound'
        · exact hsettled.settled m hmem hbound
      · intro other hother
        cases other with
        | prepare disk' material' pass' camera' baseline' =>
            obtain ⟨m', hm', hbound'⟩ := hother
            show ∃ m', r.materials[material'.index]? = some m' ∧ m'.shader = some h
            rw [hmaterials, List.getElem?_set]
            split
            · exact ⟨_, if_pos (List.getElem?_eq_some_iff.mp hm).1, hbound⟩
            · exact ⟨m', hm', hbound'⟩
        | _ => exact hother
  | _ => exact hprepares.elim

/-- Preparing materials of a settled shader compiles nothing, however often. -/
theorem Settled.compiledStages_run {w : World} {h : ShaderHandle} {s : Shader}
    (hsettled : w.Settled h s) {operations : List Operation}
    (hprepare : ∀ o ∈ operations, o.Prepares w.registry h) :
    (w.run operations).device.compiledStages = w.device.compiledStages := by
  induction operations generalizing w with
  | nil => rfl
  | cons operation operations ih =>
      rw [List.forall_mem_cons] at hprepare
      obtain ⟨hstages, hsettled', hkept⟩ := hsettled.step hprepare.1
      exact (ih hsettled' fun o ho => hkept o (hprepare.2 o ho)).trans hstages

/-- A shader that was reloaded is settled for all materials bound to it. -/
theorem settled_reloadShader {w : World} {h : ShaderHandle} {s : Shader}
    (hs : w.registry.shader? h = some s) (disk : Disk) (text : String) :
    (w.step (.reloadShader disk h text)).Settled h
      (Shader.compileEach disk w.registry.options (w.registry.definesInUse h)
        (Shader.ofText s.path text).value (s.unload w.device).value.2).value.1 := by
  rw [step_reloadShader hs]
  obtain ⟨hlt, -⟩ := List.getElem?_eq_some_iff.mp hs
  refine ⟨List.getElem?_set_self hlt, fun m' hm' hbound => ?_⟩
  obtain ⟨m, hm, rfl⟩ := List.mem_map.mp hm'
  have hhash : (if m.shader == some h then { m with dirty := true } else m).definesHash =
      m.definesHash := by
    split <;> rfl
  have hbound_m : m.shader = some h := by
    split at hbound
    · exact hbound
    · exact hbound
  rw [hhash, Shader.isSettled, List.all_eq_true]
  intro p hp
  -- The strings were collected from these very materials, before they were marked.
  obtain ⟨q, -, hiff⟩ := Shader.isSettled_compileEach hp
  exact (hiff m.definesHash).mpr (Or.inr
    ⟨m.defines, Registry.mem_definesInUse.mpr ⟨m, hm, hbound_m, rfl⟩, rfl⟩)

/-- Reloading a shader does not change what materials are bound to. -/
theorem prepares_reloadShader {w : World} {h : ShaderHandle} {s : Shader}
    (hs : w.registry.shader? h = some s) (disk : Disk) (text : String) {operation : Operation}
    (hprepares : operation.Prepares w.registry h) :
    operation.Prepares (w.step (.reloadShader disk h text)).registry h := by
  rw [step_reloadShader hs]
  cases operation with
  | prepare disk' material pass camera baseline =>
      obtain ⟨m, hm, hbound⟩ := hprepares
      refine ⟨if m.shader == some h then { m with dirty := true } else m, ?_, ?_⟩
      · show (w.registry.materials.map _)[material.index]? = _
        rw [List.getElem?_map, show w.registry.materials[material.index]? = some m from hm]
        rfl
      · split
        · exact hbound
        · exact hbound
  | _ => exact hprepares

/-! ## Reloading -/

/-- Reloading a registered shader of a reachable world is starting afresh.

Up to numbers, the shader is the one that reading the text gives when it is compiled
once for each defines string of the materials bound to it, on any device that can include
the same files; its programs are alive, no two variants share one, and its handles lead
back to names.  A pass has a variant or a failure under a hash exactly if a bound material
has this hash.  The programs that the shader held are dead.  Other shaders stay with their
variants, their programs, the modules of these and the names of handles.  Afterwards
preparing bound materials compiles no stage. -/
theorem Reachable.reload_afresh {w : World} (hw : w.Reachable) {h : ShaderHandle} {s : Shader}
    (hs : w.registry.shader? h = some s) (disk : Disk) (text : String) :
    let w' := w.step (.reloadShader disk h text)
    let bound := w.registry.materials.filter fun m => m.shader == some h
    ∃ s', w'.registry.shader? h = some s' ∧
      (∀ disk' options d, (d.includeSearch s.path).resolve disk' =
          (w.device.includeSearch s.path).resolve disk →
        s'.unnumbered = (Shader.compileEach disk' options (bound.map Material.defines).eraseDups
          (Shader.ofText s.path text).value d).value.1.unnumbered) ∧
      s'.Alive w'.device ∧ s'.Named w'.device ∧
      (∀ p ∈ s'.passes, ∀ hash,
        (hash ∈ p.failed ∨ ∃ v ∈ p.variants, v.definesHash = hash) ↔
          ∃ m ∈ bound, m.definesHash = hash) ∧
      (∀ x ∈ s.programs, w'.device.isLive x = false) ∧
      (∀ h', h' ≠ h → w'.registry.shader? h' = w.registry.shader? h' ∧
        ∀ t, w.registry.shader? h' = some t → ∀ x ∈ t.programs, ∃ p,
          w.device.program? x = some p ∧ w'.device.program? x = some p ∧
          w'.device.module? p.vertex = w.device.module? p.vertex ∧
          w'.device.module? p.fragment = w.device.module? p.fragment) ∧
      (∀ u name, w.device.name? u = some name → w'.device.name? u = some name) ∧
      ∀ operations : List Operation, (∀ o ∈ operations, o.Prepares w.registry h) →
        (w'.run operations).device.compiledStages = w'.device.compiledStages := by
  intro w' bound
  have hfrees : w.device.Frees (s.unload w.device).value.2 :=
    Device.frees_releaseEach s.passes w.device
  obtain ⟨hgrows, hadvanced, hnamed⟩ := Shader.compileEach_advance disk w.registry.options
    (w.registry.definesInUse h) (Shader.ofText s.path text).value (s.unload w.device).value.2
  obtain ⟨hdead, hkept⟩ := hw.owns.unload hs hgrows
  have hstep : w' = _ := step_reloadShader hs disk text
  have hsettled : w'.Settled h _ := settled_reloadShader hs disk text
  have hdevice := congrArg World.device hstep
  refine ⟨_, hsettled.registered, ?afresh, ?alive, ?named, ?hashes, ?dead, ?others, ?names, ?again⟩
  case afresh =>
    intro disk' options d hfiles
    obtain ⟨-, hadvanced', -⟩ := Shader.compileEach_advance disk' options
      (w.registry.definesInUse h) (Shader.ofText s.path text).value d
    rw [← Registry.definesInUse_eq, hadvanced, hadvanced', hfrees.includeSearch]
    exact congrArg (fun files => Shader.advanceEach files _ _) hfiles.symm
  case alive =>
    rw [hdevice]
    exact Shader.Alive.compileEach disk w.registry.options _
      (.of_programs_nil (Shader.programs_loadText (Shader.unloaded s.path) text) _)
  case named =>
    rw [hdevice]
    exact hnamed (Shader.named_ofText s.path text _)
  case hashes =>
    intro p hp hash
    obtain ⟨q, hq, hiff⟩ := Shader.isSettled_compileEach hp
    obtain ⟨hvariants, hfailed⟩ := Shader.compiled_ofText s.path text q hq
    have hfresh : ¬q.isSettled hash = true := by
      simp [Pass.isSettled_iff, hvariants, hfailed]
    rw [← Pass.isSettled_iff, hiff, or_iff_right hfresh]
    constructor
    · rintro ⟨raw, hraw, rfl⟩
      obtain ⟨m, hm, hbound, rfl⟩ := Registry.mem_definesInUse.mp hraw
      exact ⟨m, List.mem_filter.mpr ⟨hm, beq_iff_eq.mpr hbound⟩, rfl⟩
    · rintro ⟨m, hm, rfl⟩
      obtain ⟨hm, hbound⟩ := List.mem_filter.mp hm
      exact ⟨m.defines, Registry.mem_definesInUse.mpr ⟨m, hm, beq_iff_eq.mp hbound, rfl⟩, rfl⟩
  case dead =>
    rw [hdevice]
    exact hdead
  case others =>
    intro h' hne
    constructor
    · rw [hstep]
      exact List.getElem?_set_ne (ShaderHandle.index_ne hne.symm)
    · intro t ht x hx
      have hlive : w.device.isLive x = true :=
        (hw.owns.live_iff x).mpr (List.mem_flatMap.mpr ⟨t, List.mem_of_getElem? ht, hx⟩)
      obtain ⟨p, hp⟩ := Option.isSome_iff_exists.mp hlive
      obtain ⟨hprogram, hmodules⟩ := hkept x p (hw.owns.not_mem_programs hne hs ht hx) hp
      rw [hdevice]
      exact ⟨p, hp, hprogram, hmodules _ (Or.inl rfl), hmodules _ (Or.inr rfl)⟩
  case names =>
    intro u name hname
    rw [hdevice]
    exact hgrows.name? ((hfrees.name? u).trans hname)
  case again =>
    intro operations hprepare
    exact hsettled.compiledStages_run fun o ho =>
      prepares_reloadShader hs disk text (hprepare o ho)

/-- A shader with one pass. -/
def plainText : String :=
  "\x7bvertex\x7bmain()\x7b\x7d\x7dfragment\x7bmain()\x7b\x7d\x7d\x7d"

/-- A world with two shaders, each of which was compiled for a material. -/
def compiledWorld : World :=
  (start "" .standard .noop).run
    [.addShader (.empty []) "a.shader" plainText, .addMaterial "m" (some ⟨0⟩),
     .addShader (.empty []) "b.shader" plainText, .addMaterial "n" (some ⟨1⟩),
     .compileMaterial (.empty []) ⟨0⟩, .compileMaterial (.empty []) ⟨1⟩]

/-- The first shader is reloaded: its program is dead, that of the second one is alive, and
preparing the first material compiles nothing. -/
theorem reload_afresh_sample :
    let w' := compiledWorld.step (.reloadShader (.empty []) ⟨0⟩ plainText)
    w'.device.isLive ⟨0⟩ = false ∧ w'.device.isLive ⟨1⟩ = true ∧
      (w'.run [.prepare (.empty []) ⟨0⟩ 0 none ⟨0, 0⟩]).device.compiledStages =
        w'.device.compiledStages := by
  have hreachable : compiledWorld.Reachable := (Reachable.start "" .standard .noop).run _
  have hshaders : compiledWorld.registry.shaders.map Shader.programs = [[⟨0⟩], [⟨1⟩]] := by
    decide +kernel
  have hfirst : (compiledWorld.registry.shader? ⟨0⟩).map Shader.programs = some [⟨0⟩] := by
    rw [Registry.shader?, ← List.getElem?_map, hshaders]
    rfl
  have hsecond : (compiledWorld.registry.shader? ⟨1⟩).map Shader.programs = some [⟨1⟩] := by
    rw [Registry.shader?, ← List.getElem?_map, hshaders]
    rfl
  have hbound : (compiledWorld.registry.material? ⟨0⟩).map Material.shader = some (some ⟨0⟩) := by
    decide +kernel
  obtain ⟨s, hs, hprograms⟩ := Option.map_eq_some_iff.mp hfirst
  obtain ⟨t, ht, hprograms'⟩ := Option.map_eq_some_iff.mp hsecond
  obtain ⟨m, hm, hmaterial⟩ := Option.map_eq_some_iff.mp hbound
  obtain ⟨s', -, -, -, -, -, hdead, hothers, -, hagain⟩ :=
    hreachable.reload_afresh hs (.empty []) plainText
  obtain ⟨p, -, hp, -⟩ := (hothers ⟨1⟩ (by decide)).2 t ht ⟨1⟩ (by simp [hprograms'])
  refine ⟨hdead ⟨0⟩ (by simp [hprograms]), Option.isSome_iff_exists.mpr ⟨p, hp⟩, hagain _ ?_⟩
  intro o ho
  obtain rfl := List.mem_singleton.mp ho
  exact ⟨m, hm, hmaterial⟩

end World
end ShaderAssets
