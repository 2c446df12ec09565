import ShaderAssets.Proofs.Device.Handles

/-!
# Calls on a device

The calls on a device taken one by one, in any order and on any objects.  Calls add names
and never take one away, so a handle that was given out does not change.  A module or a
program may be destroyed, but its place is not given to another.

Main results:

- Inductive {lit}`Device.Call` and definition {lit}`Device.Call.run`: the calls.
- Definition {lit}`Device.Follows`: the devices that calls lead to.
- Structure {lit}`Device.Keeps`: what is left of names, modules and programs.
- Theorem {lit}`Device.Follows.keeps`: calls keep it.
- Theorem {lit}`Device.Follows.handle?`: a name keeps its handle.
-/

namespace ShaderAssets
namespace Device

/-! ## Calls -/

/-- A call on a device. -/
inductive Call where
  | register (path text : String)
  | addIncludeDirectory (path : String)
  | compileStage (disk : Disk) (input : StageInput)
  | addModule (code : Bytecode)
  | loadModule (stage : Stage) (bytes : String)
  | destroyModule (h : ModuleHandle)
  | link (vertex fragment : ModuleHandle)
  | destroyProgram (h : ProgramHandle)
  | addTexture (kind : Material.TextureKind)
  | record (event : DeviceEvent)
  | takeEvents

/-- Carries out a call; one that fails changes nothing. -/
def Call.run (d : Device) : Call → Device
  | .register path text => d.register path text
  | .addIncludeDirectory path => d.addIncludeDirectory path
  | .compileStage disk input =>
      match d.compileStage disk input with
      | .ok (_, d') => d'
      | .error _ => d
  | .addModule code => (d.addModule code).2
  | .loadModule stage bytes =>
      match d.loadModule stage bytes with
      | .ok (_, d') => d'
      | .error _ => d
  | .destroyModule h => (d.destroyModule h).value
  | .link vertex fragment =>
      match d.link vertex fragment with
      | .ok (_, d') => d'
      | .error _ => d
  | .destroyProgram h => (d.destroyProgram h).value
  | .addTexture kind => (d.addTexture kind).2
  | .record event => d.record event
  | .takeEvents => d.takeEvents.2

/-- A device that calls on another one lead to. -/
def Follows (d d' : Device) : Prop :=
  ∃ calls : List Call, d' = calls.foldl Call.run d

/-- A device that calls on a new one lead to. -/
def Reachable (d : Device) : Prop :=
  ∃ renderer, (Device.empty renderer).Follows d

namespace Follows

/-- No call at all. -/
theorem refl (d : Device) : Follows d d :=
  ⟨[], rfl⟩

/-- Calls after calls. -/
theorem trans {d d' d'' : Device} (h : Follows d d') (h' : Follows d' d'') : Follows d d'' := by
  obtain ⟨calls, rfl⟩ := h
  obtain ⟨calls', rfl⟩ := h'
  exact ⟨calls ++ calls', List.foldl_append.symm⟩

/-- One call. -/
theorem of_run {d d' : Device} (call : Call) (h : call.run d = d') : Follows d d' :=
  ⟨[call], h.symm⟩

end Follows

/-! ## What a call does -/

/-- Linking that succeeds adds a program. -/
theorem link_eq_ok {d d' : Device} {vertex fragment : ModuleHandle} {x : ProgramHandle}
    (h : d.link vertex fragment = .ok (x, d')) :
    d' = { d with programs := d.programs ++ [some ⟨vertex, fragment⟩] } := by
  unfold link at h
  cases hv : d.module? vertex with
  | none =>
      rw [hv] at h
      cases h
  | some v =>
      cases hf : d.module? fragment with
      | none =>
          rw [hv, hf] at h
          cases h
      | some f =>
          rw [hv, hf] at h
          dsimp only at h
          split at h
          · cases h
          · cases hmissing : f.inputs.find? fun name => !v.outputs.contains name with
            | some name =>
                rw [hmissing] at h
                cases h
            | none =>
                rw [hmissing] at h
                cases h
                rfl

/-- What a call may do to the names, the modules and the programs of a device. -/
inductive Effect (d d' : Device) : Prop where
  | kept (huniforms : d'.uniforms = d.uniforms) (hmodules : d'.modules = d.modules)
      (hprograms : d'.programs = d.programs)
  | made (m : StageModule) (hnames : d.uniforms.names <+: d'.uniforms.names)
      (hmodules : d'.modules = d.modules ++ [some m]) (hprograms : d'.programs = d.programs)
  | linked (p : Program) (huniforms : d'.uniforms = d.uniforms)
      (hmodules : d'.modules = d.modules) (hprograms : d'.programs = d.programs ++ [some p])
  | unmade (i : Nat) (huniforms : d'.uniforms = d.uniforms)
      (hmodules : d'.modules = d.modules.set i none) (hprograms : d'.programs = d.programs)
  | unlinked (x i j : Nat) (huniforms : d'.uniforms = d.uniforms)
      (hmodules : d'.modules = (d.modules.set i none).set j none)
      (hprograms : d'.programs = d.programs.set x none)

/-- Making a module adds it, with the names of its uniforms. -/
theorem effect_addModule (code : Bytecode) (d : Device) : Effect d (d.addModule code).2 := by
  obtain ⟨t, hprefix, hafter⟩ := handlesFor_eq code.uniforms d
  refine .made ⟨code.stage, code.inputs, code.outputs, (handlesFor code.uniforms d).1⟩ ?_ ?_ ?_
  · show _ <+: (handlesFor code.uniforms d).2.uniforms.names
    rw [hafter]
    exact hprefix
  · show (handlesFor code.uniforms d).2.modules ++ _ = _
    rw [hafter]
  · show (handlesFor code.uniforms d).2.programs = _
    rw [hafter]

/-- Every call has one of these effects. -/
theorem effect_run (d : Device) (call : Call) : Effect d (call.run d) := by
  have hnone : Effect d d := .kept rfl rfl rfl
  cases call with
  | register path text => exact .kept rfl rfl rfl
  | addIncludeDirectory path => exact .kept rfl rfl rfl
  | compileStage disk input =>
      rw [Call.run, compileStage]
      cases input.compile ((d.includeSearch input.path).resolve disk) with
      | error e => exact hnone
      | ok code => exact .kept rfl rfl rfl
  | addModule code => exact effect_addModule code d
  | loadModule stage bytes =>
      rw [Call.run, loadModule]
      cases Bytecode.decode? bytes with
      | none => exact hnone
      | some code =>
          by_cases hstage : code.stage = stage
          · simp only [hstage, if_true]
            exact effect_addModule code d
          · simp only [hstage, if_false]
            exact hnone
  | destroyModule h =>
      rw [Call.run, destroyModule]
      cases d.module? h with
      | none => exact hnone
      | some m => exact .unmade h.index rfl rfl rfl
  | link vertex fragment =>
      rw [Call.run]
      cases hlink : d.link vertex fragment with
      | error e => exact hnone
      | ok result =>
          obtain ⟨x, d'⟩ := result
          obtain rfl := link_eq_ok hlink
          exact .linked ⟨vertex, fragment⟩ rfl rfl rfl
  | destroyProgram h =>
      rw [Call.run, destroyProgram]
      cases d.program? h with
      | none => exact hnone
      | some p => exact .unlinked h.index p.vertex.index p.fragment.index rfl rfl rfl
  | addTexture kind => exact .kept rfl rfl rfl
  | record event => exact .kept rfl rfl rfl
  | takeEvents => exact .kept rfl rfl rfl

/-! ## What calls keep -/

/-- A list with gaps after more was put behind it and entries were removed: what stood in a
place is still there, or nothing is. -/
def Remains {α : Type} (l l' : List (Option α)) : Prop :=
  ∀ (i : Nat) (e : Option α), l[i]? = some e → l'[i]? = some e ∨ l'[i]? = some none

namespace Remains

variable {α : Type}

/-- A list remains itself. -/
theorem refl (l : List (Option α)) : Remains l l :=
  fun _ _ h => Or.inl h

/-- A list that is equal. -/
theorem of_eq {l l' : List (Option α)} (h : l' = l) : Remains l l' :=
  h ▸ refl l

/-- More may be put behind a list. -/
theorem concat (l : List (Option α)) (e : Option α) : Remains l (l ++ [e]) :=
  fun _ _ h => Or.inl (getElem?_kept (List.prefix_append ..) h)

/-- An entry may be removed. -/
theorem set_none (l : List (Option α)) (j : Nat) : Remains l (l.set j none) := by
  intro i e h
  rw [List.getElem?_set]
  split
  · rename_i heq
    exact Or.inr (if_pos (heq ▸ (List.getElem?_eq_some_iff.mp h).1))
  · exact Or.inl h

/-- What is removed does not come back. -/
theorem trans {l l' l'' : List (Option α)} (h : Remains l l') (h' : Remains l' l'') :
    Remains l l'' := by
  intro i e hi
  rcases h i e hi with hkept | hgone
  · exact h' i e hkept
  · exact Or.inr ((h' i none hgone).elim id id)

end Remains

/-- A device after calls: no name is taken away, and no place of a module or program is
given to another. -/
structure Keeps (d d' : Device) : Prop where
  names : d.uniforms.names <+: d'.uniforms.names
  modules : Remains d.modules d'.modules
  programs : Remains d.programs d'.programs

/-- What is kept from one device to the next is kept to the last. -/
theorem Keeps.trans {d d' d'' : Device} (h : Keeps d d') (h' : Keeps d' d'') : Keeps d d'' :=
  ⟨h.names.trans h'.names, h.modules.trans h'.modules, h.programs.trans h'.programs⟩

/-- The effect of a call keeps names and places. -/
theorem Effect.keeps {d d' : Device} (h : Effect d d') : Keeps d d' := by
  have hsame : d'.uniforms = d.uniforms → d.uniforms.names <+: d'.uniforms.names :=
    fun huniforms => huniforms ▸ List.prefix_refl _
  cases h with
  | kept huniforms hmodules hprograms =>
      exact ⟨hsame huniforms, .of_eq hmodules, .of_eq hprograms⟩
  | made m hnames hmodules hprograms =>
      exact ⟨hnames, hmodules ▸ .concat _ _, .of_eq hprograms⟩
  | linked p huniforms hmodules hprograms =>
      exact ⟨hsame huniforms, .of_eq hmodules, hprograms ▸ .concat _ _⟩
  | unmade i huniforms hmodules hprograms =>
      exact ⟨hsame huniforms, hmodules ▸ .set_none _ _, .of_eq hprograms⟩
  | unlinked x i j huniforms hmodules hprograms =>
      have htwice := (Remains.set_none d.modules i).trans (.set_none _ j)
      exact ⟨hsame huniforms, hmodules ▸ htwice, hprograms ▸ .set_none _ _⟩

namespace Follows

variable {d d' : Device}

/-- Calls keep names and places. -/
theorem keeps (h : d.Follows d') : d.Keeps d' := by
  obtain ⟨calls, rfl⟩ := h
  induction calls generalizing d with
  | nil => exact ⟨List.prefix_refl _, .refl _, .refl _⟩
  | cons call calls ih => exact (effect_run d call).keeps.trans ih

/-- A handle that was given out does not change. -/
theorem handle? (h : d.Follows d') {name : String} {u : UniformHandle}
    (hu : d.handle? name = some u) : d'.handle? name = some u :=
  UniformTable.handle?_kept h.keeps.names hu

end Follows

namespace Reachable

variable {d d' : Device}

/-- Calls lead from reachable devices to reachable devices. -/
theorem follows (h : d.Reachable) (hfollows : d.Follows d') : d'.Reachable := by
  obtain ⟨renderer, hempty⟩ := h
  exact ⟨renderer, hempty.trans hfollows⟩

end Reachable

end Device
end ShaderAssets
