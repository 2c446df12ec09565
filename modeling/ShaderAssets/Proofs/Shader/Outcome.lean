import ShaderAssets.Proofs.Device.Handles
import ShaderAssets.Proofs.Shader.Layout

/-!
# The outcome of compiling a pass

Compiling a pass gives a variant or an error.  Which of them, which error, and the
variant up to the numbers of its handles are determined by the texts and tags of the
pass, the declarations, the defines and the files that can be included.  What the device
holds, what was compiled on it before or failed, the renderer and the options have no
influence.

A device that compiles only grows: modules, programs and uniform names stay in their
places.  So the handles of older variants keep their meaning, and those of a new one lead
back to the names of its bindings.

Main results:

- Definition {lit}`Variant.unnumbered`: a variant without the numbers of its handles.
- Definition {lit}`Variant.Named`: handles lead back to the names of bindings.
- Definition {lit}`Pass.outcome`: what a pass compiles to.
- Structure {lit}`Device.Grows`: a device on which more was compiled.
- Definition {lit}`Variant.Reflected`: bindings are what the two modules of a program reflect.
- Theorem {lit}`Pass.compile_spec`: compiling a pass has its outcome.
-/

namespace ShaderAssets

open Source (UniformDeclaration)
open Render (RenderSettings)

/-! ## Bindings without numbers -/

namespace Binding

/-- A binding with a handle of no significance, if it has one. -/
def unnumbered (b : Binding) : Binding :=
  { b with handle := b.handle.map fun _ => ⟨0⟩ }

/-- The binding of a shape, without a number. -/
def ofShape (shape : UniformDeclaration × Bool) : Binding :=
  ⟨shape.1, if shape.2 then some ⟨0⟩ else none⟩

@[simp]
theorem shape_ofShape (x : UniformDeclaration × Bool) : (ofShape x).shape = x := by
  obtain ⟨declaration, bound⟩ := x
  cases bound <;> rfl

@[simp]
theorem ofShape_shape (b : Binding) : ofShape b.shape = b.unnumbered := by
  obtain ⟨declaration, handle⟩ := b
  cases handle <;> rfl

@[simp]
theorem shape_unnumbered (b : Binding) : b.unnumbered.shape = b.shape := by
  rw [← ofShape_shape, shape_ofShape]

/-- Without numbers the bindings of a program are determined by the reflected names. -/
theorem map_unnumbered_ofReflection (declarations : List UniformDeclaration)
    (us : List ModuleUniform) :
    (ofReflection declarations us).map unnumbered =
      (layout declarations (us.map ModuleUniform.name)).map ofShape := by
  rw [← map_shape_ofReflection, List.map_map]
  exact List.map_congr_left fun b _ => (ofShape_shape b).symm

/-- A binding of reflected uniforms has the handle of one of them and the first declaration
of its name that is not a define. -/
theorem mem_reflected {declarations : List UniformDeclaration} {us : List ModuleUniform}
    {b : Binding} (h : b ∈ reflected declarations us) :
    ∃ u ∈ us, b.name = u.name ∧ b.handle = some u.handle ∧
      declarations.find? (fun d => !d.isDefine && d.bindName == u.name) = some b.declaration := by
  unfold reflected at h
  -- The fold starts with no bindings, but its later steps do not.
  suffices hfold : ∀ bs : List Binding, b ∈ us.foldl _ bs →
      b ∈ bs ∨ ∃ u ∈ us, b.name = u.name ∧ b.handle = some u.handle ∧
        declarations.find? (fun d => !d.isDefine && d.bindName == u.name) =
          some b.declaration from
    (hfold [] h).resolve_left List.not_mem_nil
  clear h
  induction us with
  | nil => exact fun bs h => Or.inl h
  | cons u us ih =>
      intro bs h
      rw [List.foldl_cons] at h
      rcases ih _ h with hmem | ⟨u', hu', hb⟩
      · split at hmem
        · exact Or.inl hmem
        · split at hmem
          · rename_i declaration hdeclaration
            rcases List.mem_append.mp hmem with hmem | hmem
            · exact Or.inl hmem
            · obtain rfl := List.mem_singleton.mp hmem
              have hname := List.find?_some hdeclaration
              simp only [Bool.and_eq_true, beq_iff_eq] at hname
              exact Or.inr ⟨u, List.mem_cons_self, hname.2, rfl, hdeclaration⟩
          · exact Or.inl hmem
      · exact Or.inr ⟨u', List.mem_cons_of_mem u hu', hb⟩

/-- The bindings that are inserted for defines have no handle. -/
theorem mem_insertDefines {declarations : List UniformDeclaration} {bs : List Binding}
    {b : Binding} (h : b ∈ insertDefines declarations bs) : b ∈ bs ∨ b.handle = none := by
  unfold insertDefines at h
  generalize declarations.zipIdx = entries at h
  induction entries generalizing bs with
  | nil => exact Or.inl h
  | cons entry entries ih =>
      rw [List.foldl_cons] at h
      rcases ih h with hmem | hnone
      · dsimp only at hmem
        split at hmem
        · rcases (List.mem_insertIdx (Nat.min_le_right ..)).mp hmem with rfl | hmem
          · exact Or.inr rfl
          · exact Or.inl hmem
        · exact Or.inl hmem
      · exact Or.inr hnone

/-- A binding with a handle has the name of a reflected uniform with this handle. -/
theorem mem_ofReflection {declarations : List UniformDeclaration} {us : List ModuleUniform}
    {b : Binding} (h : b ∈ ofReflection declarations us) {handle : UniformHandle}
    (hhandle : b.handle = some handle) : ∃ u ∈ us, b.name = u.name ∧ u.handle = handle := by
  rcases mem_insertDefines h with hmem | hnone
  · obtain ⟨u, hu, hname, hhandle', -⟩ := mem_reflected hmem
    exact ⟨u, hu, hname, Option.some.inj (hhandle'.symm.trans hhandle)⟩
  · rw [hnone] at hhandle
    cases hhandle

end Binding

/-! ## Variants without numbers -/

namespace Variant

/-- A variant with handles of no significance. -/
def unnumbered (v : Variant) : Variant :=
  { v with program := ⟨0⟩, bindings := v.bindings.map Binding.unnumbered }

/-- The handles of a variant lead back to the names of its bindings. -/
def Named (d : Device) (v : Variant) : Prop :=
  ∀ b ∈ v.bindings, ∀ h, b.handle = some h → d.name? h = some b.name

end Variant

namespace Pass

/-- What a pass compiles to: a variant without numbers, or an error that depends on the
index of the pass. -/
def outcome (p : Pass) (files : String → Option String) (declarations : List UniformDeclaration)
    (defines : Defines) : Except (Nat → ShaderError) Variant :=
  if p.resolved.isComplete then
    match p.stageCode files defines .vertex with
    | .error e => .error fun index => .rejected index (.compile .vertex e)
    | .ok vertex =>
        match p.stageCode files defines .fragment with
        | .error e => .error fun index => .rejected index (.compile .fragment e)
        | .ok fragment =>
            match fragment.inputs.find? fun name => !vertex.outputs.contains name with
            | some name => .error fun index => .rejected index (.missingOutput name)
            | none => .ok {
                defines := defines.text
                definesHash := Defines.hashOf defines.text
                program := ⟨0⟩
                bindings := (Binding.layout declarations
                  ((vertex.uniforms ++ fragment.uniforms).map StageUniform.name)).map
                    Binding.ofShape
                settings := RenderSettings.ofTags p.source.tags defines.text }
  else .error .missingSource

/-- An outcome belongs to the defines and has the settings of the tags. -/
theorem of_outcome_eq_ok {p : Pass} {files : String → Option String}
    {declarations : List UniformDeclaration} {defines : Defines} {v : Variant}
    (h : p.outcome files declarations defines = .ok v) :
    v.defines = defines.text ∧ v.definesHash = Defines.hashOf defines.text ∧
      v.settings = RenderSettings.ofTags p.source.tags defines.text := by
  unfold outcome at h
  split at h
  · split at h
    · cases h
    · split at h
      · cases h
      · split at h
        · cases h
        · cases h
          exact ⟨rfl, rfl, rfl⟩
  · cases h

/-- Stages fit if no input of the fragment stage is missing. -/
theorem fits_eq (vertex fragment : Bytecode) : fits vertex fragment =
    (fragment.inputs.find? fun name => !vertex.outputs.contains name).isNone := by
  rw [fits, List.all_eq_not_any_not, ← List.isSome_find?, Option.not_isSome]

/-- The layout of a pass is that of its outcome. -/
theorem layout?_eq (p : Pass) (files : String → Option String)
    (declarations : List UniformDeclaration) (defines : Defines) :
    p.layout? files declarations defines =
      (p.outcome files declarations defines).toOption.map fun v =>
        v.bindings.map Binding.shape := by
  unfold layout? outcome
  split
  · cases p.stageCode files defines .vertex with
    | error e => rfl
    | ok vertex =>
        cases p.stageCode files defines .fragment with
        | error e => rfl
        | ok fragment =>
            simp only [fits_eq]
            cases fragment.inputs.find? fun name => !vertex.outputs.contains name with
            | some name => rfl
            | none => simp [Except.toOption, Function.comp_def]
  · rfl

end Pass

/-! ## Devices that grow -/

namespace Device

/-- A device after more was compiled: the same files can be included, and the programs
that were made before are in their places. -/
structure Extends (d d' : Device) : Prop where
  registered : d'.registered = d.registered
  directories : d'.includeDirectories = d.includeDirectories
  programs : d.programs <+: d'.programs

/-- Every device extends itself. -/
theorem Extends.refl (d : Device) : Extends d d :=
  ⟨rfl, rfl, List.prefix_refl _⟩

/-- Extending is transitive. -/
theorem Extends.trans {d d' d'' : Device} (h : Extends d d') (h' : Extends d' d'') :
    Extends d d'' :=
  ⟨h'.registered.trans h.registered, h'.directories.trans h.directories,
    h.programs.trans h'.programs⟩

/-- The files that can be included stay the same. -/
theorem Extends.includeSearch {d d' : Device} (h : Extends d d') (path : String) :
    d'.includeSearch path = d.includeSearch path := by
  rw [Device.includeSearch, Device.includeSearch, h.registered, h.directories]

/-- A program stays what it is when more is compiled. -/
theorem Extends.program? {d d' : Device} (h : Extends d d') {x : ProgramHandle} {p : Program}
    (hp : d.program? x = some p) : d'.program? x = some p := by
  rw [Device.program?, Option.join_eq_some_iff] at hp ⊢
  exact getElem?_kept h.programs hp

/-- A device after more was compiled, and not only its programs: older modules, gaps
among them, and uniform names are in their places, and nothing was recorded. -/
structure Grows (d d' : Device) : Prop extends Extends d d' where
  modules : d.modules <+: d'.modules
  names : d.uniforms.names <+: d'.uniforms.names
  events : d'.events = d.events

/-- Every device has grown out of itself. -/
theorem Grows.refl (d : Device) : Grows d d :=
  ⟨.refl d, List.prefix_refl _, List.prefix_refl _, rfl⟩

/-- Growing is transitive. -/
theorem Grows.trans {d d' d'' : Device} (h : Grows d d') (h' : Grows d' d'') : Grows d d'' :=
  ⟨h.toExtends.trans h'.toExtends, h.modules.trans h'.modules, h.names.trans h'.names,
    h'.events.trans h.events⟩

/-- A device that counts more compiled stages. -/
theorem grows_count (d : Device) (n : Nat) : d.Grows { d with compiledStages := n } :=
  ⟨⟨rfl, rfl, List.prefix_refl _⟩, List.prefix_refl _, List.prefix_refl _, rfl⟩

/-- A uniform handle keeps its name. -/
theorem Grows.name? {d d' : Device} (h : Grows d d') {u : UniformHandle} {name : String}
    (hname : d.name? u = some name) : d'.name? u = some name :=
  UniformTable.name?_kept h.names hname

/-- A module stays what it is. -/
theorem Grows.module? {d d' : Device} (h : Grows d d') {m : ModuleHandle} {code : StageModule}
    (hm : d.module? m = some code) : d'.module? m = some code := by
  rw [Device.module?, Option.join_eq_some_iff] at hm ⊢
  exact getElem?_kept h.modules hm

/-- A gap among the programs is not filled. -/
theorem Grows.program?_eq_none {d d' : Device} (h : Grows d d') {x : ProgramHandle}
    (hlt : x.index < d.programs.length) (hx : d.program? x = none) : d'.program? x = none := by
  have hgap : d.programs[x.index]? = some none := by
    rw [Device.program?, List.getElem?_eq_getElem hlt] at hx
    rw [List.getElem?_eq_getElem hlt]
    exact congrArg some hx
  rw [Device.program?, getElem?_kept h.programs hgap]
  rfl

/-- A name keeps its handle. -/
theorem Grows.handle? {d d' : Device} (h : Grows d d') {u : UniformHandle} {name : String}
    (hu : d.handle? name = some u) : d'.handle? name = some u :=
  UniformTable.handle?_kept h.names hu

/-- A device with one more program, which owns two new modules. -/
structure Makes (d d' : Device) : Prop where
  modules : ∃ v f, d'.modules = d.modules ++ [some v] ++ [some f]
  programs : d'.programs =
    d.programs ++ [some ⟨⟨d.modules.length⟩, ⟨d.modules.length + 1⟩⟩]

/-- A device with the same programs, and at most two more gaps among the modules. -/
structure MakesNothing (d d' : Device) : Prop where
  modules : d'.modules = d.modules ∨ d'.modules = d.modules ++ [none] ++ [none]
  programs : d'.programs = d.programs

/-! ## Modules -/

/-- The live modules of a program, one of each stage. -/
def Links (d : Device) (x : ProgramHandle) (vertex fragment : StageModule) : Prop :=
  ∃ p, d.program? x = some p ∧ d.module? p.vertex = some vertex ∧
    d.module? p.fragment = some fragment ∧ vertex.stage = .vertex ∧ fragment.stage = .fragment

/-- The module of a compiled stage takes the next place, and its uniforms have the handles
of their names. -/
theorem addModule_grows (code : Bytecode) (d : Device) :
    ∃ us d', d.addModule code = (⟨d.modules.length⟩, d') ∧ d.Grows d' ∧
      d'.programs = d.programs ∧
      d'.modules = d.modules ++ [some ⟨code.stage, code.inputs, code.outputs, us⟩] ∧
      us.map ModuleUniform.name = code.uniforms.map StageUniform.name ∧
      ∀ u ∈ us, d'.handle? u.name = some u.handle := by
  obtain ⟨t, hprefix, hafter⟩ := handlesFor_eq code.uniforms d
  have hnames := map_name_handlesFor code.uniforms d
  have hhandles := handle?_handlesFor code.uniforms d
  rw [addModule]
  cases hpair : handlesFor code.uniforms d with
  | mk us d' =>
      rw [hpair] at hafter hnames hhandles
      cases hafter
      exact ⟨us, _, rfl, ⟨⟨rfl, rfl, List.prefix_refl _⟩, List.prefix_append .., hprefix, rfl⟩, rfl,
        rfl, hnames, hhandles⟩

/-- Destroying a live module leaves a gap in its place. -/
theorem destroyModule_spec {h : ModuleHandle} {d : Device} {m : StageModule}
    (hm : d.module? h = some m) :
    (d.destroyModule h).value = { d with modules := d.modules.set h.index none } := by
  rw [destroyModule, hm]
  rfl

/-- Two modules of the right stages link exactly if they fit. -/
theorem link_eq {vertex fragment : ModuleHandle} {d : Device} {v f : StageModule}
    (hv : d.module? vertex = some v) (hf : d.module? fragment = some f)
    (hvertex : v.stage = .vertex) (hfragment : f.stage = .fragment) :
    d.link vertex fragment =
      match f.inputs.find? fun name => !v.outputs.contains name with
      | some name => .error (.missingOutput name)
      | none => .ok (⟨d.programs.length⟩,
          { d with programs := d.programs ++ [some ⟨vertex, fragment⟩] }) := by
  rw [link, hv, hf]
  simp only [hvertex, hfragment]
  rfl

end Device

/-- The bindings of a variant are what the modules of its program reflect, with the handles
of their names. -/
def Variant.Reflected (declarations : List UniformDeclaration) (d : Device) (v : Variant) :
    Prop :=
  ∃ vertex fragment, d.Links v.program vertex fragment ∧
    v.bindings = Binding.ofReflection declarations (vertex.uniforms ++ fragment.uniforms) ∧
    ∀ u ∈ vertex.uniforms ++ fragment.uniforms, d.handle? u.name = some u.handle

/-- Reflected handles lead back to the names of bindings. -/
theorem Variant.Reflected.named {declarations : List UniformDeclaration} {d : Device}
    {v : Variant} (h : v.Reflected declarations d) : v.Named d := by
  obtain ⟨vertex, fragment, -, hbindings, hhandles⟩ := h
  intro b hb handle hhandle
  rw [hbindings] at hb
  obtain ⟨u, hu, hname, rfl⟩ := Binding.mem_ofReflection hb hhandle
  rw [hname]
  exact d.handle?_eq_some_iff.mp (hhandles u hu)

namespace Pass

/-! ## Compiling a pass -/

/-- Linking two stages makes a program of their two modules, or fails with the first input
that is missing and makes nothing. -/
theorem linkStages_spec {vertex fragment : Bytecode} (hvertex : vertex.stage = .vertex)
    (hfragment : fragment.stage = .fragment) (d : Device) :
    ∃ d', d.Grows d' ∧
      match fragment.inputs.find? fun name => !vertex.outputs.contains name with
      | some name => (linkStages vertex fragment d).value = (.error (.missingOutput name), d') ∧
          d.MakesNothing d'
      | none => ∃ v f, (linkStages vertex fragment d).value =
            (.ok (⟨d.programs.length⟩, v.uniforms ++ f.uniforms), d') ∧
          d.Makes d' ∧ d'.Links ⟨d.programs.length⟩ v f ∧
          (v.uniforms ++ f.uniforms).map ModuleUniform.name =
            (vertex.uniforms ++ fragment.uniforms).map StageUniform.name ∧
          ∀ u ∈ v.uniforms ++ f.uniforms, d'.handle? u.name = some u.handle := by
  obtain ⟨us, d₁, hfirst, hgrows₁, hprograms₁, hmodules₁, hus, hhandles₁⟩ :=
    Device.addModule_grows vertex d
  obtain ⟨us', d₂, hsecond, hgrows₂, hprograms₂, hmodules₂, hus', hhandles₂⟩ :=
    Device.addModule_grows fragment d₁
  have hgrows := hgrows₁.trans hgrows₂
  have hprograms : d₂.programs = d.programs := hprograms₂.trans hprograms₁
  have hlen : d₁.modules.length = d.modules.length + 1 := by
    rw [hmodules₁, List.length_append, List.length_singleton]
  rw [hmodules₁] at hmodules₂
  have hv : d₂.module? ⟨d.modules.length⟩ =
      some ⟨vertex.stage, vertex.inputs, vertex.outputs, us⟩ := by
    simp [Device.module?, hmodules₂]
  have hf : d₂.module? ⟨d.modules.length + 1⟩ =
      some ⟨fragment.stage, fragment.inputs, fragment.outputs, us'⟩ := by
    simp [Device.module?, hmodules₂]
  have hlink := Device.link_eq hv hf hvertex hfragment
  unfold linkStages
  simp only [hfirst, hsecond, hlen]
  cases hmissing : fragment.inputs.find? fun name => !vertex.outputs.contains name with
  | some name =>
      simp only [hmissing] at hlink
      -- Both modules are destroyed again; their places stay empty and are not taken twice.
      have hf' : ({ d₂ with modules := d₂.modules.set d.modules.length none } :
          Device).module? ⟨d.modules.length + 1⟩ =
            some ⟨fragment.stage, fragment.inputs, fragment.outputs, us'⟩ := by
        simp [Device.module?, hmodules₂]
      have hgaps : (d₂.modules.set d.modules.length none).set (d.modules.length + 1) none =
          d.modules ++ [none] ++ [none] := by
        simp [hmodules₂]
      simp only [hlink, Logged.value_bind, Logged.value_pure, Device.destroyModule_spec hv,
        Device.destroyModule_spec hf', hgaps]
      refine ⟨{ d₂ with modules := d.modules ++ [none] ++ [none] },
        ⟨⟨hgrows.registered, hgrows.directories, hgrows.programs⟩, ?_, hgrows.names,
          hgrows.events⟩, rfl, Or.inr rfl, hprograms⟩
      simp
  | none =>
      simp only [hmissing] at hlink
      simp only [hlink, hprograms]
      refine ⟨{ d₂ with programs := d.programs ++
          [some ⟨⟨d.modules.length⟩, ⟨d.modules.length + 1⟩⟩] },
        ⟨⟨hgrows.registered, hgrows.directories, List.prefix_append ..⟩, hgrows.modules,
          hgrows.names, hgrows.events⟩, _, _, ?_, ⟨⟨_, _, hmodules₂⟩, rfl⟩,
        ⟨⟨⟨d.modules.length⟩, ⟨d.modules.length + 1⟩⟩, by simp [Device.program?], hv, hf,
          hvertex, hfragment⟩,
        by simp [hus, hus'], ?_⟩
      · simp only [Device.reflect, Device.module?] at hv hf ⊢
        rw [hv, hf]
        rfl
      · intro u hu
        rcases List.mem_append.mp hu with hu | hu
        · exact hgrows₂.handle? (hhandles₁ u hu)
        · exact hhandles₂ u hu

/-- Compiling a stage of a pass gives its code for the platform and profile, and only
counts it. -/
theorem compileStage_request (p : Pass) (disk : Disk) (path : String) (defines : Defines)
    (options : CompileOptions) (renderer : Renderer) (stage : Stage) (d : Device) :
    d.compileStage disk (p.request path defines options renderer stage) =
      match p.stageCode ((d.includeSearch path).resolve disk) defines stage with
      | .error e => .error (.compile stage e)
      | .ok code => .ok (code.retarget options.platform.compilerName
          (options.profile renderer stage), { d with compiledStages := d.compiledStages + 1 }) := by
  have hcode : (p.request path defines options renderer stage).compile
      ((d.includeSearch path).resolve disk) =
      (p.stageCode ((d.includeSearch path).resolve disk) defines stage).map fun code =>
        code.retarget options.platform.compilerName (options.profile renderer stage) :=
    StageInput.compile_retarget rfl rfl rfl rfl
  have hpath : (p.request path defines options renderer stage).path = path := rfl
  rw [Device.compileStage, hpath, hcode]
  cases p.stageCode ((d.includeSearch path).resolve disk) defines stage <;> rfl

/-- Compiling the stages of a pass gives the code of both, or the error of the first
stage without code. -/
theorem compileStages_eq (p : Pass) (disk : Disk) (path : String) (defines : Defines)
    (options : CompileOptions) (d : Device) :
    p.compileStages disk path defines options d =
      match p.stageCode ((d.includeSearch path).resolve disk) defines .vertex with
      | .error e => (.error (.compile .vertex e), d)
      | .ok vertex =>
          match p.stageCode ((d.includeSearch path).resolve disk) defines .fragment with
          | .error e => (.error (.compile .fragment e),
              { d with compiledStages := d.compiledStages + 1 })
          | .ok fragment =>
              (.ok (vertex.retarget options.platform.compilerName
                  (options.profile d.renderer .vertex),
                fragment.retarget options.platform.compilerName
                  (options.profile d.renderer .fragment)),
                { d with compiledStages := d.compiledStages + 1 + 1 }) := by
  have hvertex := p.compileStage_request disk path defines options d.renderer .vertex d
  have hfragment : Device.compileStage disk _ { d with compiledStages := d.compiledStages + 1 } =
      match p.stageCode ((d.includeSearch path).resolve disk) defines .fragment with
      | .error e => _
      | .ok code => _ :=
    p.compileStage_request disk path defines options d.renderer .fragment _
  unfold compileStages
  rw [hvertex]
  cases p.stageCode ((d.includeSearch path).resolve disk) defines .vertex with
  | error e => rfl
  | ok vertex =>
      dsimp only
      rw [hfragment]
      cases p.stageCode ((d.includeSearch path).resolve disk) defines .fragment <;> rfl

/-- Compiling a pass has its outcome: a variant with a new program and what its modules
reflect, or an error that makes nothing.  In either case the device only grows. -/
theorem compile_spec (p : Pass) (disk : Disk) (path : String) (index : Nat)
    (declarations : List UniformDeclaration) (defines : Defines) (options : CompileOptions)
    (d : Device) :
    ∃ d', d.Grows d' ∧
      ((∃ v, (p.compile disk path index declarations defines options d).value = (.ok v, d') ∧
          p.outcome ((d.includeSearch path).resolve disk) declarations defines =
            .ok v.unnumbered ∧
          v.Reflected declarations d' ∧ v.program = ⟨d.programs.length⟩ ∧ d.Makes d') ∨
        ∃ e, (p.compile disk path index declarations defines options d).value =
            (.error (e index), d') ∧
          p.outcome ((d.includeSearch path).resolve disk) declarations defines = .error e ∧
          d.MakesNothing d') := by
  unfold compile outcome
  cases hcomplete : p.resolved.isComplete with
  | false => exact ⟨d, .refl d, Or.inr ⟨.missingSource, rfl, rfl, Or.inl rfl, rfl⟩⟩
  | true =>
      rw [if_neg (by decide), if_pos rfl, p.compileStages_eq disk path defines options d]
      cases hv : p.stageCode ((d.includeSearch path).resolve disk) defines .vertex with
      | error e => exact ⟨d, .refl d, Or.inr ⟨_, rfl, rfl, Or.inl rfl, rfl⟩⟩
      | ok vertex =>
          cases hf : p.stageCode ((d.includeSearch path).resolve disk) defines .fragment with
          | error e => exact ⟨{ d with compiledStages := d.compiledStages + 1 },
              d.grows_count _, Or.inr ⟨_, rfl, rfl, Or.inl rfl, rfl⟩⟩
          | ok fragment =>
              have hvertex : (vertex.retarget options.platform.compilerName
                  (options.profile d.renderer .vertex)).stage = .vertex :=
                StageInput.stage_of_compile hv
              have hfragment : (fragment.retarget options.platform.compilerName
                  (options.profile d.renderer .fragment)).stage = .fragment :=
                StageInput.stage_of_compile hf
              obtain ⟨d', hgrows, hlink⟩ := linkStages_spec hvertex hfragment
                { d with compiledStages := d.compiledStages + 1 + 1 }
              refine ⟨d', (d.grows_count _).trans hgrows, ?_⟩
              simp only [Bytecode.retarget] at hlink ⊢
              cases hmissing : fragment.inputs.find? fun name => !vertex.outputs.contains name with
              | some name =>
                  simp only [hmissing] at hlink
                  obtain ⟨hvalue, hnothing⟩ := hlink
                  refine Or.inr ⟨_, ?_, rfl, hnothing.modules, hnothing.programs⟩
                  simp only [Logged.value_bind, hvalue]
                  rfl
              | none =>
                  simp only [hmissing] at hlink
                  obtain ⟨v, f, hvalue, hmakes, hlinks, hnames, hhandles⟩ := hlink
                  refine Or.inl ⟨⟨defines.text, Defines.hashOf defines.text, ⟨d.programs.length⟩,
                    Binding.ofReflection declarations (v.uniforms ++ f.uniforms),
                    RenderSettings.ofTags p.source.tags defines.text⟩, ?_, ?_,
                    ⟨v, f, hlinks, rfl, hhandles⟩, rfl, hmakes.modules, hmakes.programs⟩
                  · simp only [Logged.value_bind, hvalue]
                    rfl
                  · rw [Variant.unnumbered, Binding.map_unnumbered_ofReflection, hnames]

/-- A variant that a pass compiles to binds what its modules reflect. -/
theorem reflected_of_compile {p : Pass} {disk : Disk} {path : String} {index : Nat}
    {declarations : List UniformDeclaration} {defines : Defines} {options : CompileOptions}
    {d d' : Device} {v : Variant}
    (h : (p.compile disk path index declarations defines options d).value = (.ok v, d')) :
    v.Reflected declarations d' := by
  obtain ⟨d₁, -, ⟨v₁, hvalue, -, hreflected, -⟩ | ⟨e, hvalue, -⟩⟩ :=
    p.compile_spec disk path index declarations defines options d
  · cases h.symm.trans hvalue
    exact hreflected
  · cases h.symm.trans hvalue

end Pass
end ShaderAssets
