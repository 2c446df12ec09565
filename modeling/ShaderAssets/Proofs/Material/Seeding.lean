import ShaderAssets.Proofs.Material.Calls
import ShaderAssets.Proofs.Shader.Bindings

/-!
# Seeding a material

Binding a material to another shader adds the declared uniforms that the material does not
have yet.  Whether it has one is asked anew for every declaration, while the uniforms grow,
so a name that is declared twice is added once, for its first declaration.  Nothing that was
there is touched: new uniforms and new tokens come behind the old ones.

Main results:

- Theorem {lit}`InStep.setUniform_new`: setting a new uniform appends it and its token.
- Structure {lit}`Seeded`: what seeding adds for a list of declarations.
- Theorem {lit}`Seeded.concat`: one more declaration.
- Theorem {lit}`InStep.seeded_seed`: any declarations.
- Theorem {lit}`setShader_frame`: binding a shader after any calls.
-/

namespace ShaderAssets

open Source (UniformDeclaration)

namespace MaterialUniform

/-- The uniform that a declaration asks for: its default, as a define if it is declared as
one and its default can be one. -/
def ofDeclaration (u : UniformDeclaration) : MaterialUniform where
  name := u.bindName
  value := .ofDeclaration u
  isDefine := u.isDefine && (Material.UniformValue.ofDeclaration u).defineText?.isSome

/-- The token of a uniform that is a define. -/
def token? (u : MaterialUniform) : Option String :=
  if u.isDefine then u.value.defineText?.map (Material.token u.name) else none

end MaterialUniform

namespace Material

/-! ## New uniforms -/

/-- The names that a material has are those of its uniforms. -/
theorem has_iff {m : Material} {name : String} :
    m.has name = true ↔ name ∈ m.uniforms.map MaterialUniform.name := by
  simp [has, uniform?]

/-- Putting the token of a name that no token has appends it. -/
theorem putToken_of_new {name : String} {tokens : List String}
    (h : ∀ t ∈ tokens, definesName name t = false) (text : String) :
    putToken name text tokens = tokens ++ [token name text] := by
  have hnone : tokens.findIdx? (definesName name) = none := List.findIdx?_eq_none_iff.mpr h
  rw [putToken, hnone]

/-- A material with one more uniform, and its token behind the others if it is a define. -/
def push (m : Material) (u : MaterialUniform) : Material :=
  { m with
    uniforms := m.uniforms ++ [u]
    tokens := m.tokens ++ u.token?.toList
    defines := if u.isDefine then spell (m.tokens ++ u.token?.toList) else m.defines
    dirty := m.dirty || u.isDefine }

section Seed

variable {Allowed : String → Prop} {m m' : Material} {es : List (String × String)}
  {us : List UniformDeclaration} {added : List MaterialUniform}

/-- No token of a material that is in step has the name of a uniform that it does not
have. -/
theorem InStep.definesName_eq_false (hallowed : ∀ name, Allowed name → '=' ∉ name.toList)
    (h : InStep Allowed m es) {name : String} (hnew : m.has name = false) :
    ∀ t ∈ m.tokens, definesName name t = false := by
  intro t ht
  rw [h.tokens_eq, tokensOf] at ht
  obtain ⟨e, he, rfl⟩ := List.mem_map.mp ht
  rw [definesName_token (h.no_equals hallowed e he), beq_eq_false_iff_ne]
  rintro rfl
  obtain ⟨u, hu, hname, -⟩ := h.written e he
  have hhas : m.has e.1 = true := has_iff.mpr (hname ▸ List.mem_map_of_mem hu)
  rw [hnew] at hhas
  cases hhas

/-- Setting a uniform that the material does not have appends it, as a define if it is to be
one and its value can be one. -/
theorem InStep.setUniform_new (hallowed : ∀ name, Allowed name → '=' ∉ name.toList)
    (h : InStep Allowed m es) {name : String} (hnew : m.has name = false)
    (value : UniformValue) (define : Bool) :
    (m.setUniform name value define).value =
      m.push ⟨name, value, define && value.defineText?.isSome⟩ := by
  have hnone : m.uniform? name = none := by simpa [has] using hnew
  -- A uniform that is no define leaves tokens and mark alone.
  have hplain : m.assign name value false = m.push ⟨name, value, false⟩ := by
    simp [Material.assign, hnone, push, MaterialUniform.token?]
  cases define with
  | false => simpa [Material.setUniform] using hplain
  | true =>
      cases htext : value.defineText? with
      | none => simpa [Material.setUniform, htext] using hplain
      | some text =>
          have hput := putToken_of_new (h.definesName_eq_false hallowed hnew) text
          simp [Material.setUniform, htext, Material.assign, hnone, updateToken, hput, push,
            MaterialUniform.token?]

/-! ## Seeding -/

/-- What seeding a material for declarations adds: one uniform for each declared name that
the material does not have, in the order of the declarations, as its first declaration asks
for it, and the tokens of these uniforms. -/
structure Seeded (m : Material) (us : List UniformDeclaration) (added : List MaterialUniform)
    (m' : Material) : Prop where
  name_eq : m'.name = m.name
  shader_eq : m'.shader = m.shader
  uniforms_eq : m'.uniforms = m.uniforms ++ added
  tokens_eq : m'.tokens = m.tokens ++ added.filterMap MaterialUniform.token?
  names_eq : added.map MaterialUniform.name =
    (us.map UniformDeclaration.bindName).eraseDups.filter (!m.has ·)
  ofFirst : ∀ v ∈ added, ∃ u, us.find? (·.bindName == v.name) = some u ∧
    v = MaterialUniform.ofDeclaration u

/-- Without declarations nothing is added. -/
theorem Seeded.nil (m : Material) : Seeded m [] [] m where
  name_eq := rfl
  shader_eq := rfl
  uniforms_eq := (List.append_nil _).symm
  tokens_eq := (List.append_nil _).symm
  names_eq := rfl
  ofFirst _ hv := absurd hv List.not_mem_nil

/-- After seeding, a material has its former names and the declared ones. -/
theorem Seeded.has_iff (h : Seeded m us added m') {name : String} :
    m'.has name = true ↔ m.has name = true ∨ name ∈ us.map UniformDeclaration.bindName := by
  rw [Material.has_iff, h.uniforms_eq, List.map_append, List.mem_append, h.names_eq,
    List.mem_filter, List.mem_eraseDups, ← Material.has_iff]
  by_cases hold : m.has name = true
  · simp [hold]
  · simp [hold]

/-- A first declaration stays the first one when another follows. -/
theorem Seeded.ofFirst_concat (h : Seeded m us added m') (u : UniformDeclaration) :
    ∀ v ∈ added, ∃ w, (us ++ [u]).find? (·.bindName == v.name) = some w ∧
      v = MaterialUniform.ofDeclaration w := by
  intro v hv
  obtain ⟨w, hw, heq⟩ := h.ofFirst v hv
  exact ⟨w, by rw [List.find?_append, hw, Option.some_or], heq⟩

/-- A declaration of a name that the material has by now adds nothing. -/
theorem Seeded.concat_of_has (h : Seeded m us added m') {u : UniformDeclaration}
    (hhas : m'.has u.bindName = true) : Seeded m (us ++ [u]) added m' where
  name_eq := h.name_eq
  shader_eq := h.shader_eq
  uniforms_eq := h.uniforms_eq
  tokens_eq := h.tokens_eq
  names_eq := by
    rw [h.names_eq, List.map_append, List.map_singleton, eraseDups_concat]
    split
    · rfl
    · rename_i hdeclared
      have hold : m.has u.bindName = true :=
        (h.has_iff.mp hhas).resolve_right fun hmem =>
          hdeclared (List.contains_iff_mem.mpr hmem)
      simp [hold]
  ofFirst := h.ofFirst_concat u

/-- A declaration of a new name adds the uniform that it asks for. -/
theorem Seeded.concat_of_new (h : Seeded m us added m') {u : UniformDeclaration}
    (hnew : m'.has u.bindName = false) :
    Seeded m (us ++ [u]) (added ++ [.ofDeclaration u]) (m'.push (.ofDeclaration u)) := by
  have hneither : ¬(m.has u.bindName = true ∨
      u.bindName ∈ us.map UniformDeclaration.bindName) := by
    rw [← h.has_iff, hnew]
    exact Bool.false_ne_true
  obtain ⟨hold, hdeclared⟩ := not_or.mp hneither
  constructor
  case name_eq => exact h.name_eq
  case shader_eq => exact h.shader_eq
  case uniforms_eq => rw [push, h.uniforms_eq, List.append_assoc]
  case tokens_eq =>
    have hlast : [MaterialUniform.ofDeclaration u].filterMap MaterialUniform.token? =
        (MaterialUniform.ofDeclaration u).token?.toList := by
      cases htoken : (MaterialUniform.ofDeclaration u).token? <;> simp [htoken]
    rw [push, h.tokens_eq, List.append_assoc, List.filterMap_append, hlast]
  case names_eq =>
    rw [List.map_append, h.names_eq, List.map_append, List.map_singleton, List.map_singleton,
      eraseDups_concat, if_neg fun hmem => hdeclared (List.contains_iff_mem.mp hmem),
      List.filter_append]
    simp [hold, MaterialUniform.ofDeclaration]
  case ofFirst =>
    intro v hv
    rcases List.mem_append.mp hv with hv | hv
    · exact h.ofFirst_concat u v hv
    · obtain rfl := List.mem_singleton.mp hv
      refine ⟨u, ?_, rfl⟩
      have hnone : us.find? (·.bindName == u.bindName) = none := by
        rw [List.find?_eq_none]
        intro w hw heq
        exact hdeclared (List.mem_map.mpr ⟨w, hw, beq_iff_eq.mp heq⟩)
      simp [List.find?_append, MaterialUniform.ofDeclaration, hnone]

/-- Declarations may be seeded in two parts. -/
theorem seed_append (us vs : List UniformDeclaration) (m : Material) :
    (seed (us ++ vs) m).value = (seed vs (seed us m).value).value := by
  induction us generalizing m with
  | nil => rfl
  | cons u us ih =>
      rw [List.cons_append, seed, seed]
      split
      · exact ih m
      · exact ih _

/-- One declaration more, after those before it were seeded. -/
theorem InStep.seeded_concat (hallowed : ∀ name, Allowed name → '=' ∉ name.toList)
    (hstep : InStep Allowed m' es) (h : Seeded m us added m') (u : UniformDeclaration) :
    ∃ added', Seeded m (us ++ [u]) added' (Material.seed [u] m').value := by
  cases hhas : m'.has u.bindName with
  | true =>
      refine ⟨added, ?_⟩
      rw [Material.seed, if_pos hhas]
      exact h.concat_of_has hhas
  | false =>
      refine ⟨added ++ [.ofDeclaration u], ?_⟩
      have hseed : (Material.seed [u] m').value =
          (m'.setUniform u.bindName (.ofDeclaration u) u.isDefine).value := by
        rw [Material.seed, if_neg (by simp [hhas])]
        rfl
      rw [hseed, hstep.setUniform_new hallowed hhas]
      exact h.concat_of_new hhas

/-- Seeding adds what it is to add, if tokens and uniforms are in step. -/
theorem InStep.seeded_seed (hallowed : ∀ name, Allowed name → '=' ∉ name.toList)
    (h : InStep Allowed m es) (us : List UniformDeclaration)
    (hnames : ∀ u ∈ us, Allowed u.bindName) :
    ∃ added, Seeded m us added (Material.seed us m).value := by
  -- The declarations are taken off at the end: what was seeded before is still in step.
  induction us using List.reverseRecOn with
  | nil => exact ⟨[], .nil m⟩
  | append_singleton us u ih =>
      have hbefore : ∀ v ∈ us, Allowed v.bindName :=
        fun v hv => hnames v (List.mem_append_left _ hv)
      obtain ⟨added, hseeded⟩ := ih hbefore
      obtain ⟨es', hes'⟩ := h.seed hallowed hbefore
      rw [seed_append]
      exact hes'.seeded_concat hallowed hseeded u

end Seed

/-! ## Binding a shader -/

/-- A material that calls make of a new one without giving a uniform a name with an equals
sign. -/
def IsPlain (m : Material) : Prop :=
  ∃ name calls, (∀ call ∈ calls, call.Names ('=' ∉ ·.toList)) ∧ m = ofCalls name calls

/-- Tokens and uniforms of such a material are in step. -/
theorem IsPlain.inStep {m : Material} (h : m.IsPlain) :
    ∃ es, InStep ('=' ∉ ·.toList) m es := by
  obtain ⟨name, calls, hcalls, rfl⟩ := h
  exact (inStep_create ('=' ∉ ·.toList) name).runs (fun _ hname => hname) hcalls

/-- Binding a shader in which no name has an equals sign to a material of which the same is
true.  Binding the shader that is bound already does nothing and reports nothing.  Binding
another one keeps every uniform and every token where it stands; behind them come one uniform
for each declared name that the material does not have, in the order of the declarations, at
the default of the first declaration of the name and as a define exactly if that declaration
is one and its default can be one, and the tokens of these uniforms. -/
theorem setShader_frame {m : Material} (hm : m.IsPlain) (handle : ShaderHandle)
    {shader : Shader} (hshader : ∀ u ∈ shader.uniforms, '=' ∉ u.bindName.toList) :
    (m.shader = some handle → m.setShader handle shader = pure m) ∧
    (m.shader ≠ some handle → ∃ m' added,
      (m.setShader handle shader).value = m' ∧
      m'.name = m.name ∧ m'.shader = some handle ∧ m'.dirty = true ∧
      m'.uniforms = m.uniforms ++ added ∧
      m'.tokens = m.tokens ++ added.filterMap MaterialUniform.token? ∧
      added.map MaterialUniform.name =
        (shader.uniforms.map UniformDeclaration.bindName).eraseDups.filter (!m.has ·) ∧
      ∀ v ∈ added, ∃ u, shader.declaration? v.name = some u ∧
        v.value = .ofDeclaration u ∧
        (v.isDefine = true ↔ u.isDefine = true ∧ v.value.defineText?.isSome = true)) := by
  obtain ⟨es, hes⟩ := hm.inStep
  constructor
  · intro hbound
    rw [setShader, if_pos hbound]
  · intro hother
    rw [setShader, if_neg hother]
    have hstart : InStep ('=' ∉ ·.toList) { m with shader := some handle, dirty := true } es :=
      hes.congr rfl rfl
    obtain ⟨added, hadded⟩ := hstart.seeded_seed (fun _ hname => hname) shader.uniforms hshader
    refine ⟨_, added, rfl, hadded.name_eq, hadded.shader_eq, ?_, hadded.uniforms_eq,
      hadded.tokens_eq, hadded.names_eq, ?_⟩
    · exact (Changes.seed ..).dirty rfl
    · intro v hv
      obtain ⟨u, hu, rfl⟩ := hadded.ofFirst v hv
      exact ⟨u, hu, rfl, by simp [MaterialUniform.ofDeclaration]⟩

/-- A shader that declares a define the material below has, another one twice, and a sampler
that cannot be a define. -/
def repeatingShader : Shader :=
  { Shader.unloaded "repeating.shader" with
    uniforms := [
      { UniformDeclaration.plain .int "LIGHTS" "Lights" with isDefine := true },
      { UniformDeclaration.plain .bool "FOG" "Fog" with
        defaultValue := "true", isDefine := true },
      UniformDeclaration.plain .bool "FOG" "Fog again",
      { UniformDeclaration.plain .sampler2D "IMAGE" "Image" with isDefine := true }] }

/-- The lights stay as they were set; the fog is added once, as its first declaration has it,
and the image is no define. -/
theorem setShader_frame_sample :
    (ofCalls "m" [.setUniform "LIGHTS" (.int 3) true]).IsPlain ∧
    (∀ u ∈ repeatingShader.uniforms, '=' ∉ u.bindName.toList) ∧
    ∃ m' added,
      ((ofCalls "m" [.setUniform "LIGHTS" (.int 3) true]).setShader ⟨0⟩ repeatingShader).value =
        m' ∧
      m'.uniforms = ⟨"LIGHTS", .int 3, true⟩ :: added ∧
      added.map MaterialUniform.name = ["FOG", "IMAGE"] ∧
      (∀ v ∈ added, v.name = "FOG" → v.value = .bool true ∧ v.isDefine = true) ∧
      ∀ v ∈ added, v.name = "IMAGE" → v.isDefine = false := by
  have hplain : (ofCalls "m" [.setUniform "LIGHTS" (.int 3) true]).IsPlain :=
    ⟨"m", _, by simp [Call.Names], rfl⟩
  have hshader : ∀ u ∈ repeatingShader.uniforms, '=' ∉ u.bindName.toList := by decide
  obtain ⟨m', added, hset, -, -, -, huniforms, -, hnames, hfirst⟩ :=
    (setShader_frame hplain ⟨0⟩ hshader).2 (by decide)
  have hmissing : (repeatingShader.uniforms.map UniformDeclaration.bindName).eraseDups.filter
      (!(ofCalls "m" [.setUniform "LIGHTS" (.int 3) true]).has ·) = ["FOG", "IMAGE"] := by
    decide +kernel
  have hold : (ofCalls "m" [.setUniform "LIGHTS" (.int 3) true]).uniforms =
      [⟨"LIGHTS", .int 3, true⟩] := by
    decide +kernel
  rw [hold] at huniforms
  refine ⟨hplain, hshader, m', added, hset, huniforms, hnames.trans hmissing, ?_, ?_⟩
  · intro v hv hname
    obtain ⟨u, hu, hvalue, hdefine⟩ := hfirst v hv
    rw [hname] at hu
    obtain rfl := Option.some.inj hu
    exact ⟨hvalue.trans (by decide +kernel), hdefine.mpr ⟨rfl, by rw [hvalue]; decide +kernel⟩⟩
  · intro v hv hname
    obtain ⟨u, hu, hvalue, hdefine⟩ := hfirst v hv
    rw [hname] at hu
    obtain rfl := Option.some.inj hu
    rw [← Bool.not_eq_true, hdefine, hvalue]
    decide +kernel

end Material
end ShaderAssets
