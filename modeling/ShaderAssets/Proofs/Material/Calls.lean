import Mathlib.Data.List.Induction
import ShaderAssets.Proofs.Material.History

/-!
# Calls on a material

The calls on a material taken one by one, the note that it was compiled among them.  As
long as no uniform gets a name with an equals sign, the defines string holds one token for
each define and no other, every define holds a value that can be one, and a call that
changes the defines string marks the material as not compiled.

Main results:

- Inductive {lit}`Call` and definition {lit}`Call.run`: the calls.
- Theorem {lit}`InStep.runs`: tokens and uniforms are in step after any calls.
- Theorem {lit}`isSpelled_ofCalls`: the defines string is that of the tokens after any calls.
- Theorem {lit}`dirty_of_defines_ne`: a change of the defines string is marked.
- Theorem {lit}`defines_ofCalls`: the defines string after any calls.
- Theorem {lit}`nodup_ofCalls`: the names of uniforms after any calls.
-/

namespace ShaderAssets
namespace Material

open Number

/-! ## Values that can be defines -/

namespace UniformValue

/-- Whether the value is a matrix. -/
def isMatrix : UniformValue → Bool
  | .mat3 .. => true
  | .mat4 .. => true
  | _ => false

/-- A value can be a define exactly if it is neither a sampler nor a matrix. -/
theorem isSome_defineText?_iff (v : UniformValue) :
    v.defineText?.isSome = true ↔ v.isSampler = false ∧ v.isMatrix = false := by
  cases v <;> simp [defineText?, isSampler, isMatrix]

end UniformValue

/-- A define of a material that is in step is neither a sampler nor a matrix. -/
theorem InStep.not_opaque {Allowed : String → Prop} {m : Material}
    {es : List (String × String)} (h : InStep Allowed m es) {u : MaterialUniform}
    (hu : u ∈ m.uniforms) (hdefine : u.isDefine = true) :
    u.value.isSampler = false ∧ u.value.isMatrix = false := by
  obtain ⟨text, -, hwrites⟩ := h.exists_writes hu hdefine
  exact u.value.isSome_defineText?_iff.mp hwrites.isSome

/-! ## Calls -/

/-- A call on a material. -/
inductive Call where
  | setUniform (name : String) (value : UniformValue) (define : Bool)
  | setTexture (name : String) (texture : Option TextureHandle)
  | setShader (handle : ShaderHandle) (shader : Shader)
  /-- The copy takes the place of the material. -/
  | copy (name : String)
  | markCompiled

namespace Call

/-- Carries out a call. -/
def run (m : Material) : Call → Material
  | .setUniform name value define => (m.setUniform name value define).value
  | .setTexture name texture => (m.setTexture name texture).2
  | .setShader handle shader => (m.setShader handle shader).value
  | .copy name => m.copy name
  | .markCompiled => { m with dirty := false }

/-- The names that a call may give to new uniforms are allowed. -/
def Names (Allowed : String → Prop) : Call → Prop
  | .setUniform name _ _ => Allowed name
  | .setShader _ shader => ∀ u ∈ shader.uniforms, Allowed u.bindName
  | _ => True

end Call

section Calls

variable {Allowed : String → Prop} {m : Material} {es : List (String × String)}

/-- A call keeps tokens and uniforms in step. -/
theorem InStep.run (hallowed : ∀ name, Allowed name → '=' ∉ name.toList)
    (h : InStep Allowed m es) {call : Call} (hnames : call.Names Allowed) :
    ∃ es', InStep Allowed (call.run m) es' := by
  cases call with
  | setUniform name value define => exact h.setUniform hallowed hnames value define
  | setTexture name texture => exact ⟨es, h.setTexture name texture⟩
  | setShader handle shader => exact h.setShader hallowed handle hnames
  | copy name => exact ⟨es, h.congr rfl rfl⟩
  | markCompiled => exact ⟨es, h.congr rfl rfl⟩

/-- Calls keep tokens and uniforms in step. -/
theorem InStep.runs (hallowed : ∀ name, Allowed name → '=' ∉ name.toList)
    (h : InStep Allowed m es) {calls : List Call} (hnames : ∀ call ∈ calls, call.Names Allowed) :
    ∃ es', InStep Allowed (calls.foldl Call.run m) es' := by
  induction calls generalizing m es with
  | nil => exact ⟨es, h⟩
  | cons call calls ih =>
      obtain ⟨es', hstep⟩ := h.run hallowed (hnames call (by simp))
      exact ih hstep fun call' hmem => hnames call' (List.mem_cons_of_mem call hmem)

end Calls

/-! ## Changes of the defines string -/

/-- Every call but the note of a compilation makes the defines string anew, or leaves it and
the mark. -/
theorem Call.changes (m : Material) {call : Call} (h : call ≠ .markCompiled) :
    Changes m (call.run m) := by
  cases call with
  | setUniform name value define => exact .setUniform ..
  | setTexture name texture => exact .setTexture ..
  | setShader handle shader => exact .setShader ..
  | copy name => exact .copy ..
  | markCompiled => exact absurd rfl h

/-- A call leaves the defines string that of the tokens. -/
theorem IsSpelled.run {m : Material} (h : m.IsSpelled) (call : Call) :
    (call.run m).IsSpelled := by
  by_cases hcompiled : call = .markCompiled
  · rw [hcompiled]
    exact h
  · exact (Call.changes m hcompiled).isSpelled h

/-- A call that changes the defines string leaves the material marked as not compiled. -/
theorem dirty_of_defines_ne {m : Material} {call : Call}
    (h : (call.run m).defines ≠ m.defines) : (call.run m).dirty = true := by
  by_cases hcompiled : call = .markCompiled
  · rw [hcompiled] at h
    exact absurd rfl h
  · exact (Call.changes m hcompiled).dirty_of_ne h

/-! ## Any calls -/

/-- The material that calls make of a new one. -/
def ofCalls (name : String) (calls : List Call) : Material :=
  calls.foldl Call.run (create name)

/-- After any calls, whatever the names are, the defines string is that of the tokens. -/
theorem isSpelled_ofCalls (name : String) (calls : List Call) :
    (ofCalls name calls).IsSpelled := by
  induction calls using List.reverseRecOn with
  | nil => exact isSpelled_create name
  | append_singleton calls call ih =>
      rw [ofCalls, List.foldl_append]
      exact ih.run call

/-- After any calls that give no uniform a name with an equals sign, the uniforms have
different names, no define is a sampler or a matrix, and the defines string consists of one
token for each define and no other, with a text that was written for its value.  A further
call that changes the defines string leaves the material marked as not compiled. -/
theorem defines_ofCalls {calls : List Call}
    (h : ∀ call ∈ calls, call.Names ('=' ∉ ·.toList)) (name : String) :
    ((ofCalls name calls).uniforms.map MaterialUniform.name).Nodup ∧
    (∀ u ∈ (ofCalls name calls).uniforms, u.isDefine = true →
      u.value.isSampler = false ∧ u.value.isMatrix = false) ∧
    (∃ es : List (String × String),
      (ofCalls name calls).defines = String.join ((es.map Defines.token).map (· ++ ";")) ∧
      (es.map Prod.fst).Perm
        (((ofCalls name calls).uniforms.filter (·.isDefine)).map MaterialUniform.name) ∧
      ∀ u ∈ (ofCalls name calls).uniforms, u.isDefine = true →
        ∃ text, (u.name, text) ∈ es ∧ Writes u.value text) ∧
    ∀ call : Call, (call.run (ofCalls name calls)).defines ≠ (ofCalls name calls).defines →
      (call.run (ofCalls name calls)).dirty = true := by
  obtain ⟨es, hes⟩ := (inStep_create ('=' ∉ ·.toList) name).runs (fun _ hname => hname) h
  rw [← ofCalls] at hes
  refine ⟨hes.nodup_uniforms, fun u hu hdefine => hes.not_opaque hu hdefine,
    ⟨es, ?_, hes.perm_names, fun u hu hdefine => hes.exists_writes hu hdefine⟩,
    fun call hne => dirty_of_defines_ne hne⟩
  rw [isSpelled_ofCalls name calls, hes.tokens_eq, spell, tokensOf]

/-- A define is set to negative zero and, after the material was compiled, to zero, which
is an equal value; a sampler cannot become a define. -/
def callsSample : List Call :=
  [.setUniform "GLOSS" (.float ⟨0x80000000⟩) true, .markCompiled,
    .setUniform "GLOSS" (.float .zero) true, .setUniform "IMAGE" (.sampler .flat 1 none) true]

/-- After these calls the only token was written for a value that is equal to zero. -/
theorem defines_ofCalls_sample :
    (∀ call ∈ callsSample, call.Names ('=' ∉ ·.toList)) ∧
    ∃ es : List (String × String),
      (ofCalls "m" callsSample).defines =
        String.join ((es.map Defines.token).map (· ++ ";")) ∧
      (es.map Prod.fst).Perm ["GLOSS"] ∧
      ∃ text, ("GLOSS", text) ∈ es ∧ Writes (.float .zero) text := by
  have hnames : ∀ call ∈ callsSample, call.Names ('=' ∉ ·.toList) := by
    simp [callsSample, Call.Names]
  obtain ⟨-, -, ⟨es, hdefines, hperm, hwrites⟩, -⟩ := defines_ofCalls hnames "m"
  have huniforms : (ofCalls "m" callsSample).uniforms =
      [⟨"GLOSS", .float .zero, true⟩, ⟨"IMAGE", .sampler .flat 1 none, false⟩] := by
    decide +kernel
  rw [huniforms] at hperm hwrites
  exact ⟨hnames, es, hdefines, hperm, hwrites _ List.mem_cons_self rfl⟩

/-! ## Names -/

/-- Setting a uniform leaves the names of uniforms different. -/
theorem nodup_assign {m : Material} (h : (m.uniforms.map MaterialUniform.name).Nodup)
    (name : String) (value : UniformValue) (define : Bool) :
    ((m.assign name value define).uniforms.map MaterialUniform.name).Nodup := by
  unfold assign
  cases hold : m.uniform? name with
  | some old =>
      obtain ⟨hmem, hname⟩ := uniform?_eq_some hold
      have hreplace := (setsUniform_replace (u := ⟨name, value, define⟩) h hmem hname).nodup
      dsimp only
      split
      · exact hreplace
      · exact hreplace
  | none =>
      have happend :=
        (setsUniform_append (u := ⟨name, value, define⟩) h (name_ne_of_uniform? hold)).nodup
      dsimp only
      split
      · exact happend
      · exact happend

/-- Setting a uniform to a value that may be no define leaves the names different. -/
theorem nodup_setUniform {m : Material} (h : (m.uniforms.map MaterialUniform.name).Nodup)
    (name : String) (value : UniformValue) (define : Bool) :
    ((m.setUniform name value define).value.uniforms.map MaterialUniform.name).Nodup := by
  unfold setUniform
  split
  · exact nodup_assign h ..
  · exact nodup_assign h ..

/-- Adding declared uniforms leaves the names different. -/
theorem nodup_seed (us : List Source.UniformDeclaration) {m : Material}
    (h : (m.uniforms.map MaterialUniform.name).Nodup) :
    ((seed us m).value.uniforms.map MaterialUniform.name).Nodup := by
  induction us generalizing m with
  | nil => exact h
  | cons u us ih =>
      rw [seed]
      split
      · exact ih h
      · exact ih (nodup_setUniform h ..)

/-- A call leaves the names of uniforms different. -/
theorem nodup_run {m : Material} (h : (m.uniforms.map MaterialUniform.name).Nodup)
    (call : Call) : ((call.run m).uniforms.map MaterialUniform.name).Nodup := by
  cases call with
  | setUniform name value define => exact nodup_setUniform h name value define
  | setTexture name texture =>
      rw [Call.run, setTexture]
      split
      · exact h
      · rename_i u hu
        split
        · exact h
        · rename_i value _
          exact (setsUniform_replace (u := { u with value := value }) h
            (uniform?_eq_some hu).1 rfl).nodup
  | setShader handle shader =>
      rw [Call.run, setShader]
      split
      · exact h
      · exact nodup_seed shader.uniforms h
  | copy name => exact h
  | markCompiled => exact h

/-- After any calls, whatever the names are, the uniforms have different names. -/
theorem nodup_ofCalls (name : String) (calls : List Call) :
    ((ofCalls name calls).uniforms.map MaterialUniform.name).Nodup := by
  induction calls using List.reverseRecOn with
  | nil => exact List.nodup_nil
  | append_singleton calls call ih =>
      rw [ofCalls, List.foldl_append]
      exact nodup_run ih call

end Material
end ShaderAssets
