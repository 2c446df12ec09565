import ShaderAssets.Proofs.Material.Changes
import ShaderAssets.Proofs.Material.Tokens

/-!
# Histories of a material

A material is made and then changed: values are set, textures are given to samplers, and
the material is bound to shaders and copied.  The tokens are edited in place by each of
these calls; whatever the history, there is one token for every uniform that is a define
and no other.  All that this needs of the names of uniforms is that none has an equals
sign.

Main results:

- Inductive {lit}`Reachable`: the materials that calls with usable names lead to.
- Structure {lit}`InStep`: the tokens are those of the defines.
- Theorem {lit}`InStep.assign`: setting a uniform keeps tokens and uniforms in step.
- Theorem {lit}`Reachable.inStep`: they are in step in every history.
- Theorem {lit}`Reachable.isSpelled`: so are tokens and defines string.
-/

namespace ShaderAssets
namespace Material

open Number

/-- A name that a uniform may have: a name of the language that is not defined for a
stage. -/
structure IsUniformName (name : String) : Prop where
  isName : Condition.IsName name.toList
  ne_stage : ∀ stage : Stage, name ≠ stage.macroName

/-- The materials that calls lead to in which every uniform has a usable name. -/
inductive Reachable : Material → Prop where
  | create (name : String) : Reachable (create name)
  | setUniform {m : Material} (h : Reachable m) {name : String} (hname : IsUniformName name)
      (value : UniformValue) (define : Bool) : Reachable (m.setUniform name value define).value
  | setTexture {m : Material} (h : Reachable m) (name : String) (texture : Option TextureHandle) :
      Reachable (m.setTexture name texture).2
  | setShader {m : Material} (h : Reachable m) (handle : ShaderHandle) {shader : Shader}
      (hnames : ∀ u ∈ shader.uniforms, IsUniformName u.bindName) :
      Reachable (m.setShader handle shader).value
  | copy {m : Material} (h : Reachable m) (name : String) : Reachable (m.copy name)

/-! ## Equal values -/

namespace UniformValue

/-- Equality of numbers is transitive. -/
theorem sameValue_trans {x y z : Single} (h : x.sameValue y = true) (h' : y.sameValue z = true) :
    x.sameValue z = true := by
  simp only [Single.sameValue, Bool.and_eq_true, Bool.or_eq_true, beq_iff_eq,
    Bool.not_eq_true'] at h h' ⊢
  obtain ⟨⟨hx, -⟩, h⟩ := h
  obtain ⟨⟨-, hz⟩, h'⟩ := h'
  refine ⟨⟨hx, hz⟩, ?_⟩
  rcases h with rfl | ⟨hx, hy⟩
  · exact h'
  · rcases h' with rfl | ⟨-, hz⟩
    · exact Or.inr ⟨hx, hy⟩
    · exact Or.inr ⟨hx, hz⟩

/-- Equality of rows is transitive. -/
theorem same_row_trans {r s t : Row} (h : r.same s = true) (h' : s.same t = true) :
    r.same t = true := by
  simp only [Row.same, Bool.and_eq_true] at h h' ⊢
  exact ⟨⟨⟨sameValue_trans h.1.1.1 h'.1.1.1, sameValue_trans h.1.1.2 h'.1.1.2⟩,
    sameValue_trans h.1.2 h'.1.2⟩, sameValue_trans h.2 h'.2⟩

/-- Equality of values is transitive. -/
theorem same_trans {u v w : UniformValue} (h : u.same v = true) (h' : v.same w = true) :
    u.same w = true := by
  -- Values of different kinds are never equal, so all three are of one kind.
  cases u <;> cases v <;> first
    | exact absurd h Bool.false_ne_true
    | cases w <;> first
      | exact absurd h' Bool.false_ne_true
      | simp only [same, Bool.and_eq_true, beq_iff_eq] at h h' ⊢
  case int.int.int => exact h.trans h'
  case float.float.float => exact sameValue_trans h h'
  case bool.bool.bool => exact h.trans h'
  case sampler.sampler.sampler =>
    exact ⟨⟨h.1.1.trans h'.1.1, h.1.2.trans h'.1.2⟩, h.2.trans h'.2⟩
  case vec2.vec2.vec2 => exact ⟨sameValue_trans h.1 h'.1, sameValue_trans h.2 h'.2⟩
  case vec3.vec3.vec3 =>
    exact ⟨⟨sameValue_trans h.1.1 h'.1.1, sameValue_trans h.1.2 h'.1.2⟩,
      sameValue_trans h.2 h'.2⟩
  case vec4.vec4.vec4 => exact same_row_trans h h'
  case color.color.color => exact same_row_trans h h'
  case mat3.mat3.mat3 =>
    exact ⟨⟨same_row_trans h.1.1 h'.1.1, same_row_trans h.1.2 h'.1.2⟩, same_row_trans h.2 h'.2⟩
  case mat4.mat4.mat4 =>
    exact ⟨⟨⟨same_row_trans h.1.1.1 h'.1.1.1, same_row_trans h.1.1.2 h'.1.1.2⟩,
      same_row_trans h.1.2 h'.1.2⟩, same_row_trans h.2 h'.2⟩

end UniformValue

/-- A text that was written for a value: its own text, or that of an equal value. -/
def Writes (value : UniformValue) (text : String) : Prop :=
  ∃ w : UniformValue, w.defineText? = some text ∧ (w = value ∨ w.same value = true)

/-- A text that was written for a value stands for every equal value. -/
theorem Writes.of_same {v w : UniformValue} {text : String} (h : Writes v text)
    (hsame : v.same w = true) : Writes w text := by
  obtain ⟨u, htext, rfl | hu⟩ := h
  · exact ⟨u, htext, Or.inr hsame⟩
  · exact ⟨u, htext, Or.inr (UniformValue.same_trans hu hsame)⟩

/-- The text that was written for a whole number. -/
theorem Writes.int {n : Int32} {text : String} (h : Writes (.int n) text) :
    text = String.ofList (intText n.toInt) := by
  obtain ⟨w, htext, rfl | hw⟩ := h
  · exact (Option.some.inj htext).symm
  · cases w with
    | int k =>
        obtain rfl : k = n := by simpa [UniformValue.same] using hw
        exact (Option.some.inj htext).symm
    | _ => exact absurd hw Bool.false_ne_true

/-- The text that was written for a truth value. -/
theorem Writes.bool {b : Bool} {text : String} (h : Writes (.bool b) text) :
    text = if b then "1" else "0" := by
  obtain ⟨w, htext, rfl | hw⟩ := h
  · exact (Option.some.inj htext).symm
  · cases w with
    | bool c =>
        obtain rfl : c = b := by simpa [UniformValue.same] using hw
        exact (Option.some.inj htext).symm
    | _ => exact absurd hw Bool.false_ne_true

/-- A text is written only for values that can be defines. -/
theorem Writes.isSome {v : UniformValue} {text : String} (h : Writes v text) :
    v.defineText?.isSome = true := by
  obtain ⟨w, htext, rfl | hw⟩ := h
  · exact Option.isSome_of_eq_some htext
  · -- Equal values are of one kind, and the kind decides.
    cases v <;> cases w <;> first
      | rfl
      | exact absurd hw Bool.false_ne_true
      | cases htext

/-! ## The invariant -/

/-- The tokens of a material whose uniforms have allowed names are those of its defines:
entries with different names, each written for the value of the define with its name, and
one for each define. -/
structure InStep (Allowed : String → Prop) (m : Material) (es : List (String × String)) :
    Prop where
  tokens_eq : m.tokens = tokensOf es
  nodup_entries : (es.map Prod.fst).Nodup
  nodup_uniforms : (m.uniforms.map MaterialUniform.name).Nodup
  names : ∀ u ∈ m.uniforms, Allowed u.name
  written : ∀ e ∈ es, ∃ u ∈ m.uniforms, u.name = e.1 ∧ u.isDefine = true ∧ Writes u.value e.2
  complete : ∀ u ∈ m.uniforms, u.isDefine = true → ∃ text, (u.name, text) ∈ es

section Steps

variable {Allowed : String → Prop} {m : Material} {es : List (String × String)}

/-- The name of an entry has no equals sign. -/
theorem InStep.no_equals (hallowed : ∀ name, Allowed name → '=' ∉ name.toList)
    (h : InStep Allowed m es) : ∀ e ∈ es, '=' ∉ e.1.toList := by
  intro e he
  obtain ⟨u, hu, hname, -⟩ := h.written e he
  exact hname ▸ hallowed _ (h.names u hu)

/-- Uniforms with different names are told apart by their names. -/
theorem eq_of_name_eq {us : List MaterialUniform} (h : (us.map MaterialUniform.name).Nodup)
    {u v : MaterialUniform} (hu : u ∈ us) (hv : v ∈ us) (hname : u.name = v.name) : u = v := by
  induction us with
  | nil => cases hu
  | cons first us ih =>
      rw [List.map_cons, List.nodup_cons, List.mem_map] at h
      obtain ⟨hnew, hrest⟩ := h
      rcases List.mem_cons.mp hu with hu_first | hu_rest
      · rcases List.mem_cons.mp hv with hv_first | hv_rest
        · rw [hu_first, hv_first]
        · exact absurd ⟨v, hv_rest, hname.symm.trans (congrArg _ hu_first)⟩ hnew
      · rcases List.mem_cons.mp hv with hv_first | hv_rest
        · exact absurd ⟨u, hu_rest, hname.trans (congrArg _ hv_first)⟩ hnew
        · exact ih hrest hu_rest hv_rest

/-- A uniform that is found is one of the material. -/
theorem uniform?_eq_some {m : Material} {name : String} {u : MaterialUniform}
    (h : m.uniform? name = some u) : u ∈ m.uniforms ∧ u.name = name :=
  ⟨List.mem_of_find?_eq_some h, by simpa using List.find?_some h⟩

/-- A uniform that is not found is none of the material. -/
theorem name_ne_of_uniform? {m : Material} {name : String} (h : m.uniform? name = none) :
    ∀ u ∈ m.uniforms, u.name ≠ name := by
  intro u hu
  simpa using List.find?_eq_none.mp h u hu

/-! ## Setting a uniform -/

/-- The uniforms of one material are those of another with one uniform set. -/
structure SetsUniform (m : Material) (u : MaterialUniform) (m' : Material) : Prop where
  nodup : (m'.uniforms.map MaterialUniform.name).Nodup
  mem_iff : ∀ v, v ∈ m'.uniforms ↔ v = u ∨ (v ∈ m.uniforms ∧ v.name ≠ u.name)

/-- A uniform that stands in a material is set where it stands. -/
theorem replaceUniform_of_mem {m : Material} {u old : MaterialUniform} (hold : old ∈ m.uniforms)
    (hname : old.name = u.name) : ∃ i, ∃ hi : i < m.uniforms.length,
      m.uniforms[i].name = u.name ∧
      m.replaceUniform u = { m with uniforms := m.uniforms.set i u } := by
  have hfound : (m.uniforms.findIdx? (·.name == u.name)).isSome = true := by
    rw [List.findIdx?_isSome, List.any_eq_true]
    exact ⟨old, hold, beq_iff_eq.mpr hname⟩
  obtain ⟨i, hfirst⟩ := Option.isSome_iff_exists.mp hfound
  obtain ⟨hi, hiname, -⟩ := List.findIdx?_eq_some_iff_getElem.mp hfirst
  exact ⟨i, hi, beq_iff_eq.mp hiname, by rw [replaceUniform, hfirst]⟩

/-- Setting a uniform where it stands sets this uniform. -/
theorem setsUniform_replace {m : Material} {u old : MaterialUniform}
    (hnodup : (m.uniforms.map MaterialUniform.name).Nodup) (hold : old ∈ m.uniforms)
    (hname : old.name = u.name) : SetsUniform m u (m.replaceUniform u) := by
  obtain ⟨i, hi, hiname, hreplaced⟩ := replaceUniform_of_mem hold hname
  rw [hreplaced]
  have hi_names : i < (m.uniforms.map MaterialUniform.name).length := by rwa [List.length_map]
  have hnames : (m.uniforms.set i u).map MaterialUniform.name =
      m.uniforms.map MaterialUniform.name := by
    rw [List.map_set, ← hiname, ← List.getElem_map MaterialUniform.name, List.set_getElem_self]
    exact hi_names
  have hnodup' : ((m.uniforms.set i u).map MaterialUniform.name).Nodup := by
    rw [hnames]
    exact hnodup
  have hset : u ∈ m.uniforms.set i u := List.mem_set hi u
  refine ⟨hnodup', fun v => ⟨fun hv => ?_, ?_⟩⟩
  · by_cases hsame : v.name = u.name
    · exact Or.inl (eq_of_name_eq hnodup' hv hset hsame)
    · rcases List.mem_or_eq_of_mem_set hv with hv | rfl
      · exact Or.inr ⟨hv, hsame⟩
      · exact Or.inl rfl
  · rintro (rfl | ⟨hv, hne⟩)
    · exact hset
    · obtain ⟨k, hk, rfl⟩ := List.mem_iff_getElem.mp hv
      have hik : i ≠ k := by
        rintro rfl
        exact hne hiname
      exact List.mem_iff_getElem.mpr
        ⟨k, by rwa [List.length_set], List.getElem_set_ne hik _⟩

/-- A new uniform sets itself. -/
theorem setsUniform_append {m : Material} {u : MaterialUniform}
    (hnodup : (m.uniforms.map MaterialUniform.name).Nodup)
    (hnew : ∀ v ∈ m.uniforms, v.name ≠ u.name) :
    SetsUniform m u { m with uniforms := m.uniforms ++ [u] } where
  nodup := by
    rw [List.map_append, List.nodup_append]
    refine ⟨hnodup, by simp, ?_⟩
    rintro x hx y hy rfl
    obtain ⟨v, hv, rfl⟩ := List.mem_map.mp hx
    exact hnew v hv (List.mem_singleton.mp hy)
  mem_iff v := by
    rw [List.mem_append, List.mem_singleton]
    constructor
    · rintro (hv | rfl)
      · exact Or.inr ⟨hv, hnew v hv⟩
      · exact Or.inl rfl
    · rintro (rfl | ⟨hv, -⟩)
      · exact Or.inr rfl
      · exact Or.inl hv

/-- The entries after a uniform was set: those of the other names, and one for this name
exactly if it is a define. -/
structure SetsEntry (es : List (String × String)) (u : MaterialUniform)
    (es' : List (String × String)) : Prop where
  nodup : (es'.map Prod.fst).Nodup
  others : ∀ e, e.1 ≠ u.name → (e ∈ es' ↔ e ∈ es)
  written : ∀ e ∈ es', e.1 = u.name → u.isDefine = true ∧ Writes u.value e.2
  complete : u.isDefine = true → ∃ text, (u.name, text) ∈ es'

/-- Setting a uniform and its entry keeps tokens and uniforms in step. -/
theorem InStep.set {m' : Material} {es' : List (String × String)} (h : InStep Allowed m es)
    {u : MaterialUniform} (hname : Allowed u.name) (huniform : SetsUniform m u m')
    (hentry : SetsEntry es u es') (htokens : m'.tokens = tokensOf es') :
    InStep Allowed m' es' where
  tokens_eq := htokens
  nodup_entries := hentry.nodup
  nodup_uniforms := huniform.nodup
  names v hv := by
    rcases (huniform.mem_iff v).mp hv with rfl | ⟨hv, -⟩
    · exact hname
    · exact h.names v hv
  written e he := by
    by_cases hsame : e.1 = u.name
    · obtain ⟨hdefine, hwrites⟩ := hentry.written e he hsame
      exact ⟨u, (huniform.mem_iff u).mpr (Or.inl rfl), hsame.symm, hdefine, hwrites⟩
    · obtain ⟨v, hv, hvname, hdefine, hwrites⟩ := h.written e ((hentry.others e hsame).mp he)
      refine ⟨v, (huniform.mem_iff v).mpr (Or.inr ⟨hv, ?_⟩), hvname, hdefine, hwrites⟩
      rw [hvname]
      exact hsame
  complete v hv hdefine := by
    rcases (huniform.mem_iff v).mp hv with rfl | ⟨hv, hne⟩
    · exact hentry.complete hdefine
    · obtain ⟨text, htext⟩ := h.complete v hv hdefine
      exact ⟨text, (hentry.others _ hne).mpr htext⟩

/-- Writing the token of a uniform that is a define sets its entry. -/
theorem InStep.setsEntry_put (hallowed : ∀ name, Allowed name → '=' ∉ name.toList)
    (h : InStep Allowed m es) {u : MaterialUniform} {text : String} (hdefine : u.isDefine = true)
    (htext : u.value.defineText? = some text) :
    ∃ es', putToken u.name text m.tokens = tokensOf es' ∧ SetsEntry es u es' := by
  obtain ⟨es', hput, hnodup, hmem⟩ :=
    putToken_spec h.nodup_entries (h.no_equals hallowed) u.name text
  refine ⟨es', h.tokens_eq ▸ hput, hnodup, ?_, ?_, ?_⟩
  · intro e hne
    rw [hmem e]
    constructor
    · rintro (rfl | ⟨he, -⟩)
      · exact absurd rfl hne
      · exact he
    · exact fun he => Or.inr ⟨he, hne⟩
  · intro e he hname
    rcases (hmem e).mp he with rfl | ⟨-, hne⟩
    · exact ⟨hdefine, u.value, htext, Or.inl rfl⟩
    · exact absurd hname hne
  · exact fun _ => ⟨text, (hmem _).mpr (Or.inl rfl)⟩

/-- Dropping the token of a uniform that is no define sets its entry. -/
theorem InStep.setsEntry_drop (hallowed : ∀ name, Allowed name → '=' ∉ name.toList)
    (h : InStep Allowed m es) {u : MaterialUniform} (hdefine : u.isDefine = false) :
    ∃ es', dropToken u.name m.tokens = tokensOf es' ∧ SetsEntry es u es' := by
  obtain ⟨es', hdrop, hnodup, hmem⟩ :=
    dropToken_spec h.nodup_entries (h.no_equals hallowed) u.name
  refine ⟨es', h.tokens_eq ▸ hdrop, hnodup, ?_, ?_, ?_⟩
  · intro e hne
    rw [hmem e]
    exact ⟨fun he => he.1, fun he => ⟨he, hne⟩⟩
  · intro e he hname
    exact absurd hname ((hmem e).mp he).2
  · intro htrue
    rw [hdefine] at htrue
    cases htrue

/-- A uniform that stays a define with an equal value keeps its entry. -/
theorem InStep.setsEntry_same (h : InStep Allowed m es) {u old : MaterialUniform}
    (hold : old ∈ m.uniforms) (hname : old.name = u.name) (hflag : old.isDefine = u.isDefine)
    (hsame : u.isDefine = true → old.value.same u.value = true) : SetsEntry es u es where
  nodup := h.nodup_entries
  others e _ := Iff.rfl
  written e he hentry := by
    obtain ⟨v, hv, hvname, hdefine, hwrites⟩ := h.written e he
    obtain rfl : v = old :=
      eq_of_name_eq h.nodup_uniforms hv hold (by rw [hvname, hentry, hname])
    have hu : u.isDefine = true := hflag ▸ hdefine
    exact ⟨hu, hwrites.of_same (hsame hu)⟩
  complete hdefine := by
    obtain ⟨text, htext⟩ := h.complete old hold (hflag.trans hdefine)
    exact ⟨text, hname ▸ htext⟩

/-- A new uniform that is no define has no entry. -/
theorem InStep.setsEntry_new (h : InStep Allowed m es) {u : MaterialUniform}
    (hnew : ∀ v ∈ m.uniforms, v.name ≠ u.name) (hdefine : u.isDefine = false) :
    SetsEntry es u es where
  nodup := h.nodup_entries
  others e _ := Iff.rfl
  written e he hentry := by
    obtain ⟨v, hv, hvname, -⟩ := h.written e he
    exact absurd (hvname.trans hentry) (hnew v hv)
  complete htrue := by
    rw [hdefine] at htrue
    cases htrue

/-- Setting a uniform to a value that can be a define if it is to be one keeps tokens and
uniforms in step. -/
theorem InStep.assign (hallowed : ∀ name, Allowed name → '=' ∉ name.toList)
    (h : InStep Allowed m es) {name : String} (hname : Allowed name) {value : UniformValue}
    {define : Bool} (hvalue : define = true → value.defineText?.isSome = true) :
    ∃ es', InStep Allowed (m.assign name value define) es' := by
  -- Whatever happens to the other fields, the token of the uniform is put or dropped.
  have hupdate : ∀ m' : Material, m'.tokens = m.tokens →
      SetsUniform m ⟨name, value, define⟩ m' →
      ∃ es', InStep Allowed (m'.updateToken name value define) es' := by
    intro m' htokens huniform
    cases define with
    | true =>
        obtain ⟨text, htext⟩ := Option.isSome_iff_exists.mp (hvalue rfl)
        obtain ⟨es', hput, hentry⟩ :=
          h.setsEntry_put hallowed (u := ⟨name, value, true⟩) rfl htext
        refine ⟨es', h.set hname ⟨huniform.nodup, huniform.mem_iff⟩ hentry ?_⟩
        simp only [updateToken, htext, htokens, if_true]
        exact hput
    | false =>
        obtain ⟨es', hdrop, hentry⟩ := h.setsEntry_drop hallowed (u := ⟨name, value, false⟩) rfl
        refine ⟨es', h.set hname ⟨huniform.nodup, huniform.mem_iff⟩ hentry ?_⟩
        simp only [updateToken, htokens]
        exact hdrop
  unfold Material.assign
  cases hold : m.uniform? name with
  | some old =>
      obtain ⟨hmem, rfl⟩ := uniform?_eq_some hold
      have hreplace :=
        setsUniform_replace (u := ⟨old.name, value, define⟩) h.nodup_uniforms hmem rfl
      dsimp only
      split
      · exact hupdate _ (tokens_replaceUniform ..) hreplace
      · rename_i hkeep
        simp only [Bool.or_eq_true, bne_iff_ne, Bool.and_eq_true, Bool.not_eq_true', not_or,
          not_and, ne_eq, Decidable.not_not, Bool.not_eq_false] at hkeep
        have hentry : SetsEntry es ⟨old.name, value, define⟩ es :=
          h.setsEntry_same hmem rfl hkeep.1 hkeep.2
        exact ⟨es, h.set (u := ⟨old.name, value, define⟩) hname hreplace hentry
          ((tokens_replaceUniform ..).trans h.tokens_eq)⟩
  | none =>
      have hnew := name_ne_of_uniform? hold
      have happend := setsUniform_append (u := ⟨name, value, define⟩) h.nodup_uniforms hnew
      cases define with
      | true => exact hupdate _ rfl happend
      | false =>
          exact ⟨es, h.set hname happend (h.setsEntry_new hnew rfl) h.tokens_eq⟩

/-- Setting a uniform keeps tokens and uniforms in step. -/
theorem InStep.setUniform (hallowed : ∀ name, Allowed name → '=' ∉ name.toList)
    (h : InStep Allowed m es) {name : String} (hname : Allowed name) (value : UniformValue)
    (define : Bool) : ∃ es', InStep Allowed (m.setUniform name value define).value es' := by
  unfold Material.setUniform
  split
  · exact h.assign hallowed hname (fun hfalse => absurd hfalse Bool.false_ne_true)
  · rename_i hsome
    refine h.assign hallowed hname ?_
    intro hdefine
    simpa [hdefine, Option.isSome_iff_ne_none] using hsome

/-- A define has an entry that was written for its value. -/
theorem InStep.exists_writes (h : InStep Allowed m es) {u : MaterialUniform}
    (hu : u ∈ m.uniforms) (hdefine : u.isDefine = true) :
    ∃ text, (u.name, text) ∈ es ∧ Writes u.value text := by
  obtain ⟨text, htext⟩ := h.complete u hu hdefine
  obtain ⟨v, hv, hname, -, hwrites⟩ := h.written _ htext
  obtain rfl : v = u := eq_of_name_eq h.nodup_uniforms hv hu hname
  exact ⟨text, htext, hwrites⟩

/-- Giving a sampler a texture keeps tokens and uniforms in step. -/
theorem InStep.setTexture (h : InStep Allowed m es) (name : String)
    (texture : Option TextureHandle) : InStep Allowed (m.setTexture name texture).2 es := by
  unfold Material.setTexture
  split
  · exact h
  · rename_i u hu
    obtain ⟨hmem, -⟩ := uniform?_eq_some hu
    split
    · exact h
    · rename_i value hvalue
      -- Samplers are no defines, so no token has to change.
      have hplain : u.isDefine ≠ true := by
        intro hdefine
        obtain ⟨text, -, hwrites⟩ := h.exists_writes hmem hdefine
        have hsome := hwrites.isSome
        unfold withTexture? at hvalue
        split at hvalue
        · rename_i hsampler
          rw [hsampler] at hsome
          cases hsome
        · cases hvalue
      have hreplace : SetsUniform m { u with value := value }
          (m.replaceUniform { u with value := value }) :=
        setsUniform_replace h.nodup_uniforms hmem rfl
      have hentry : SetsEntry es { u with value := value } es :=
        h.setsEntry_same hmem rfl rfl fun hdefine => absurd hdefine hplain
      have hname : Allowed ({ u with value := value } : MaterialUniform).name :=
        h.names u hmem
      exact h.set hname hreplace hentry ((tokens_replaceUniform ..).trans h.tokens_eq)

/-- Adding declared uniforms keeps tokens and uniforms in step. -/
theorem InStep.seed (hallowed : ∀ name, Allowed name → '=' ∉ name.toList)
    {us : List Source.UniformDeclaration} (hnames : ∀ u ∈ us, Allowed u.bindName)
    (h : InStep Allowed m es) : ∃ es', InStep Allowed (seed us m).value es' := by
  induction us generalizing m es with
  | nil => exact ⟨es, h⟩
  | cons u us ih =>
      have hrest : ∀ v ∈ us, Allowed v.bindName :=
        fun v hv => hnames v (List.mem_cons_of_mem u hv)
      rw [Material.seed]
      split
      · exact ih hrest h
      · obtain ⟨es', hset⟩ :=
          h.setUniform hallowed (hnames u (by simp)) (.ofDeclaration u) u.isDefine
        exact ih hrest hset

/-- Tokens and uniforms stay in step when nothing else than other fields change. -/
theorem InStep.congr {m' : Material} (h : InStep Allowed m es)
    (huniforms : m'.uniforms = m.uniforms) (htokens : m'.tokens = m.tokens) :
    InStep Allowed m' es where
  tokens_eq := htokens.trans h.tokens_eq
  nodup_entries := h.nodup_entries
  nodup_uniforms := huniforms.symm ▸ h.nodup_uniforms
  names := huniforms.symm ▸ h.names
  written := huniforms.symm ▸ h.written
  complete := huniforms.symm ▸ h.complete

/-- Binding a shader keeps tokens and uniforms in step. -/
theorem InStep.setShader (hallowed : ∀ name, Allowed name → '=' ∉ name.toList)
    (h : InStep Allowed m es) (handle : ShaderHandle) {shader : Shader}
    (hnames : ∀ u ∈ shader.uniforms, Allowed u.bindName) :
    ∃ es', InStep Allowed (m.setShader handle shader).value es' := by
  have hbound : InStep Allowed { m with shader := some handle, dirty := true } es :=
    h.congr rfl rfl
  unfold Material.setShader
  split
  · exact ⟨es, h⟩
  · exact hbound.seed hallowed hnames

/-- The entries of a material that is in step have the names of its defines. -/
theorem InStep.perm_names (h : InStep Allowed m es) :
    (es.map Prod.fst).Perm ((m.uniforms.filter (·.isDefine)).map MaterialUniform.name) := by
  have hnodup : ((m.uniforms.filter (·.isDefine)).map MaterialUniform.name).Nodup :=
    h.nodup_uniforms.sublist (List.filter_sublist.map _)
  rw [List.perm_ext_iff_of_nodup h.nodup_entries hnodup]
  intro name
  simp only [List.mem_map, List.mem_filter]
  constructor
  · rintro ⟨e, he, rfl⟩
    obtain ⟨u, hu, hname, hdefine, -⟩ := h.written e he
    exact ⟨u, ⟨hu, hdefine⟩, hname⟩
  · rintro ⟨u, ⟨hu, hdefine⟩, rfl⟩
    obtain ⟨text, htext⟩ := h.complete u hu hdefine
    exact ⟨_, htext, rfl⟩

end Steps

/-- A material without uniforms is in step. -/
theorem inStep_create (Allowed : String → Prop) (name : String) :
    InStep Allowed (create name) [] where
  tokens_eq := rfl
  nodup_entries := by simp
  nodup_uniforms := by simp [create]
  names u hu := absurd hu List.not_mem_nil
  written e he := absurd he List.not_mem_nil
  complete u hu := absurd hu List.not_mem_nil

/-- The name of a usable uniform has no equals sign. -/
theorem IsUniformName.no_equals (name : String) (h : IsUniformName name) : '=' ∉ name.toList :=
  h.isName.not_mem (by decide)

/-- In every history tokens and uniforms are in step. -/
theorem Reachable.inStep {m : Material} (h : Reachable m) : ∃ es, InStep IsUniformName m es := by
  induction h with
  | create name => exact ⟨[], inStep_create _ name⟩
  | setUniform _ hname value define ih =>
      obtain ⟨es, hes⟩ := ih
      exact hes.setUniform IsUniformName.no_equals hname value define
  | setTexture _ name texture ih =>
      obtain ⟨es, hes⟩ := ih
      exact ⟨es, hes.setTexture name texture⟩
  | setShader _ handle hnames ih =>
      obtain ⟨es, hes⟩ := ih
      exact hes.setShader IsUniformName.no_equals handle hnames
  | copy _ name ih =>
      obtain ⟨es, hes⟩ := ih
      exact ⟨es, hes.congr rfl rfl⟩

/-- In every history the defines string is that of the tokens. -/
theorem Reachable.isSpelled {m : Material} (h : Reachable m) : m.IsSpelled := by
  induction h with
  | create name => exact isSpelled_create name
  | setUniform _ _ _ _ ih => exact (Changes.setUniform ..).isSpelled ih
  | setTexture _ _ _ ih => exact (Changes.setTexture ..).isSpelled ih
  | setShader _ _ _ ih => exact (Changes.setShader ..).isSpelled ih
  | copy _ _ ih => exact (Changes.copy ..).isSpelled ih

end Material
end ShaderAssets
