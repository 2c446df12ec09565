import ShaderAssets.Proofs.Registry.Handles

/-!
# Sessions

The owner of a registry does more with it than carry out operations: it looks handles up,
and it holds the device and may change registered shaders and materials directly.  A
material that was changed so can be bound to any handle that the owner has.  It is up to
the owner to give the registry only handles that were returned since everything was last
released; then all handles stay valid.

Main results:

- Inductive {lit}`World.Session`: the worlds that uses lead to, with the handles in hand.
- Theorem {lit}`World.continues_use`: what one use keeps.
- Theorem {lit}`World.Session.valid`: all handles are valid in every session.
- Theorem {lit}`World.remembers_uses`: paths keep their handles until everything is released.
-/

namespace ShaderAssets

namespace Registry

/-! ## What paths stand for -/

/-- What the paths of a registry stand for, they stand for in another one. -/
structure Remembers (r r' : Registry) : Prop where
  shader : ∀ path x, lookupPath path r.shaderPaths = some x →
    lookupPath path r'.shaderPaths = some x
  material : ∀ path h, lookupPath path r.materialPaths = some h →
    lookupPath path r'.materialPaths = some h

namespace Remembers

/-- The same paths stand for the same things. -/
theorem of_eq {r r' : Registry} (hshader : r'.shaderPaths = r.shaderPaths)
    (hmaterial : r'.materialPaths = r.materialPaths) : r.Remembers r' :=
  ⟨fun _ _ => hshader ▸ id, fun _ _ => hmaterial ▸ id⟩

/-- A registry that goes on keeps the meaning of paths. -/
theorem of_continues {r r' : Registry} (h : r.Continues r') : r.Remembers r' :=
  ⟨fun _ _ => h.shaderPaths.lookup, fun _ _ => h.materialPaths.lookup⟩

/-- One step after another. -/
theorem trans {r r' r'' : Registry} (h : r.Remembers r') (h' : r'.Remembers r'') :
    r.Remembers r'' :=
  ⟨fun path x hx => h'.shader path x (h.shader path x hx),
    fun path x hx => h'.material path x (h.material path x hx)⟩

end Remembers

end Registry

namespace World

/-! ## Uses -/

/-- A use of a registry by its owner: an operation, a look at a handle, or a change of
something that the owner holds, which may be of any kind. -/
inductive Use where
  | perform (operation : Operation)
  | findShader (name : String)
  | shaderOf (material : MaterialHandle)
  | putShader (shader : ShaderHandle) (s : Shader)
  | putMaterial (material : MaterialHandle) (m : Material)
  | putDevice (d : Device)

/-- The shader handles that are given to the registry. -/
def Use.given : Use → List ShaderHandle
  | perform (.addMaterial _ shader) => shader.toList
  | perform (.bindMaterial _ shader) => [shader]
  | perform (.reloadShader _ shader _) => [shader]
  | perform (.reloadShaderFile _ shader) => [shader]
  | perform (.onShader shader _) => [shader]
  | putShader shader _ => [shader]
  | putMaterial _ m => m.shader.toList
  | _ => []

/-- Carries out a use. -/
def use (w : World) : Use → World
  | .perform operation => w.step operation
  | .putShader shader s => { w with registry := w.registry.setShader shader s }
  | .putMaterial material m => { w with registry := w.registry.setMaterial material m }
  | .putDevice d => { w with device := d }
  | .findShader _ | .shaderOf _ => w

/-- The shader handles that a use returns. -/
def returned (w : World) : Use → List ShaderHandle
  | .perform (.loadShader disk path) =>
      match (w.registry.loadShader disk path).value with
      | .ok (x, _) => [x]
      | .error _ => []
  | .perform (.addShader disk path text) =>
      [(w.registry.addShader disk path text w.device).value.1]
  | .findShader name => (w.registry.findShader name).toList
  | .shaderOf material => ((w.registry.material? material).bind Material.shader).toList
  | _ => []

/-- The shader handles that were returned since everything was last released, after one
more use. -/
def heldAfter (w : World) (held : List ShaderHandle) : Use → List ShaderHandle
  | .perform .clear => []
  | u => held ++ w.returned u

/-- The worlds that uses lead to from an empty registry, with the shader handles that were
returned since everything was last released.  Only such handles are given to the
registry. -/
inductive Session : World → List ShaderHandle → Prop where
  | start (root : String) (options : CompileOptions) (d : Device) :
      Session ⟨.empty root options, d⟩ []
  | use {w : World} {held : List ShaderHandle} (h : Session w held) (u : Use)
      (hgiven : ∀ x ∈ u.given, x ∈ held) : Session (w.use u) (w.heldAfter held u)

section Uses

variable {w : World} {u : Use}

/-! ## Handles in hand -/

/-- Only the release of everything takes handles away. -/
theorem heldAfter_eq (held : List ShaderHandle) (hkeeps : u ≠ .perform .clear) :
    w.heldAfter held u = held ++ w.returned u := by
  unfold heldAfter
  split
  · exact absurd rfl hkeeps
  · rfl

/-- A use that is given registered shaders continues the registry unless it releases
everything. -/
theorem continues_use (hkeeps : u ≠ .perform .clear)
    (hgiven : ∀ x ∈ u.given, x.index < w.registry.shaders.length) :
    w.registry.Continues (w.use u).registry := by
  cases u with
  | perform operation => exact w.continues_step fun heq => hkeeps (heq ▸ rfl)
  | findShader | shaderOf | putDevice => exact .refl _
  | putShader shader s => exact .setShader _ shader s
  | putMaterial material m =>
      exact .setMaterial _ material fun _ x hx => hgiven x (Option.mem_toList.mpr hx)

/-- The handles that a use returns are in range after it. -/
theorem returned_lt (hsound : w.registry.Sound) :
    ∀ x ∈ w.returned u, x.index < (w.use u).registry.shaders.length := by
  intro x hx
  unfold returned at hx
  split at hx
  · rename_i disk path
    split at hx
    · rename_i y r hload
      obtain rfl := List.mem_singleton.mp hx
      obtain ⟨hcontinues, hknown, -⟩ := Registry.loadShader_spec hload
      have hlt := (hsound.continue hcontinues).shaderPaths.lookup_lt hknown
      simpa [use, step, hload] using hlt
    · cases hx
  · rename_i disk path text
    obtain rfl := List.mem_singleton.mp hx
    obtain ⟨hcontinues, hknown⟩ := w.registry.addShader_spec disk path text w.device
    exact (hsound.continue hcontinues).shaderPaths.lookup_lt hknown
  · obtain ⟨i, hi, rfl⟩ := Option.map_eq_some_iff.mp (Option.mem_toList.mp hx)
    exact (List.findIdx?_eq_some_iff_getElem.mp hi).1
  · obtain ⟨m, hm, hshader⟩ := Option.bind_eq_some_iff.mp (Option.mem_toList.mp hx)
    exact hsound.bound m (List.mem_of_getElem? hm) x hshader
  · cases hx

/-- In a session all handles in the registry are valid, and so are those in hand. -/
theorem Session.valid {held : List ShaderHandle} (h : Session w held) :
    w.registry.Sound ∧ ∀ x ∈ held, x.index < w.registry.shaders.length := by
  -- By induction on the session; both halves are needed to go on, since the owner gives back
  -- what is in hand and gets what the registry holds.
  induction h with
  | start root options d => exact ⟨.of_nil rfl rfl rfl, fun x hx => absurd hx List.not_mem_nil⟩
  | @use w held _ u hgiven ih =>
      obtain ⟨hsound, hheld⟩ := ih
      by_cases hclear : u = .perform .clear
      · subst hclear
        exact ⟨.of_nil rfl rfl rfl, fun x hx => absurd hx List.not_mem_nil⟩
      · have hcontinues := continues_use hclear fun x hx => hheld x (hgiven x hx)
        refine ⟨hsound.continue hcontinues, fun x hx => ?_⟩
        rw [heldAfter_eq held hclear] at hx
        rcases List.mem_append.mp hx with hx | hx
        · exact Nat.lt_of_lt_of_le (hheld x hx) hcontinues.shaderPaths.count_le
        · exact returned_lt hsound x hx

end Uses

/-! ## Paths keep their handles -/

/-- A use that does not release everything leaves the meaning of paths alone. -/
theorem remembers_use (w : World) {u : Use} (hkeeps : u ≠ .perform .clear) :
    w.registry.Remembers (w.use u).registry := by
  cases u with
  | perform operation => exact .of_continues (w.continues_step fun heq => hkeeps (heq ▸ rfl))
  | findShader | shaderOf | putShader | putMaterial | putDevice => exact .of_eq rfl rfl

/-- Several uses one after the other. -/
def uses (w : World) (us : List Use) : World :=
  us.foldl use w

/-- Paths keep their meaning until everything is released. -/
theorem remembers_uses (w : World) {us : List Use} (hkeeps : ∀ u ∈ us, u ≠ .perform .clear) :
    w.registry.Remembers (w.uses us).registry := by
  induction us generalizing w with
  | nil => exact .of_eq rfl rfl
  | cons u us ih =>
      have hfirst := w.remembers_use (hkeeps u List.mem_cons_self)
      exact hfirst.trans (ih (w.use u) fun v hv => hkeeps v (List.mem_cons_of_mem u hv))

end World
end ShaderAssets
