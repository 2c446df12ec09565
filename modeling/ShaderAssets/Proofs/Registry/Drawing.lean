import ShaderAssets.Proofs.Shader.Cache
import ShaderAssets.Proofs.Registry.Ownership

/-!
# Prepared draws

Preparing a draw compiles only what is missing and then looks a variant up by hash.
In every reachable world the caches are in order, so the lookup finds what belongs to
the material, and it fails only for a recorded failure.

Main results:

- Theorem {lit}`Registry.compileMaterial_spec`: compiling a material settles its shader.
- Theorem {lit}`Reachable.cached`: the caches of a reachable world are in order.
- Structure {lit}`Prepared`: what preparing a draw leaves behind.
- Theorem {lit}`Reachable.prepare_draw`: when a draw is prepared, with which program,
  and what happens when it is prepared again.
-/

namespace ShaderAssets

open Render (StateWords)

namespace Registry

/-! ## Bound materials -/

/-- A material that is bound to a registered shader. -/
structure IsBound (r : Registry) (h : MaterialHandle) (m : Material) (x : ShaderHandle)
    (s : Shader) : Prop where
  material_eq : r.material? h = some m
  shader_eq : m.shader = some x
  registered : r.shader? x = some s

/-- What a material is bound to does not depend on the rest of the registry. -/
theorem IsBound.congr {r r' : Registry} {h : MaterialHandle} {m : Material} {x : ShaderHandle}
    {s : Shader} (hbound : r.IsBound h m x s) (hmaterials : r'.materials = r.materials)
    (hshaders : r'.shaders = r.shaders) : r'.IsBound h m x s where
  material_eq := by
    rw [material?, hmaterials]
    exact hbound.material_eq
  shader_eq := hbound.shader_eq
  registered := by
    rw [shader?, hshaders]
    exact hbound.registered

/-- A material is bound to at most one shader. -/
theorem IsBound.unique {r : Registry} {h : MaterialHandle} {m m' : Material}
    {x x' : ShaderHandle} {s s' : Shader} (hbound : r.IsBound h m x s)
    (hbound' : r.IsBound h m' x' s') : m' = m ∧ x' = x ∧ s' = s := by
  obtain rfl : m = m' := Option.some.inj (hbound.material_eq.symm.trans hbound'.material_eq)
  obtain rfl : x = x' := Option.some.inj (hbound.shader_eq.symm.trans hbound'.shader_eq)
  obtain rfl : s = s' := Option.some.inj (hbound.registered.symm.trans hbound'.registered)
  exact ⟨rfl, rfl, rfl⟩

/-- The shader and the material that were put into a registry are found there. -/
theorem IsBound.set {r : Registry} {h : MaterialHandle} {m : Material} {x : ShaderHandle}
    {s : Shader} (hbound : r.IsBound h m x s) (m' : Material) (hm' : m'.shader = some x)
    (s' : Shader) : ((r.setShader x s').setMaterial h m').IsBound h m' x s' where
  material_eq := by
    obtain ⟨hlt, -⟩ := List.getElem?_eq_some_iff.mp hbound.material_eq
    exact List.getElem?_set_self hlt
  shader_eq := hm'
  registered := by
    obtain ⟨hlt, -⟩ := List.getElem?_eq_some_iff.mp hbound.registered
    exact List.getElem?_set_self hlt

/-! ## Compiling a material -/

/-- Nothing is compiled for a material without a registered shader. -/
theorem compileMaterial_of_not_bound {r : Registry} {h : MaterialHandle}
    (hnone : ∀ m x s, ¬r.IsBound h m x s) (disk : Disk) (d : Device) :
    (r.compileMaterial disk h d).value = (0, r, d) := by
  unfold compileMaterial
  cases hm : r.material? h with
  | none => rfl
  | some m =>
      simp only []
      cases hx : m.shader with
      | none => rfl
      | some x =>
          simp only []
          cases hs : r.shader? x with
          | none => rfl
          | some s => exact absurd ⟨hm, hx, hs⟩ (hnone m x s)

/-- Compiling a bound material does nothing if it is clean and settled, else it compiles
the shader and marks the material as clean. -/
theorem compileMaterial_of_bound {r : Registry} {h : MaterialHandle} {m : Material}
    {x : ShaderHandle} {s : Shader} (hbound : r.IsBound h m x s) (disk : Disk) (d : Device) :
    (r.compileMaterial disk h d).value =
      if !m.dirty && s.isSettled m.definesHash then (0, r, d)
      else
        let c := (s.compileFor disk m.defines r.options d).value
        (c.1, (r.setShader x c.2.1).setMaterial h { m with dirty := false }, c.2.2) := by
  unfold compileMaterial
  rw [hbound.material_eq]
  simp only [hbound.shader_eq, hbound.registered]
  split
  · rfl
  · rfl

/-- Compiling a bound material leaves it clean and its shader settled, and records
nothing. -/
theorem compileMaterial_spec {r : Registry} {h : MaterialHandle} {m : Material}
    {x : ShaderHandle} {s : Shader} (hbound : r.IsBound h m x s) (hcached : s.Cached)
    (disk : Disk) (d : Device) {n : Nat} {r' : Registry} {d' : Device}
    (hvalue : (r.compileMaterial disk h d).value = (n, r', d')) :
    ∃ s', r'.IsBound h { m with dirty := false } x s' ∧ s'.isSettled m.definesHash = true ∧
      s'.passes.length = s.passes.length ∧ d'.events = d.events := by
  rw [compileMaterial_of_bound hbound] at hvalue
  split at hvalue
  · rename_i hskip
    cases hvalue
    simp only [Bool.and_eq_true, Bool.not_eq_true'] at hskip
    have hclean : { m with dirty := false } = m := by
      cases m
      simp_all
    rw [hclean]
    exact ⟨s, hbound, hskip.2, rfl, rfl⟩
  · cases hvalue
    obtain ⟨-, hlength, hevents⟩ := s.compilePasses_spec disk m.defines r.options
      0 d hcached
    have hbound' := hbound.set { m with dirty := false } hbound.shader_eq
      (s.compileFor disk m.defines r.options d).value.2.1
    exact ⟨_, hbound', Shader.isSettled_compileFor hcached disk m.defines r.options d, hlength,
      hevents⟩

/-! ## Selecting a variant -/

/-- A variant is selected when the material is bound and the pass has a variant for its
defines. -/
theorem selectVariant_eq_some {r : Registry} {h : MaterialHandle} {pass : Nat} {m : Material}
    {v : Variant} :
    r.selectVariant h pass = some (m, v) ↔
      ∃ x s p, r.IsBound h m x s ∧ s.passes[pass]? = some p ∧
        p.variantByHash? m.definesHash = some v := by
  unfold selectVariant
  constructor
  · intro hselect
    simp only [Option.bind_eq_bind, Option.bind_eq_some_iff] at hselect
    obtain ⟨m', hm, x, hx, s, hs, p, hp, v', hv, heq⟩ := hselect
    cases heq
    exact ⟨x, s, p, ⟨hm, hx, hs⟩, hp, hv⟩
  · rintro ⟨x, s, p, hbound, hp, hv⟩
    simp [hbound.material_eq, hbound.shader_eq, hbound.registered, hp, hv]

/-! ## Stand-ins -/

/-- The stand-in textures exist once they were asked for; nothing else changes and
nothing is recorded. -/
theorem ensureStandIns_spec (r : Registry) (d : Device) :
    ∃ b d', r.ensureStandIns d = (b, { r with standIns := some b }, d') ∧
      d.SameObjects d' ∧ d'.events = d.events := by
  unfold ensureStandIns
  cases hb : r.standIns with
  | some b =>
      have hr : { r with standIns := some b } = r := by
        rw [← hb]
      refine ⟨b, d, ?_, .of_eq rfl rfl, rfl⟩
      rw [hr]
  | none => exact ⟨_, _, rfl, .of_eq rfl rfl, rfl⟩

/-! ## Preparing a draw -/

/-- Preparing a draw compiles the material, makes the stand-ins and, if a variant is
selected, records the events of the draw. -/
theorem prepare_eq {r r₁ r₂ : Registry} {h : MaterialHandle} {d d₁ d₂ : Device} {disk : Disk}
    {n : Nat} {standIns : StandIns}
    (hcompile : (r.compileMaterial disk h d).value = (n, r₁, d₁))
    (hstandIns : r₁.ensureStandIns d₁ = (standIns, r₂, d₂)) (pass : Nat)
    (camera : Option CameraImages) (baseline : StateWords) :
    (r.prepare disk h pass camera baseline d).value =
      match r₂.selectVariant h pass with
      | none => (none, r₂, d₂)
      | some (m, v) =>
          (some ⟨v.program, v.stateWords baseline⟩, r₂,
            { d₂ with events := d₂.events ++ m.events v camera standIns }) := by
  unfold prepare
  simp only [Logged.value_bind, hcompile, hstandIns]
  cases r₂.selectVariant h pass with
  | none => rfl
  | some selected =>
      obtain ⟨m, v⟩ := selected
      simp only [World.foldl_record]
      rfl

end Registry

/-! ## Reachable worlds -/

namespace World

/-- The caches of all registered shaders are in order. -/
def Cached (w : World) : Prop :=
  ∀ s ∈ w.registry.shaders, s.Cached

/-- No change brings a cache out of order. -/
theorem Cached.changes {w w' : World} (h : w.Cached) (hchanges : Changes w w') : w'.Cached := by
  intro s hs
  cases hchanges with
  | kept hshaders _ => exact h s (hshaders ▸ hs)
  | placed path text hshaders _ =>
      rw [hshaders] at hs
      rcases List.mem_append.mp hs with hs | hs
      · exact h s hs
      · obtain rfl := List.mem_singleton.mp hs
        exact Shader.cached_loadText _ text
  | called x t call ht hshaders _ =>
      rw [hshaders] at hs
      rcases List.mem_or_eq_of_mem_set hs with hs | rfl
      · exact h s hs
      · exact Shader.Cached.run (h t (List.mem_of_getElem? ht)) w.device call
  | cleared hshaders _ =>
      rw [hshaders] at hs
      cases hs

/-- The caches of a reachable world are in order. -/
theorem Reachable.cached {w : World} (h : w.Reachable) : w.Cached :=
  Reachable.invariant (P := Cached) (fun _ _ _ _ hs => absurd hs List.not_mem_nil)
    (fun w operation hcached => hcached.changes (changes_step w operation)) h

/-- What preparing a draw leaves behind: a bound material is clean and its shader is
settled, and compiling the material once more does nothing. -/
theorem compiled_again {w : World} (hcached : w.Cached) {disk : Disk} {h : MaterialHandle}
    {n : Nat} {r : Registry} {d : Device}
    (hcompile : (w.registry.compileMaterial disk h w.device).value = (n, r, d)) :
    d.events = w.device.events ∧
      ∀ (r' : Registry) (d' : Device) (disk' : Disk), r'.materials = r.materials →
        r'.shaders = r.shaders → (r'.compileMaterial disk' h d').value = (0, r', d') := by
  by_cases hbound : ∃ m x s, w.registry.IsBound h m x s
  · obtain ⟨m, x, s, hbound⟩ := hbound
    have hs : s.Cached := hcached s (List.mem_of_getElem? hbound.registered)
    obtain ⟨s', hbound', hsettled, -, hevents⟩ :=
      Registry.compileMaterial_spec hbound hs disk w.device hcompile
    refine ⟨hevents, fun r' d' disk' hmaterials hshaders => ?_⟩
    have hskip : (!({ m with dirty := false } : Material).dirty &&
        s'.isSettled ({ m with dirty := false } : Material).definesHash) = true :=
      hsettled
    rw [Registry.compileMaterial_of_bound (hbound'.congr hmaterials hshaders), if_pos hskip]
  · have hnone : ∀ m x s, ¬w.registry.IsBound h m x s :=
      fun m x s hb => hbound ⟨m, x, s, hb⟩
    rw [Registry.compileMaterial_of_not_bound hnone] at hcompile
    cases hcompile
    refine ⟨rfl, fun r' d' disk' hmaterials hshaders => ?_⟩
    refine Registry.compileMaterial_of_not_bound (fun m x s hb => ?_) disk' d'
    exact hnone m x s (hb.congr hmaterials.symm hshaders.symm)

/-- What preparing a draw in a world leaves behind, in terms of the variant that is
selected afterwards. -/
structure Prepared (w : World) (h : MaterialHandle) (pass : Nat) (baseline : StateWords)
    (draw : Option Draw) (r : Registry) (d : Device) : Prop where
  /-- A bound material is clean and all passes of its shader are settled. -/
  bound : ∀ m x s, w.registry.IsBound h m x s → ∃ s', r.IsBound h { m with dirty := false } x s' ∧
    s'.isSettled m.definesHash = true ∧ s'.passes.length = s.passes.length
  /-- A material that was not bound is not bound. -/
  unbound : (∀ m x s, ¬w.registry.IsBound h m x s) → ∀ m x s, ¬r.IsBound h m x s
  /-- The draw is that of the selected variant. -/
  draw_eq : draw = (r.selectVariant h pass).map
    (fun (_, v) => ⟨v.program, v.stateWords baseline⟩)
  /-- Without a draw nothing is recorded. -/
  events_eq : draw = none → d.events = w.device.events
  /-- Once more the same draw is prepared. -/
  again : ∀ disk camera, ∃ events, (r.prepare disk h pass camera baseline d).value =
    (draw, r, { d with events := d.events ++ events })

/-- Preparing a draw does what it should. -/
theorem prepared_of_prepare {w : World} (hcached : w.Cached) {disk : Disk} {h : MaterialHandle}
    {pass : Nat} {camera : Option CameraImages} {baseline : StateWords} {draw : Option Draw}
    {r : Registry} {d : Device}
    (hprepare : (w.registry.prepare disk h pass camera baseline w.device).value = (draw, r, d)) :
    w.Prepared h pass baseline draw r d := by
  rcases hcompile : (w.registry.compileMaterial disk h w.device).value with ⟨n, r₁, d₁⟩
  obtain ⟨standIns, d₂, hstandIns, -, hrecorded⟩ := Registry.ensureStandIns_spec r₁ d₁
  obtain ⟨hevents, hagain⟩ := compiled_again hcached hcompile
  rw [Registry.prepare_eq hcompile hstandIns] at hprepare
  have hr : r = { r₁ with standIns := some standIns } := by
    split at hprepare
    · cases hprepare
      rfl
    · cases hprepare
      rfl
  rw [← hr] at hprepare hstandIns
  have hselected : draw = (r.selectVariant h pass).map
      (fun (_, v) => ⟨v.program, v.stateWords baseline⟩) := by
    cases hselect : r.selectVariant h pass with
    | none =>
        rw [hselect] at hprepare
        cases hprepare
        rfl
    | some selected =>
        rw [hselect] at hprepare
        cases hprepare
        rfl
  refine ⟨?bound, ?unbound, hselected, ?events, ?again⟩
  case bound =>
    intro m x s hbound
    obtain ⟨s', hbound', hsettled, hlength, -⟩ := Registry.compileMaterial_spec hbound
      (hcached s (List.mem_of_getElem? hbound.registered)) disk w.device hcompile
    refine ⟨s', hbound'.congr ?_ ?_, hsettled, hlength⟩
    · rw [hr]
    · rw [hr]
  case unbound =>
    intro hnone m x s hbound
    rw [Registry.compileMaterial_of_not_bound hnone] at hcompile
    cases hcompile
    refine hnone m x s (hbound.congr ?_ ?_)
    · rw [hr]
    · rw [hr]
  case events =>
    intro hdraw
    have hselect : r.selectVariant h pass = none := by
      rw [hdraw] at hselected
      exact Option.map_eq_none_iff.mp hselected.symm
    rw [hselect] at hprepare
    cases hprepare
    exact hrecorded.trans hevents
  case again =>
    intro disk' camera'
    have hcompile' := hagain r d disk' (by rw [hr]) (by rw [hr])
    have hstandIns' : r.ensureStandIns d = (standIns, r, d) := by
      rw [Registry.ensureStandIns, hr]
    rw [Registry.prepare_eq hcompile' hstandIns', hselected]
    cases r.selectVariant h pass with
    | none => exact ⟨[], by simp⟩
    | some selected => exact ⟨_, rfl⟩

/-- The variant that is selected afterwards belongs to the pass of the shader that the
material was bound to, and stands under the hash of the material. -/
theorem Prepared.selected {w : World} {h : MaterialHandle} {pass : Nat} {baseline : StateWords}
    {draw : Option Draw} {r : Registry} {d : Device}
    (hprepared : w.Prepared h pass baseline draw r d)
    {m' : Material} {v : Variant} (hselect : r.selectVariant h pass = some (m', v)) :
    ∃ m x s s' p, w.registry.IsBound h m x s ∧ m' = { m with dirty := false } ∧
      r.shader? x = some s' ∧ s'.passes.length = s.passes.length ∧ s'.passes[pass]? = some p ∧
      p.variantByHash? m.definesHash = some v := by
  obtain ⟨x', s', p, hbound', hp, hv⟩ := Registry.selectVariant_eq_some.mp hselect
  by_cases hbound : ∃ m x s, w.registry.IsBound h m x s
  · obtain ⟨m, x, s, hbound⟩ := hbound
    obtain ⟨s'', hbound'', -, hlength⟩ := hprepared.bound m x s hbound
    obtain ⟨rfl, rfl, rfl⟩ := hbound''.unique hbound'
    exact ⟨m, x', s, s', p, hbound, rfl, hbound'.registered, hlength, hp, hv⟩
  · exact absurd hbound' (hprepared.unbound (fun m x s hb => hbound ⟨m, x, s, hb⟩) m' x' s')

/-- A draw is prepared exactly if the pass exists and did not fail for the defines of
the material. -/
theorem Prepared.isSome_iff {w : World} {h : MaterialHandle} {pass : Nat} {baseline : StateWords}
    {draw : Option Draw} {r : Registry} {d : Device}
    (hprepared : w.Prepared h pass baseline draw r d)
    (hcached : (World.mk r d).Cached) :
    draw.isSome = true ↔ ∃ m x s, w.registry.IsBound h m x s ∧ pass < s.passes.length ∧
      ∃ s' p, r.shader? x = some s' ∧ s'.passes[pass]? = some p ∧
        p.hasFailed m.defines = false := by
  rw [hprepared.draw_eq, Option.isSome_map, Option.isSome_iff_exists]
  constructor
  · rintro ⟨⟨m', v⟩, hselect⟩
    obtain ⟨m, x, s, s', p, hbound, -, hs', hlength, hp, hv⟩ := hprepared.selected hselect
    have hcache : p.Cached := hcached s' (List.mem_of_getElem? hs') p (List.mem_of_getElem? hp)
    obtain ⟨hlt, -⟩ := List.getElem?_eq_some_iff.mp hp
    obtain ⟨hmem, hhash⟩ := Pass.variantByHash?_eq_some hv
    refine ⟨m, x, s, hbound, hlength ▸ hlt, s', p, hs', hp, ?_⟩
    have hfailed : Defines.hashOf m.defines ∉ p.failed := by
      have hdisjoint := hcache.disjoint v hmem
      rw [hhash] at hdisjoint
      exact hdisjoint
    simpa [Pass.hasFailed] using hfailed
  · rintro ⟨m, x, s, hbound, -, s', p, hs', hp, hfailed⟩
    obtain ⟨s'', hbound', hsettled, -⟩ := hprepared.bound m x s hbound
    obtain rfl : s'' = s' := Option.some.inj (hbound'.registered.symm.trans hs')
    have hcache : p.Cached := hcached s'' (List.mem_of_getElem? hs') p (List.mem_of_getElem? hp)
    have hpass : p.isSettled m.definesHash = true :=
      List.all_eq_true.mp hsettled p (List.mem_of_getElem? hp)
    have hnot : m.definesHash ∉ p.failed := by
      simpa [Pass.hasFailed, Material.definesHash] using hfailed
    obtain ⟨v, hv⟩ := Option.isSome_iff_exists.mp ((hcache.variant_iff hpass).mpr hnot)
    exact ⟨_, Registry.selectVariant_eq_some.mpr ⟨x, s'', p, hbound', hp, hv⟩⟩

/-- A program that a variant of a registered shader holds is alive. -/
theorem Owned.isLive_program {w : World} (h : w.Owned) {x : ShaderHandle} {s : Shader} {i : Nat}
    {p : Pass} {v : Variant} (hs : w.registry.shader? x = some s) (hp : s.passes[i]? = some p)
    (hv : v ∈ p.variants) : w.device.isLive v.program = true := by
  refine (h.live_iff v.program).mpr ?_
  refine List.mem_flatMap.mpr ⟨s, List.mem_of_getElem? hs, ?_⟩
  refine List.mem_flatMap.mpr ⟨p, List.mem_of_getElem? hp, ?_⟩
  exact List.mem_map.mpr ⟨v, hv, rfl⟩

/-- Preparing a draw in a reachable world.

A draw is prepared exactly if the material is bound to a registered shader, the shader
has the pass, and after the call the pass has no recorded failure for the defines of
the material.  Its program is alive and belongs to the variant of this pass for these
defines, provided that no other defines of a variant share their hash; its state words
come from the settings of the variant.  If no draw is prepared, nothing is recorded.
Preparing the draw again, whatever the files say by then, gives the same draw and
changes nothing but the recorded events. -/
theorem Reachable.prepare_draw {w : World} (hw : w.Reachable) (disk : Disk)
    (h : MaterialHandle) (pass : Nat) (camera : Option CameraImages) (baseline : StateWords)
    {draw : Option Draw} {r : Registry} {d : Device}
    (hprepare : (w.registry.prepare disk h pass camera baseline w.device).value = (draw, r, d)) :
    (draw.isSome = true ↔ ∃ m x s, w.registry.IsBound h m x s ∧ pass < s.passes.length ∧
      ∃ s' p, r.shader? x = some s' ∧ s'.passes[pass]? = some p ∧
        p.hasFailed m.defines = false) ∧
    (∀ result, draw = some result → ∃ m x s s' p v, w.registry.IsBound h m x s ∧
      r.shader? x = some s' ∧ s'.passes[pass]? = some p ∧ v ∈ p.variants ∧
      result.program = v.program ∧ d.isLive v.program = true ∧
      result.stateWords = v.settings.stateWords baseline ∧
      ((∀ u ∈ p.variants, Text.fnv1a u.defines = Text.fnv1a (Defines.normalize m.defines) →
          u.defines = Defines.normalize m.defines) →
        v.defines = Defines.normalize m.defines)) ∧
    (draw = none → d.events = w.device.events) ∧
    (∀ disk' camera', ∃ events,
      (r.prepare disk' h pass camera' baseline d).value =
        (draw, r, { d with events := d.events ++ events })) := by
  have hafter : (World.mk r d).Reachable := by
    have hstep := hw.step (.prepare disk h pass camera baseline)
    rw [World.step, hprepare] at hstep
    exact hstep
  have hprepared := prepared_of_prepare hw.cached hprepare
  refine ⟨hprepared.isSome_iff hafter.cached, ?_, hprepared.events_eq, hprepared.again⟩
  intro result hresult
  rw [hprepared.draw_eq, Option.map_eq_some_iff] at hresult
  obtain ⟨⟨m', v⟩, hselect, rfl⟩ := hresult
  obtain ⟨m, x, s, s', p, hbound, -, hs', -, hp, hv⟩ := hprepared.selected hselect
  obtain ⟨hmem, hhash⟩ := Pass.variantByHash?_eq_some hv
  have hlive : d.isLive v.program = true := hafter.owns.isLive_program hs' hp hmem
  refine ⟨m, x, s, s', p, v, hbound, hs', hp, hmem, rfl, hlive, rfl, fun hinjective => ?_⟩
  have hcache : p.Cached :=
    hafter.cached s' (List.mem_of_getElem? hs') p (List.mem_of_getElem? hp)
  apply hinjective v hmem
  rw [← hcache.hashed v hmem, hhash]
  rfl

/-- A world in which a pass that inherits its texts was added after compiling. -/
def sampleAdded : World :=
  sample.step (.onShader ⟨0⟩ (.addPass .empty))

/-- The draw of the pass that was added. -/
def sampleDraw : Option Draw × Registry × Device :=
  (sampleAdded.registry.prepare (.empty []) ⟨0⟩ 1 none ⟨0, 0⟩ sampleAdded.device).value

/-- The added pass is drawn with a live program. -/
theorem prepare_draw_sample : sampleAdded.Reachable ∧ ∃ result, sampleDraw.1 = some result ∧
    sampleDraw.2.2.isLive result.program = true := by
  have hreachable : sampleAdded.Reachable :=
    ((Reachable.start "" .standard .noop).run _).step (.onShader ⟨0⟩ (.addPass .empty))
  have hparts : ∀ t : Option Draw × Registry × Device, t = (t.1, t.2.1, t.2.2) := fun _ => rfl
  obtain ⟨-, hdraw, -⟩ := hreachable.prepare_draw (.empty []) ⟨0⟩ 1 none ⟨0, 0⟩
    (hparts sampleDraw)
  obtain ⟨result, hresult⟩ : ∃ result, sampleDraw.1 = some result :=
    Option.isSome_iff_exists.mp (by decide +kernel)
  obtain ⟨m, x, s, s', p, v, -, -, -, -, hprogram, hlive, -⟩ := hdraw result hresult
  exact ⟨hreachable, result, hresult, hprogram ▸ hlive⟩

end World
end ShaderAssets
