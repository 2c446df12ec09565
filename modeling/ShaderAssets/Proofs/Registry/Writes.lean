import Mathlib.Data.List.Find
import Mathlib.Data.List.Forall2
import Mathlib.Data.List.Nodup
import ShaderAssets.Proofs.Registry.Drawing
import ShaderAssets.Proofs.Registry.Materials
import ShaderAssets.Proofs.Shader.Provenance

/-!
# What a draw writes

A draw sends the values of a material to the uniforms of its program.  In every reachable
world the uniforms of a material have different names, the variants bind what the live
modules of their programs reflect, and the names and handles of the device correspond to each
other.  So a draw writes every handle at most once, and only handles of its own program.

Main results:

- Theorem {lit}`World.Moves.provenance`: every operation accounts for the variants.
- Theorem {lit}`World.Reachable.reflected`: variants bind what their live modules reflect.
- Theorem {lit}`Material.forall₂_events`: the events of a material, one for each uniform that
  has a handle.
- Theorem {lit}`World.Reachable.draw_writes`: what a draw writes.
-/

namespace ShaderAssets

open Render (StateWords)

/-! ## Registered variants -/

namespace Registry

/-- The variants of all shaders. -/
def variants (r : Registry) : List Variant :=
  r.shaders.flatMap Shader.variants

/-- A variant of a registered shader. -/
theorem mem_variants {r : Registry} {x : ShaderHandle} {s : Shader} {i : Nat} {p : Pass}
    {v : Variant} (hs : r.shader? x = some s) (hp : s.passes[i]? = some p)
    (hv : v ∈ p.variants) : v ∈ r.variants :=
  List.mem_flatMap.mpr ⟨s, List.mem_of_getElem? hs,
    List.mem_flatMap.mpr ⟨p, List.mem_of_getElem? hp, hv⟩⟩

/-- The programs of a registry are those of its variants. -/
theorem programs_eq (r : Registry) : r.programs = r.variants.map Variant.program := by
  rw [variants, List.map_flatMap]
  exact List.flatMap_congr fun s _ => s.programs_eq

section Changes

variable {r r' : Registry} {d d' : Device}

/-- Shaders may stay as they are. -/
theorem provenance_of_shaders (hshaders : r'.shaders = r.shaders) (hfollows : d.Follows d') :
    Provenance r.variants d r'.variants d' := by
  rw [variants, variants, hshaders]
  exact .of_subset hfollows (List.Subset.refl _)

/-- A shader that was just read may be put behind the others. -/
theorem provenance_of_placed (d : Device)
    (h : r'.shaders = r.shaders ∨
      ∃ file text, r'.shaders = r.shaders ++ [(Shader.ofText file text).value]) :
    Provenance r.variants d r'.variants d := by
  rcases h with hkept | ⟨file, text, hplaced⟩
  · exact provenance_of_shaders hkept (.refl d)
  · have hnew : (Shader.ofText file text).value.variants = [] :=
      Shader.variants_loadText (Shader.unloaded file) text
    refine .of_subset (.refl d) ?_
    rw [variants, hplaced, List.flatMap_append, List.flatMap_singleton, hnew, List.append_nil]
    exact List.Subset.refl _

/-- A shader may be changed by something that accounts for its variants. -/
theorem provenance_of_set {x : ShaderHandle} {s s' : Shader} (hs : r.shader? x = some s)
    (hshaders : r'.shaders = r.shaders.set x.index s')
    (h : Provenance s.variants d s'.variants d') : Provenance r.variants d r'.variants d' := by
  refine h.widen (fun v hv => List.mem_flatMap.mpr ⟨s, List.mem_of_getElem? hs, hv⟩) ?_
  intro v hv
  rw [variants, hshaders] at hv
  obtain ⟨t, ht, hvt⟩ := List.mem_flatMap.mp hv
  rcases List.mem_or_eq_of_mem_set ht with ht | rfl
  · exact Or.inr (List.mem_flatMap.mpr ⟨t, ht, hvt⟩)
  · exact Or.inl hvt

end Changes

variable (r : Registry) (d : Device)

/-- Reloading a shader accounts for the variants. -/
theorem provenance_reloadShader (disk : Disk) (x : ShaderHandle) (text : String) :
    Provenance r.variants d (r.reloadShader disk x text d).value.2.1.variants
      (r.reloadShader disk x text d).value.2.2 := by
  unfold reloadShader
  cases hs : r.shader? x with
  | none => exact .refl _ d
  | some s =>
      have hreload := s.provenance_reload disk text (r.definesInUse x) r.options d
      simp only [Logged.value_bind, Logged.value_pure]
      exact provenance_of_set hs rfl hreload

/-- Compiling a material accounts for the variants. -/
theorem provenance_compileMaterial (disk : Disk) (h : MaterialHandle) :
    Provenance r.variants d (r.compileMaterial disk h d).value.2.1.variants
      (r.compileMaterial disk h d).value.2.2 := by
  by_cases hbound : ∃ m x s, r.IsBound h m x s
  · obtain ⟨m, x, s, hbound⟩ := hbound
    rw [compileMaterial_of_bound hbound]
    split
    · exact .refl _ d
    · exact provenance_of_set hbound.registered rfl
        (s.provenance_compileFor disk m.defines r.options d)
  · rw [compileMaterial_of_not_bound fun m x s hb => hbound ⟨m, x, s, hb⟩]
    exact .refl _ d

/-- Making the stand-in textures accounts for the variants. -/
theorem provenance_ensureStandIns :
    Provenance r.variants d (r.ensureStandIns d).2.1.variants (r.ensureStandIns d).2.2 := by
  unfold ensureStandIns
  split
  · exact .refl _ d
  · exact provenance_of_shaders rfl
      ((Device.Follows.of_run (.addTexture .flat) rfl).trans (.of_run (.addTexture .cube) rfl))

/-- Recording events takes calls. -/
theorem follows_record (events : List DeviceEvent) :
    d.Follows (events.foldl (fun d e => d.record e) d) := by
  induction events generalizing d with
  | nil => exact .refl d
  | cons event events ih => exact (Device.Follows.of_run (.record event) rfl).trans (ih _)

/-- Preparing a draw accounts for the variants. -/
theorem provenance_prepare (disk : Disk) (h : MaterialHandle) (pass : Nat)
    (camera : Option CameraImages) (baseline : StateWords) :
    Provenance r.variants d (r.prepare disk h pass camera baseline d).value.2.1.variants
      (r.prepare disk h pass camera baseline d).value.2.2 := by
  have hready := (r.provenance_compileMaterial d disk h).trans
    (provenance_ensureStandIns (r.compileMaterial disk h d).value.2.1
      (r.compileMaterial disk h d).value.2.2)
  unfold prepare
  simp only [Logged.value_bind]
  split
  · exact hready
  · exact hready.trans (provenance_of_shaders rfl (follows_record _ _))

/-- Unloading shaders takes calls. -/
theorem follows_unloadShaders (shaders : List Shader) :
    d.Follows (unloadShaders shaders d).value := by
  induction shaders generalizing d with
  | nil => exact .refl d
  | cons s shaders ih => exact (s.follows_unload d).trans (ih _)

end Registry

namespace World

/-! ## Reachable worlds -/

/-- Every move accounts for the variants. -/
theorem Moves.provenance {w w' : World} (h : Moves w w') :
    Provenance w.registry.variants w.device w'.registry.variants w'.device := by
  have hself := Device.Follows.refl w.device
  cases h with
  | stays => exact .refl _ w.device
  | shaderLoaded hload =>
      exact Registry.provenance_of_placed w.device (Registry.shaders_loadShader hload)
  | shaderPlaced path text =>
      exact Registry.provenance_of_placed w.device (Or.inr ⟨path, text, rfl⟩)
  | shaderReloaded disk h text => exact w.registry.provenance_reloadShader w.device disk h text
  | @shaderCalled h s hs call =>
      exact Registry.provenance_of_set hs rfl (s.provenance_run w.device call)
  | materialLoaded hload =>
      exact Registry.provenance_of_placed w.device (Registry.shaders_loadMaterial hload)
  | materialAdded name shader =>
      exact Registry.provenance_of_shaders (w.registry.shaders_addMaterial name shader) hself
  | materialCopied hcopy =>
      exact Registry.provenance_of_shaders (Registry.shaders_copyMaterial hcopy) hself
  | materialBound h s =>
      exact Registry.provenance_of_shaders (w.registry.shaders_bindMaterial h s) hself
  | materialCalled hm call => exact Registry.provenance_of_shaders rfl hself
  | materialCompiled disk h => exact w.registry.provenance_compileMaterial w.device disk h
  | drawPrepared disk h pass camera baseline =>
      exact w.registry.provenance_prepare w.device disk h pass camera baseline
  | standInsMade => exact w.registry.provenance_ensureStandIns w.device
  | cleared =>
      exact .of_subset (Registry.follows_unloadShaders w.device w.registry.shaders)
        (List.nil_subset _)
  | deviceCalled call hsame => exact Registry.provenance_of_shaders rfl (.of_run call rfl)

/-- The device of a reachable world is one that calls lead to. -/
theorem Reachable.device {w : World} (h : w.Reachable) : w.device.Reachable :=
  Reachable.invariant (P := fun w => w.device.Reachable)
    (fun _ _ renderer => ⟨renderer, .refl _⟩)
    (fun w operation hdevice => hdevice.follows (w.moves_step operation).provenance.follows) h

/-- The variants of a reachable world bind what the live modules of their programs
reflect. -/
theorem Reachable.reflected {w : World} (h : w.Reachable) :
    ∀ v ∈ w.registry.variants, ∃ declarations, v.Reflected declarations w.device := by
  induction h with
  | start root options renderer => exact fun v hv => absurd hv List.not_mem_nil
  | @step w hw operation ih =>
      intro v hv
      have hprovenance := (w.moves_step operation).provenance
      have howns : (w.step operation).device.Owns (w.step operation).registry.programs :=
        (hw.step operation).owns
      have hheld : v.program ∈ (w.step operation).registry.programs := by
        rw [Registry.programs_eq]
        exact List.mem_map_of_mem hv
      rcases hprovenance.origin v hv with hold | ⟨declarations, d₁, hreflected, hfollows⟩
      · obtain ⟨declarations, hreflected⟩ := ih v hold
        exact ⟨declarations, hreflected.follows hprovenance.follows howns hheld⟩
      · exact ⟨declarations, hreflected.follows hfollows howns hheld⟩

end World

/-! ## The events of a draw -/

/-- The uniform that an event writes. -/
def DeviceEvent.uniform : DeviceEvent → UniformHandle
  | .bind _ uniform _ => uniform
  | .upload uniform _ => uniform

/-- A partial map gives one value for each entry at which it is defined, in their order. -/
theorem forall₂_filterMap {α β : Type} {f : α → Option β} {p : α → Bool} {R : α → β → Prop}
    {l : List α} (hp : ∀ a ∈ l, p a = (f a).isSome)
    (hR : ∀ a ∈ l, ∀ b, f a = some b → R a b) :
    List.Forall₂ R (l.filter p) (l.filterMap f) := by
  induction l with
  | nil => exact .nil
  | cons a l ih =>
      have hrest := ih (fun b hb => hp b (List.mem_cons_of_mem a hb))
        (fun b hb => hR b (List.mem_cons_of_mem a hb))
      have hpa := hp a List.mem_cons_self
      cases hfa : f a with
      | none =>
          rw [List.filterMap_cons_none hfa, List.filter_cons_of_neg (by rw [hpa, hfa]; simp)]
          exact hrest
      | some b =>
          rw [List.filterMap_cons_some hfa, List.filter_cons_of_pos (by rw [hpa, hfa]; rfl)]
          exact .cons (hR a List.mem_cons_self b hfa) hrest

/-- Values that lead back to different names are different. -/
theorem nodup_of_forall₂ {α β γ δ : Type} {f : α → γ} {g : β → δ} {back : δ → Option γ}
    {l : List α} {l' : List β} (h : List.Forall₂ (fun a b => back (g b) = some (f a)) l l')
    (hnodup : (l.map f).Nodup) : (l'.map g).Nodup := by
  have hmap : (l'.map g).map back = (l.map f).map some := by
    clear hnodup
    induction h with
    | nil => rfl
    | cons hab _ ih =>
        simp only [List.map_cons, hab, ih]
  refine List.Nodup.of_map back ?_
  rw [hmap]
  exact hnodup.map fun _ _ => Option.some.inj

/-- If hashes tell names apart, the binding under the hash of a name is that of the name. -/
theorem Variant.bindingByHash?_eq {v : Variant} {name : String}
    (h : ∀ b ∈ v.bindings, Text.fnv1a name = b.nameHash → name = b.name) :
    v.bindingByHash? (Text.fnv1a name) = v.binding? name := by
  refine List.find?_congr fun b hb => ?_
  rw [Bool.eq_iff_iff, beq_iff_eq, beq_iff_eq]
  constructor
  · exact fun hhash => (h b hb hhash.symm).symm
  · exact fun hname => congrArg Text.fnv1a hname

namespace Material

/-- An event writes the handle of the binding that stands under the hash of the name. -/
theorem map_uniform_eventFor (v : Variant) (camera : Option CameraImages) (standIns : StandIns)
    (u : MaterialUniform) :
    (eventFor v camera standIns u).map DeviceEvent.uniform =
      if u.isDefine then none else (v.bindingByHash? u.nameHash).bind Binding.handle := by
  unfold eventFor
  split
  · rfl
  · cases v.bindingByHash? u.nameHash with
    | none => rfl
    | some b =>
        cases hhandle : b.handle with
        | none => simp [hhandle]
        | some handle => cases u.value <;> simp [hhandle, DeviceEvent.uniform]

/-- The events of a material are one for each uniform that is no define and whose first
binding has a handle, in their order, if hashes tell names apart. -/
theorem forall₂_events (m : Material) {v : Variant} (camera : Option CameraImages)
    (standIns : StandIns)
    (h : ∀ u ∈ m.uniforms, ∀ b ∈ v.bindings, u.nameHash = b.nameHash → u.name = b.name) :
    List.Forall₂ (fun u e => (v.binding? u.name).bind Binding.handle = some e.uniform)
      (m.uniforms.filter fun u =>
        !u.isDefine && ((v.binding? u.name).bind Binding.handle).isSome)
      (m.events v camera standIns) := by
  have huniform : ∀ u ∈ m.uniforms, (eventFor v camera standIns u).map DeviceEvent.uniform =
      if u.isDefine then none else (v.binding? u.name).bind Binding.handle := by
    intro u hu
    rw [map_uniform_eventFor, MaterialUniform.nameHash, Variant.bindingByHash?_eq (h u hu)]
  refine forall₂_filterMap (fun u hu => ?_) fun u hu e he => ?_
  · rw [← Option.isSome_map (f := DeviceEvent.uniform), huniform u hu]
    cases u.isDefine <;> simp
  · have hwrites := huniform u hu
    rw [he] at hwrites
    split at hwrites
    · cases hwrites
    · exact hwrites.symm

end Material

/-- A handle that a variant has for a name is that of a binding with this name. -/
theorem Variant.mem_of_binding? {v : Variant} {name : String} {handle : UniformHandle}
    (h : (v.binding? name).bind Binding.handle = some handle) :
    ∃ b ∈ v.bindings, b.name = name ∧ b.handle = some handle := by
  obtain ⟨b, hb, hhandle⟩ := Option.bind_eq_some_iff.mp h
  exact ⟨b, List.mem_of_find?_eq_some hb, by simpa using List.find?_some hb, hhandle⟩

namespace World

/-- A prepared draw is that of the selected variant, and its events are recorded. -/
theorem events_of_prepare {w : World} (hcached : w.Cached) {disk : Disk} {h : MaterialHandle}
    {pass : Nat} {camera : Option CameraImages} {baseline : StateWords} {result : Draw}
    {r : Registry} {d : Device}
    (hprepare : (w.registry.prepare disk h pass camera baseline w.device).value =
      (some result, r, d)) :
    ∃ m v standIns, r.selectVariant h pass = some (m, v) ∧ result.program = v.program ∧
      d.events = w.device.events ++ m.events v camera standIns := by
  rcases hcompile : (w.registry.compileMaterial disk h w.device).value with ⟨n, r₁, d₁⟩
  obtain ⟨standIns, d₂, hstandIns, -, hrecorded⟩ := Registry.ensureStandIns_spec r₁ d₁
  obtain ⟨hevents, -⟩ := compiled_again hcached hcompile
  rw [Registry.prepare_eq hcompile hstandIns] at hprepare
  split at hprepare
  · cases hprepare
  · rename_i m v hselect
    cases hprepare
    refine ⟨m, v, standIns, hselect, rfl, ?_⟩
    rw [hrecorded, hevents]

/-- What a draw writes, and what handles are.

If a draw is prepared in a reachable world, its program is that of the variant for the
material, and it consists of two live modules.  Unless hashes confuse names, the recorded
events are, in the order of the uniforms of the material, one for each uniform that is no
define and for whose name the first binding of the variant has a handle.  No two events write
the same handle, and the handle of an event is the one that a module of the program reflects
for the name of the uniform.

The device of a reachable world is one that calls lead to, and each operation is some more
calls.  On every device that calls lead to, names and handles correspond to each other, and
whatever calls follow, a name keeps its handle. -/
theorem Reachable.draw_writes {w : World} (hw : w.Reachable) (disk : Disk) (h : MaterialHandle)
    (pass : Nat) (camera : Option CameraImages) (baseline : StateWords) :
    (∀ result r d, (w.registry.prepare disk h pass camera baseline w.device).value =
        (some result, r, d) →
      ∃ m x s s' p v, w.registry.IsBound h m x s ∧ r.shader? x = some s' ∧
        s'.passes[pass]? = some p ∧ p.variantByHash? m.definesHash = some v ∧
        result.program = v.program ∧
        ((∀ u ∈ m.uniforms, ∀ b ∈ v.bindings, u.nameHash = b.nameHash → u.name = b.name) →
          ∃ vertex fragment events, d.Links result.program vertex fragment ∧
            d.events = w.device.events ++ events ∧
            List.Forall₂ (fun u e => (v.binding? u.name).bind Binding.handle = some e.uniform ∧
                d.name? e.uniform = some u.name ∧
                ∃ y ∈ vertex.uniforms ++ fragment.uniforms,
                  y.name = u.name ∧ y.handle = e.uniform)
              (m.uniforms.filter fun u =>
                !u.isDefine && ((v.binding? u.name).bind Binding.handle).isSome)
              events ∧
            (events.map DeviceEvent.uniform).Nodup)) ∧
    w.device.Reachable ∧
    (∀ operation, w.device.Follows (w.step operation).device) ∧
    ∀ d d' : Device, d.Reachable → d.Follows d' →
      (∀ name u, d.handle? name = some u ↔ d.name? u = some name) ∧
      ∀ name u, d.handle? name = some u → d'.handle? name = some u := by
  refine ⟨?draw, hw.device, fun operation => (w.moves_step operation).provenance.follows,
    fun d _ _ hfollows => ⟨fun _ _ => d.handle?_eq_some_iff, fun _ _ => hfollows.handle?⟩⟩
  intro result r d hprepare
  have hafter : (World.mk r d).Reachable := by
    have hstep := hw.step (.prepare disk h pass camera baseline)
    rw [World.step, hprepare] at hstep
    exact hstep
  obtain ⟨m', v, standIns, hselect, hprogram, hevents⟩ := events_of_prepare hw.cached hprepare
  obtain ⟨m, x, s, s', p, hbound, rfl, hs', -, hp, hv⟩ :=
    (prepared_of_prepare hw.cached hprepare).selected hselect
  refine ⟨m, x, s, s', p, v, hbound, hs', hp, hv, hprogram, fun hinjective => ?_⟩
  obtain ⟨hmem, -⟩ := Pass.variantByHash?_eq_some hv
  obtain ⟨declarations, vertex, fragment, hlinks, hbindings, hhandles⟩ :=
    hafter.reflected v (Registry.mem_variants hs' hp hmem)
  have hone := Material.forall₂_events { m with dirty := false } camera standIns hinjective
  -- A handle that a variant binds is reflected under the name, and the device knows it.
  have hwrites : ∀ (u : MaterialUniform) (e : DeviceEvent),
      (v.binding? u.name).bind Binding.handle = some e.uniform →
      d.name? e.uniform = some u.name ∧
        ∃ y ∈ vertex.uniforms ++ fragment.uniforms, y.name = u.name ∧ y.handle = e.uniform := by
    intro u e he
    obtain ⟨b, hb, hname, hhandle⟩ := Variant.mem_of_binding? he
    rw [hbindings] at hb
    obtain ⟨y, hy, hyname, hyhandle⟩ := Binding.mem_ofReflection hb hhandle
    have hown : y.name = u.name := hyname.symm.trans hname
    refine ⟨?_, y, hy, hown, hyhandle⟩
    rw [← hown, ← hyhandle]
    exact d.handle?_eq_some_iff.mp (hhandles y hy)
  refine ⟨vertex, fragment, _, hprogram ▸ hlinks, hevents,
    hone.imp fun u e he => ⟨he, hwrites u e he⟩, ?_⟩
  have hmade := hw.isMade.material? hbound.material_eq
  have hnames : ((m.uniforms.filter fun u =>
      !u.isDefine && ((v.binding? u.name).bind Binding.handle).isSome).map
        MaterialUniform.name).Nodup :=
    hmade.nodup.sublist (List.filter_sublist.map _)
  exact nodup_of_forall₂ (hone.imp fun u e he => (hwrites u e he).1) hnames

/-- A shader with a define, and with a uniform that both stages use. -/
def sharingText : String :=
  "params\x7b\ndefine bool A \"A\" true\nvec4 B \"B\" 0 0 0 0\n\x7d\n" ++
    "\x7bvertex\x7buniform vec4 B;\nmain()\x7bB;\x7d\x7d" ++
    "fragment\x7buniform vec4 B;\nmain()\x7bB;\x7d\x7d\x7d"

/-- A world with a material of this shader. -/
def sampleSharing : World :=
  (start "" .standard .noop).run
    [.addShader (.empty []) "a.shader" sharingText, .addMaterial "m" (some ⟨0⟩)]

/-- The draw of its only pass. -/
def sharingDraw : Logged (Option Draw × Registry × Device) :=
  sampleSharing.registry.prepare (.empty []) ⟨0⟩ 0 none ⟨0, 0⟩ sampleSharing.device

/-- The uniform is written once. -/
theorem draw_writes_sharing : sampleSharing.Reachable ∧ ∃ result event,
    sharingDraw.value.1 = some result ∧
    sharingDraw.value.2.2.events = sampleSharing.device.events ++ [event] ∧
    sharingDraw.value.2.2.name? event.uniform = some "B" := by
  have hreachable : sampleSharing.Reachable := (Reachable.start "" .standard .noop).run _
  have hparts : ∀ t : Option Draw × Registry × Device, ∀ result, t.1 = some result →
      t = (some result, t.2.1, t.2.2) := fun _ _ h => Prod.ext h rfl
  have hevaluated : sharingDraw.value.1.isSome = true ∧
      ∀ m ∈ sampleSharing.registry.materials, ∀ v ∈ sharingDraw.value.2.1.variants,
        (∀ u ∈ m.uniforms, ∀ b ∈ v.bindings, u.nameHash = b.nameHash → u.name = b.name) ∧
        (m.uniforms.filter fun u =>
          !u.isDefine && ((v.binding? u.name).bind Binding.handle).isSome).map
            MaterialUniform.name = ["B"] := by
    decide +kernel
  obtain ⟨hsome, hnames⟩ := hevaluated
  obtain ⟨result, hresult⟩ := Option.isSome_iff_exists.mp hsome
  obtain ⟨hdraw, -⟩ := hreachable.draw_writes (.empty []) ⟨0⟩ 0 none ⟨0, 0⟩
  obtain ⟨m, x, s, s', p, v, hbound, hs', hp, hv, -, hwrites⟩ :=
    hdraw result sharingDraw.value.2.1 sharingDraw.value.2.2
      (hparts sharingDraw.value result hresult)
  have hvariant := Registry.mem_variants hs' hp (Pass.variantByHash?_eq_some hv).1
  obtain ⟨hinjective, hone⟩ := hnames m (List.mem_of_getElem? hbound.material_eq) v hvariant
  obtain ⟨vertex, fragment, events, -, hevents, hwritten, -⟩ := hwrites hinjective
  obtain ⟨u, hu, hname⟩ := List.map_eq_singleton_iff.mp hone
  rw [hu] at hwritten
  obtain ⟨event, rest, ⟨-, hback, -⟩, hrest, rfl⟩ := List.forall₂_cons_left_iff.mp hwritten
  obtain rfl := List.forall₂_nil_left_iff.mp hrest
  exact ⟨hreachable, result, event, hresult, hevents, hback.trans (congrArg some hname)⟩

end World
end ShaderAssets
