import ShaderAssets.Proofs.Device.Calls
import ShaderAssets.Proofs.Device.Ownership
import ShaderAssets.Proofs.Material.Calls
import ShaderAssets.Proofs.Registry.Operation

/-!
# What an operation changes

An operation that succeeds makes one move: it carries out one function of the registry, or
one call on a material, a shader or the device.  To the shaders of the registry and the
objects of the device it does one of four things: it leaves them as they are, adds a shader
that was just read, carries out one call on one shader, or unloads and forgets all shaders.

Main results:

- Inductive {lit}`World.Moves` and theorem {lit}`World.moves_step`: the move that an operation
  makes, if it makes one.
- Inductive {lit}`World.Changes`: the four kinds of changes.
- Theorem {lit}`World.changes_step`: every operation is of one of these kinds.
-/

namespace ShaderAssets

namespace World

/-! ## Moves -/

/-- What an operation may do: nothing, or one thing to the registry or its device. -/
inductive Moves (w : World) : World → Prop where
  | stays : Moves w w
  | shaderLoaded {disk : Disk} {path : String} {h : ShaderHandle} {r : Registry}
      (hload : (w.registry.loadShader disk path).value = .ok (h, r)) :
      Moves w { w with registry := r }
  | shaderPlaced (path text : String) :
      Moves w { w with
        registry := (w.registry.placeShader path (Shader.ofText path text).value).2 }
  | shaderReloaded (disk : Disk) (h : ShaderHandle) (text : String) :
      Moves w ⟨(w.registry.reloadShader disk h text w.device).value.2.1,
        (w.registry.reloadShader disk h text w.device).value.2.2⟩
  | shaderCalled {h : ShaderHandle} {s : Shader} (hs : w.registry.shader? h = some s)
      (call : ShaderOperation) :
      Moves w ⟨w.registry.setShader h (call.run s w.device).1, (call.run s w.device).2⟩
  | materialLoaded {disk : Disk} {path : String} {h : MaterialHandle} {r : Registry}
      (hload : (w.registry.loadMaterial disk path).value = .ok (h, r)) :
      Moves w { w with registry := r }
  | materialAdded (name : String) (shader : Option ShaderHandle) :
      Moves w { w with registry := (w.registry.addMaterial name shader).value.2 }
  | materialCopied {source h : MaterialHandle} {name : String} {r : Registry}
      (hcopy : w.registry.copyMaterial source name = some (h, r)) :
      Moves w { w with registry := r }
  | materialBound (h : MaterialHandle) (s : ShaderHandle) :
      Moves w { w with registry := (w.registry.bindMaterial h s).value.2 }
  | materialCalled {h : MaterialHandle} {m : Material} (hm : w.registry.material? h = some m)
      (call : Material.Call) : Moves w { w with registry := w.registry.setMaterial h (call.run m) }
  | materialCompiled (disk : Disk) (h : MaterialHandle) :
      Moves w ⟨(w.registry.compileMaterial disk h w.device).value.2.1,
        (w.registry.compileMaterial disk h w.device).value.2.2⟩
  | drawPrepared (disk : Disk) (h : MaterialHandle) (pass : Nat) (camera : Option CameraImages)
      (baseline : Render.StateWords) :
      Moves w ⟨(w.registry.prepare disk h pass camera baseline w.device).value.2.1,
        (w.registry.prepare disk h pass camera baseline w.device).value.2.2⟩
  | standInsMade :
      Moves w ⟨(w.registry.ensureStandIns w.device).2.1, (w.registry.ensureStandIns w.device).2.2⟩
  | cleared :
      Moves w ⟨(w.registry.clear w.device).value.1, (w.registry.clear w.device).value.2⟩
  | deviceCalled (call : Device.Call) (hsame : w.device.SameObjects (call.run w.device)) :
      Moves w { w with device := call.run w.device }

/-- Every operation makes one of these moves. -/
theorem moves_step (w : World) (operation : Operation) : Moves w (w.step operation) := by
  cases operation with
  | loadShader disk path =>
      rw [step]
      split
      · rename_i hload
        exact .shaderLoaded hload
      · exact .stays
  | addShader disk path text =>
      rw [step, Registry.addShader]
      cases Registry.lookupPath path w.registry.shaderPaths with
      | some h => exact .shaderReloaded disk h text
      | none => exact .shaderPlaced path text
  | loadMaterial disk path =>
      rw [step]
      split
      · rename_i hload
        exact .materialLoaded hload
      · exact .stays
  | addMaterial name shader => exact .materialAdded name shader
  | copyMaterial source name =>
      rw [step]
      split
      · rename_i hcopy
        exact .materialCopied hcopy
      · exact .stays
  | bindMaterial material shader => exact .materialBound material shader
  | setUniform material name value define =>
      rw [step]
      split
      · rename_i hm
        exact .materialCalled hm (.setUniform name value define)
      · exact .stays
  | setTexture material name texture =>
      rw [step]
      split
      · rename_i hm
        exact .materialCalled hm (.setTexture name texture)
      · exact .stays
  | compileMaterial disk material => exact .materialCompiled disk material
  | reloadShader disk shader text => exact .shaderReloaded disk shader text
  | reloadShaderFile disk shader =>
      rw [step, Registry.reloadShaderFile]
      cases w.registry.shader? shader with
      | none => exact .stays
      | some s =>
          simp only []
          cases disk.read s.path with
          | error e => exact .stays
          | ok text => exact .shaderReloaded disk shader text
  | prepare disk material pass camera baseline =>
      exact .drawPrepared disk material pass camera baseline
  | ensureStandIns => exact .standInsMade
  | clear => exact .cleared
  | onShader shader call =>
      rw [step]
      split
      · rename_i hs
        exact .shaderCalled hs call
      · exact .stays
  | register path text => exact .deviceCalled (.register path text) (.of_eq rfl rfl)
  | addIncludeDirectory path =>
      exact .deviceCalled (.addIncludeDirectory path) (.of_eq rfl rfl)
  | addTexture kind => exact .deviceCalled (.addTexture kind) (.of_eq rfl rfl)
  | takeEvents => exact .deviceCalled .takeEvents (.of_eq rfl rfl)

end World

/-! ## Materials leave the shaders alone -/

namespace Registry

/-- Binding a material leaves the shaders alone. -/
@[simp]
theorem shaders_bindMaterial (r : Registry) (m : MaterialHandle) (s : ShaderHandle) :
    (r.bindMaterial m s).value.2.shaders = r.shaders := by
  unfold bindMaterial
  split <;> rfl

/-- Adding a material leaves the shaders alone. -/
@[simp]
theorem shaders_addMaterial (r : Registry) (name : String) (shader : Option ShaderHandle) :
    (r.addMaterial name shader).value.2.shaders = r.shaders := by
  cases shader with
  | none => rfl
  | some s => exact shaders_bindMaterial _ _ s

/-- Adding the material of a file leaves the shaders alone. -/
@[simp]
theorem shaders_addMaterialFile (r : Registry) (path : String) (file : MaterialFile)
    (shader : Option ShaderHandle) :
    (r.addMaterialFile path file shader).value.2.shaders = r.shaders := by
  unfold addMaterialFile
  simp only [Logged.value_bind]
  have hadd := r.shaders_addMaterial (file.name.getD (Path.stem path)) shader
  split
  · exact hadd
  · exact hadd

/-- Copying a material leaves the shaders alone. -/
theorem shaders_copyMaterial {r r' : Registry} {source h : MaterialHandle} {name : String}
    (hcopy : r.copyMaterial source name = some (h, r')) : r'.shaders = r.shaders := by
  obtain ⟨m, -, heq⟩ := Option.map_eq_some_iff.mp hcopy
  cases heq
  rfl

/-! ## Loading adds a shader that was just read -/

section Loading

variable {r r' : Registry} {disk : Disk} {path : String}

/-- Loading a shader finds its path or puts the shader of its file under the path. -/
theorem loadShader_cases {x : ShaderHandle}
    (hload : (r.loadShader disk path).value = .ok (x, r')) :
    (lookupPath path r.shaderPaths = some x ∧ r' = r) ∨
      (lookupPath path r.shaderPaths = none ∧
        ∃ text, disk.read (Path.join r.root path) = .ok text ∧
          (x, r') = r.placeShader path (Shader.ofText (Path.join r.root path) text).value) := by
  unfold loadShader at hload
  cases hknown : lookupPath path r.shaderPaths with
  | some known =>
      rw [hknown] at hload
      cases hload
      exact Or.inl ⟨rfl, rfl⟩
  | none =>
      rw [hknown] at hload
      simp only [Logged.value_bind, Shader.load] at hload
      cases hread : disk.read (Path.join r.root path) with
      | error e =>
          rw [hread] at hload
          cases hload
      | ok text =>
          rw [hread] at hload
          exact Or.inr ⟨rfl, text, rfl, (Except.ok.inj hload).symm⟩

/-- Loading a material finds its path or adds the material of its file, after loading the
shader that the file names. -/
theorem loadMaterial_cases {h : MaterialHandle}
    (hload : (r.loadMaterial disk path).value = .ok (h, r')) :
    (lookupPath path r.materialPaths = some h ∧ r' = r) ∨
      (lookupPath path r.materialPaths = none ∧
        ∃ text file, disk.read (Path.join r.root path) = .ok text ∧
          MaterialFile.read? text = some file ∧
          ((file.shader = "" ∧ (h, r') = (r.addMaterialFile path file none).value) ∨
            ∃ x r₁, (r.loadShader disk file.shader).value = .ok (x, r₁) ∧
              (h, r') = (r₁.addMaterialFile path file (some x)).value)) := by
  unfold loadMaterial at hload
  cases hknown : lookupPath path r.materialPaths with
  | some known =>
      rw [hknown] at hload
      cases hload
      exact Or.inl ⟨rfl, rfl⟩
  | none =>
      rw [hknown] at hload
      cases hread : disk.read (Path.join r.root path) with
      | error e =>
          rw [hread] at hload
          cases hload
      | ok text =>
          rw [hread] at hload
          cases hfile : MaterialFile.read? text with
          | none =>
              simp only [hfile] at hload
              cases hload
          | some file =>
              refine Or.inr ⟨rfl, text, file, rfl, hfile, ?_⟩
              simp only [hfile] at hload
              by_cases hempty : file.shader = ""
              · rw [if_pos hempty] at hload
                exact Or.inl ⟨hempty, (Except.ok.inj hload).symm⟩
              · rw [if_neg hempty] at hload
                simp only [Logged.value_bind] at hload
                cases hshader : (r.loadShader disk file.shader).value with
                | error e =>
                    rw [hshader] at hload
                    cases hload
                | ok result =>
                    rw [hshader] at hload
                    exact Or.inr ⟨result.1, result.2, rfl, (Except.ok.inj hload).symm⟩

/-- Loading a shader adds it unless its path is known. -/
theorem shaders_loadShader {x : ShaderHandle}
    (hload : (r.loadShader disk path).value = .ok (x, r')) :
    r'.shaders = r.shaders ∨
      ∃ file text, r'.shaders = r.shaders ++ [(Shader.ofText file text).value] := by
  rcases loadShader_cases hload with ⟨-, rfl⟩ | ⟨-, text, -, heq⟩
  · exact Or.inl rfl
  · cases heq
    exact Or.inr ⟨_, text, rfl⟩

/-- Loading a material adds at most the shader that it names. -/
theorem shaders_loadMaterial {h : MaterialHandle}
    (hload : (r.loadMaterial disk path).value = .ok (h, r')) :
    r'.shaders = r.shaders ∨
      ∃ file text, r'.shaders = r.shaders ++ [(Shader.ofText file text).value] := by
  rcases loadMaterial_cases hload with
    ⟨-, rfl⟩ | ⟨-, -, file, -, -, ⟨-, heq⟩ | ⟨x, r₁, hshader, heq⟩⟩
  · exact Or.inl rfl
  · have hadd := r.shaders_addMaterialFile path file none
    rw [← heq] at hadd
    exact Or.inl hadd
  · have hadd := r₁.shaders_addMaterialFile path file (some x)
    rw [← heq] at hadd
    rcases shaders_loadShader hshader with hkept | ⟨origin, content, hplaced⟩
    · exact Or.inl (hadd.trans hkept)
    · exact Or.inr ⟨origin, content, hadd.trans hplaced⟩

end Loading

end Registry

/-! ## The kinds of changes -/

namespace World

/-- What an operation may do to the shaders of a registry and the objects of its
device. -/
inductive Changes (w w' : World) : Prop where
  | kept (hshaders : w'.registry.shaders = w.registry.shaders)
      (hsame : w.device.SameObjects w'.device)
  | placed (path text : String)
      (hshaders : w'.registry.shaders =
        w.registry.shaders ++ [(Shader.ofText path text).value])
      (hsame : w.device.SameObjects w'.device)
  | called (h : ShaderHandle) (s : Shader) (call : ShaderOperation)
      (hs : w.registry.shader? h = some s)
      (hshaders : w'.registry.shaders =
        w.registry.shaders.set h.index (call.run s w.device).1)
      (hsame : (call.run s w.device).2.SameObjects w'.device)
  | cleared (hshaders : w'.registry.shaders = [])
      (hsame : (Registry.unloadShaders w.registry.shaders w.device).value.SameObjects w'.device)

/-- A step that leaves shaders and objects alone may follow a change. -/
theorem Changes.trans_kept {w w' w'' : World} (h : Changes w w')
    (hshaders : w''.registry.shaders = w'.registry.shaders)
    (hsame : w'.device.SameObjects w''.device) : Changes w w'' := by
  cases h with
  | kept hs hd => exact .kept (hshaders.trans hs) (hd.trans hsame)
  | placed path text hs hd => exact .placed path text (hshaders.trans hs) (hd.trans hsame)
  | called x s call hx hs hd => exact .called x s call hx (hshaders.trans hs) (hd.trans hsame)
  | cleared hs hd => exact .cleared (hshaders.trans hs) (hd.trans hsame)

/-- An operation that may have added a shader that was just read. -/
theorem Changes.of_placed {w : World} {r : Registry}
    (h : r.shaders = w.registry.shaders ∨
      ∃ file text, r.shaders = w.registry.shaders ++ [(Shader.ofText file text).value]) :
    Changes w { w with registry := r } := by
  rcases h with hkept | ⟨file, text, hplaced⟩
  · exact .kept hkept (.of_eq rfl rfl)
  · exact .placed file text hplaced (.of_eq rfl rfl)

/-- Reloading a shader is a call on it. -/
theorem changes_reloadShader (w : World) (disk : Disk) (h : ShaderHandle) (text : String) :
    Changes w ⟨(w.registry.reloadShader disk h text w.device).value.2.1,
      (w.registry.reloadShader disk h text w.device).value.2.2⟩ := by
  unfold Registry.reloadShader
  cases hs : w.registry.shader? h with
  | none => exact .kept rfl (.of_eq rfl rfl)
  | some s =>
      exact .called h s (.reload disk text (w.registry.definesInUse h) w.registry.options) hs rfl
        (.of_eq rfl rfl)

/-- Compiling a material is a call on its shader, if anything. -/
theorem changes_compileMaterial (w : World) (disk : Disk) (h : MaterialHandle) :
    Changes w ⟨(w.registry.compileMaterial disk h w.device).value.2.1,
      (w.registry.compileMaterial disk h w.device).value.2.2⟩ := by
  unfold Registry.compileMaterial
  cases hm : w.registry.material? h with
  | none => exact .kept rfl (.of_eq rfl rfl)
  | some m =>
      simp only []
      cases hsh : m.shader with
      | none => exact .kept rfl (.of_eq rfl rfl)
      | some sh =>
          simp only []
          cases hs : w.registry.shader? sh with
          | none => exact .kept rfl (.of_eq rfl rfl)
          | some s =>
              simp only []
              split
              · exact .kept rfl (.of_eq rfl rfl)
              · exact .called sh s (.compileFor disk m.defines w.registry.options) hs rfl
                  (.of_eq rfl rfl)

/-- Making the stand-in textures leaves shaders and objects alone. -/
theorem ensureStandIns_kept (r : Registry) (d : Device) :
    (r.ensureStandIns d).2.1.shaders = r.shaders ∧
      d.SameObjects (r.ensureStandIns d).2.2 := by
  unfold Registry.ensureStandIns
  split
  · exact ⟨rfl, .of_eq rfl rfl⟩
  · exact ⟨rfl, .of_eq rfl rfl⟩

/-- Recording events leaves the objects of a device alone. -/
theorem foldl_record (events : List DeviceEvent) (d : Device) :
    events.foldl (fun d e => d.record e) d = { d with events := d.events ++ events } := by
  induction events generalizing d with
  | nil => simp
  | cons event events ih =>
      rw [List.foldl_cons, ih]
      simp [Device.record]

/-- Preparing a draw changes what compiling the material changes. -/
theorem changes_prepare (w : World) (disk : Disk) (h : MaterialHandle) (pass : Nat)
    (camera : Option CameraImages) (baseline : Render.StateWords) :
    Changes w ⟨(w.registry.prepare disk h pass camera baseline w.device).value.2.1,
      (w.registry.prepare disk h pass camera baseline w.device).value.2.2⟩ := by
  have hcompile := changes_compileMaterial w disk h
  obtain ⟨hshaders, hsame⟩ := ensureStandIns_kept
    (w.registry.compileMaterial disk h w.device).value.2.1
    (w.registry.compileMaterial disk h w.device).value.2.2
  unfold Registry.prepare
  simp only [Logged.value_bind]
  split
  · exact hcompile.trans_kept hshaders hsame
  · refine hcompile.trans_kept hshaders (hsame.trans ?_)
    rw [foldl_record]
    exact .of_eq rfl rfl

/-- Every move is of one of the four kinds. -/
theorem Moves.changes {w w' : World} (h : Moves w w') : Changes w w' := by
  cases h with
  | stays => exact .kept rfl (.of_eq rfl rfl)
  | shaderLoaded hload => exact .of_placed (Registry.shaders_loadShader hload)
  | shaderPlaced path text => exact .placed path text rfl (.of_eq rfl rfl)
  | shaderReloaded disk h text => exact changes_reloadShader w disk h text
  | shaderCalled hs call => exact .called _ _ call hs rfl (.of_eq rfl rfl)
  | materialLoaded hload => exact .of_placed (Registry.shaders_loadMaterial hload)
  | materialAdded name shader =>
      exact .kept (w.registry.shaders_addMaterial name shader) (.of_eq rfl rfl)
  | materialCopied hcopy => exact .kept (Registry.shaders_copyMaterial hcopy) (.of_eq rfl rfl)
  | materialBound h s => exact .kept (w.registry.shaders_bindMaterial h s) (.of_eq rfl rfl)
  | materialCalled hm call => exact .kept rfl (.of_eq rfl rfl)
  | materialCompiled disk h => exact changes_compileMaterial w disk h
  | drawPrepared disk h pass camera baseline =>
      exact changes_prepare w disk h pass camera baseline
  | standInsMade =>
      obtain ⟨hshaders, hsame⟩ := ensureStandIns_kept w.registry w.device
      exact .kept hshaders hsame
  | cleared => exact .cleared rfl (.of_eq rfl rfl)
  | deviceCalled call hsame => exact .kept rfl hsame

/-- Every operation is of one of the four kinds. -/
theorem changes_step (w : World) (operation : Operation) : Changes w (w.step operation) :=
  (w.moves_step operation).changes

end World
end ShaderAssets
