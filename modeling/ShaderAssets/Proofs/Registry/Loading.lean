import ShaderAssets.Proofs.Registry.Sessions

/-!
# Loading in place

A function of the registry that can fail gives a new registry only when it succeeds, so its
type says that a failure changes nothing.  A program that changes its registry in place has
no such type: it reads files, adds a shader, adds a material and gives it values one after
the other, and what was changed before a failure stays changed.  Here loading is written
down in that way, step by step and in order, with direct indexing that may go out of range.
In a session it never does, every failure comes before the first change, and so loading in
place is loading.

Main results:

- Definitions {lit}`InPlace.loadShader`, {lit}`InPlace.loadMaterial` and
  {lit}`InPlace.reloadShaderFile`: the operations step by step.
- Theorem {lit}`InPlace.runAt_addEntries`: the loop over the values of a material file.
- Theorems {lit}`InPlace.runAt_loadShader` and {lit}`InPlace.runAt_loadMaterial`: loading in
  place is loading.
- Theorem {lit}`World.Session.loading_sound`: failures change nothing, handles are valid, and a path
  that was loaded keeps its handle.
-/

namespace ShaderAssets

open Material (UniformValue)
open Registry (lookupPath)

/-! ## Logged values as a monad -/

namespace Logged

variable {α β γ : Type}

/-- Logged values are equal when their values and their messages are. -/
theorem ext {x y : Logged α} (hvalue : x.value = y.value) (hlog : x.log = y.log) : x = y := by
  cases x
  cases y
  cases hvalue
  cases hlog
  rfl

instance : LawfulMonad Logged :=
  LawfulMonad.mk' Logged (fun x => ext rfl (List.append_nil _)) (fun _ _ => ext rfl rfl)
    (fun _ _ _ => ext rfl (List.append_assoc ..))

/-- The value of an image is the image of the value. -/
@[simp]
theorem value_map (f : α → β) (x : Logged α) : (f <$> x).value = f x.value :=
  rfl

/-- What follows matters only at the value that it gets. -/
theorem bind_congr {x : Logged α} {f g : α → Logged β} (h : f x.value = g x.value) :
    x >>= f = x >>= g :=
  ext (by rw [value_bind, value_bind, h]) (by rw [log_bind, log_bind, h])

/-- A function matters only at the value that it is applied to. -/
theorem map_congr {x : Logged α} {f g : α → β} (h : f x.value = g x.value) :
    f <$> x = g <$> x :=
  ext h rfl

end Logged

/-! ## Computations that may stop halfway -/

/-- Why a computation stops before its end. -/
inductive Fault (ε : Type) where
  | error (error : ε)
  | outOfRange
deriving DecidableEq, Repr

/-- A fault with another kind of error. -/
def Fault.map {ε ε' : Type} (f : ε → ε') : Fault ε → Fault ε'
  | .error e => .error (f e)
  | .outOfRange => .outOfRange

/-- A computation that changes a world step by step.  What it changed before it stops stays
changed. -/
abbrev InPlace (ε α : Type) : Type :=
  ExceptT (Fault ε) (StateT World Logged) α

namespace InPlace

variable {ε ε' α β : Type}

/-- Carries out a computation: its end, the world that it leaves and what it logs. -/
def runAt (p : InPlace ε α) (w : World) : Logged (Except (Fault ε) α × World) :=
  (ExceptT.run p).run w

/-- Changes the registry. -/
def change (f : Registry → Registry) : InPlace ε Unit :=
  modify fun w => { w with registry := f w.registry }

section Run

variable (w : World)

@[simp]
theorem runAt_pure (a : α) : (pure a : InPlace ε α).runAt w = pure (.ok a, w) :=
  rfl

@[simp]
theorem runAt_throw (fault : Fault ε) :
    (throw fault : InPlace ε α).runAt w = pure (.error fault, w) :=
  rfl

@[simp]
theorem runAt_get : (get : InPlace ε World).runAt w = pure (.ok w, w) :=
  rfl

@[simp]
theorem runAt_set (w' : World) : (set w' : InPlace ε PUnit).runAt w = pure (.ok ⟨⟩, w') :=
  rfl

@[simp]
theorem runAt_change (f : Registry → Registry) :
    (change f : InPlace ε Unit).runAt w = pure (.ok (), { w with registry := f w.registry }) :=
  rfl

@[simp]
theorem runAt_logged (x : Logged α) :
    (liftM x : InPlace ε α).runAt w = (fun a => (.ok a, w)) <$> x := by
  simp [runAt, liftM, monadLift, MonadLift.monadLift]

/-- A computation goes on in the world that its first part leaves, unless that stopped. -/
@[simp]
theorem runAt_bind (p : InPlace ε α) (f : α → InPlace ε β) :
    (p >>= f).runAt w = p.runAt w >>= fun
      | (.ok a, w') => (f a).runAt w'
      | (.error fault, w') => pure (.error fault, w') := by
  show p.runAt w >>= (fun out => (ExceptT.bindCont f out.1).run out.2) = _
  refine Logged.bind_congr ?_
  rcases (p.runAt w).value with ⟨fault | a, w'⟩
  · rfl
  · rfl

@[simp]
theorem runAt_map (f : α → β) (p : InPlace ε α) :
    (f <$> p).runAt w = (fun out => (out.1.map f, out.2)) <$> p.runAt w := by
  rw [map_eq_pure_bind, runAt_bind, map_eq_pure_bind]
  refine Logged.bind_congr ?_
  rcases (p.runAt w).value with ⟨fault | a, w'⟩
  · rfl
  · rfl

@[simp]
theorem runAt_adapt (f : Fault ε → Fault ε') (p : InPlace ε α) :
    InPlace.runAt (ExceptT.adapt f p) w =
      (fun out => (out.1.mapError f, out.2)) <$> p.runAt w :=
  rfl

end Run

/-! ## The operations, step by step -/

/-- Gives a path a meaning, in the place of the one that it may have. -/
def putPath (path : String) (a : α) (known : List (String × α)) : List (String × α) :=
  match known.findIdx? fun e => Path.same e.1 path with
  | some i => known.modify i fun e => (e.1, a)
  | none => known ++ [(path, a)]

/-- The shader at an index that has to be in range. -/
def shaderAt (x : ShaderHandle) : InPlace ε Shader := do
  match (← get).registry.shader? x with
  | some s => return s
  | none => throw .outOfRange

/-- The material at an index that has to be in range. -/
def materialAt (h : MaterialHandle) : InPlace ε Material := do
  match (← get).registry.material? h with
  | some m => return m
  | none => throw .outOfRange

/-- Puts a shader behind the others and then enters its path. -/
def insertShader (path : String) (s : Shader) : InPlace ε ShaderHandle := do
  let x : ShaderHandle := ⟨(← get).registry.shaders.length⟩
  change fun r => { r with shaders := r.shaders ++ [s] }
  change fun r => { r with shaderPaths := putPath path x r.shaderPaths }
  return x

/-- Loads a shader relative to the assets root, unless its path is known. -/
def loadShader (disk : Disk) (path : String) : InPlace ShaderError ShaderHandle := do
  let r := (← get).registry
  match lookupPath path r.shaderPaths with
  | some x => return x
  | none =>
      match ← Shader.load disk (Path.join r.root path) with
      | .error e => throw (.error e)
      | .ok s => insertShader path s

/-- Puts a material behind the others and then binds it, if there is a shader. -/
def createMaterial (name : String) (shader : Option ShaderHandle) :
    InPlace ε MaterialHandle := do
  let h : MaterialHandle := ⟨(← get).registry.materials.length⟩
  change fun r => { r with materials := r.materials ++ [.create name] }
  match shader with
  | none => return h
  | some x =>
      let (_, r) ← (← get).registry.bindMaterial h x
      change fun _ => r
      return h

/-- The type that the shader of a material declares for a uniform. -/
def declaredType (shader : Option ShaderHandle) (name : String) :
    InPlace ε (Option Source.UniformType) := do
  match shader with
  | none => return none
  | some x => return ((← shaderAt x).declaration? name).map Source.UniformDeclaration.type

/-- Gives a material one value of a material file. -/
def addEntry (name : String) (shader : Option ShaderHandle) (h : MaterialHandle)
    (e : MaterialEntry) : InPlace ε Unit := do
  match ← UniformValue.ofYaml (← declaredType shader e.name) e.value with
  | some value =>
      let m ← (← materialAt h).setUniform e.name value e.isDefine
      change (·.setMaterial h m)
  | none =>
      Logged.warn ("Material '" ++ name ++ "': unsupported value for uniform '" ++ e.name ++ "'")

/-- Gives a material the values of a material file, one after the other. -/
def addEntries (name : String) (shader : Option ShaderHandle) (h : MaterialHandle) :
    List MaterialEntry → InPlace ε Unit
  | [] => return
  | e :: rest => do
      addEntry name shader h e
      addEntries name shader h rest

/-- Makes the material of a file and enters its path at the end. -/
def addMaterialFile (path : String) (file : MaterialFile) (shader : Option ShaderHandle) :
    InPlace ε MaterialHandle := do
  let name := file.name.getD (Path.stem path)
  let h ← createMaterial name shader
  addEntries name shader h file.uniforms
  change fun r => { r with materialPaths := putPath path h r.materialPaths }
  return h

/-- Loads a material relative to the assets root, with the shader that it names, unless its
path is known. -/
def loadMaterial (disk : Disk) (path : String) : InPlace MaterialError MaterialHandle := do
  let r := (← get).registry
  match lookupPath path r.materialPaths with
  | some h => return h
  | none =>
      match disk.read (Path.join r.root path) with
      | .error e => throw (.error (.file e))
      | .ok text =>
          match MaterialFile.read? text with
          | none => throw (.error .malformed)
          | some file =>
              if file.shader = "" then addMaterialFile path file none
              else
                let x ← ExceptT.adapt (Fault.map .shader) (loadShader disk file.shader)
                addMaterialFile path file (some x)

/-- Reads the file of a shader again. -/
def reloadShaderFile (disk : Disk) (x : ShaderHandle) : InPlace ShaderError Unit := do
  match (← get).registry.shader? x with
  | none => return
  | some s =>
      match disk.read s.path with
      | .error e => throw (.error (.file e))
      | .ok text =>
          let w ← get
          let (_, r, d) ← w.registry.reloadShader disk x text w.device
          set (⟨r, d⟩ : World)

/-! ## The material that is being filled -/

end InPlace

namespace Registry

variable {r : Registry} {h : MaterialHandle} {m : Material}

/-- Putting a registered material where it is changes nothing. -/
theorem setMaterial_self (hm : r.material? h = some m) : r.setMaterial h m = r := by
  obtain ⟨hlt, rfl⟩ := List.getElem?_eq_some_iff.mp hm
  rw [setMaterial, List.set_getElem_self]

/-- The later of two materials stays. -/
@[simp]
theorem setMaterial_setMaterial (r : Registry) (h : MaterialHandle) (m m' : Material) :
    (r.setMaterial h m).setMaterial h m' = r.setMaterial h m' := by
  simp [setMaterial]

/-- Materials do not matter for shaders. -/
@[simp]
theorem shader?_setMaterial (r : Registry) (h : MaterialHandle) (m : Material) :
    (r.setMaterial h m).shader? = r.shader? :=
  rfl

/-- A material that takes the place of another is found there. -/
theorem material?_setMaterial (hm : r.material? h = some m) (m' : Material) :
    (r.setMaterial h m').material? h = some m' := by
  obtain ⟨hlt, -⟩ := List.getElem?_eq_some_iff.mp hm
  exact List.getElem?_set_self hlt

/-- The values of a file are given one after the other. -/
theorem applyEntries_cons (name : String) (shader : Option Shader) (e : MaterialEntry)
    (es : List MaterialEntry) (m : Material) :
    applyEntries name shader (e :: es) m =
      applyEntries name shader [e] m >>= applyEntries name shader es := by
  simp only [applyEntries, bind_assoc]
  refine Logged.bind_congr ?_
  split
  · simp
  · simp

end Registry

namespace InPlace

/-! ## The steps of loading -/

section Steps

variable {w : World}

/-- A path without meaning is entered behind the others. -/
theorem putPath_of_new {path : String} {known : List (String × α)}
    (hnew : lookupPath path known = none) (a : α) : putPath path a known = known ++ [(path, a)] := by
  have hnone : known.findIdx? (fun e => Path.same e.1 path) = none :=
    List.findIdx?_eq_none_iff.mpr (Registry.lookupPath_eq_none_iff.mp hnew)
  rw [putPath, hnone]

/-- A registered shader is read. -/
theorem runAt_shaderAt {x : ShaderHandle} {s : Shader} (hs : w.registry.shader? x = some s) :
    (shaderAt x : InPlace ε Shader).runAt w = pure (.ok s, w) := by
  simp [shaderAt, hs]

/-- A registered material is read. -/
theorem runAt_materialAt {h : MaterialHandle} {m : Material}
    (hm : w.registry.material? h = some m) :
    (materialAt h : InPlace ε Material).runAt w = pure (.ok m, w) := by
  simp [materialAt, hm]

/-- A shader whose path has no meaning is placed. -/
theorem runAt_insertShader {path : String} (hnew : lookupPath path w.registry.shaderPaths = none)
    (s : Shader) :
    (insertShader path s : InPlace ε ShaderHandle).runAt w =
      pure (.ok (w.registry.placeShader path s).1,
        { w with registry := (w.registry.placeShader path s).2 }) := by
  simp [insertShader, putPath_of_new hnew, Registry.placeShader, Except.map]

/-- Creating a material is adding one. -/
theorem runAt_createMaterial (w : World) (name : String) (shader : Option ShaderHandle) :
    (createMaterial name shader : InPlace ε MaterialHandle).runAt w =
      (fun out => (.ok out.1, { w with registry := out.2 })) <$>
        w.registry.addMaterial name shader := by
  cases shader with
  | none => simp [createMaterial, Registry.addMaterial, Except.map]
  | some x => simp [createMaterial, Registry.addMaterial, Except.map]

/-- The shader of a material is registered, so its declaration is read. -/
theorem runAt_declaredType {shader : Option ShaderHandle}
    (hshader : ∀ x ∈ shader, x.index < w.registry.shaders.length) (name : String) :
    (declaredType shader name : InPlace ε _).runAt w =
      pure (.ok (((shader.bind w.registry.shader?).bind fun s => s.declaration? name).map
        Source.UniformDeclaration.type), w) := by
  cases shader with
  | none => rfl
  | some x =>
      have hs : w.registry.shader? x = some _ := List.getElem?_eq_getElem (hshader x rfl)
      simp [declaredType, runAt_shaderAt hs, hs, Except.map]

/-- One value of a file, given to a material at a valid handle. -/
theorem runAt_addEntry (name : String) {shader : Option ShaderHandle}
    (hshader : ∀ x ∈ shader, x.index < w.registry.shaders.length) {h : MaterialHandle}
    {m : Material} (hm : w.registry.material? h = some m) (e : MaterialEntry) :
    (addEntry name shader h e : InPlace ε Unit).runAt w =
      (fun m' => (.ok (), { w with registry := w.registry.setMaterial h m' })) <$>
        Registry.applyEntries name (shader.bind w.registry.shader?) [e] m := by
  simp only [addEntry, Registry.applyEntries, runAt_bind, runAt_declaredType hshader, pure_bind,
    map_bind, runAt_logged, bind_map_left]
  refine Logged.bind_congr ?_
  generalize (UniformValue.ofYaml _ e.value).value = value
  cases value with
  | none => simp [Registry.setMaterial_self hm]
  | some value => simp [runAt_materialAt hm]

/-- All values of a file, given to a material at a valid handle. -/
theorem runAt_addEntries (name : String) {shader : Option ShaderHandle}
    (hshader : ∀ x ∈ shader, x.index < w.registry.shaders.length) {h : MaterialHandle}
    {m : Material} (hm : w.registry.material? h = some m) (es : List MaterialEntry) :
    (addEntries name shader h es : InPlace ε Unit).runAt w =
      (fun m' => (.ok (), { w with registry := w.registry.setMaterial h m' })) <$>
        Registry.applyEntries name (shader.bind w.registry.shader?) es m := by
  induction es generalizing w m with
  | nil => simp [addEntries, Registry.applyEntries, Registry.setMaterial_self hm]
  | cons e es ih =>
      rw [addEntries, runAt_bind, runAt_addEntry name hshader hm,
        Registry.applyEntries_cons name _ e es, bind_map_left, map_bind]
      refine Logged.bind_congr ?_
      have hrest := fun m' => ih (w := { w with registry := w.registry.setMaterial h m' }) hshader
        (Registry.material?_setMaterial hm m')
      simpa using hrest _

/-- Making the material of a file is adding it, if its path has no meaning. -/
theorem runAt_addMaterialFile {path : String}
    (hnew : lookupPath path w.registry.materialPaths = none) (file : MaterialFile)
    (shader : Option ShaderHandle) (hshader : ∀ x ∈ shader, x.index < w.registry.shaders.length) :
    (addMaterialFile path file shader : InPlace ε MaterialHandle).runAt w =
      (fun out => (.ok out.1, { w with registry := out.2 })) <$>
        w.registry.addMaterialFile path file shader := by
  obtain ⟨m, hadd, -⟩ := w.registry.addMaterial_spec (file.name.getD (Path.stem path)) shader
  -- The material that is being filled is the one that was just added.
  let added : Registry := { w.registry with materials := w.registry.materials ++ [m] }
  have hfound : added.material? ⟨w.registry.materials.length⟩ = some m :=
    List.getElem?_concat_length
  have hentries := fun name => runAt_addEntries (ε := ε) (w := ⟨added, w.device⟩) name hshader
    hfound file.uniforms
  rw [addMaterialFile, runAt_bind, runAt_createMaterial, Registry.addMaterialFile, bind_map_left,
    map_bind]
  refine Logged.bind_congr ?_
  simp only [hadd]
  rw [show Registry.material? _ _ = _ from hfound, runAt_bind, hentries]
  simp [Except.map, putPath_of_new hnew, Registry.setMaterial, added]

end Steps

/-! ## Loading in place is loading -/

/-- How a function ends that gives a new registry only when it succeeds. -/
def settle (w : World) : Except ε (α × Registry) → Except (Fault ε) α × World
  | .ok (a, r) => (.ok a, { w with registry := r })
  | .error e => (.error (.error e), w)

section Loading

variable (w : World) (disk : Disk) (path : String)

/-- Loading a shader in place is loading it. -/
theorem runAt_loadShader :
    (loadShader disk path).runAt w = settle w <$> w.registry.loadShader disk path := by
  rw [loadShader, Registry.loadShader]
  simp only [runAt_bind, runAt_get, pure_bind]
  cases hknown : lookupPath path w.registry.shaderPaths with
  | some x => simp [settle]
  | none =>
      simp only [runAt_bind, runAt_logged, bind_map_left, map_bind]
      refine Logged.bind_congr ?_
      cases (Shader.load disk (Path.join w.registry.root path)).value with
      | error e => simp [settle]
      | ok s => simp [settle, runAt_insertShader hknown]

/-- Loading a material in place is loading it, since all handles are valid. -/
theorem runAt_loadMaterial (hsound : w.registry.Sound) :
    (loadMaterial disk path).runAt w = settle w <$> w.registry.loadMaterial disk path := by
  rw [loadMaterial, Registry.loadMaterial]
  simp only [runAt_bind, runAt_get, pure_bind]
  cases hknown : lookupPath path w.registry.materialPaths with
  | some h => simp [settle]
  | none =>
      cases disk.read (Path.join w.registry.root path) with
      | error e => simp [settle]
      | ok text =>
          cases hfile : MaterialFile.read? text with
          | none => simp [hfile, settle]
          | some file =>
              by_cases hempty : file.shader = ""
              · simp [hfile, hempty, settle, runAt_addMaterialFile hknown file]
              · simp only [hfile, if_neg hempty, runAt_bind, runAt_adapt, runAt_loadShader,
                  bind_map_left, map_bind]
                refine Logged.bind_congr ?_
                cases hshader : (w.registry.loadShader disk file.shader).value with
                | error e => simp [settle, Except.mapError, Fault.map]
                | ok out =>
                    -- The path of the shader now stands for it, so its handle is in range and
                    -- nothing after this can fail.
                    obtain ⟨x, r₁⟩ := out
                    obtain ⟨hcontinues, hmeaning, hpaths⟩ := Registry.loadShader_spec hshader
                    have hx : x.index < r₁.shaders.length :=
                      (hsound.continue hcontinues).shaderPaths.lookup_lt hmeaning
                    have hadd := runAt_addMaterialFile (ε := MaterialError)
                      (w := { w with registry := r₁ }) (hpaths ▸ hknown) file
                      (some x) fun y hy => Option.some.inj hy ▸ hx
                    simp [settle, Except.mapError, hadd]

end Loading

/-! ## What loading in place carries out -/

/-- A computation carries out an operation that has an answer: it ends as the answer does,
leaves the world after the operation and logs what the answer logs.  An index is never out
of range, and if the computation stops, the world is as it was. -/
structure CarriesOut (p : InPlace ε α) (w : World) (operation : Operation)
    (answer : Logged (Except ε α)) : Prop where
  runAt_eq : p.runAt w = (fun out => (out.mapError .error, w.step operation)) <$> answer
  inRange : (p.runAt w).value.1 ≠ .error .outOfRange
  unchanged : ∀ fault, (p.runAt w).value.1 = .error fault → (p.runAt w).value.2 = w

namespace CarriesOut

variable {p : InPlace ε α} {w : World} {operation : Operation}

/-- A computation that ends as an answer does, for an operation that does nothing if the
answer is an error. -/
theorem of_step {answer : Logged (Except ε α)}
    (hrun : p.runAt w = (fun out => (out.mapError .error, w.step operation)) <$> answer)
    (herror : ∀ e, answer.value = .error e → w.step operation = w) :
    p.CarriesOut w operation answer where
  runAt_eq := hrun
  inRange := by
    rw [hrun, Logged.value_map]
    cases answer.value with
    | error e => simp [Except.mapError]
    | ok a => simp [Except.mapError]
  unchanged fault hfault := by
    rw [hrun, Logged.value_map] at hfault ⊢
    cases hanswer : answer.value with
    | error e => exact herror e hanswer
    | ok a =>
        rw [hanswer] at hfault
        cases hfault

/-- A computation that settles what a function gives, for an operation that leaves the world
after that. -/
theorem of_settle {x : Logged (Except ε (α × Registry))} (hrun : p.runAt w = settle w <$> x)
    (hstep : w.step operation = (settle w x.value).2) :
    p.CarriesOut w operation (Except.map Prod.fst <$> x) := by
  refine of_step ?_ fun e he => ?_
  · rw [hrun, hstep, Functor.map_map]
    refine Logged.map_congr ?_
    cases x.value with
    | error e => rfl
    | ok out => rfl
  · rw [Logged.value_map] at he
    cases hx : x.value with
    | error e =>
        rw [hstep, hx]
        rfl
    | ok out =>
        rw [hx] at he
        cases he

end CarriesOut

section Answers

variable (w : World) (disk : Disk)

/-- Loading a shader in place carries it out. -/
theorem loadShader_carriesOut (path : String) :
    (loadShader disk path).CarriesOut w (.loadShader disk path)
      (Except.map Prod.fst <$> w.registry.loadShader disk path) := by
  refine .of_settle (runAt_loadShader w disk path) ?_
  rw [World.step]
  cases (w.registry.loadShader disk path).value with
  | error e => rfl
  | ok out => rfl

/-- Loading a material in place carries it out. -/
theorem loadMaterial_carriesOut (path : String) (hsound : w.registry.Sound) :
    (loadMaterial disk path).CarriesOut w (.loadMaterial disk path)
      (Except.map Prod.fst <$> w.registry.loadMaterial disk path) := by
  refine .of_settle (runAt_loadMaterial w disk path hsound) ?_
  rw [World.step]
  cases (w.registry.loadMaterial disk path).value with
  | error e => rfl
  | ok out => rfl

/-- Reading the file of a shader again in place carries it out. -/
theorem reloadShaderFile_carriesOut (x : ShaderHandle) :
    (reloadShaderFile disk x).CarriesOut w (.reloadShaderFile disk x)
      (Except.map (fun _ => ()) <$> w.registry.reloadShaderFile disk x w.device) := by
  refine .of_step ?_ fun e he => ?_
  · simp only [reloadShaderFile, World.step, Registry.reloadShaderFile, runAt_bind, runAt_get,
      pure_bind]
    cases hs : w.registry.shader? x with
    | none => simp [Except.map, Except.mapError]
    | some s =>
        cases hread : disk.read s.path with
        | error e => simp [hread, Except.map, Except.mapError]
        | ok text =>
            simp only [hread, runAt_bind, runAt_get, runAt_logged, runAt_set, pure_bind,
              bind_map_left, map_bind]
            exact Logged.bind_congr rfl
  · rw [World.step]
    rw [Logged.value_map] at he
    cases hvalue : (w.registry.reloadShaderFile disk x w.device).value with
    | error e => rfl
    | ok out =>
        rw [hvalue] at he
        cases he

end Answers

end InPlace

/-! ## Loading again -/

namespace Registry

variable {r : Registry} {path path' : String}

/-- Loading a shader under a path that is known gives its handle and changes nothing. -/
theorem loadShader_again {x : ShaderHandle} (hknown : lookupPath path r.shaderPaths = some x)
    (hsame : Path.same path path' = true) (disk : Disk) :
    r.loadShader disk path' = pure (.ok (x, r)) := by
  rw [loadShader, lookupPath_congr hsame, hknown]

/-- Loading a material under a path that is known gives its handle and changes nothing. -/
theorem loadMaterial_again {h : MaterialHandle}
    (hknown : lookupPath path r.materialPaths = some h) (hsame : Path.same path path' = true)
    (disk : Disk) : r.loadMaterial disk path' = pure (.ok (h, r)) := by
  rw [loadMaterial, lookupPath_congr hsame, hknown]

end Registry

namespace World

/-- Loading in a session.

All handles in the registry are valid: those that paths stand for are in range and different
for different paths, and materials are bound to registered shaders.

Loading a shader, loading a material and reading the file of a shader again, carried out in
place step by step, never index out of range, and where they fail they leave registry and
device as they were.

A path that was loaded keeps its handle: whatever is done before everything is released,
loading the path again, with any files on disk, gives this handle and changes nothing. -/
theorem Session.loading_sound {w : World} {held : List ShaderHandle} (hsession : Session w held) :
    w.registry.Sound ∧
      (∀ disk path, (InPlace.loadShader disk path).CarriesOut w (.loadShader disk path)
        (Except.map Prod.fst <$> w.registry.loadShader disk path)) ∧
      (∀ disk path, (InPlace.loadMaterial disk path).CarriesOut w (.loadMaterial disk path)
        (Except.map Prod.fst <$> w.registry.loadMaterial disk path)) ∧
      (∀ disk x, (InPlace.reloadShaderFile disk x).CarriesOut w (.reloadShaderFile disk x)
        (Except.map (fun _ => ()) <$> w.registry.reloadShaderFile disk x w.device)) ∧
      (∀ disk path x r, (w.registry.loadShader disk path).value = .ok (x, r) →
        ∀ us, (∀ u ∈ us, u ≠ .perform .clear) → ∀ disk' path', Path.same path path' = true →
          let r' := (World.uses { w with registry := r } us).registry
          r'.loadShader disk' path' = pure (.ok (x, r'))) ∧
      (∀ disk path h r, (w.registry.loadMaterial disk path).value = .ok (h, r) →
        ∀ us, (∀ u ∈ us, u ≠ .perform .clear) → ∀ disk' path', Path.same path path' = true →
          let r' := (World.uses { w with registry := r } us).registry
          r'.loadMaterial disk' path' = pure (.ok (h, r'))) := by
  have hsound := hsession.valid.1
  refine ⟨hsound, InPlace.loadShader_carriesOut w,
    fun disk path => InPlace.loadMaterial_carriesOut w disk path hsound,
    InPlace.reloadShaderFile_carriesOut w, ?shader, ?material⟩
  case shader =>
    intro disk path x r hload us hkeeps disk' path' hsame
    have hknown := (Registry.loadShader_spec hload).2.1
    have hremembers := remembers_uses { w with registry := r } hkeeps
    exact Registry.loadShader_again (hremembers.shader path x hknown) hsame disk'
  case material =>
    intro disk path h r hload us hkeeps disk' path' hsame
    have hknown := (Registry.loadMaterial_spec hload).2
    have hremembers := remembers_uses { w with registry := r } hkeeps
    exact Registry.loadMaterial_again (hremembers.material path h hknown) hsame disk'

/-- A world with a shader and a material that is bound to it. -/
def boundWorld : World :=
  (start "" .standard .noop).uses
    [.perform (.addShader (.empty []) "a.shader" ""), .perform (.addMaterial "m" (some ⟨0⟩))]

/-- In this world a material file that is not there changes nothing, and the path of the
shader still gives its handle after the material was copied. -/
theorem loading_sound_sample :
    boundWorld.Session [⟨0⟩] ∧ boundWorld.registry.Sound ∧
      ((InPlace.loadMaterial (.empty []) "m.yaml").runAt boundWorld).value =
        (.error (.error (.file .notFound)), boundWorld) ∧
      let r := (boundWorld.step (.copyMaterial ⟨0⟩ "n")).registry
      r.loadShader (.empty []) "a.shader/" = pure (.ok (⟨0⟩, r)) := by
  have hstart : Session (start "" .standard .noop) [] := .start "" .standard _
  have hadded := hstart.use (.perform (.addShader (.empty []) "a.shader" "")) (by simp [Use.given])
  have hsession : boundWorld.Session [⟨0⟩] :=
    hadded.use (.perform (.addMaterial "m" (some ⟨0⟩))) (by decide +kernel)
  obtain ⟨hsound, -, hmaterial, -, hagain, -⟩ := hsession.loading_sound
  have hmissing : (boundWorld.registry.loadMaterial (.empty []) "m.yaml").value =
      .error (.file .notFound) := by
    rfl
  have hfails : ((InPlace.loadMaterial (.empty []) "m.yaml").runAt boundWorld).value.1 =
      .error (.error (.file .notFound)) := by
    rw [(hmaterial _ _).runAt_eq, Logged.value_map, Logged.value_map, hmissing]
    rfl
  have hknown : Registry.lookupPath "a.shader" boundWorld.registry.shaderPaths = some ⟨0⟩ := by
    decide +kernel
  have hload := Registry.loadShader_again hknown (beq_self_eq_true _) (.empty [])
  refine ⟨hsession, hsound, Prod.ext hfails ((hmaterial _ _).unchanged _ hfails), ?_⟩
  exact hagain (.empty []) "a.shader" ⟨0⟩ _ (congrArg Logged.value hload)
    [.perform (.copyMaterial ⟨0⟩ "n")] (by simp) (.empty []) "a.shader/" (by decide +kernel)

end World
end ShaderAssets
