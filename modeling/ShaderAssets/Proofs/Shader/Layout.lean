import ShaderAssets.Shader.Compile

/-!
# The binding layout of a pass

What a pass binds is determined by its texts, the declarations, the defines and the
files that can be included.  The device, the platform and the profiles have no
influence on it, nor on whether the pass compiles at all.

Main results:

- Theorem {lit}`Binding.map_shape_ofReflection`: bindings have the layout of the names.
- Theorem {lit}`StageInput.compile_retarget`: platform and profile are only recorded.
- Definition {lit}`Pass.layout?`: the layout that a pass compiles to, if it compiles.
-/

namespace ShaderAssets

open Source (UniformDeclaration)
open Render (RenderSettings)

/-! ## Bindings -/

namespace Binding

/-- A binding apart from the number of its handle: the declaration, and whether there
is a handle. -/
def shape (b : Binding) : UniformDeclaration × Bool :=
  (b.declaration, b.handle.isSome)

/-- The layout that reflected names give. -/
def layout (declarations : List UniformDeclaration) (names : List String) :
    List (UniformDeclaration × Bool) :=
  (ofReflection declarations (names.map fun name => ⟨name, ⟨0⟩, 0⟩)).map shape

/-- Inserting commutes with mapping. -/
theorem map_insertIdx {α β : Type} (f : α → β) (l : List α) (i : Nat) (a : α) :
    (l.insertIdx i a).map f = (l.map f).insertIdx i (f a) := by
  induction l generalizing i with
  | nil => cases i <;> simp
  | cons b l ih => cases i <;> simp [ih]

/-- Bindings of one shape have the same names. -/
theorem any_name_congr {bs bs' : List Binding} (h : bs.map shape = bs'.map shape)
    (name : String) : bs.any (·.name == name) = bs'.any (·.name == name) := by
  have hshape : ∀ bs : List Binding,
      bs.any (·.name == name) = (bs.map shape).any (·.1.bindName == name) := by
    intro bs
    rw [List.any_map]
    rfl
  rw [hshape, hshape, h]

/-- The handles of reflected uniforms have no influence on the shape of their
bindings. -/
theorem map_shape_reflected {declarations : List UniformDeclaration}
    {us us' : List ModuleUniform} (h : us.map ModuleUniform.name = us'.map ModuleUniform.name) :
    (reflected declarations us).map shape = (reflected declarations us').map shape := by
  unfold reflected
  suffices hfold : ∀ bs bs' : List Binding, bs.map shape = bs'.map shape →
      (us.foldl _ bs).map shape = (us'.foldl _ bs').map shape from hfold [] [] rfl
  induction us generalizing us' with
  | nil =>
      obtain rfl : us' = [] := by simpa using h.symm
      exact fun bs bs' hbs => hbs
  | cons u us ih =>
      obtain ⟨u', us', rfl⟩ : ∃ u' more, us' = u' :: more := by
        cases us' with
        | nil => cases h
        | cons u' us' => exact ⟨u', us', rfl⟩
      rw [List.map_cons, List.map_cons, List.cons.injEq] at h
      obtain ⟨hname, hnames⟩ := h
      intro bs bs' hbs
      rw [List.foldl_cons, List.foldl_cons]
      refine ih hnames _ _ ?_
      simp only [hname, any_name_congr hbs]
      split
      · exact hbs
      · split
        · simp [hbs, shape]
        · exact hbs

/-- The handles of bindings have no influence on where defines are inserted. -/
theorem map_shape_insertDefines {declarations : List UniformDeclaration}
    {bs bs' : List Binding} (h : bs.map shape = bs'.map shape) :
    (insertDefines declarations bs).map shape = (insertDefines declarations bs').map shape := by
  unfold insertDefines
  refine List.foldl_rel (r := fun bs bs' : List Binding => bs.map shape = bs'.map shape) h ?_
  intro entry _ bs bs' hbs
  have hlength : bs.length = bs'.length := by simpa using congrArg List.length hbs
  dsimp only
  split
  · rw [map_insertIdx, map_insertIdx, hbs, hlength]
  · exact hbs

/-- The bindings of a program have the layout of the reflected names. -/
theorem map_shape_ofReflection (declarations : List UniformDeclaration)
    (us : List ModuleUniform) :
    (ofReflection declarations us).map shape =
      layout declarations (us.map ModuleUniform.name) := by
  refine map_shape_insertDefines (map_shape_reflected ?_)
  simp

end Binding

/-! ## Stages -/

/-- A compiled stage under another platform and profile. -/
def Bytecode.retarget (code : Bytecode) (platform : String) (profile : Option String) :
    Bytecode :=
  { code with platform := platform, profile := profile }

/-- What code without comments assembles to: always the same error, or bytecode with
the same names whatever else is asked. -/
theorem StageInput.assemble_outcome (varying : String) (code : List Char) :
    (∃ e, ∀ r : StageInput, r.varying = varying → r.assemble code = .error e) ∨
    ∃ inputs outputs uniforms, ∀ r : StageInput, r.varying = varying →
      r.assemble code = .ok {
        stage := r.stage
        platform := r.platform.compilerName
        profile := r.profile
        defines := r.defines
        inputs := inputs
        outputs := outputs
        uniforms := uniforms } := by
  let lines := (Text.lines code).map CodeLine.read
  let body := Text.unlines (lines.filterMap CodeLine.body?)
  cases hname : (lines.flatMap CodeLine.names).find? fun name =>
      !(declaredNames varying).contains name with
  | some name =>
      refine Or.inl ⟨.undeclared (String.ofList name), ?_⟩
      rintro r rfl
      simp only [assemble, lines] at hname ⊢
      rw [hname]
      rfl
  | none =>
      cases hbalance : Balance.check body with
      | error e =>
          refine Or.inl ⟨.unbalanced e, ?_⟩
          rintro r rfl
          simp only [assemble, lines, body] at hname hbalance ⊢
          rw [hname]
          simp only [hbalance]
          rfl
      | ok _ =>
          cases hmain : Reflection.definesMain body with
          | false =>
              refine Or.inl ⟨.noEntryPoint, ?_⟩
              rintro r rfl
              simp only [assemble, lines, body] at hname hbalance hmain ⊢
              rw [hname]
              simp only [hbalance, hmain]
              rfl
          | true =>
              refine Or.inr ⟨(lines.flatMap CodeLine.inputNames).map String.ofList,
                (lines.flatMap CodeLine.outputNames).map String.ofList,
                Reflection.uniforms body, ?_⟩
              rintro r rfl
              simp only [assemble, lines, body] at hname hbalance hmain ⊢
              rw [hname]
              simp only [hbalance, hmain]
              rfl

/-- A compiled stage belongs to the stage that was asked for. -/
theorem StageInput.stage_of_compile {files : String → Option String} {r : StageInput}
    {code : Bytecode} (h : r.compile files = .ok code) : code.stage = r.stage := by
  unfold compile at h
  split at h
  · cases h
  · rename_i expanded _
    rcases assemble_outcome r.varying (Comments.strip expanded.toList) with
      ⟨e, he⟩ | ⟨inputs, outputs, uniforms, hok⟩
    · rw [he r rfl] at h
      cases h
    · rw [hok r rfl] at h
      cases h
      rfl

/-- Platform and profile of a stage are only recorded. -/
theorem StageInput.compile_retarget {files : String → Option String} {r r' : StageInput}
    (hstage : r'.stage = r.stage) (hsource : r'.source = r.source)
    (hvarying : r'.varying = r.varying) (hdefines : r'.defines = r.defines) :
    r'.compile files =
      (r.compile files).map fun code => code.retarget r'.platform.compilerName r'.profile := by
  have hmacros : r'.macros = r.macros := by rw [macros, macros, hstage, hdefines]
  unfold compile
  rw [hmacros, hsource]
  cases Preprocess.run files r.macros (markless r.source) with
  | error e => rfl
  | ok expanded =>
      rcases assemble_outcome r.varying (Comments.strip expanded.toList) with
        ⟨e, he⟩ | ⟨inputs, outputs, uniforms, hok⟩
      · simp only [he r rfl, he r' hvarying]
        rfl
      · simp only [hok r rfl, hok r' hvarying, hstage, hdefines]
        rfl

/-! ## Passes -/

namespace Pass

/-- What a stage of a pass compiles to, apart from platform and profile. -/
def stageCode (p : Pass) (files : String → Option String) (defines : Defines) (stage : Stage) :
    Except CompileError Bytecode :=
  (p.request "" defines .standard .noop stage).compile files

/-- Whether the vertex stage writes every input of the fragment stage. -/
def fits (vertex fragment : Bytecode) : Bool :=
  fragment.inputs.all fun name => vertex.outputs.contains name

/-- The binding layout that a pass compiles to, if it compiles. -/
def layout? (p : Pass) (files : String → Option String) (declarations : List UniformDeclaration)
    (defines : Defines) : Option (List (UniformDeclaration × Bool)) :=
  if p.resolved.isComplete then
    match p.stageCode files defines .vertex, p.stageCode files defines .fragment with
    | .ok vertex, .ok fragment =>
        if fits vertex fragment then
          some (Binding.layout declarations
            ((vertex.uniforms ++ fragment.uniforms).map StageUniform.name))
        else none
    | _, _ => none
  else none

end Pass

end ShaderAssets
