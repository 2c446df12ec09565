import ShaderAssets.Proofs.Shader.Recompile

/-!
# Compiling without numbers

Compiling a shader changes each of its passes, on a device whose tables grow on the way.
Up to the numbers of handles, the change to a pass is a function of the pass, the
declarations, the files that can be included and the defines string: neither the other
passes nor the device have an influence.

Main results:

- Definition {lit}`Pass.advance`: what a compilation leaves in a pass, without numbers.
- Theorem {lit}`Shader.compileEach_advance`: compiling a shader for several defines
  strings advances each pass.
- Theorem {lit}`Shader.isSettled_compileEach`: which hashes a pass is settled for.
-/

namespace ShaderAssets

open Source (UniformDeclaration)

/-! ## Passes without numbers -/

namespace Pass

/-- A pass whose variants have handles of no significance. -/
def unnumbered (p : Pass) : Pass :=
  { p with variants := p.variants.map Variant.unnumbered }

/-- The handles of all variants lead back to the names of their bindings. -/
def Named (d : Device) (p : Pass) : Prop :=
  ∀ v ∈ p.variants, v.Named d

/-- Variants are found without numbers. -/
@[simp]
theorem isSettled_unnumbered (p : Pass) (hash : UInt64) :
    p.unnumbered.isSettled hash = p.isSettled hash := by
  simp [isSettled, variantByHash?, unnumbered, List.find?_map, Function.comp_def,
    Variant.unnumbered]

@[simp]
theorem unnumbered_addVariant (p : Pass) (v : Variant) :
    (p.addVariant v).unnumbered = p.unnumbered.addVariant v.unnumbered := by
  simp [unnumbered, addVariant]

/-- A pass without variants has no numbers. -/
theorem unnumbered_of_variants_nil {p : Pass} (h : p.variants = []) : p.unnumbered = p := by
  rw [unnumbered, h, List.map_nil, ← h]

/-- What compiling for a defines string does to a pass, apart from numbers: nothing if it
is settled, else it gets the variant or the failure that is its outcome. -/
def advance (files : String → Option String) (declarations : List UniformDeclaration)
    (p : Pass) (raw : String) : Pass :=
  if p.isSettled (Defines.hashOf raw) then p
  else
    match p.outcome files declarations (.parse raw) with
    | .ok v => p.addVariant v
    | .error _ => p.addFailure (Defines.hashOf raw)

end Pass

namespace Shader

/-- A shader whose variants have handles of no significance. -/
def unnumbered (s : Shader) : Shader :=
  { s with passes := s.passes.map Pass.unnumbered }

/-- The handles of all variants lead back to the names of their bindings. -/
def Named (d : Device) (s : Shader) : Prop :=
  ∀ p ∈ s.passes, p.Named d

/-- What compiling for several defines strings does to a shader, apart from numbers. -/
def advanceEach (files : String → Option String) (list : List String) (s : Shader) : Shader :=
  { s with passes := s.passes.map fun p => list.foldl (Pass.advance files s.uniforms) p }

/-- Nothing was compiled or failed for the passes of a shader that was just read. -/
theorem compiled_ofText (path text : String) :
    ∀ p ∈ (ofText path text).value.passes, p.variants = [] ∧ p.failed = [] := by
  intro p hp
  obtain ⟨q, hq, hvariants, hfailed⟩ := Pass.mem_inheritFrom hp
  obtain ⟨source, -, rfl⟩ := List.mem_map.mp hq
  exact ⟨hvariants, hfailed⟩

/-- A shader that was just read has no numbers. -/
theorem unnumbered_ofText (path text : String) :
    (ofText path text).value.unnumbered = (ofText path text).value := by
  have hpasses : (ofText path text).value.passes.map Pass.unnumbered =
      (ofText path text).value.passes :=
    (List.map_congr_left fun p hp =>
      Pass.unnumbered_of_variants_nil (compiled_ofText path text p hp).1).trans (List.map_id' _)
  rw [unnumbered, hpasses]

/-- A shader that was just read has no handles. -/
theorem named_ofText (path text : String) (d : Device) : (ofText path text).value.Named d := by
  intro p hp v hv
  rw [(compiled_ofText path text p hp).1] at hv
  cases hv

end Shader

/-! ## Compiling advances passes -/

/-- Handles keep their meaning while a device grows. -/
theorem Pass.Named.grows {d d' : Device} {p : Pass} (h : p.Named d) (hgrows : d.Grows d') :
    p.Named d' :=
  fun v hv b hb handle hhandle => hgrows.name? (h v hv b hb handle hhandle)

/-- Handles of further variants may be added. -/
theorem Pass.Named.addVariant {d : Device} {p : Pass} {v : Variant} (h : p.Named d)
    (hv : v.Named d) : (p.addVariant v).Named d := by
  intro u hu
  rcases List.mem_append.mp hu with hu | hu
  · exact h u hu
  · obtain rfl := List.mem_singleton.mp hu
    exact hv

/-- A step of compiling passes advances its pass. -/
theorem Pass.Steps.advance {disk : Disk} {path raw : String} {index n : Nat}
    {declarations : List UniformDeclaration} {options : CompileOptions} {p p' : Pass}
    {d d' : Device}
    (h : p.Steps disk path index declarations (.parse raw) options d n p' d') :
    d.Grows d' ∧
      p'.unnumbered =
        p.unnumbered.advance ((d.includeSearch path).resolve disk) declarations raw ∧
      (p.Named d → p'.Named d') := by
  have hunsettled : p.unnumbered.isSettled (Defines.hashOf raw) =
      p.isSettled (Defines.parse raw).hash := p.isSettled_unnumbered _
  have houtcome_eq : p.unnumbered.outcome ((d.includeSearch path).resolve disk) declarations
      (.parse raw) = p.outcome ((d.includeSearch path).resolve disk) declarations (.parse raw) :=
    rfl
  unfold Pass.advance
  rw [hunsettled, houtcome_eq]
  -- A pass has one outcome, so of the two steps that compile it only one is possible.
  obtain ⟨d₁, hgrows, ⟨v, hcompile, houtcome, hreflected, -⟩ | ⟨e, hcompile, houtcome, -⟩⟩ :=
    p.compile_spec disk path index declarations (.parse raw) options d
  · cases h with
    | settled hsettled =>
        rw [if_pos hsettled]
        exact ⟨.refl d, rfl, id⟩
    | compiled hnew hvalue =>
        cases hvalue.symm.trans hcompile
        rw [if_neg (Bool.eq_false_iff.mp hnew), houtcome]
        exact ⟨hgrows, p.unnumbered_addVariant v,
          fun h => (h.grows hgrows).addVariant hreflected.named⟩
    | failed hnew hvalue => cases hvalue.symm.trans hcompile
  · cases h with
    | settled hsettled =>
        rw [if_pos hsettled]
        exact ⟨.refl d, rfl, id⟩
    | compiled hnew hvalue => cases hvalue.symm.trans hcompile
    | failed hnew hvalue =>
        cases hvalue.symm.trans hcompile
        rw [if_neg (Bool.eq_false_iff.mp hnew), houtcome]
        exact ⟨hgrows, rfl, fun h => h.grows hgrows⟩

namespace Shader

/-- Compiling a list of passes advances the first one and goes on with the others. -/
theorem compilePasses_cons_advance (s : Shader) (disk : Disk) (raw : String)
    (options : CompileOptions) (index : Nat) (p : Pass) (ps : List Pass) (d : Device) :
    ∃ n p' d₁, d.Grows d₁ ∧
      p'.unnumbered =
        p.unnumbered.advance ((d.includeSearch s.path).resolve disk) s.uniforms raw ∧
      (p.Named d → p'.Named d₁) ∧
      (s.compilePasses disk (.parse raw) options index (p :: ps) d).value =
        let r := (s.compilePasses disk (.parse raw) options (index + 1) ps d₁).value
        (r.1 + n, p' :: r.2.1, r.2.2) := by
  obtain ⟨n, p', d₁, hstep, hvalue⟩ :=
    s.compilePasses_cons_eq disk (.parse raw) options index p ps d
  obtain ⟨hgrows, hadvanced, hnamed⟩ := hstep.advance
  exact ⟨n, p', d₁, hgrows, hadvanced, hnamed, hvalue⟩

/-- Compiling passes advances each of them, whatever the others are. -/
theorem compilePasses_advance (s : Shader) (disk : Disk) (raw : String)
    (options : CompileOptions) (index : Nat) (ps : List Pass) (d : Device) :
    d.Grows (s.compilePasses disk (.parse raw) options index ps d).value.2.2 ∧
      (s.compilePasses disk (.parse raw) options index ps d).value.2.1.map Pass.unnumbered =
        ps.map (fun p =>
          p.unnumbered.advance ((d.includeSearch s.path).resolve disk) s.uniforms raw) ∧
      ((∀ p ∈ ps, p.Named d) →
        ∀ p ∈ (s.compilePasses disk (.parse raw) options index ps d).value.2.1,
          p.Named (s.compilePasses disk (.parse raw) options index ps d).value.2.2) := by
  induction ps generalizing index d with
  | nil => exact ⟨.refl d, rfl, id⟩
  | cons p ps ih =>
      obtain ⟨n, p', d₁, hgrows, hadvanced, hnamed, hvalue⟩ :=
        s.compilePasses_cons_advance disk raw options index p ps d
      obtain ⟨hgrows', hadvanced', hnamed'⟩ := ih (index + 1) d₁
      rw [hgrows.includeSearch] at hadvanced'
      rw [hvalue]
      refine ⟨hgrows.trans hgrows', ?_, fun h q hq => ?_⟩
      · simp only [List.map_cons, hadvanced, hadvanced']
      · rcases List.mem_cons.mp hq with rfl | hq
        · exact (hnamed (h p (by simp))).grows hgrows'
        · exact hnamed' (fun x hx => (h x (List.mem_cons_of_mem p hx)).grows hgrows) q hq

/-- Compiling a shader for a defines string advances each pass, on a device that grows,
and gives handles that lead back to names. -/
theorem compileFor_advance (s : Shader) (disk : Disk) (raw : String) (options : CompileOptions)
    (d : Device) :
    d.Grows (s.compileFor disk raw options d).value.2.2 ∧
      (s.compileFor disk raw options d).value.2.1.unnumbered =
        s.unnumbered.advanceEach ((d.includeSearch s.path).resolve disk) [raw] ∧
      (s.Named d →
        (s.compileFor disk raw options d).value.2.1.Named
          (s.compileFor disk raw options d).value.2.2) := by
  obtain ⟨hgrows, hadvanced, hnamed⟩ := s.compilePasses_advance disk raw options 0 s.passes d
  have hvalue : (s.compileFor disk raw options d).value =
      let r := (s.compilePasses disk (.parse raw) options 0 s.passes d).value
      (r.1, { s with passes := r.2.1 }, r.2.2) := rfl
  rw [hvalue]
  refine ⟨hgrows, ?_, hnamed⟩
  simp only [unnumbered, advanceEach, hadvanced, List.map_map, Function.comp_def,
    List.foldl_cons, List.foldl_nil]

/-- Advancing is done one defines string after the other. -/
theorem advanceEach_advanceEach (files : String → Option String) (list list' : List String)
    (s : Shader) :
    (s.advanceEach files list).advanceEach files list' = s.advanceEach files (list ++ list') := by
  simp [advanceEach, Function.comp_def]

/-- Compiling a shader for several defines strings advances each pass for each of them,
on a device that grows, and gives handles that lead back to names. -/
theorem compileEach_advance (disk : Disk) (options : CompileOptions) (list : List String)
    (s : Shader) (d : Device) :
    d.Grows (compileEach disk options list s d).value.2 ∧
      (compileEach disk options list s d).value.1.unnumbered =
        s.unnumbered.advanceEach ((d.includeSearch s.path).resolve disk) list ∧
      (s.Named d →
        (compileEach disk options list s d).value.1.Named
          (compileEach disk options list s d).value.2) := by
  induction list generalizing s d with
  | nil => exact ⟨.refl d, by simp [compileEach, advanceEach], id⟩
  | cons raw list ih =>
      obtain ⟨hgrows, hadvanced, hnamed⟩ := s.compileFor_advance disk raw options d
      obtain ⟨hgrows', hadvanced', hnamed'⟩ := ih (s.compileFor disk raw options d).value.2.1
        (s.compileFor disk raw options d).value.2.2
      have hcons : (compileEach disk options (raw :: list) s d).value =
          (compileEach disk options list (s.compileFor disk raw options d).value.2.1
            (s.compileFor disk raw options d).value.2.2).value := rfl
      have hpath : (s.compileFor disk raw options d).value.2.1.path = s.path := rfl
      rw [hpath, hgrows.includeSearch, hadvanced, advanceEach_advanceEach] at hadvanced'
      rw [hcons]
      exact ⟨hgrows.trans hgrows', hadvanced', fun h => hnamed' (hnamed h)⟩

end Shader

/-! ## What is settled -/

namespace Pass

/-- Advancing a pass settles it for the hash of the defines and for no other. -/
theorem isSettled_advance (files : String → Option String)
    (declarations : List UniformDeclaration) (p : Pass) (raw : String) (hash : UInt64) :
    (p.advance files declarations raw).isSettled hash = true ↔
      p.isSettled hash = true ∨ Defines.hashOf raw = hash := by
  unfold advance
  split
  · rename_i hsettled
    exact ⟨Or.inl, fun h => h.elim id fun heq => heq ▸ hsettled⟩
  · rename_i hsettled
    obtain ⟨hnew, -⟩ := isSettled_eq_false (Bool.eq_false_iff.mpr hsettled)
    split
    · rename_i v houtcome
      have hhash : v.definesHash = Defines.hashOf raw :=
        (of_outcome_eq_ok houtcome).2.1.trans (Defines.hashOf_text_parse raw)
      simp [isSettled_iff, addVariant, or_and_right, exists_or, or_assoc, hhash]
    · have hfailed : hash ∈ (p.addFailure (Defines.hashOf raw)).failed ↔
          Defines.hashOf raw = hash ∨ hash ∈ p.failed := by
        simp [addFailure, hnew, eq_comm]
      rw [isSettled_iff, isSettled_iff, hfailed, or_assoc, or_comm]
      rfl

/-- A pass that was advanced several times is settled for the hashes of all defines. -/
theorem isSettled_foldl_advance (files : String → Option String)
    (declarations : List UniformDeclaration) (list : List String) (p : Pass) (hash : UInt64) :
    (list.foldl (Pass.advance files declarations) p).isSettled hash = true ↔
      p.isSettled hash = true ∨ ∃ raw ∈ list, Defines.hashOf raw = hash := by
  induction list generalizing p with
  | nil => simp
  | cons raw list ih => simp [ih, isSettled_advance, or_assoc]

end Pass

namespace Shader

/-- The passes of a shader that was compiled are settled for what they were settled for
before and for the hashes of the defines. -/
theorem isSettled_compileEach {disk : Disk} {options : CompileOptions} {list : List String}
    {s : Shader} {d : Device} {p : Pass}
    (hp : p ∈ (compileEach disk options list s d).value.1.passes) :
    ∃ q ∈ s.passes, ∀ hash, p.isSettled hash = true ↔
      q.isSettled hash = true ∨ ∃ raw ∈ list, Defines.hashOf raw = hash := by
  obtain ⟨-, hadvanced, -⟩ := compileEach_advance disk options list s d
  have hmem : p.unnumbered ∈
      (s.unnumbered.advanceEach ((d.includeSearch s.path).resolve disk) list).passes :=
    hadvanced ▸ List.mem_map_of_mem hp
  obtain ⟨q', hq', hfold⟩ := List.mem_map.mp hmem
  obtain ⟨q, hq, rfl⟩ := List.mem_map.mp hq'
  refine ⟨q, hq, fun hash => ?_⟩
  rw [← Pass.isSettled_unnumbered p, ← Pass.isSettled_unnumbered q, ← hfold]
  exact Pass.isSettled_foldl_advance ..

end Shader

end ShaderAssets
