import ShaderAssets.Proofs.Defines.Normal
import ShaderAssets.Proofs.Shader.History

/-!
# Compiling again

The variants of a pass are keyed by the hash of their normalized defines.  Compiling a
shader settles all passes for one key and touches no other: compiling it again under
the same key, however the defines are spelled, does nothing.

Main results:

- Theorem {lit}`Shader.compilePasses_of_settled`: settled passes are left alone.
- Theorem {lit}`Pass.Advances.filter_eq`: other keys are left alone.
- Theorem {lit}`Shader.Reachable.compileFor_keyed`: this for every history.
-/

namespace ShaderAssets

namespace Pass

/-- Advancing a pass touches no variant and no failure under another hash. -/
theorem Advances.filter_eq {files : String → Option String}
    {declarations : List Source.UniformDeclaration} {raw : String} {p p' : Pass}
    {d d' : Device} {n : Nat} (h : Advances files declarations (.parse raw) p d n p' d') :
    p'.variants.filter (fun v => v.definesHash != Defines.hashOf raw) =
        p.variants.filter (fun v => v.definesHash != Defines.hashOf raw) ∧
      p'.failed.filter (fun hash => hash != Defines.hashOf raw) =
        p.failed.filter (fun hash => hash != Defines.hashOf raw) ∧
      p.variants <+: p'.variants := by
  cases h with
  | settled _ => exact ⟨rfl, rfl, List.prefix_refl _⟩
  | compiled _ _ _ _ hhash _ _ =>
      refine ⟨?_, rfl, List.prefix_append ..⟩
      simp [addVariant, List.filter_append, hhash]
  | failed hnew _ _ =>
      obtain ⟨hfailed, -⟩ := isSettled_eq_false hnew
      refine ⟨rfl, ?_, List.prefix_refl _⟩
      simp [addFailure, hfailed, Defines.hashOf]

/-- The variants of an advanced pass have normalized defines if those of the pass
had. -/
theorem Advances.normalize_eq {files : String → Option String}
    {declarations : List Source.UniformDeclaration} {raw : String} {p p' : Pass}
    {d d' : Device} {n : Nat} (h : Advances files declarations (.parse raw) p d n p' d')
    (hold : ∀ v ∈ p.variants, Defines.normalize v.defines = v.defines) :
    ∀ v ∈ p'.variants, Defines.normalize v.defines = v.defines := by
  cases h with
  | settled _ => exact hold
  | failed _ _ _ => exact hold
  | compiled _ _ _ hdefines _ _ _ =>
      intro v hv
      rcases List.mem_append.mp hv with hv | hv
      · exact hold v hv
      · obtain rfl := List.mem_singleton.mp hv
        rw [hdefines]
        exact Defines.normalize_normalize raw

end Pass

namespace Shader

/-- Passes that are settled are left alone, and so is the device. -/
theorem compilePasses_of_settled (s : Shader) (disk : Disk) (defines : Defines)
    (options : CompileOptions) (index : Nat) {ps : List Pass} (d : Device)
    (h : ∀ p ∈ ps, p.isSettled defines.hash = true) :
    s.compilePasses disk defines options index ps d = pure (0, ps, d) := by
  induction ps generalizing index with
  | nil => rfl
  | cons p ps ih =>
      rw [compilePasses, if_pos (h p (by simp)),
        ih (index + 1) fun q hq => h q (List.mem_cons_of_mem p hq)]
      rfl

/-- Compiling a settled shader does nothing. -/
theorem compileFor_of_settled {s : Shader} {defines : String}
    (h : s.isSettled (Defines.hashOf defines) = true) (disk : Disk) (options : CompileOptions)
    (d : Device) : s.compileFor disk defines options d = pure (0, s, d) := by
  rw [compileFor, s.compilePasses_of_settled disk (Defines.parse defines) options 0 d
    (List.all_eq_true.mp h)]
  rfl

variable {known : (String → Option String) → Prop} {s : Shader} {d : Device}

/-- In every history the defines of variants are normalized. -/
theorem Reachable.normalize_defines (h : Reachable known s d) {p : Pass} (hp : p ∈ s.passes)
    {v : Variant} (hv : v ∈ p.variants) : Defines.normalize v.defines = v.defines := by
  refine h.forall_passes
    (P := fun _ p => ∀ v ∈ p.variants, Defines.normalize v.defines = v.defines) ?_ ?_ p hp v hv
  · intro declarations p hvariants _ v hv
    rw [hvariants] at hv
    cases hv
  · intro files declarations raw p d n p' d' _ hold hadvances
    exact hadvances.normalize_eq hold

/-- In every history the variants of a pass are keyed by the hash of their normalized
defines, and no key has two variants or both a variant and a failure.  After a shader
was compiled, compiling it again for defines with the same normal form does nothing.
Compiling leaves the variants and the failures under all other keys as they were, and
the programs of all variants alive. -/
theorem Reachable.compileFor_keyed (h : Reachable known s d) :
    (∀ p ∈ s.passes, (p.variants.map Variant.definesHash).Nodup ∧
        ∀ v ∈ p.variants, v.definesHash ∉ p.failed ∧
          Defines.normalize v.defines = v.defines ∧ v.definesHash = Text.fnv1a v.defines) ∧
      (∀ (a b : String) disk disk' options options' d',
        Defines.normalize a = Defines.normalize b →
          (s.compileFor disk a options d).value.2.1.compileFor disk' b options' d' =
            pure (0, (s.compileFor disk a options d).value.2.1, d')) ∧
      ∀ (a : String) disk options,
        (s.compileFor disk a options d).value.2.1.passes.length = s.passes.length ∧
          ∀ (i : Nat) p, s.passes[i]? = some p → ∃ p',
            (s.compileFor disk a options d).value.2.1.passes[i]? = some p' ∧
            p'.variants.filter (fun v => v.definesHash != Defines.hashOf a) =
              p.variants.filter (fun v => v.definesHash != Defines.hashOf a) ∧
            p'.failed.filter (fun hash => hash != Defines.hashOf a) =
              p.failed.filter (fun hash => hash != Defines.hashOf a) ∧
            ∀ v ∈ p.variants, v ∈ p'.variants ∧
              (s.compileFor disk a options d).value.2.2.isLive v.program = true ∧
              (s.compileFor disk a options d).value.2.2.program? v.program =
                d.program? v.program := by
  refine ⟨?keyed, ?again, ?others⟩
  case keyed =>
    intro p hp
    have hcached := h.cached p hp
    exact ⟨hcached.unique, fun v hv =>
      ⟨hcached.disjoint v hv, h.normalize_defines hp hv, hcached.hashed v hv⟩⟩
  case again =>
    intro a b disk disk' options options' d' hab
    refine compileFor_of_settled ?_ disk' options' d'
    have hhash : Defines.hashOf b = Defines.hashOf a := by
      rw [Defines.hashOf, Defines.hashOf, Defines.parse_eq_of_normalize_eq hab]
    rw [hhash]
    exact isSettled_compileFor h.cached disk a options d
  case others =>
    intro a disk options
    obtain ⟨hextends, hlength, hpasses⟩ :=
      s.compilePasses_run disk (Defines.parse a) options 0 s.passes d
    refine ⟨hlength, fun i p hp => ?_⟩
    obtain ⟨p', n, d₀, d₁, hp', hadvances⟩ := hpasses i p hp
    obtain ⟨hvariants, hfailed, hall⟩ := hadvances.filter_eq
    refine ⟨p', hp', hvariants, hfailed, fun v hv => ⟨hall.subset hv, ?_⟩⟩
    have hheld : v.program ∈ s.programs :=
      List.mem_flatMap.mpr ⟨p, List.mem_of_getElem? hp, List.mem_map_of_mem hv⟩
    obtain ⟨q, hq⟩ := Option.isSome_iff_exists.mp (h.alive.live v.program hheld)
    have hkept := hextends.program? hq
    exact ⟨Option.isSome_iff_exists.mpr ⟨q, hkept⟩, hkept.trans hq.symm⟩

/-- A shader with two passes that was compiled.  The stages of the second pass do not
fit: its fragment stage reads a varying that its vertex stage does not write. -/
def sample : Shader × Device :=
  let text := "\x7bvarying\x7bv u;\x7dvertex\x7bmain()\x7b\x7d\x7dfragment\x7bmain()\x7b\x7d\x7d\x7d" ++
    "\x7bfragment\x7b$input u\nmain()\x7b\x7d\x7d\x7d"
  (ShaderOperation.compileFor (.empty []) "B; A = 2" .standard).run
    (ofText "a.shader" text).value (.empty .noop)

/-- The first pass has a variant and the second one a failure, and compiling again under
another spelling of the defines does nothing. -/
theorem compileFor_keyed_sample :
    sample.1.passes.map (fun p => (p.variants.length, p.failed.length)) = [(1, 0), (0, 1)] ∧
      (sample.1.compileFor (.empty []) "B=1;A=2" .standard sample.2).value.2.1.compileFor
          (.empty []) ";A=2; B" .standard sample.2 =
        pure (0, (sample.1.compileFor (.empty []) "B=1;A=2" .standard sample.2).value.2.1,
          sample.2) := by
  have hreachable : Reachable (fun _ => True) sample.1 sample.2 :=
    (Reachable.start ..).call (.compileFor ..) trivial
  obtain ⟨-, hagain, -⟩ := hreachable.compileFor_keyed
  exact ⟨by decide +kernel, hagain _ _ _ _ _ _ _ (by decide +kernel)⟩

end Shader
end ShaderAssets
