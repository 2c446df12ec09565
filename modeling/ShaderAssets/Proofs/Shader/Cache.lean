import ShaderAssets.Proofs.Defines.Normal
import ShaderAssets.Proofs.Shader.Ownership
import ShaderAssets.Proofs.Registry.Operation

/-!
# The variants of a pass as a cache

The variants of a pass are looked up by the hash of normalized defines.  A pass keeps
its cache in order: each variant stands under the hash of its own defines, no hash has
two variants, and none has both a variant and a recorded failure.

Main results:

- Structure {lit}`Pass.Cached`: the invariant of the cache.
- Theorem {lit}`Shader.Cached.run`: every call on a shader keeps it.
- Theorem {lit}`Shader.isSettled_compileFor`: compiling settles every pass.
-/

namespace ShaderAssets

/-! ## One pass -/

namespace Pass

/-- The cache of a pass is in order. -/
structure Cached (p : Pass) : Prop where
  /-- A variant stands under the hash of its defines. -/
  hashed : ∀ v ∈ p.variants, v.definesHash = Text.fnv1a v.defines
  /-- No hash has two variants. -/
  unique : (p.variants.map Variant.definesHash).Nodup
  /-- No hash has a variant and a failure. -/
  disjoint : ∀ v ∈ p.variants, v.definesHash ∉ p.failed

/-- The hash of a variant that is found is the one looked for. -/
theorem variantByHash?_eq_some {p : Pass} {hash : UInt64} {v : Variant}
    (h : p.variantByHash? hash = some v) : v ∈ p.variants ∧ v.definesHash = hash := by
  refine ⟨List.mem_of_find?_eq_some h, ?_⟩
  simpa using List.find?_some h

/-- A pass is settled for a hash with a failure or a variant. -/
theorem isSettled_iff {p : Pass} {hash : UInt64} :
    p.isSettled hash = true ↔ hash ∈ p.failed ∨ ∃ v ∈ p.variants, v.definesHash = hash := by
  simp [isSettled, variantByHash?, List.find?_isSome]

/-- A pass that is not settled has neither a failure nor a variant for the hash. -/
theorem isSettled_eq_false {p : Pass} {hash : UInt64} (h : p.isSettled hash = false) :
    hash ∉ p.failed ∧ ∀ v ∈ p.variants, v.definesHash ≠ hash := by
  have hnot := (not_congr isSettled_iff).mp (Bool.eq_false_iff.mp h)
  exact ⟨fun hfailed => hnot (Or.inl hfailed), fun v hv hhash => hnot (Or.inr ⟨v, hv, hhash⟩)⟩

/-- A settled pass without a failure has a variant, and one with a failure has none. -/
theorem Cached.variant_iff {p : Pass} (h : p.Cached) {hash : UInt64}
    (hsettled : p.isSettled hash = true) :
    (p.variantByHash? hash).isSome = true ↔ hash ∉ p.failed := by
  constructor
  · intro hsome hfailed
    obtain ⟨v, hv⟩ := Option.isSome_iff_exists.mp hsome
    obtain ⟨hmem, rfl⟩ := variantByHash?_eq_some hv
    exact h.disjoint v hmem hfailed
  · intro hfailed
    rw [isSettled, Bool.or_eq_true] at hsettled
    rcases hsettled with hcontains | hsome
    · exact absurd (List.contains_iff_mem.mp hcontains) hfailed
    · exact hsome

/-- An empty cache is in order. -/
theorem cached_of_variants_nil {p : Pass} (h : p.variants = []) : p.Cached where
  hashed v hv := by simp [h] at hv
  unique := by simp [h]
  disjoint v hv := by simp [h] at hv

/-- The order of a cache does not depend on the texts of the pass. -/
theorem Cached.congr {p p' : Pass} (h : p.Cached) (hvariants : p'.variants = p.variants)
    (hfailed : p'.failed = p.failed) : p'.Cached where
  hashed v hv := h.hashed v (hvariants ▸ hv)
  unique := by
    rw [hvariants]
    exact h.unique
  disjoint v hv := by
    rw [hfailed]
    exact h.disjoint v (hvariants ▸ hv)

/-- A variant for new defines keeps the cache in order. -/
theorem Cached.addVariant {p : Pass} (h : p.Cached) {v : Variant}
    (hnew : p.isSettled v.definesHash = false) (hhash : v.definesHash = Text.fnv1a v.defines) :
    (p.addVariant v).Cached := by
  obtain ⟨hfailed, hvariants⟩ := isSettled_eq_false hnew
  refine ⟨?_, ?_, ?_⟩
  · intro u hu
    rcases List.mem_append.mp hu with hu | hu
    · exact h.hashed u hu
    · obtain rfl := List.mem_singleton.mp hu
      exact hhash
  · simp only [Pass.addVariant, List.map_append, List.map_cons, List.map_nil]
    refine List.nodup_append.mpr ⟨h.unique, by simp, ?_⟩
    intro x hx y hy
    obtain ⟨u, hu, rfl⟩ := List.mem_map.mp hx
    obtain rfl := List.mem_singleton.mp hy
    exact hvariants u hu
  · intro u hu
    rcases List.mem_append.mp hu with hu | hu
    · exact h.disjoint u hu
    · obtain rfl := List.mem_singleton.mp hu
      exact hfailed

/-- A failure for new defines keeps the cache in order. -/
theorem Cached.addFailure {p : Pass} (h : p.Cached) {hash : UInt64}
    (hnew : p.isSettled hash = false) : (p.addFailure hash).Cached := by
  obtain ⟨hfailed, hvariants⟩ := isSettled_eq_false hnew
  refine ⟨h.hashed, h.unique, fun v hv => ?_⟩
  have hcontains : p.failed.contains hash = false := by simpa using hfailed
  simp only [Pass.addFailure, hcontains, Bool.false_eq_true, if_false, List.mem_cons, not_or]
  exact ⟨hvariants v hv, h.disjoint v hv⟩

/-- Settling a pass keeps its cache in order and settles it. -/
theorem Cached.settles {raw : String} {p p' : Pass} {d d' : Device} {n : Nat} (h : p.Cached)
    (hsettles : Settles (.parse raw) p d n p' d') :
    p'.Cached ∧ p'.isSettled (Defines.hashOf raw) = true := by
  cases hsettles with
  | settled hsettled => exact ⟨h, hsettled⟩
  | @compiled hnew v _ hdefines hhash _ _ =>
      rw [Defines.hashOf_text_parse] at hhash
      refine ⟨h.addVariant (hhash ▸ hnew) ?_, ?_⟩
      · rw [hhash, hdefines]
        rfl
      rw [← hhash]
      · simp [isSettled, variantByHash?, Pass.addVariant]
  | failed hnew _ _ =>
      refine ⟨h.addFailure hnew, ?_⟩
      obtain ⟨hfailed, -⟩ := isSettled_eq_false hnew
      simp [isSettled, Pass.addFailure, hfailed, Defines.hashOf]

/-- Inheriting texts leaves the caches as they are. -/
theorem mem_inheritFrom {before : StageTexts} {ps : List Pass} {p' : Pass}
    (h : p' ∈ inheritFrom before ps) :
    ∃ p ∈ ps, p'.variants = p.variants ∧ p'.failed = p.failed := by
  induction ps generalizing before with
  | nil => cases h
  | cons p ps ih =>
      rw [inheritFrom] at h
      rcases List.mem_cons.mp h with rfl | h
      · exact ⟨p, by simp, rfl, rfl⟩
      · obtain ⟨q, hq, hvariants, hfailed⟩ := ih h
        exact ⟨q, List.mem_cons_of_mem p hq, hvariants, hfailed⟩

end Pass

/-! ## All passes -/

namespace Shader

/-- The caches of all passes are in order. -/
def Cached (s : Shader) : Prop :=
  ∀ p ∈ s.passes, p.Cached

/-- Resolving the texts of passes keeps their caches in order. -/
theorem cached_resolve {ps : List Pass} (h : ∀ p ∈ ps, p.Cached) :
    ∀ p ∈ Pass.resolve ps, p.Cached := by
  intro p hp
  obtain ⟨q, hq, hvariants, hfailed⟩ := Pass.mem_inheritFrom hp
  exact (h q hq).congr hvariants hfailed

/-- Compiling passes keeps their number and their caches in order, settles all of them
and records nothing. -/
theorem compilePasses_spec (s : Shader) (disk : Disk) (raw : String)
    (options : CompileOptions) {ps : List Pass} (index : Nat) (d : Device)
    (h : ∀ p ∈ ps, p.Cached) :
    (∀ p ∈ (s.compilePasses disk (.parse raw) options index ps d).value.2.1,
        p.Cached ∧ p.isSettled (Defines.hashOf raw) = true) ∧
      (s.compilePasses disk (.parse raw) options index ps d).value.2.1.length = ps.length ∧
      (s.compilePasses disk (.parse raw) options index ps d).value.2.2.events = d.events := by
  induction ps generalizing index d with
  | nil => exact ⟨fun p hp => absurd hp List.not_mem_nil, rfl, rfl⟩
  | cons p ps ih =>
      obtain ⟨n, p', d₁, hsettles, hvalue⟩ := s.compilePasses_cons disk (.parse raw) options index p ps d
      obtain ⟨hcached, hlength, hevents⟩ := ih (index + 1) d₁ fun q hq =>
        h q (List.mem_cons_of_mem p hq)
      have hfirst : d₁.events = d.events := by
        cases hsettles with
        | settled _ => rfl
        | compiled _ _ _ _ hevents => exact hevents
        | failed _ _ hevents => exact hevents
      rw [hvalue]
      refine ⟨fun q hq => ?_, congrArg (· + 1) hlength, hevents.trans hfirst⟩
      rcases List.mem_cons.mp hq with rfl | hq
      · exact (h p (by simp)).settles hsettles
      · exact hcached q hq

/-- Compiling for a defines string keeps the caches in order. -/
theorem Cached.compileFor {s : Shader} (h : s.Cached) (disk : Disk) (defines : String)
    (options : CompileOptions) (d : Device) :
    (s.compileFor disk defines options d).value.2.1.Cached := fun p hp =>
  ((s.compilePasses_spec disk defines options 0 d h).1 p hp).1

/-- Compiling for a defines string settles every pass for it. -/
theorem isSettled_compileFor {s : Shader} (h : s.Cached) (disk : Disk) (defines : String)
    (options : CompileOptions) (d : Device) :
    (s.compileFor disk defines options d).value.2.1.isSettled (Defines.hashOf defines) = true := by
  rw [isSettled, List.all_eq_true]
  intro p hp
  exact ((s.compilePasses_spec disk defines options 0 d h).1 p hp).2

/-- Compiling for several defines strings keeps the caches in order. -/
theorem Cached.compileEach (disk : Disk) (options : CompileOptions) (list : List String)
    {s : Shader} (h : s.Cached) (d : Device) :
    (compileEach disk options list s d).value.1.Cached := by
  induction list generalizing s d with
  | nil => exact h
  | cons defines list ih => exact ih (h.compileFor disk defines options d) _

/-- The caches of a shader that was just read are in order. -/
theorem cached_loadText (s : Shader) (text : String) : (s.loadText text).value.Cached := by
  refine cached_resolve fun p hp => ?_
  obtain ⟨source, -, rfl⟩ := List.mem_map.mp hp
  exact Pass.cached_of_variants_nil rfl

/-- Reloading gives caches in order. -/
theorem cached_reload (s : Shader) (disk : Disk) (text : String) (list : List String)
    (options : CompileOptions) (d : Device) :
    (s.reload disk text list options d).value.1.Cached := by
  unfold Shader.reload
  rw [Logged.value_bind, Logged.value_bind]
  exact Cached.compileEach disk options list (cached_loadText _ text) _

/-- Adding a pass keeps the caches in order. -/
theorem Cached.addPass {s : Shader} (h : s.Cached) (source : Source.PassSource) :
    (s.addPass source).2.Cached := by
  refine cached_resolve fun p hp => ?_
  rcases List.mem_append.mp hp with hp | hp
  · exact h p hp
  · obtain rfl := List.mem_singleton.mp hp
    exact Pass.cached_of_variants_nil rfl

/-- Removing a pass keeps the caches in order. -/
theorem Cached.erasePass {s : Shader} (h : s.Cached) (index : Nat) (d : Device) :
    (s.erasePass index d).value.2.1.Cached := by
  unfold Shader.erasePass
  split
  · exact h
  · rename_i removed later hdrop
    refine cached_resolve fun p hp => ?_
    rcases List.mem_append.mp hp with hp | hp
    · exact h p (List.mem_of_mem_take hp)
    · have hreleased :
          p ∈ (Pass.releaseEach later (removed.releaseVariants d).value.2).value.1 := hp
      rw [Pass.releaseEach_passes] at hreleased
      obtain ⟨q, -, rfl⟩ := List.mem_map.mp hreleased
      exact Pass.cached_of_variants_nil rfl

/-- Every call on a shader keeps its caches in order. -/
theorem Cached.run {s : Shader} (h : s.Cached) (d : Device) (call : ShaderOperation) :
    (call.run s d).1.Cached := by
  cases call with
  | compileFor disk defines options => exact h.compileFor disk defines options d
  | unload => exact fun p hp => absurd hp List.not_mem_nil
  | loadText text =>
      rw [ShaderOperation.run]
      split
      · exact s.cached_loadText text
      · exact h
  | reload disk text definesList options =>
      rw [ShaderOperation.run]
      exact s.cached_reload disk text definesList options d
  | addPass source => exact h.addPass source
  | erasePass index => exact h.erasePass index d
  | clearPasses => exact fun p hp => absurd hp List.not_mem_nil

end Shader
end ShaderAssets
