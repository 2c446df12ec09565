import Mathlib.Data.List.Forall2
import Mathlib.Data.List.Nodup
import ShaderAssets.Proofs.Shader.Unnumbered

/-!
# The order of compilations

A shader is compiled for one defines string after the other, and each time for one pass
after the other.  A pass records each defines string under the hash of its normal form,
as a variant or as a failure.  As long as no two normal forms share a hash, what a pass
records does not depend on the order in which the strings came, nor on what happens to
other passes.

Main results:

- Structure {lit}`Pass.Records`: what a pass knows about defines strings.
- Theorem {lit}`Compilation.map_unnumbered_run_runAll`: compilations have no influence on
  each other.
- Structure {lit}`Pass.Agrees`: passes that are the same up to order and numbers.
- Theorem {lit}`Shader.compileEach_perm`: the order of compilations does not matter.
-/

namespace ShaderAssets

open Source (UniformDeclaration)

/-! ## What a pass records -/

namespace Pass

variable {files : String → Option String} {declarations : List UniformDeclaration}

/-- A pass with the texts of another one records the outcomes of that one for defines
strings: the hashes of those that fail, and the variants of the others. -/
structure Records (files : String → Option String) (declarations : List UniformDeclaration)
    (q : Pass) (list : List String) (p : Pass) : Prop where
  source : p.source = q.source
  resolved : p.resolved = q.resolved
  failed : ∀ hash, hash ∈ p.failed ↔ ∃ raw ∈ list, Defines.hashOf raw = hash ∧
    ∃ e, q.outcome files declarations (.parse raw) = .error e
  variants : ∀ v, v ∈ p.variants ↔ ∃ raw ∈ list,
    q.outcome files declarations (.parse raw) = .ok v

/-- A pass that was not compiled records nothing. -/
theorem Records.nil {p : Pass} (hvariants : p.variants = []) (hfailed : p.failed = []) :
    Records files declarations p [] p :=
  ⟨rfl, rfl, by simp [hfailed], by simp [hvariants]⟩

/-- The outcome depends on the texts of the pass only. -/
theorem Records.outcome_eq {q p : Pass} {list : List String}
    (h : Records files declarations q list p) (defines : Defines) :
    p.outcome files declarations defines = q.outcome files declarations defines := by
  simp only [outcome, stageCode, request, h.source, h.resolved]

/-- A pass that is settled for a defines string records one with the same set of
defines. -/
theorem Records.parse_eq_of_isSettled {q p : Pass} {list : List String}
    (h : Records files declarations q list p) {raw : String}
    (hhash : ∀ a ∈ list, Defines.hashOf a = Defines.hashOf raw →
      Defines.normalize a = Defines.normalize raw)
    (hsettled : p.isSettled (Defines.hashOf raw) = true) :
    ∃ a ∈ list, Defines.parse a = Defines.parse raw := by
  rcases isSettled_iff.mp hsettled with hfailed | ⟨v, hmem, hsame⟩
  · obtain ⟨a, ha, hsame, -⟩ := (h.failed _).mp hfailed
    exact ⟨a, ha, Defines.parse_eq_of_normalize_eq (hhash a ha hsame)⟩
  · obtain ⟨a, ha, houtcome⟩ := (h.variants v).mp hmem
    have hhash_a : v.definesHash = Defines.hashOf a :=
      (of_outcome_eq_ok houtcome).2.1.trans (Defines.hashOf_text_parse a)
    exact ⟨a, ha, Defines.parse_eq_of_normalize_eq (hhash a ha (hhash_a.symm.trans hsame))⟩

/-- Advancing a pass records one more defines string. -/
theorem Records.advance {q p : Pass} {list : List String}
    (h : Records files declarations q list p) {raw : String}
    (hhash : ∀ a ∈ list, Defines.hashOf a = Defines.hashOf raw →
      Defines.normalize a = Defines.normalize raw) :
    Records files declarations q (list ++ [raw]) (p.advance files declarations raw) := by
  unfold Pass.advance
  split
  · rename_i hsettled
    -- What is settled under the hash was recorded for the same defines, so the new string
    -- is recorded already.
    obtain ⟨a, ha, hparse⟩ := h.parse_eq_of_isSettled hhash hsettled
    have hhash_eq : Defines.hashOf a = Defines.hashOf raw := congrArg Defines.hash hparse
    refine ⟨h.source, h.resolved, fun hash => ?_, fun v => ?_⟩
    · rw [h.failed]
      constructor
      · rintro ⟨b, hb, hfails⟩
        exact ⟨b, List.mem_append_left _ hb, hfails⟩
      · rintro ⟨b, hb, hfails⟩
        rcases List.mem_append.mp hb with hb | hb
        · exact ⟨b, hb, hfails⟩
        · obtain rfl := List.mem_singleton.mp hb
          exact ⟨a, ha, hhash_eq ▸ hparse ▸ hfails⟩
    · rw [h.variants]
      constructor
      · rintro ⟨b, hb, hcompiles⟩
        exact ⟨b, List.mem_append_left _ hb, hcompiles⟩
      · rintro ⟨b, hb, hcompiles⟩
        rcases List.mem_append.mp hb with hb | hb
        · exact ⟨b, hb, hcompiles⟩
        · obtain rfl := List.mem_singleton.mp hb
          exact ⟨a, ha, hparse ▸ hcompiles⟩
  · rename_i hsettled
    obtain ⟨hnew, -⟩ := isSettled_eq_false (Bool.eq_false_iff.mpr hsettled)
    rw [h.outcome_eq]
    cases houtcome : q.outcome files declarations (.parse raw) with
    | ok v =>
        refine ⟨h.source, h.resolved, fun hash => ?_, fun u => ?_⟩
        · simp [addVariant, h.failed, houtcome, or_and_right, exists_or]
        · simp [addVariant, h.variants, houtcome, or_and_right, exists_or, eq_comm]
    | error e =>
        refine ⟨h.source, h.resolved, fun hash => ?_, fun u => ?_⟩
        · simp [addFailure, hnew, h.failed, houtcome, or_and_right, exists_or, eq_comm, or_comm]
        · simp [addFailure, h.variants, houtcome, or_and_right, exists_or]

/-- Advancing a pass several times records all defines strings. -/
theorem Records.foldl_advance {q p : Pass} {done list : List String}
    (h : Records files declarations q done p)
    (hhash : ∀ a ∈ done ++ list, ∀ b ∈ done ++ list,
      Defines.hashOf a = Defines.hashOf b → Defines.normalize a = Defines.normalize b) :
    Records files declarations q (done ++ list)
      (list.foldl (Pass.advance files declarations) p) := by
  induction list generalizing done p with
  | nil => simpa using h
  | cons raw list ih =>
      have hstep : Records files declarations q (done ++ [raw])
          (p.advance files declarations raw) :=
        h.advance fun a ha hsame => hhash a (List.mem_append_left _ ha) raw (by simp) hsame
      have hrest := ih hstep (by simpa using hhash)
      simpa using hrest

end Pass

/-! ## Single compilations -/

/-- One compilation of a pass. -/
structure Compilation where
  pass : Pass
  disk : Disk
  path : String
  index : Nat
  declarations : List UniformDeclaration
  defines : Defines
  options : CompileOptions

namespace Compilation

/-- Carries out a compilation. -/
def run (c : Compilation) (d : Device) : Except ShaderError Variant × Device :=
  (c.pass.compile c.disk c.path c.index c.declarations c.defines c.options d).value

/-- Carries out several compilations and gives the device that they leave behind. -/
def runAll (cs : List Compilation) (d : Device) : Device :=
  cs.foldl (fun d c => (c.run d).2) d

/-- Up to numbers, a compilation gives the outcome of its pass. -/
theorem map_unnumbered_run (c : Compilation) (d : Device) :
    (c.run d).1.map Variant.unnumbered =
      (c.pass.outcome ((d.includeSearch c.path).resolve c.disk) c.declarations c.defines).mapError
        fun e => e c.index := by
  obtain ⟨d', -, ⟨v, hvalue, houtcome, -⟩ | ⟨e, hvalue, houtcome, -⟩⟩ :=
    c.pass.compile_spec c.disk c.path c.index c.declarations c.defines c.options d
  · rw [run, hvalue, houtcome]
    rfl
  · rw [run, hvalue, houtcome]
    rfl

/-- A device grows by compilations. -/
theorem grows_runAll (cs : List Compilation) (d : Device) : d.Grows (runAll cs d) := by
  induction cs generalizing d with
  | nil => exact .refl d
  | cons c cs ih =>
      have hfirst : d.Grows (c.run d).2 := by
        obtain ⟨d', hgrows, ⟨v, hvalue, -⟩ | ⟨e, hvalue, -⟩⟩ :=
          c.pass.compile_spec c.disk c.path c.index c.declarations c.defines c.options d
        · exact (congrArg Prod.snd hvalue).symm ▸ hgrows
        · exact (congrArg Prod.snd hvalue).symm ▸ hgrows
      exact hfirst.trans (ih _)

/-- What a compilation gives does not depend on the compilations before it. -/
theorem map_unnumbered_run_runAll (c : Compilation) (cs : List Compilation) (d : Device) :
    (c.run (runAll cs d)).1.map Variant.unnumbered = (c.run d).1.map Variant.unnumbered := by
  rw [map_unnumbered_run, map_unnumbered_run, (grows_runAll cs d).includeSearch]

end Compilation

/-! ## Several orders -/

/-- Passes with the same texts, the same failures and, up to numbers and their order, the
same variants. -/
structure Pass.Agrees (p p' : Pass) : Prop where
  source : p.source = p'.source
  resolved : p.resolved = p'.resolved
  failed : ∀ hash, hash ∈ p.failed ↔ hash ∈ p'.failed
  variants : (p.variants.map Variant.unnumbered).Perm (p'.variants.map Variant.unnumbered)

/-- No two variants of an ordered cache are the same without numbers. -/
theorem Pass.Cached.nodup_unnumbered {p : Pass} (h : p.Cached) :
    (p.variants.map Variant.unnumbered).Nodup := by
  have hhash : (p.variants.map Variant.unnumbered).map Variant.definesHash =
      p.variants.map Variant.definesHash := by
    simp [Function.comp_def, Variant.unnumbered]
  exact List.Nodup.of_map Variant.definesHash (hhash ▸ h.unique)

/-- Passes that record the same outcomes agree. -/
theorem Pass.Records.agrees {files : String → Option String}
    {declarations : List UniformDeclaration} {q p p' : Pass} {list list' : List String}
    (h : Records files declarations q list p.unnumbered)
    (h' : Records files declarations q list' p'.unnumbered) (hperm : list.Perm list')
    (hcached : p.Cached) (hcached' : p'.Cached) : p.Agrees p' where
  source := h.source.trans h'.source.symm
  resolved := h.resolved.trans h'.resolved.symm
  failed hash :=
    (h.failed hash).trans (Iff.trans (by simp only [hperm.mem_iff]) (h'.failed hash).symm)
  variants := by
    refine (List.perm_ext_iff_of_nodup hcached.nodup_unnumbered hcached'.nodup_unnumbered).mpr
      fun v => ?_
    exact (h.variants v).trans (Iff.trans (by simp only [hperm.mem_iff]) (h'.variants v).symm)

namespace Shader

/-- Compiling a shader that was just read records the outcomes of its passes for the
defines strings. -/
theorem records_compileEach (path text : String) {list : List String}
    (hhash : ∀ a ∈ list, ∀ b ∈ list,
      Defines.hashOf a = Defines.hashOf b → Defines.normalize a = Defines.normalize b)
    (disk : Disk) (options : CompileOptions) (d : Device) :
    List.Forall₂ (fun q p => Pass.Records ((d.includeSearch path).resolve disk)
        (ofText path text).value.uniforms q list p.unnumbered)
      (ofText path text).value.passes
      (compileEach disk options list (ofText path text).value d).value.1.passes := by
  obtain ⟨-, hadvanced, -⟩ := compileEach_advance disk options list (ofText path text).value d
  have hunnumbered := unnumbered_ofText path text
  have hempty := compiled_ofText path text
  have hpasses := congrArg Shader.passes hadvanced
  rw [hunnumbered] at hpasses
  rw [← List.forall₂_map_right_iff (R := fun q p => Pass.Records _ _ q list p),
    show (compileEach disk options list (ofText path text).value d).value.1.passes.map
      Pass.unnumbered = _ from hpasses, advanceEach, List.forall₂_map_right_iff,
    List.forall₂_same]
  intro p hp
  have hnil : Pass.Records ((d.includeSearch path).resolve disk)
      (ofText path text).value.uniforms p [] p := .nil (hempty p hp).1 (hempty p hp).2
  exact hnil.foldl_advance (by simpa using hhash)

/-- Passes of a shader that record the same outcomes agree. -/
theorem forall₂_agrees {files : String → Option String} {declarations : List UniformDeclaration}
    {list list' : List String} (hperm : list.Perm list') {qs ps ps' : List Pass}
    (h : List.Forall₂ (fun q p => Pass.Records files declarations q list p.unnumbered) qs ps)
    (h' : List.Forall₂ (fun q p => Pass.Records files declarations q list' p.unnumbered) qs ps')
    (hcached : ∀ p ∈ ps, p.Cached) (hcached' : ∀ p ∈ ps', p.Cached) :
    List.Forall₂ Pass.Agrees ps ps' := by
  induction h generalizing ps' with
  | nil =>
      cases h'
      exact .nil
  | cons hfirst _ ih =>
      cases h' with
      | cons hfirst' hrest' =>
          rw [List.forall_mem_cons] at hcached hcached'
          exact .cons (hfirst.agrees hfirst' hperm hcached.1 hcached'.1)
            (ih hrest' hcached.2 hcached'.2)

/-- Compiling a shader that was just read for defines strings in two orders, on devices
that can include the same files, gives passes that agree: each has the same failures and,
up to numbers, the same variants.  On either device every handle leads back to the name
of its binding.  The strings must not have different normal forms with one hash.  What
one compilation of a pass gives, up to numbers, does not depend on the compilations
before it on the device, successful or not. -/
theorem compileEach_perm (path text : String) {list list' : List String}
    (hperm : list.Perm list')
    (hhash : ∀ a ∈ list, ∀ b ∈ list,
      Defines.hashOf a = Defines.hashOf b → Defines.normalize a = Defines.normalize b)
    {disk disk' : Disk} {d d' : Device}
    (hfiles : (d'.includeSearch path).resolve disk' = (d.includeSearch path).resolve disk)
    (options options' : CompileOptions) :
    let r := (compileEach disk options list (ofText path text).value d).value
    let r' := (compileEach disk' options' list' (ofText path text).value d').value
    List.Forall₂ Pass.Agrees r.1.passes r'.1.passes ∧ r.1.Named r.2 ∧ r'.1.Named r'.2 ∧
      ∀ (earlier : List Compilation) (c : Compilation),
        (c.run (Compilation.runAll earlier d)).1.map Variant.unnumbered =
          (c.run d).1.map Variant.unnumbered := by
  have hcached : (ofText path text).value.Cached := cached_loadText (unloaded path) text
  have hhash' : ∀ a ∈ list', ∀ b ∈ list',
      Defines.hashOf a = Defines.hashOf b → Defines.normalize a = Defines.normalize b :=
    fun a ha b hb => hhash a (hperm.mem_iff.mpr ha) b (hperm.mem_iff.mpr hb)
  have hrecords := records_compileEach path text hhash disk options d
  have hrecords' := records_compileEach path text hhash' disk' options' d'
  rw [hfiles] at hrecords'
  refine ⟨?_, (compileEach_advance ..).2.2 (named_ofText path text d),
    (compileEach_advance ..).2.2 (named_ofText path text d'),
    fun earlier c => c.map_unnumbered_run_runAll earlier d⟩
  exact forall₂_agrees hperm hrecords hrecords'
    (hcached.compileEach disk options list d) (hcached.compileEach disk' options' list' d')

/-- A shader whose first pass has an entry point for its fragments only under a define. -/
def orderText : String :=
  "\x7bvertex\x7bmain()\x7b\x7d\x7dfragment\x7b\n#ifdef A\nmain()\x7b\x7d\n#endif\n\x7d\x7d" ++
    "\x7bfragment\x7bmain()\x7b\x7d\x7d\x7d"

/-- The two passes compiled in either order on devices with different renderers: the
failures and the variants are the same. -/
theorem compileEach_perm_sample :
    let r := (compileEach (.empty []) .standard ["A", "B"]
      (ofText "a.shader" orderText).value (.empty .noop)).value
    let r' := (compileEach (.empty []) .standard ["B", "A"]
      (ofText "a.shader" orderText).value (.empty .vulkan)).value
    r.1.passes.map (fun p => (p.variants.length, p.failed.length)) = [(1, 1), (2, 0)] ∧
      List.Forall₂ Pass.Agrees r.1.passes r'.1.passes := by
  have hperm : ["A", "B"].Perm ["B", "A"] := by decide
  have hhash : ∀ a ∈ ["A", "B"], ∀ b ∈ ["A", "B"],
      Defines.hashOf a = Defines.hashOf b → Defines.normalize a = Defines.normalize b := by
    decide +kernel
  have hfiles : ((Device.empty .vulkan).includeSearch "a.shader").resolve (.empty []) =
      ((Device.empty .noop).includeSearch "a.shader").resolve (.empty []) := rfl
  obtain ⟨hagrees, -⟩ :=
    compileEach_perm "a.shader" orderText hperm hhash hfiles .standard .standard
  exact ⟨by decide +kernel, hagrees⟩

end Shader
end ShaderAssets
