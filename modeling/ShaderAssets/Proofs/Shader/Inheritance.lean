import ShaderAssets.Proofs.Shader.Advance

/-!
# Which texts a pass inherits

Every pass compiles with its own texts, and with those of the nearest earlier pass
where its own are blank.  Resolving the texts again changes nothing, so a pass keeps
its texts when passes behind it come and go.

Main results:

- Definition {lit}`Pass.Inherited`: the texts of passes are resolved.
- Definition {lit}`Pass.Nearest`: a text is that of the nearest pass that has one.
- Theorem {lit}`Pass.Inherited.nearest`: resolved texts are the nearest ones.
- Theorem {lit}`Pass.Inherited.inheritFrom_append`: passes keep their texts in front of
  others.
-/

namespace ShaderAssets
namespace Pass

open Source (PassSource)

/-! ## Resolved texts -/

/-- The texts of passes are those that each inherits from the one before it. -/
def Inherited (before : StageTexts) : List Pass → Prop
  | [] => True
  | p :: ps => p.resolved = before.inherit p.source ∧ Inherited p.resolved ps

/-- Inheriting gives resolved texts. -/
theorem inherited_inheritFrom (before : StageTexts) (ps : List Pass) :
    Inherited before (inheritFrom before ps) := by
  induction ps generalizing before with
  | nil => trivial
  | cons p ps ih => exact ⟨rfl, ih _⟩

/-- Resolved passes stay as they are in front of others. -/
theorem Inherited.inheritFrom_append {before : StageTexts} {ps : List Pass}
    (h : Inherited before ps) (qs : List Pass) :
    ∃ last, inheritFrom before (ps ++ qs) = ps ++ inheritFrom last qs := by
  induction ps generalizing before with
  | nil => exact ⟨before, rfl⟩
  | cons p ps ih =>
      obtain ⟨hresolved, hps⟩ := h
      obtain ⟨last, hlast⟩ := ih hps
      refine ⟨last, ?_⟩
      rw [List.cons_append, inheritFrom, ← hresolved, hlast]
      rfl

/-- The first of some resolved passes are resolved. -/
theorem Inherited.take {before : StageTexts} {ps : List Pass} (h : Inherited before ps)
    (n : Nat) : Inherited before (ps.take n) := by
  induction ps generalizing before n with
  | nil => rw [List.take_nil]; trivial
  | cons p ps ih =>
      cases n with
      | zero => trivial
      | succ n => exact ⟨h.1, ih h.2 n⟩

/-- The texts of a pass: its own and the resolved ones. -/
def texts (p : Pass) : PassSource × StageTexts :=
  (p.source, p.resolved)

/-- Whether texts are resolved depends on nothing but the texts. -/
theorem Inherited.congr {before : StageTexts} {ps ps' : List Pass} (h : Inherited before ps)
    (htexts : ps'.map texts = ps.map texts) : Inherited before ps' := by
  induction ps generalizing before ps' with
  | nil =>
      obtain rfl : ps' = [] := by simpa using htexts
      trivial
  | cons p ps ih =>
      cases ps' with
      | nil => cases htexts
      | cons p' ps' =>
          simp only [List.map_cons, List.cons.injEq, texts, Prod.mk.injEq] at htexts
          obtain ⟨⟨hsource, hresolved⟩, hrest⟩ := htexts
          obtain ⟨hp, hps⟩ := h
          refine ⟨?_, ?_⟩
          · rw [hresolved, hsource, hp]
          · rw [hresolved]
            exact ih hps hrest

/-- Advancing a pass leaves its texts. -/
theorem Advances.texts_eq {files : String → Option String}
    {declarations : List Source.UniformDeclaration} {defines : Defines} {p p' : Pass}
    {d d' : Device} {n : Nat} (h : Advances files declarations defines p d n p' d') :
    p'.texts = p.texts := by
  cases h <;> rfl

/-! ## The nearest text -/

/-- A text at a place is that of the nearest pass, from this place to the front, that
has one, or a default if there is none. -/
def Nearest (text : PassSource → String) (default : String) (ps : List Pass) (i : Nat)
    (resolved : String) : Prop :=
  (∃ (j : Nat) (q : Pass), j ≤ i ∧ ps[j]? = some q ∧ Text.isBlankText (text q.source) = false ∧
      resolved = text q.source ∧
      ∀ (k : Nat) (q' : Pass), j < k → k ≤ i → ps[k]? = some q' →
        Text.isBlankText (text q'.source) = true) ∨
    (resolved = default ∧ ∀ (k : Nat) (q : Pass), k ≤ i → ps[k]? = some q →
      Text.isBlankText (text q.source) = true)

/-- A pass in front that has a text is the nearest one for a place behind it if no pass
in between has one. -/
theorem Nearest.cons {text : PassSource → String} {default resolved : String} {p : Pass}
    {ps : List Pass} {i : Nat}
    (h : Nearest text (if Text.isBlankText (text p.source) then default else text p.source)
      ps i resolved) : Nearest text default (p :: ps) (i + 1) resolved := by
  rcases h with ⟨j, q, hj, hq, hblank, hresolved, hbetween⟩ | ⟨hresolved, hall⟩
  · refine Or.inl ⟨j + 1, q, by omega, hq, hblank, hresolved, ?_⟩
    intro k q' hk hki hq'
    obtain ⟨k, rfl⟩ : ∃ k', k = k' + 1 := ⟨k - 1, by omega⟩
    exact hbetween k q' (by omega) (by omega) hq'
  · have hbehind : ∀ (k : Nat) (q' : Pass), 0 < k → k ≤ i + 1 → (p :: ps)[k]? = some q' →
        Text.isBlankText (text q'.source) = true := by
      intro k q' hk hki hq'
      obtain ⟨k, rfl⟩ : ∃ k', k = k' + 1 := ⟨k - 1, by omega⟩
      exact hall k q' (by omega) hq'
    cases hp : Text.isBlankText (text p.source) with
    | true =>
        rw [hp, if_pos rfl] at hresolved
        refine Or.inr ⟨hresolved, ?_⟩
        intro k q' hki hq'
        cases k with
        | zero =>
            obtain rfl : p = q' := by simpa using hq'
            exact hp
        | succ k => exact hbehind (k + 1) q' (by omega) hki hq'
    | false =>
        rw [hp, if_neg Bool.false_ne_true] at hresolved
        exact Or.inl ⟨0, p, by omega, rfl, hp, hresolved, hbehind⟩

/-- Resolved texts are the nearest ones. -/
theorem Inherited.nearest (text : PassSource → String) (get : StageTexts → String)
    (hget : ∀ (before : StageTexts) (source : PassSource), get (before.inherit source) =
      if Text.isBlankText (text source) then get before else text source)
    {before : StageTexts} {ps : List Pass} (h : Inherited before ps) {i : Nat} {p : Pass}
    (hp : ps[i]? = some p) : Nearest text (get before) ps i (get p.resolved) := by
  induction ps generalizing before i with
  | nil => simp at hp
  | cons q ps ih =>
      obtain ⟨hq, hps⟩ := h
      have hvalue : get q.resolved =
          if Text.isBlankText (text q.source) then get before else text q.source := by
        rw [hq, hget]
      cases i with
      | succ i =>
          refine .cons ?_
          rw [← hvalue]
          exact ih hps hp
      | zero =>
          obtain rfl : q = p := by simpa using hp
          cases hblank : Text.isBlankText (text q.source) with
          | true =>
              refine Or.inr ⟨by rw [hvalue, hblank, if_pos rfl], ?_⟩
              intro k q' hk hq'
              obtain rfl : k = 0 := by omega
              obtain rfl : q = q' := by simpa using hq'
              exact hblank
          | false =>
              refine Or.inl ⟨0, q, by omega, rfl, hblank,
                by rw [hvalue, hblank, if_neg Bool.false_ne_true], ?_⟩
              intro k q' hk hk0
              omega

end Pass

namespace Shader

/-- Compiling passes leaves their texts. -/
theorem texts_compilePasses (s : Shader) (disk : Disk) (defines : Defines)
    (options : CompileOptions) (index : Nat) (ps : List Pass) (d : Device) :
    (s.compilePasses disk defines options index ps d).value.2.1.map Pass.texts =
      ps.map Pass.texts := by
  induction ps generalizing index d with
  | nil => rfl
  | cons p ps ih =>
      obtain ⟨n, p', d₁, hadvances, -, hvalue⟩ :=
        s.compilePasses_step disk defines options index p ps d
      rw [hvalue, List.map_cons, List.map_cons, hadvances.texts_eq, ih]

end Shader
end ShaderAssets
