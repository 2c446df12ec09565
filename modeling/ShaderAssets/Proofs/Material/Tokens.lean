import ShaderAssets.Material.Basic
import ShaderAssets.Proofs.Defines.Normal
import ShaderAssets.Proofs.Preprocess.Names

/-!
# Tokens of a material

The tokens of a material are names with values.  Putting a token and dropping one change
the entry of one name and keep the others, and the text of a value holds nothing that
would end a token early.

Main results:

- Theorem {lit}`isEntry_of_defineText`: a token carries the text of every value.
- Theorem {lit}`putToken_spec`: putting a token.
- Theorem {lit}`dropToken_spec`: dropping a token.
-/

namespace ShaderAssets
namespace Material

open Condition (IsName)
open Number

/-! ## Texts of values -/

/-- The characters in the text of a value. -/
def isTextChar (c : Char) : Bool :=
  c.isAlphanum || c == '.' || c == '-' || c == '(' || c == ')' || c == ','

/-- The characters in the text of a value are not blank. -/
theorem isBlank_of_isTextChar {c : Char} (h : isTextChar c = true) : Text.isBlank c = false := by
  simp only [isTextChar, Bool.or_eq_true, beq_iff_eq] at h
  rcases h with ((((h | rfl) | rfl) | rfl) | rfl) | rfl
  · exact Text.isBlank_of_isAlphanum h
  all_goals decide

/-- Digits stand in texts of values. -/
theorem isTextChar_of_isDigit {c : Char} (h : c.isDigit = true) : isTextChar c = true := by
  simp [isTextChar, Char.isAlphanum, h]

/-- The text of a whole number. -/
theorem isTextChar_of_mem_intText {n : Int} {c : Char} (h : c ∈ intText n) :
    isTextChar c = true := by
  unfold intText at h
  split at h
  · rcases List.mem_cons.mp h with rfl | h
    · rfl
    · exact isTextChar_of_isDigit (isDigit_of_mem_natText h)
  · exact isTextChar_of_isDigit (isDigit_of_mem_natText h)

/-- The text of a number with six places. -/
theorem isTextChar_of_mem_sixPlaces {x : Single} {c : Char} (h : c ∈ x.sixPlaces) :
    isTextChar c = true := by
  have hsigned : ∀ text : List Char, (∀ c ∈ text, isTextChar c = true) →
      ∀ c ∈ x.withSign text, isTextChar c = true := by
    intro text htext c hc
    unfold Single.withSign at hc
    split at hc
    · rcases List.mem_cons.mp hc with rfl | hc
      · rfl
      · exact htext c hc
    · exact htext c hc
  unfold Single.sixPlaces at h
  split at h
  · exact (by decide : ∀ c ∈ ['N', 'a', 'N'], isTextChar c = true) c h
  · split at h
    · exact hsigned _ (by decide) c h
    · refine hsigned _ ?_ c h
      intro c hc
      simp only [List.mem_append, List.mem_cons] at hc
      rcases hc with hc | rfl | hc | hc
      · exact isTextChar_of_isDigit (isDigit_of_mem_natText hc)
      · rfl
      · exact isTextChar_of_isDigit (isDigit_of_mem_replicate hc)
      · exact isTextChar_of_isDigit (isDigit_of_mem_natText hc)

/-- The text of a constructor. -/
theorem isTextChar_of_mem_constructorText {name : String} {xs : List Single} {c : Char}
    (hname : ∀ c ∈ name.toList, isTextChar c = true)
    (h : c ∈ (UniformValue.constructorText name xs).toList) : isTextChar c = true := by
  simp only [UniformValue.constructorText, String.toList_append, String.toList_intercalate,
    List.mem_append] at h
  rcases h with ((h | h) | h) | h
  · exact hname c h
  · exact (by decide : ∀ c ∈ "(".toList, isTextChar c = true) c h
  · rcases Text.mem_of_mem_intercalate h with h | ⟨part, hpart, h⟩
    · exact (by decide : ∀ c ∈ ",".toList, isTextChar c = true) c h
    · rw [List.map_map] at hpart
      obtain ⟨x, -, rfl⟩ := List.mem_map.mp hpart
      exact isTextChar_of_mem_sixPlaces (by simpa using h)
  · exact (by decide : ∀ c ∈ ")".toList, isTextChar c = true) c h

/-- The text of a value holds only such characters. -/
theorem isTextChar_of_mem_defineText {v : UniformValue} {text : String} {c : Char}
    (htext : v.defineText? = some text) (h : c ∈ text.toList) : isTextChar c = true := by
  cases v with
  | int n =>
      cases htext
      exact isTextChar_of_mem_intText (by simpa using h)
  | float x =>
      cases htext
      exact isTextChar_of_mem_sixPlaces (by simpa using h)
  | bool b =>
      cases htext
      cases b <;> exact (by decide : ∀ c ∈ ['0', '1'], isTextChar c = true) c (by simp_all)
  | vec2 x y =>
      cases htext
      exact isTextChar_of_mem_constructorText (by decide) h
  | vec3 x y z =>
      cases htext
      exact isTextChar_of_mem_constructorText (by decide) h
  | vec4 v =>
      cases htext
      exact isTextChar_of_mem_constructorText (by decide) h
  | color v =>
      cases htext
      exact isTextChar_of_mem_constructorText (by decide) h
  | sampler kind slot texture => cases htext
  | mat3 a b c => cases htext
  | mat4 a b c d => cases htext

/-- A token carries a name and the text of every value. -/
theorem isEntry_of_defineText {name text : String} {v : UniformValue} (hname : IsName name.toList)
    (htext : v.defineText? = some text) : Defines.IsEntry (name, text) where
  name_ne_nil := hname.ne_nil
  name_trimmed := hname.isTrimmed
  value_trimmed := .of_forall fun _ hc =>
    isBlank_of_isTextChar (isTextChar_of_mem_defineText htext hc)
  no_equals := hname.not_mem (by decide)
  name_no_semicolon := hname.not_mem (by decide)
  value_no_semicolon hmem :=
    absurd (isTextChar_of_mem_defineText htext hmem) (by decide)

/-! ## Putting and dropping tokens -/

/-- The tokens of entries. -/
def tokensOf (es : List (String × String)) : List String :=
  es.map Defines.token

/-- A token of an entry defines the name of the entry. -/
theorem definesName_token {e : String × String} (h : '=' ∉ e.1.toList) (name : String) :
    definesName name (Defines.token e) = (e.1 == name) := by
  have htokenName : tokenName (Defines.token e) = e.1.toList := by
    rw [tokenName, Defines.toList_token]
    exact Text.takeWhile_ne_append h (by simp)
  rw [definesName, htokenName, Bool.eq_iff_iff, beq_iff_eq, beq_iff_eq, String.toList_inj]

/-- Putting a token in front of others or behind the first one. -/
theorem putToken_cons (name text t : String) (ts : List String) :
    putToken name text (t :: ts) =
      if definesName name t then token name text :: ts else t :: putToken name text ts := by
  unfold putToken
  rw [List.findIdx?_cons]
  by_cases h : definesName name t = true
  · rw [if_pos h, if_pos h]
    rfl
  · rw [if_neg h, if_neg h]
    cases ts.findIdx? (definesName name) with
    | none => rfl
    | some i => rfl

/-- An entry whose name differs from that of every other one. -/
theorem nodup_names_cons {e : String × String} {es : List (String × String)} :
    ((e :: es).map Prod.fst).Nodup ↔ (∀ e' ∈ es, e'.1 ≠ e.1) ∧ (es.map Prod.fst).Nodup := by
  rw [List.map_cons, List.nodup_cons, List.mem_map]
  constructor
  · rintro ⟨hnew, hrest⟩
    exact ⟨fun e' he' heq => hnew ⟨e', he', heq⟩, hrest⟩
  · rintro ⟨hnew, hrest⟩
    exact ⟨fun ⟨e', he', heq⟩ => hnew e' he' heq, hrest⟩

/-- Putting a token gives the name its entry and keeps the entries of other names. -/
theorem putToken_spec {es : List (String × String)} (hnames : (es.map Prod.fst).Nodup)
    (hequals : ∀ e ∈ es, '=' ∉ e.1.toList) (name text : String) :
    ∃ es', putToken name text (tokensOf es) = tokensOf es' ∧ (es'.map Prod.fst).Nodup ∧
      ∀ e, e ∈ es' ↔ e = (name, text) ∨ (e ∈ es ∧ e.1 ≠ name) := by
  induction es with
  | nil => exact ⟨[(name, text)], rfl, by simp, by simp⟩
  | cons first es ih =>
      obtain ⟨hfirst, hrest⟩ := nodup_names_cons.mp hnames
      have hcons : putToken name text (tokensOf (first :: es)) =
          if first.1 == name then token name text :: tokensOf es
          else Defines.token first :: putToken name text (tokensOf es) := by
        rw [← definesName_token (hequals first (by simp))]
        exact putToken_cons ..
      by_cases hname : first.1 = name
      · rw [hcons, if_pos (by simpa using hname)]
        refine ⟨(name, text) :: es, rfl, nodup_names_cons.mpr ⟨hname ▸ hfirst, hrest⟩, ?_⟩
        intro e
        constructor
        · intro he
          rcases List.mem_cons.mp he with he | he
          · exact Or.inl he
          · exact Or.inr ⟨List.mem_cons_of_mem first he, hname ▸ hfirst e he⟩
        · rintro (rfl | ⟨he, hne⟩)
          · exact List.mem_cons_self
          · rcases List.mem_cons.mp he with rfl | he
            · exact absurd hname hne
            · exact List.mem_cons_of_mem _ he
      · obtain ⟨es', hput, hnodup, hmem⟩ :=
          ih hrest fun e he => hequals e (List.mem_cons_of_mem first he)
        rw [hcons, if_neg (by simpa using hname), hput]
        refine ⟨first :: es', rfl, nodup_names_cons.mpr ⟨?_, hnodup⟩, ?_⟩
        · intro e he
          rcases (hmem e).mp he with rfl | ⟨he, -⟩
          · exact Ne.symm hname
          · exact hfirst e he
        · intro e
          rw [List.mem_cons, List.mem_cons, hmem e]
          constructor
          · rintro (rfl | rfl | ⟨he, hne⟩)
            · exact Or.inr ⟨Or.inl rfl, hname⟩
            · exact Or.inl rfl
            · exact Or.inr ⟨Or.inr he, hne⟩
          · rintro (rfl | ⟨rfl | he, hne⟩)
            · exact Or.inr (Or.inl rfl)
            · exact Or.inl rfl
            · exact Or.inr (Or.inr ⟨he, hne⟩)

/-- Dropping a token leaves the entries of other names. -/
theorem dropToken_spec {es : List (String × String)} (hnames : (es.map Prod.fst).Nodup)
    (hequals : ∀ e ∈ es, '=' ∉ e.1.toList) (name : String) :
    ∃ es', dropToken name (tokensOf es) = tokensOf es' ∧ (es'.map Prod.fst).Nodup ∧
      ∀ e, e ∈ es' ↔ e ∈ es ∧ e.1 ≠ name := by
  induction es with
  | nil => exact ⟨[], rfl, hnames, by simp⟩
  | cons first es ih =>
      obtain ⟨hfirst, hrest⟩ := nodup_names_cons.mp hnames
      have hcons : dropToken name (tokensOf (first :: es)) =
          if first.1 == name then tokensOf es
          else Defines.token first :: dropToken name (tokensOf es) := by
        rw [← definesName_token (hequals first (by simp))]
        exact List.eraseP_cons.trans (Bool.cond_eq_ite ..)
      by_cases hname : first.1 = name
      · rw [hcons, if_pos (by simpa using hname)]
        refine ⟨es, rfl, hrest, ?_⟩
        intro e
        rw [List.mem_cons]
        constructor
        · intro he
          exact ⟨Or.inr he, hname ▸ hfirst e he⟩
        · rintro ⟨rfl | he, hne⟩
          · exact absurd hname hne
          · exact he
      · obtain ⟨es', hdrop, hnodup, hmem⟩ :=
          ih hrest fun e he => hequals e (List.mem_cons_of_mem first he)
        rw [hcons, if_neg (by simpa using hname), hdrop]
        refine ⟨first :: es', rfl, nodup_names_cons.mpr ⟨?_, hnodup⟩, ?_⟩
        · intro e he
          exact hfirst e ((hmem e).mp he).1
        · intro e
          rw [List.mem_cons, List.mem_cons, hmem e]
          constructor
          · rintro (rfl | ⟨he, hne⟩)
            · exact ⟨Or.inl rfl, hname⟩
            · exact ⟨Or.inr he, hne⟩
          · rintro ⟨rfl | he, hne⟩
            · exact Or.inl rfl
            · exact Or.inr ⟨he, hne⟩

end Material
end ShaderAssets
