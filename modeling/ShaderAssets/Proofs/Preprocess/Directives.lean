import ShaderAssets.Preprocess.Directive
import ShaderAssets.Proofs.Text.Slashes
import ShaderAssets.Proofs.Text.Trim

/-!
# Lines that are directives

A directive is a line with the sign {lit}`#`, a keyword and an argument, with white space
between them and around them and possibly a comment at the end.  Which keyword it has decides
what it means; with an unknown keyword a line is ordinary text.

Main results:

- Definition {lit}`IsDirective`: a line has a keyword and an argument.
- Relation {lit}`Means`: what a keyword and an argument mean.
- Theorem {lit}`ofLine_eq_iff`: the lines that are read as a directive.
-/

namespace ShaderAssets
namespace Directive

open Text

/-- A line is a directive with a keyword and an argument.  The keyword stands behind the sign
and white space and reaches as far as letters, digits and underscores go; the argument is what
follows, without white space around it and without a comment. -/
def IsDirective (line keyword argument : List Char) : Prop :=
  ∃ gap rest front, trim line = '#' :: (gap ++ (keyword ++ rest)) ∧
    (∀ c ∈ gap, isBlank c = true) ∧ keyword ≠ [] ∧ (∀ c ∈ keyword, isKeywordChar c = true) ∧
    (∀ c, rest.head? = some c → isKeywordChar c = false) ∧
    IsUncommented (trim rest) front ∧ argument = trimEnd front

/-- What a keyword and an argument mean. -/
inductive Means : String → List Char → Directive → Prop
  | quoted {path : List Char} :
      Means "include" ('"' :: (path ++ ['"'])) (.inclusion (String.ofList path))
  | bracketed {path : List Char} :
      Means "include" ('<' :: (path ++ ['>'])) (.inclusion (String.ofList path))
  | malformed {argument : List Char} (hquoted : ∀ path, argument ≠ '"' :: (path ++ ['"']))
      (hbracketed : ∀ path, argument ≠ '<' :: (path ++ ['>'])) :
      Means "include" argument (.malformedInclusion (String.ofList argument))
  | define {name rest : List Char} (hname : ∀ c ∈ name, isBlank c = false)
      (hrest : ∀ c, rest.head? = some c → isBlank c = true) :
      Means "define" (name ++ rest) (.define (String.ofList name) (String.ofList (trim rest)))
  | undefine {argument : List Char} :
      Means "undef" argument (.undefine (String.ofList argument))
  | ifDefined {argument : List Char} :
      Means "ifdef" argument (.ifDefined (String.ofList argument) true)
  | ifNotDefined {argument : List Char} :
      Means "ifndef" argument (.ifDefined (String.ofList argument) false)
  | condition {argument : List Char} : Means "if" argument (.condition (String.ofList argument))
  | otherwiseIf {argument : List Char} :
      Means "elif" argument (.otherwiseIf (String.ofList argument))
  | otherwise {argument : List Char} : Means "else" argument .otherwise
  | endIf {argument : List Char} : Means "endif" argument .endIf

/-! ## Keywords -/

/-- A text ends with another if it is what precedes it and the other. -/
theorem dropSuffix?_eq_some_iff {back s front : List Char} :
    dropSuffix? back s = some front ↔ s = front ++ back := by
  rw [dropSuffix?, Option.map_eq_some_iff]
  constructor
  · rintro ⟨rest, hrest, rfl⟩
    rw [← List.reverse_inj, dropPrefix?_eq_some_iff.mp hrest]
    simp
  · rintro rfl
    exact ⟨front.reverse, dropPrefix?_eq_some_iff.mpr (by simp), List.reverse_reverse front⟩

/-- A path stands between quotes or between angle brackets. -/
theorem includePath?_eq_some_iff {argument path : List Char} :
    includePath? argument = some path ↔
      argument = '"' :: (path ++ ['"']) ∨ argument = '<' :: (path ++ ['>']) := by
  unfold includePath?
  split
  · simp [dropSuffix?_eq_some_iff]
  · simp [dropSuffix?_eq_some_iff]
  · rename_i hquoted hbracketed
    refine iff_of_false nofun ?_
    rintro (rfl | rfl)
    · exact hquoted _ rfl
    · exact hbracketed _ rfl

/-- A name reaches up to the first white space, and its value is what follows. -/
theorem definition_append {name rest : List Char} (hname : ∀ c ∈ name, isBlank c = false)
    (hrest : ∀ c, rest.head? = some c → isBlank c = true) :
    definition (name ++ rest) = (String.ofList name, String.ofList (trim rest)) := by
  have hvisible : ∀ c ∈ name, (!isBlank c) = true := fun c hc => by simp [hname c hc]
  have hblank : ∀ c, rest.head? = some c → (!isBlank c) = false := fun c hc => by simp [hrest c hc]
  rw [definition, takeWhile_append hvisible hblank, List.dropWhile_append_of_pos hvisible,
    dropWhile_eq_self hblank]

/-- A keyword and an argument are read as what they mean. -/
theorem Means.ofKeyword_eq {keyword : String} {argument : List Char} {d : Directive}
    (h : Means keyword argument d) : ofKeyword keyword argument = d := by
  cases h with
  | @quoted path =>
      have hpath := includePath?_eq_some_iff.mpr (.inl (rfl : '"' :: (path ++ ['"']) = _))
      simp only [ofKeyword, hpath]
  | @bracketed path =>
      have hpath := includePath?_eq_some_iff.mpr (.inr (rfl : '<' :: (path ++ ['>']) = _))
      simp only [ofKeyword, hpath]
  | malformed hquoted hbracketed =>
      have hpath : includePath? argument = none := by
        cases hread : includePath? argument with
        | none => rfl
        | some path =>
            rcases includePath?_eq_some_iff.mp hread with heq | heq
            · exact absurd heq (hquoted path)
            · exact absurd heq (hbracketed path)
      simp only [ofKeyword, hpath]
  | define hname hrest => simp only [ofKeyword, definition_append hname hrest]
  | undefine => rfl
  | ifDefined => rfl
  | ifNotDefined => rfl
  | condition => rfl
  | otherwiseIf => rfl
  | otherwise => rfl
  | endIf => rfl

/-- A keyword and an argument mean what they are read as, unless that is ordinary text. -/
theorem means_ofKeyword {keyword : String} {argument : List Char}
    (h : ofKeyword keyword argument ≠ .text) :
    Means keyword argument (ofKeyword keyword argument) := by
  revert h
  unfold ofKeyword
  split
  case h_1 =>
    intro _
    cases hread : includePath? argument with
    | none =>
        refine .malformed (fun path heq => ?_) fun path heq => ?_
        · exact absurd hread (by rw [includePath?_eq_some_iff.mpr (.inl heq)]; nofun)
        · exact absurd hread (by rw [includePath?_eq_some_iff.mpr (.inr heq)]; nofun)
    | some path =>
        rcases includePath?_eq_some_iff.mp hread with rfl | rfl
        · exact .quoted
        · exact .bracketed
  case h_2 =>
    intro _
    have hcut : argument.takeWhile (!isBlank ·) ++ argument.dropWhile (!isBlank ·) = argument :=
      List.takeWhile_append_dropWhile
    have hname : ∀ c ∈ argument.takeWhile (!isBlank ·), isBlank c = false := fun c hc => by
      simpa using List.mem_takeWhile_imp hc
    have hrest : ∀ c, (argument.dropWhile (!isBlank ·)).head? = some c → isBlank c = true :=
      fun c hc => by simpa using head?_dropWhile hc
    have hmeans := Means.define hname hrest
    rwa [hcut] at hmeans
  case h_3 => exact fun _ => .undefine
  case h_4 => exact fun _ => .ifDefined
  case h_5 => exact fun _ => .ifNotDefined
  case h_6 => exact fun _ => .condition
  case h_7 => exact fun _ => .otherwiseIf
  case h_8 => exact fun _ => .otherwise
  case h_9 => exact fun _ => .endIf
  case h_10 => exact fun h => absurd rfl h

/-- Nothing means ordinary text. -/
theorem Means.ne_text {keyword : String} {argument : List Char} {d : Directive}
    (h : Means keyword argument d) : d ≠ .text := by
  cases h <;> nofun

/-! ## Lines -/

/-- A directive is read by its keyword and its argument. -/
theorem IsDirective.ofLine_eq {line keyword argument : List Char}
    (h : IsDirective line keyword argument) :
    ofLine line = ofKeyword (String.ofList keyword) argument := by
  obtain ⟨gap, rest, front, htrim, hgap, hne, hkeyword, hrest, hfront, rfl⟩ := h
  have hhead : ∀ c, (keyword ++ rest).head? = some c → isBlank c = false := by
    obtain ⟨c, more, rfl⟩ := List.exists_cons_of_ne_nil hne
    intro d hd
    obtain rfl : c = d := by simpa using hd
    have hword := hkeyword c List.mem_cons_self
    rw [isKeywordChar, Bool.or_eq_true, beq_iff_eq] at hword
    rcases hword with hword | rfl
    · exact isBlank_of_isAlphanum hword
    · decide
  have hbody : trimStart (gap ++ (keyword ++ rest)) = keyword ++ rest := by
    rw [trimStart_append_of_blank hgap]
    exact dropWhile_eq_self hhead
  unfold ofLine
  rw [htrim]
  split
  · rename_i heq
    obtain ⟨-, rfl⟩ := List.cons.inj heq
    dsimp only
    rw [hbody, takeWhile_append hkeyword hrest, List.dropWhile_append_of_pos hkeyword,
      dropWhile_eq_self hrest, argument, beforeMark_eq_iff.mpr hfront]
  · rename_i hno
    exact absurd rfl (hno _)

/-- A line that is not ordinary text is a directive. -/
theorem exists_isDirective {line : List Char} (h : ofLine line ≠ .text) :
    ∃ keyword argument, IsDirective line keyword argument := by
  unfold ofLine at h
  split at h
  · rename_i rest htrim
    dsimp only at h
    refine ⟨(trimStart rest).takeWhile isKeywordChar,
      argument ((trimStart rest).dropWhile isKeywordChar), rest.takeWhile isBlank,
      (trimStart rest).dropWhile isKeywordChar, _, ?_, fun c hc => List.mem_takeWhile_imp hc, ?_,
      fun c hc => List.mem_takeWhile_imp hc, fun c hc => head?_dropWhile hc,
      beforeMark_eq_iff.mp rfl, rfl⟩
    · rw [List.takeWhile_append_dropWhile, trimStart, List.takeWhile_append_dropWhile, htrim]
    · intro hnil
      rw [hnil] at h
      exact h rfl
  · exact absurd rfl h

/-- The lines that are read as a directive other than ordinary text. -/
theorem ofLine_eq_iff {line : List Char} {d : Directive} (hd : d ≠ .text) :
    ofLine line = d ↔
      ∃ keyword argument, IsDirective line keyword argument ∧
        Means (String.ofList keyword) argument d := by
  constructor
  · rintro rfl
    obtain ⟨keyword, argument, h⟩ := exists_isDirective hd
    refine ⟨keyword, argument, h, ?_⟩
    rw [h.ofLine_eq] at hd ⊢
    exact means_ofKeyword hd
  · rintro ⟨keyword, argument, h, hmeans⟩
    rw [h.ofLine_eq, hmeans.ofKeyword_eq]

/-- The lines that are ordinary text: those without a keyword that means something. -/
theorem ofLine_eq_text_iff {line : List Char} :
    ofLine line = .text ↔
      ∀ keyword argument d, IsDirective line keyword argument →
        ¬Means (String.ofList keyword) argument d := by
  constructor
  · intro htext keyword argument d h hmeans
    exact hmeans.ne_text ((hmeans.ofKeyword_eq.symm.trans h.ofLine_eq.symm).trans htext)
  · intro h
    by_contra hne
    obtain ⟨keyword, argument, hdirective, hmeans⟩ := (ofLine_eq_iff hne).mp rfl
    exact h keyword argument _ hdirective hmeans

end Directive
end ShaderAssets
