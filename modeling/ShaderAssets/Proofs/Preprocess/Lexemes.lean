import Mathlib.Data.List.Chain
import ShaderAssets.Proofs.Preprocess.Names
import ShaderAssets.Proofs.Text.Parts

/-!
# Lexemes and words

A condition is cut into lexemes, each as long as possible.  Words of a text, the longest
runs of name characters, need not be lexemes: a number ends where it meets an underscore, so
that a name begins in the middle of a word.  Behind anything but a number a lexeme that is a
name is a whole word of the text.

Main results:

- Relation {lit}`Cuts`: cutting a text into lexemes.
- Theorem {lit}`cuts_lexemes`: the lexemes of a text are a way to cut it.
- Theorem {lit}`Cuts.mentions`: names that do not follow a number directly are words.
-/

namespace ShaderAssets
namespace Condition

open Text

/-! ## Cutting -/

/-- A lexeme: a character that is no gap, and characters that each go on with it. -/
inductive IsLexeme : List Char → Prop where
  | first {c : Char} (hc : isGap c = false) : IsLexeme [c]
  | goOn {lexeme : List Char} {c : Char} (h : IsLexeme lexeme) (hc : goesOn lexeme c = true) :
      IsLexeme (lexeme ++ [c])

/-- A text is cut into lexemes, none of which goes on with the character behind it. -/
inductive Cuts : List Char → List (List Char) → Prop where
  | done : Cuts [] []
  | gap {c : Char} {s : List Char} {parts : List (List Char)} (hc : isGap c = true)
      (h : Cuts s parts) : Cuts (c :: s) parts
  | lexeme {lexeme s : List Char} {parts : List (List Char)} (hlexeme : IsLexeme lexeme)
      (hend : ∀ c, s.head? = some c → goesOn lexeme c = false) (h : Cuts s parts) :
      Cuts (lexeme ++ s) (lexeme :: parts)

/-- A character of a text that is cut is a gap or belongs to a lexeme. -/
theorem Cuts.isGap_or_mem {s : List Char} {parts : List (List Char)} (h : Cuts s parts) {c : Char}
    (hc : c ∈ s) : isGap c = true ∨ ∃ lexeme ∈ parts, c ∈ lexeme := by
  induction h with
  | done => cases hc
  | gap hgap _ ih =>
      rcases List.mem_cons.mp hc with rfl | hc
      · exact Or.inl hgap
      · exact ih hc
  | @lexeme lexeme s parts _ _ _ ih =>
      rcases List.mem_append.mp hc with hc | hc
      · exact Or.inr ⟨lexeme, List.mem_cons_self, hc⟩
      · refine (ih hc).imp_right fun ⟨part, hpart, hmem⟩ => ?_
        exact ⟨part, List.mem_cons_of_mem lexeme hpart, hmem⟩

/-- What a text is cut into are lexemes. -/
theorem Cuts.isLexeme {s : List Char} {parts : List (List Char)} (h : Cuts s parts) :
    ∀ lexeme ∈ parts, IsLexeme lexeme := by
  induction h with
  | done => simp
  | gap _ _ ih => exact ih
  | lexeme hlexeme _ _ ih => exact List.forall_mem_cons.mpr ⟨hlexeme, ih⟩

/-- A lexeme is not empty. -/
theorem IsLexeme.ne_nil {lexeme : List Char} (h : IsLexeme lexeme) : lexeme ≠ [] := by
  cases h <;> simp

/-- A lexeme begins with no gap. -/
theorem IsLexeme.isGap_first {c : Char} {more : List Char} (h : IsLexeme (c :: more)) :
    isGap c = false := by
  generalize hlexeme : c :: more = lexeme at h
  induction h generalizing more with
  | first hc =>
      cases hlexeme
      exact hc
  | goOn h _ ih =>
      obtain ⟨d, rest, rfl⟩ := List.exists_cons_of_ne_nil h.ne_nil
      obtain rfl : c = d := (List.cons.inj hlexeme).1
      exact ih rfl

/-- Behind a pending lexeme a text is cut after the characters that go on with it. -/
theorem cuts_lexemesFrom (s : List Char) :
    (∀ pending, IsLexeme pending → Cuts (pending ++ s) (lexemesFrom pending s)) ∧
      Cuts s (lexemesFrom [] s) := by
  induction s with
  | nil =>
      refine ⟨fun pending h => ?_, .done⟩
      rw [lexemesFrom, if_neg (by simpa using h.ne_nil)]
      exact .lexeme h (by simp) .done
  | cons c s ih =>
      obtain ⟨ihpending, ihempty⟩ := ih
      -- Where no lexeme is pending, a gap is skipped and another character begins a lexeme.
      have hstart : Cuts (c :: s) (lexemesFrom (if isGap c then [] else [c]) s) := by
        split
        · rename_i hgap
          exact .gap hgap ihempty
        · rename_i hgap
          exact ihpending [c] (.first (Bool.eq_false_iff.mpr hgap))
      constructor
      · intro pending h
        rw [lexemesFrom]
        split
        · rename_i hgoes
          have hmore := ihpending (pending ++ [c]) (h.goOn hgoes)
          rwa [List.append_assoc, List.singleton_append] at hmore
        · rename_i hends
          rw [if_neg (by simpa using h.ne_nil)]
          refine .lexeme h (fun d hd => ?_) hstart
          cases hd
          exact Bool.eq_false_iff.mpr hends
      · rw [lexemesFrom, goesOn, if_neg Bool.false_ne_true]
        exact hstart

/-- The lexemes of a text are a way to cut it. -/
theorem cuts_lexemes (s : List Char) : Cuts s (lexemes s) :=
  (cuts_lexemesFrom s).2

/-! ## Kinds of lexemes -/

/-- A lexeme begins with a character that a predicate holds of. -/
def BeginsWith (p : Char → Bool) (lexeme : List Char) : Prop :=
  ∃ c rest, lexeme = c :: rest ∧ p c = true

/-- The characters that a name begins with are characters of names. -/
theorem isNameRest_of_isNameStart {c : Char} (h : isNameStart c = true) :
    isNameRest c = true := by
  simp only [isNameStart, isNameRest, Char.isAlphanum, Bool.or_eq_true] at h ⊢
  exact h.imp_left Or.inl

/-- A character of names that none begins with is a digit. -/
theorem isDigit_of_isNameRest {c : Char} (h : isNameRest c = true)
    (hc : isNameStart c = false) : c.isDigit = true := by
  simp only [isNameStart, isNameRest, Char.isAlphanum, Bool.or_eq_true, Bool.or_eq_false_iff] at h hc
  rcases h with (h | h) | h
  · cases hc.1.symm.trans h
  · exact h
  · cases hc.2.symm.trans h

/-- A name goes on with every character of names. -/
theorem goesOn_name {lexeme : List Char} (h : BeginsWith isNameStart lexeme) (d : Char) :
    goesOn lexeme d = isNameRest d := by
  obtain ⟨c, rest, rfl, hc⟩ := h
  rw [goesOn, isDigit_of_isNameStart hc, if_neg Bool.false_ne_true, if_pos hc]

/-- A lexeme begins like a part of it that is not empty. -/
theorem beginsWith_append {p : Char → Bool} {lexeme more : List Char} (hne : lexeme ≠ []) :
    BeginsWith p (lexeme ++ more) ↔ BeginsWith p lexeme := by
  obtain ⟨c, rest, rfl⟩ := List.exists_cons_of_ne_nil hne
  simp [BeginsWith]

/-- A name consists of characters of names. -/
theorem IsLexeme.isNameRest_of_name {lexeme : List Char} (h : IsLexeme lexeme)
    (hname : BeginsWith isNameStart lexeme) : ∀ c ∈ lexeme, isNameRest c = true := by
  induction h with
  | first _ =>
      obtain ⟨c, rest, heq, hc⟩ := hname
      cases heq
      simpa using isNameRest_of_isNameStart hc
  | goOn h hc ih =>
      rw [beginsWith_append h.ne_nil] at hname
      rw [goesOn_name hname] at hc
      intro d hd
      rcases List.mem_append.mp hd with hd | hd
      · exact ih hname d hd
      · rw [List.mem_singleton.mp hd]
        exact hc

/-- A number goes on with letters and digits. -/
theorem goesOn_number {lexeme : List Char} (h : BeginsWith Char.isDigit lexeme) (d : Char) :
    goesOn lexeme d = d.isAlphanum := by
  obtain ⟨c, rest, rfl, hc⟩ := h
  rw [goesOn, if_pos hc]

/-- A number consists of letters and digits. -/
theorem IsLexeme.isAlphanum_of_number {lexeme : List Char} (h : IsLexeme lexeme)
    (hnumber : BeginsWith Char.isDigit lexeme) : ∀ c ∈ lexeme, c.isAlphanum = true := by
  induction h with
  | first _ =>
      obtain ⟨c, rest, heq, hc⟩ := hnumber
      cases heq
      simp [Char.isAlphanum, hc]
  | goOn h hc ih =>
      rw [beginsWith_append h.ne_nil] at hnumber
      rw [goesOn_number hnumber] at hc
      intro d hd
      rcases List.mem_append.mp hd with hd | hd
      · exact ih hnumber d hd
      · rw [List.mem_singleton.mp hd]
        exact hc

/-- A lexeme that is neither a name nor a number is one character, or two that make one
operator. -/
theorem IsLexeme.symbol {lexeme : List Char} (h : IsLexeme lexeme)
    (hname : ¬BeginsWith isNameStart lexeme) (hnumber : ¬BeginsWith Char.isDigit lexeme) :
    (∃ c, lexeme = [c]) ∨ ∃ c d, lexeme = [c, d] ∧ isPair c d = true := by
  cases h with
  | @first c _ => exact Or.inl ⟨c, rfl⟩
  | @goOn lexeme d h hd =>
      rw [beginsWith_append h.ne_nil] at hname hnumber
      obtain ⟨first, more, rfl⟩ := List.exists_cons_of_ne_nil h.ne_nil
      have hstart : isNameStart first = false := by
        simpa [BeginsWith] using hname
      have hdigit : first.isDigit = false := by
        simpa [BeginsWith] using hnumber
      rw [goesOn, hdigit, if_neg Bool.false_ne_true, hstart, if_neg Bool.false_ne_true,
        Bool.and_eq_true, List.isEmpty_iff] at hd
      obtain ⟨rfl, hpair⟩ := hd
      exact Or.inr ⟨first, d, rfl, hpair⟩

/-- A lexeme that is neither a name nor a number has no characters of names. -/
theorem IsLexeme.isNameRest_of_symbol {lexeme : List Char} (h : IsLexeme lexeme)
    (hname : ¬BeginsWith isNameStart lexeme) (hnumber : ¬BeginsWith Char.isDigit lexeme) :
    ∀ c ∈ lexeme, isNameRest c = false := by
  rcases h.symbol hname hnumber with ⟨c, rfl⟩ | ⟨c, d, rfl, hpair⟩
  · have hstart : isNameStart c = false := by
      simpa [BeginsWith] using hname
    have hrest : isNameRest c = false := by
      rw [← Bool.not_eq_true]
      exact fun hc => hnumber ⟨c, [], rfl, isDigit_of_isNameRest hc hstart⟩
    simpa using hrest
  · simp only [isPair, Bool.or_eq_true, Bool.and_eq_true, beq_iff_eq] at hpair
    rcases hpair with (⟨rfl, rfl⟩ | ⟨rfl, rfl⟩) | ⟨rfl, ((rfl | rfl) | rfl) | rfl⟩ <;> decide

/-! ## Names as words -/

/-- A name does not follow a number directly. -/
def Apart (first second : List Char) : Prop :=
  ¬(BeginsWith Char.isDigit first ∧ BeginsWith isNameStart second)

/-- White space belongs to no name. -/
theorem isNameRest_of_isBlank {c : Char} (h : isBlank c = true) : isNameRest c = false := by
  rw [← Bool.not_eq_true]
  intro hc
  rw [isBlank_of_isNameRest hc] at h
  cases h

/-- A gap is white space. -/
theorem isBlank_of_isGap {c : Char} (h : isGap c = true) : isBlank c = true := by
  rw [isGap, Bool.and_eq_true] at h
  exact h.1

/-- The last character in front of a name does not belong to a name, if what ends there is no
number. -/
theorem IsLexeme.last_of_apart {lexeme : List Char} (h : IsLexeme lexeme) {name : List Char}
    (hname : BeginsWith isNameStart name) (hapart : Apart lexeme name)
    (hend : ∀ c, name.head? = some c → goesOn lexeme c = false) {c : Char}
    (hc : lexeme.getLast? = some c) : isNameRest c = false := by
  refine h.isNameRest_of_symbol ?_ (fun hnumber => hapart ⟨hnumber, hname⟩) c
    (List.mem_of_getLast? hc)
  intro hlexeme
  obtain ⟨d, rest, rfl, hd⟩ := hname
  have hgoes := hend d rfl
  rw [goesOn_name hlexeme, isNameRest_of_isNameStart hd] at hgoes
  cases hgoes

/-- Where no name follows a number directly, a name among the lexemes of a text is a part of
the text between characters that do not belong to names; if nothing stands in front of it, it
is the first lexeme. -/
theorem Cuts.exists_isPart {s : List Char} {parts : List (List Char)} (h : Cuts s parts)
    (hparts : parts.IsChain Apart) {name : List Char} (hmem : name ∈ parts)
    (hname : BeginsWith isNameStart name) :
    ∃ before after, s = before ++ name ++ after ∧
      IsPart (!isNameRest ·) before name after ∧ (before = [] → parts.head? = some name) := by
  induction h with
  | done => cases hmem
  | @gap c s parts hc _ ih =>
      obtain ⟨before, after, rfl, hpart, -⟩ := ih hparts hmem
      refine ⟨c :: before, after, rfl, ⟨hpart.free, ?_, hpart.right⟩, nofun⟩
      intro d hd
      cases before with
      | nil =>
          cases hd
          simpa using isNameRest_of_isBlank (isBlank_of_isGap hc)
      | cons e before => exact hpart.left d (by simpa using hd)
  | @lexeme lexeme s parts hlexeme hend h ih =>
      rw [List.isChain_cons] at hparts
      rcases List.mem_cons.mp hmem with rfl | hmem
      · refine ⟨[], s, rfl, ⟨?_, nofun, fun c hc => ?_⟩, fun _ => rfl⟩
        · intro c hc
          simpa using hlexeme.isNameRest_of_name hname c hc
        · have hgoes := hend c hc
          rw [goesOn_name hname] at hgoes
          simpa using hgoes
      · obtain ⟨before, after, rfl, hpart, hfirst⟩ := ih hparts.2 hmem
        refine ⟨lexeme ++ before, after, by simp, ⟨hpart.free, ?_, hpart.right⟩,
          fun hnil => absurd (List.append_eq_nil_iff.mp hnil).1 hlexeme.ne_nil⟩
        intro c hc
        cases before with
        | nil =>
            have hapart := hparts.1 name (hfirst rfl)
            rw [List.append_nil] at hc
            refine (Bool.not_eq_true' _).mpr (hlexeme.last_of_apart hname hapart (fun d hd => ?_) hc)
            exact hend d (by simp [List.head?_append, hd])
        | cons e before => exact hpart.left c (by simpa using hc)

/-- A text mentions a name: it is a word of the text. -/
def Mentions (text : List Char) (name : String) : Prop :=
  IsWord (!isNameRest ·) text name.toList

instance (text : List Char) (name : String) : Decidable (Mentions text name) :=
  decidable_of_iff _ mem_filter_splitOnP_iff

/-- Where no name follows a number directly, a text mentions the names among its lexemes. -/
theorem Cuts.mentions {s : List Char} {parts : List (List Char)} (h : Cuts s parts)
    (hparts : parts.IsChain Apart) {name : List Char} (hmem : name ∈ parts)
    (hname : BeginsWith isNameStart name) : Mentions s (String.ofList name) := by
  obtain ⟨before, after, heq, hpart, -⟩ := h.exists_isPart hparts hmem hname
  obtain ⟨c, rest, rfl, -⟩ := hname
  rw [Mentions, String.toList_ofList]
  exact ⟨List.cons_ne_nil c rest, before, after, heq, hpart⟩

end Condition
end ShaderAssets
