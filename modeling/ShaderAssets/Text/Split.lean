/-!
# Cutting texts apart

Prefixes, suffixes, first occurrences and separators of texts given as lists of
characters.
-/

namespace ShaderAssets
namespace Text

/-- What follows `front` in a text that begins with it. -/
def dropPrefix? : List Char → List Char → Option (List Char)
  | [], s => some s
  | _ :: _, [] => none
  | a :: front, c :: s => if a = c then dropPrefix? front s else none

/-- What precedes `back` in a text that ends with it. -/
def dropSuffix? (back s : List Char) : Option (List Char) :=
  (dropPrefix? back.reverse s.reverse).map List.reverse

/-- Dropping a prefix undoes putting it in front, and nothing else. -/
theorem dropPrefix?_eq_some_iff {front s rest : List Char} :
    dropPrefix? front s = some rest ↔ s = front ++ rest := by
  induction front generalizing s with
  | nil => simp [dropPrefix?]
  | cons a front ih =>
      cases s with
      | nil => simp [dropPrefix?]
      | cons c s =>
          by_cases h : a = c
          · subst h
            simp [dropPrefix?, ih]
          · simp [dropPrefix?, h, Ne.symm h]

/-- Dropping a prefix fails exactly if the text does not begin with it. -/
theorem dropPrefix?_eq_none_iff {front s : List Char} :
    dropPrefix? front s = none ↔ ¬front <+: s := by
  constructor
  · rintro h ⟨rest, hrest⟩
    rw [dropPrefix?_eq_some_iff.mpr hrest.symm] at h
    cases h
  · intro h
    cases hdrop : dropPrefix? front s with
    | none => rfl
    | some rest => exact absurd ⟨rest, (dropPrefix?_eq_some_iff.mp hdrop).symm⟩ h

/-- The parts of a text around the first occurrence of a character. -/
def splitOnce (sep : Char) : List Char → Option (List Char × List Char)
  | [] => none
  | c :: s =>
      if c = sep then some ([], s)
      else (splitOnce sep s).map fun (before, after) => (c :: before, after)

/-- Cutting at the first separator loses only that separator. -/
theorem eq_append_of_splitOnce {sep : Char} {s before after : List Char}
    (h : splitOnce sep s = some (before, after)) :
    s = before ++ sep :: after ∧ sep ∉ before := by
  induction s generalizing before with
  | nil => simp [splitOnce] at h
  | cons c s ih =>
      by_cases hc : c = sep
      · simp only [splitOnce, hc, if_true, Option.some.injEq, Prod.mk.injEq] at h
        obtain ⟨rfl, rfl⟩ := h
        simp [hc]
      · simp only [splitOnce, hc, if_false, Option.map_eq_some_iff, Prod.exists,
          Prod.mk.injEq] at h
        obtain ⟨b, a, hs, rfl, rfl⟩ := h
        obtain ⟨heq, hnot⟩ := ih hs
        exact ⟨by simp [heq], by simp [Ne.symm hc, hnot]⟩

/-- Whether `part` occurs somewhere in a text as a run of neighbours. -/
def occursIn (part : List Char) : List Char → Bool
  | [] => part.isEmpty
  | c :: s => part.isPrefixOf (c :: s) || occursIn part s

/-- The text in front of the first occurrence of `mark`, or all of it. -/
def beforeMark (mark : List Char) : List Char → List Char
  | [] => []
  | c :: s => if mark.isPrefixOf (c :: s) then [] else c :: beforeMark mark s

/-- Occurring in a text is being an infix of it. -/
theorem occursIn_iff {part s : List Char} : occursIn part s = true ↔ part <:+: s := by
  induction s with
  | nil => simp [occursIn]
  | cons c s ih =>
      rw [occursIn, Bool.or_eq_true, List.isPrefixOf_iff_prefix, ih, List.infix_cons_iff]

/-- A property of all characters of a text is decided along the text, not by trying
every character there is. -/
instance decidableForallMem (p : Char → Prop) [DecidablePred p] (s : List Char) :
    Decidable (∀ c ∈ s, p c) :=
  List.decidableBAll p s

end Text
end ShaderAssets
