/-!
# White space

The white-space characters of Unicode and the operations that depend on them:
trimming a text at either end, asking whether a text is blank, and cutting it
into words.

Main results:

- Lemma {lit}`trim_eq_nil_iff`: trimming leaves nothing exactly of a blank text.
-/

namespace ShaderAssets
namespace Text

/-- The twenty-five characters with the Unicode property `White_Space`. -/
def isBlank (c : Char) : Bool :=
  let n := c.toNat
  (9 ≤ n && n ≤ 13) || n == 0x20 || n == 0x85 || n == 0xA0 || n == 0x1680 ||
    (0x2000 ≤ n && n ≤ 0x200A) || n == 0x2028 || n == 0x2029 || n == 0x202F ||
    n == 0x205F || n == 0x3000

/-! ## Trimming -/

/-- The text without its leading white space. -/
def trimStart (s : List Char) : List Char :=
  s.dropWhile isBlank

/-- The text without its trailing white space. -/
def trimEnd (s : List Char) : List Char :=
  (s.reverse.dropWhile isBlank).reverse

/-- The text without white space at either end. -/
def trim (s : List Char) : List Char :=
  trimEnd (trimStart s)

/-- Whether a text holds nothing but white space. -/
def isBlankText (s : String) : Bool :=
  s.toList.all isBlank

/-- Dropping a leading run leaves nothing exactly when the run is everything. -/
theorem dropWhile_eq_nil_iff {p : Char → Bool} {s : List Char} :
    s.dropWhile p = [] ↔ ∀ c ∈ s, p c = true := by
  induction s with
  | nil => simp
  | cons c s ih =>
      by_cases h : p c = true
      · simp [h, ih]
      · simp [h]

/-- A text is trimmed away exactly when each of its characters is blank. -/
theorem trim_eq_nil_iff {s : List Char} :
    trim s = [] ↔ ∀ c ∈ s, isBlank c = true := by
  have hend : ∀ t : List Char, trimEnd t = [] ↔ ∀ c ∈ t, isBlank c = true := by
    intro t
    simp only [trimEnd, List.reverse_eq_nil_iff, dropWhile_eq_nil_iff, List.mem_reverse]
  rw [trim, hend, trimStart]
  constructor
  · intro h c hc
    by_cases hb : isBlank c = true
    · exact hb
    · refine h c ?_
      induction s with
      | nil => cases hc
      | cons d s ih =>
          by_cases hd : isBlank d = true
          · rw [List.dropWhile_cons_of_pos hd] at h ⊢
            rcases List.mem_cons.mp hc with rfl | hmem
            · exact absurd hd hb
            · exact ih h hmem
          · rw [List.dropWhile_cons_of_neg hd]
            exact hc
  · intro h c hc
    exact h c (List.dropWhile_suffix isBlank |>.subset hc)

/-! ## Words -/

/-- The maximal runs of characters that are not white space, in order. -/
def words (s : List Char) : List (List Char) :=
  (s.splitOnP isBlank).filter (fun w => !w.isEmpty)

end Text
end ShaderAssets
