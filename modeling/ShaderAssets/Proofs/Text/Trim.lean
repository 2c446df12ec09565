import Mathlib.Data.List.DropRight
import ShaderAssets.Proofs.Text.Parts
import ShaderAssets.Text.Blank
import ShaderAssets.Text.Split

/-!
# Trimmed texts

Trimming gives a text that neither begins nor ends with white space, and leaves such
a text as it is.

Main results:

- Structure {lit}`IsTrimmed`: no white space at either end.
- Theorem {lit}`isTrimmed_trim`: trimming gives such a text.
- Theorem {lit}`IsTrimmed.trim_eq`: trimming keeps such a text.
- Theorem {lit}`IsTrimmed.trim_append`: trimming finds such a text between white space.
- Theorem {lit}`trim_append_cons`: trimming on either side of a character.
- Theorem {lit}`words_append`: the first word of a text.
- Theorem {lit}`splitOnce_append`: a text is cut at the first separator.
-/

namespace ShaderAssets
namespace Text

/-- A text that neither begins nor ends with white space. -/
structure IsTrimmed (s : List Char) : Prop where
  head : ∀ c, s.head? = some c → isBlank c = false
  last : ∀ c, s.getLast? = some c → isBlank c = false

/-- A text without white space is trimmed. -/
theorem IsTrimmed.of_forall {s : List Char} (h : ∀ c ∈ s, isBlank c = false) : IsTrimmed s where
  head c hc := h c (List.mem_of_head? hc)
  last c hc := h c (List.mem_of_getLast? hc)

/-- Letters and digits are three ranges of ASCII. -/
theorem toNat_of_isAlphanum {c : Char} (h : c.isAlphanum = true) :
    (48 ≤ c.toNat ∧ c.toNat ≤ 57) ∨ (65 ≤ c.toNat ∧ c.toNat ≤ 90) ∨
      (97 ≤ c.toNat ∧ c.toNat ≤ 122) := by
  delta Char.isAlphanum Char.isAlpha Char.isUpper Char.isLower Char.isDigit at h
  simp only [Bool.or_eq_true, Bool.and_eq_true, decide_eq_true_eq, ge_iff_le,
    UInt32.le_iff_toNat_le] at h
  change ((65 ≤ c.toNat ∧ c.toNat ≤ 90) ∨ (97 ≤ c.toNat ∧ c.toNat ≤ 122)) ∨
    (48 ≤ c.toNat ∧ c.toNat ≤ 57) at h
  omega

/-- Letters and digits are not blank. -/
theorem isBlank_of_isAlphanum {c : Char} (h : c.isAlphanum = true) : isBlank c = false := by
  rw [← Bool.not_eq_true]
  intro hblank
  simp only [isBlank, Bool.or_eq_true, Bool.and_eq_true, decide_eq_true_eq, beq_iff_eq] at hblank
  have hrange := toNat_of_isAlphanum h
  omega

/-- Nothing in front of the first character is dropped if it does not match. -/
theorem dropWhile_eq_self {p : Char → Bool} {s : List Char}
    (h : ∀ c, s.head? = some c → p c = false) : s.dropWhile p = s := by
  cases s with
  | nil => rfl
  | cons c s => exact List.dropWhile_cons_of_neg (by simp [h c rfl])

/-- Matching characters are taken up to another one. -/
theorem takeWhile_append {p : Char → Bool} {front rest : List Char}
    (hfront : ∀ c ∈ front, p c = true) (hrest : ∀ c, rest.head? = some c → p c = false) :
    (front ++ rest).takeWhile p = front := by
  rw [List.takeWhile_append_of_pos hfront]
  cases rest with
  | nil => simp
  | cons c rest => simp [hrest c rfl]

/-- What stands in front of the first character of a kind is taken up to it. -/
theorem takeWhile_ne_append {front rest : List Char} {x : Char} (hfront : x ∉ front)
    (hrest : ∀ c, rest.head? = some c → c = x) : (front ++ rest).takeWhile (· != x) = front :=
  takeWhile_append (fun _ hc => bne_iff_ne.mpr (ne_of_mem_of_not_mem hc hfront)) fun c hc => by
    simp [hrest c hc]

/-- What is left after dropping matching characters begins with another one. -/
theorem head?_dropWhile {p : Char → Bool} {s : List Char} {c : Char}
    (h : (s.dropWhile p).head? = some c) : p c = false := by
  have hnot := List.head?_dropWhile_not p s
  rw [h] at hnot
  exact hnot

/-- Trimming keeps a text without white space at either end. -/
theorem IsTrimmed.trim_eq {s : List Char} (h : IsTrimmed s) : trim s = s := by
  have hstart : trimStart s = s := dropWhile_eq_self h.head
  have hend : s.reverse.dropWhile isBlank = s.reverse :=
    dropWhile_eq_self fun c hc => h.last c (by simpa using hc)
  rw [trim, hstart, trimEnd, hend, List.reverse_reverse]

/-- A trimmed text has no white space at either end. -/
theorem isTrimmed_trim (s : List Char) : IsTrimmed (trim s) where
  head c hc := by
    -- The end is cut off a text that begins with another character, or off nothing.
    have hprefix : trimEnd (trimStart s) <+: trimStart s := by
      simpa [trimEnd] using (List.dropWhile_suffix isBlank (l := (trimStart s).reverse)).reverse
    obtain ⟨rest, hrest⟩ := hprefix
    refine head?_dropWhile (p := isBlank) (s := s) ?_
    rw [← trimStart, ← hrest, List.head?_append, ← trim, hc]
    rfl
  last c hc := by
    rw [trim, trimEnd, List.getLast?_reverse] at hc
    exact head?_dropWhile hc

/-- Trimming only takes characters away. -/
theorem mem_of_mem_trim {s : List Char} {c : Char} (h : c ∈ trim s) : c ∈ s := by
  rw [trim, trimEnd, List.mem_reverse] at h
  have hstart := (List.dropWhile_suffix isBlank).subset h
  exact (List.dropWhile_suffix isBlank).subset (List.mem_reverse.mp hstart)

/-- Trimming the end takes off white space. -/
theorem exists_eq_trimEnd_append (s : List Char) :
    ∃ back, s = trimEnd s ++ back ∧ ∀ c ∈ back, isBlank c = true := by
  refine ⟨(s.reverse.takeWhile isBlank).reverse, ?_, fun c hc => ?_⟩
  · rw [trimEnd, ← List.reverse_append, List.takeWhile_append_dropWhile, List.reverse_reverse]
  · exact List.mem_takeWhile_imp (List.mem_reverse.mp hc)

/-- Trimming takes off white space at either end. -/
theorem exists_eq_append_trim_append (s : List Char) :
    ∃ front back, s = front ++ (trim s ++ back) ∧ (∀ c ∈ front, isBlank c = true) ∧
      ∀ c ∈ back, isBlank c = true := by
  obtain ⟨back, hback, hblank⟩ := exists_eq_trimEnd_append (trimStart s)
  refine ⟨s.takeWhile isBlank, back, ?_, fun c hc => List.mem_takeWhile_imp hc, hblank⟩
  rw [trim, ← hback, trimStart, List.takeWhile_append_dropWhile]

/-- White space in front is taken off. -/
theorem trimStart_append_of_blank {front : List Char} (h : ∀ c ∈ front, isBlank c = true)
    (s : List Char) : trimStart (front ++ s) = trimStart s :=
  List.dropWhile_append_of_pos h

/-- White space behind is taken off. -/
theorem trimEnd_append_of_blank {back : List Char} (h : ∀ c ∈ back, isBlank c = true)
    (s : List Char) : trimEnd (s ++ back) = trimEnd s := by
  rw [trimEnd, List.reverse_append,
    List.dropWhile_append_of_pos fun c hc => h c (List.mem_reverse.mp hc), trimEnd]

/-! ## Trimming around a character -/

/-- Leading white space stands in front of the first character that is not blank. -/
theorem trimStart_append_cons {c : Char} (hc : isBlank c = false) (before after : List Char) :
    trimStart (before ++ c :: after) = trimStart before ++ c :: after := by
  rw [trimStart, trimStart, List.dropWhile_append]
  split
  · rename_i hnil
    rw [List.isEmpty_iff.mp hnil]
    exact List.dropWhile_cons_of_neg (by simp [hc])
  · rfl

/-- Trailing white space stands behind the last character that is not blank. -/
theorem trimEnd_append_cons {c : Char} (hc : isBlank c = false) (before after : List Char) :
    trimEnd (before ++ c :: after) = before ++ c :: trimEnd after := by
  have hreverse : (before ++ c :: after).reverse = after.reverse ++ c :: before.reverse := by
    simp
  have hstart := trimStart_append_cons hc after.reverse before.reverse
  rw [trimStart, trimStart] at hstart
  rw [trimEnd, hreverse, hstart]
  simp [trimEnd]

/-- A text with a character that is not blank is trimmed on either side of it. -/
theorem trim_append_cons {c : Char} (hc : isBlank c = false) (before after : List Char) :
    trim (before ++ c :: after) = trimStart before ++ c :: trimEnd after := by
  rw [trim, trimStart_append_cons hc, trimEnd_append_cons hc]

/-- White space is trimmed off behind a text that ends in another character. -/
theorem trim_append_of_not_blank {s : List Char} (hne : s ≠ []) (h : ∀ c ∈ s, isBlank c = false)
    (rest : List Char) : trim (s ++ rest) = s ++ trimEnd rest := by
  obtain ⟨front, c, rfl⟩ := (List.eq_nil_or_concat s).resolve_left hne
  have hfront : trimStart front = front :=
    dropWhile_eq_self fun d hd => h d (by simp [List.mem_of_head? hd])
  rw [List.concat_eq_append, List.append_assoc, List.singleton_append,
    trim_append_cons (h c (by simp)), hfront, List.append_assoc, List.singleton_append]

/-- Leading white space may be taken off before trimming. -/
@[simp]
theorem trim_trimStart (s : List Char) : trim (trimStart s) = trim s := by
  simp only [trim, trimStart, List.dropWhile_idempotent]

/-- Trailing white space may be taken off before trimming. -/
@[simp]
theorem trim_trimEnd (s : List Char) : trim (trimEnd s) = trim s := by
  by_cases hblank : ∀ c ∈ s, isBlank c = true
  · have hend : trimEnd s = [] := by
      rw [trimEnd, List.reverse_eq_nil_iff, dropWhile_eq_nil_iff]
      exact fun c hc => hblank c (List.mem_reverse.mp hc)
    rw [hend, trim_eq_nil_iff.mpr hblank]
    rfl
  · obtain ⟨c, hmem, hc⟩ : ∃ c ∈ s, isBlank c = false := by simpa using hblank
    obtain ⟨before, after, rfl⟩ := List.append_of_mem hmem
    have htwice : trimEnd (trimEnd after) = trimEnd after := by
      simp [trimEnd, List.dropWhile_idempotent]
    rw [trimEnd_append_cons hc, trim_append_cons hc, trim_append_cons hc, htwice]

/-- White space on both sides is taken off, and nothing else. -/
theorem IsTrimmed.trim_append {s front back : List Char} (h : IsTrimmed s)
    (hfront : ∀ c ∈ front, isBlank c = true) (hback : ∀ c ∈ back, isBlank c = true) :
    trim (front ++ (s ++ back)) = s := by
  rw [← List.append_assoc, ← trim_trimEnd, trimEnd_append_of_blank hback, trim_trimEnd,
    ← trim_trimStart, trimStart_append_of_blank hfront, trim_trimStart, h.trim_eq]

/-! ## Words -/

/-- No word reaches over white space. -/
theorem words_append_cons {c : Char} (hc : isBlank c = true) (before after : List Char) :
    words (before ++ c :: after) = words before ++ words after := by
  rw [words, List.splitOnP_append_cons before after hc, List.filter_append]
  rfl

/-- White space has no words. -/
theorem words_of_blank {s : List Char} (h : ∀ c ∈ s, isBlank c = true) : words s = [] := by
  induction s with
  | nil => simp [words]
  | cons c s ih =>
      obtain ⟨hc, hs⟩ := List.forall_mem_cons.mp h
      have hcut := words_append_cons hc [] s
      rw [List.nil_append, ih hs] at hcut
      simpa [words] using hcut

/-- White space in front has no words. -/
theorem words_append_of_blank {front : List Char} (h : ∀ c ∈ front, isBlank c = true)
    (s : List Char) : words (front ++ s) = words s := by
  rcases List.eq_nil_or_concat front with rfl | ⟨front, c, rfl⟩
  · rfl
  · rw [List.concat_eq_append, List.append_assoc, List.singleton_append,
      words_append_cons (h c (by simp)), words_of_blank fun d hd => h d (by simp [hd]),
      List.nil_append]

/-- White space behind has no words. -/
theorem words_append_blank {back : List Char} (h : ∀ c ∈ back, isBlank c = true)
    (s : List Char) : words (s ++ back) = words s := by
  cases back with
  | nil => rw [List.append_nil]
  | cons c back =>
      obtain ⟨hc, hback⟩ := List.forall_mem_cons.mp h
      rw [words_append_cons hc, words_of_blank hback, List.append_nil]

/-- The words of a text are those of the trimmed text. -/
theorem words_trim (s : List Char) : words (trim s) = words s := by
  obtain ⟨front, back, heq, hfront, hback⟩ := exists_eq_append_trim_append s
  rw [congrArg words heq, words_append_of_blank hfront, words_append_blank hback]

/-- A text that begins with characters that are not blank, up to white space or its end, has
them as its first word. -/
theorem words_append {word rest : List Char} (hne : word ≠ [])
    (hword : ∀ c ∈ word, isBlank c = false)
    (hrest : ∀ c, rest.head? = some c → isBlank c = true) :
    words (word ++ rest) = word :: words rest := by
  have hfirst : words word = [word] := by
    rw [words, List.splitOnP_eq_singleton hword, List.filter_cons_of_pos (by simpa using hne),
      List.filter_nil]
  cases rest with
  | nil => simpa [words] using hfirst
  | cons c rest =>
      have hc := hrest c rfl
      have hgap : words (c :: rest) = words rest :=
        words_append_of_blank (List.forall_mem_singleton.mpr hc) rest
      rw [words_append_cons hc, hfirst, hgap]
      rfl

/-- The first word of a text without leading white space stands at its beginning. -/
theorem exists_of_words_eq_cons {s word : List Char} {more : List (List Char)}
    (hs : ∀ c, s.head? = some c → isBlank c = false) (h : words s = word :: more) :
    ∃ rest, s = word ++ rest ∧ (∀ c, rest.head? = some c → isBlank c = true) ∧
      words rest = more := by
  have hcut : s.takeWhile (!isBlank ·) ++ s.dropWhile (!isBlank ·) = s :=
    List.takeWhile_append_dropWhile
  have hne : s.takeWhile (!isBlank ·) ≠ [] := by
    cases s with
    | nil => simp [words] at h
    | cons c s => simp [hs c rfl]
  have hrest : ∀ c, (s.dropWhile (!isBlank ·)).head? = some c → isBlank c = true := fun c hc => by
    simpa using head?_dropWhile hc
  have hwords := words_append hne (fun c hc => by simpa using List.mem_takeWhile_imp hc) hrest
  rw [hcut, h] at hwords
  obtain ⟨rfl, rfl⟩ := List.cons.inj hwords
  exact ⟨_, hcut.symm, hrest, rfl⟩

/-- Words have no white space. -/
theorem isBlank_of_mem_words {s word : List Char} (h : word ∈ words s) {c : Char}
    (hc : c ∈ word) : isBlank c = false := by
  obtain ⟨-, before, after, -, hpart⟩ := mem_filter_splitOnP_iff.mp h
  exact hpart.free c hc

/-! ## Cutting -/

/-- Cutting at the first separator behind a text without it. -/
theorem splitOnce_append {sep : Char} {before : List Char} (h : sep ∉ before)
    (after : List Char) : splitOnce sep (before ++ sep :: after) = some (before, after) := by
  induction before with
  | nil => simp [splitOnce]
  | cons c before ih =>
      obtain ⟨hc, hbefore⟩ := not_or.mp (mt List.mem_cons.mpr h)
      simp [splitOnce, Ne.symm hc, ih hbefore]

/-- A text without a separator cannot be cut there. -/
theorem splitOnce_eq_none {sep : Char} {s : List Char} (h : sep ∉ s) : splitOnce sep s = none := by
  cases hcut : splitOnce sep s with
  | none => rfl
  | some parts =>
      obtain ⟨heq, -⟩ := eq_append_of_splitOnce hcut
      exact absurd (heq ▸ by simp) h

/-- A text that cannot be cut at a separator does not hold it. -/
theorem not_mem_of_splitOnce {sep : Char} {s : List Char} (h : splitOnce sep s = none) :
    sep ∉ s := by
  intro hmem
  obtain ⟨before, after, rfl, hbefore⟩ := List.eq_append_cons_of_mem hmem
  rw [splitOnce_append hbefore] at h
  cases h

end Text
end ShaderAssets
