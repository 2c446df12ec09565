import ShaderAssets.Text.Split

/-!
# Comment marks

Two slashes in a row start a comment, wherever a text is read.  A text without
them stays so when it is cut, and a text with them is cut at the first pair.

Main results:

- Theorem {lit}`beforeMark_pair`: a text is cut at the first mark of two characters.
- Theorem {lit}`beforeMark_of_not_hasComment`: a text without a comment is all front.
- Theorem {lit}`beforeMark_spec`: a text with a comment is its front without one,
  the mark and the rest.
- Theorem {lit}`beforeMark_eq_iff`: what stands in front of the first comment of a text.
-/

namespace ShaderAssets
namespace Text

/-! ## Marks of two characters -/

/-- A text begins with a mark of two characters. -/
theorem pair_prefix_cons_iff {a b c : Char} {s : List Char} :
    [a, b] <+: c :: s ↔ c = a ∧ s.head? = some b := by
  cases s with
  | nil => simp [List.cons_prefix_cons]
  | cons d s => simp [List.cons_prefix_cons, eq_comm]

/-- A text with a mark is its front, the mark and the rest; the front makes no mark
together with the first character of it. -/
theorem beforeMark_pair {a b : Char} {s : List Char} (h : [a, b] <:+: s) :
    ∃ rest, s = beforeMark [a, b] s ++ a :: b :: rest ∧
      ¬[a, b] <:+: beforeMark [a, b] s ++ [a] := by
  induction s with
  | nil => simp at h
  | cons c s ih =>
      by_cases hfront : [a, b] <+: c :: s
      · obtain ⟨rest, hrest⟩ := hfront
        rw [beforeMark, if_pos (List.isPrefixOf_iff_prefix.mpr ⟨rest, hrest⟩)]
        exact ⟨rest, hrest.symm, fun hmark => absurd hmark.length_le (by simp)⟩
      · obtain ⟨rest, heq, hno⟩ := ih ((List.infix_cons_iff.mp h).resolve_left hfront)
        rw [beforeMark, if_neg fun hmark => hfront (List.isPrefixOf_iff_prefix.mp hmark)]
        refine ⟨rest, by rw [List.cons_append, ← heq], ?_⟩
        -- the second character of the text is the one the front goes on with
        have hhead : (beforeMark [a, b] s ++ [a]).head? = s.head? := by
          generalize beforeMark [a, b] s = front at heq
          rw [heq]
          cases front <;> rfl
        rw [List.cons_append, List.infix_cons_iff, pair_prefix_cons_iff, hhead,
          ← pair_prefix_cons_iff]
        exact not_or.mpr ⟨hfront, hno⟩

/-- A text is cut at a mark behind a front that makes no earlier one. -/
theorem beforeMark_append_pair {a b : Char} {front : List Char} (h : ¬[a, b] <:+: front ++ [a])
    (rest : List Char) : beforeMark [a, b] (front ++ a :: b :: rest) = front := by
  induction front with
  | nil => simp [beforeMark]
  | cons c front ih =>
      rw [List.cons_append, List.infix_cons_iff, not_or] at h
      have hhead : (front ++ a :: b :: rest).head? = (front ++ [a]).head? := by
        cases front <;> rfl
      have hfront : ¬[a, b] <+: c :: (front ++ a :: b :: rest) := by
        rw [pair_prefix_cons_iff, hhead, ← pair_prefix_cons_iff]
        exact h.1
      rw [List.cons_append, beforeMark,
        if_neg fun hmark => hfront (List.isPrefixOf_iff_prefix.mp hmark), ih h.2]

/-! ## Comments -/

/-- Whether two slashes stand in a row somewhere in a text. -/
def hasComment (s : List Char) : Bool :=
  occursIn ['/', '/'] s

/-- A text has a comment if the mark of one is a part of it. -/
theorem hasComment_iff {s : List Char} : hasComment s = true ↔ ['/', '/'] <:+: s :=
  occursIn_iff

@[simp]
theorem hasComment_nil : hasComment [] = false :=
  rfl

@[simp]
theorem hasComment_singleton (c : Char) : hasComment [c] = false := by
  simp [hasComment, occursIn, List.isPrefixOf]

/-- Two slashes stand at the front of a text or further on. -/
theorem hasComment_cons_cons (c d : Char) (s : List Char) :
    hasComment (c :: d :: s) = ((c == '/' && d == '/') || hasComment (d :: s)) := by
  have hc : ('/' == c) = (c == '/') := BEq.comm
  have hd : ('/' == d) = (d == '/') := BEq.comm
  simp [hasComment, occursIn, List.isPrefixOf, hc, hd]

/-- A comment mark that begins with the first character ends with the second. -/
theorem hasComment_cons (c : Char) (s : List Char) :
    hasComment (c :: s) = ((c == '/' && s.head? == some '/') || hasComment s) := by
  cases s with
  | nil => simp
  | cons d s => simp [hasComment_cons_cons]

/-- Dropping the first character brings no comment in. -/
theorem hasComment_tail {c : Char} {s : List Char} (h : hasComment (c :: s) = false) :
    hasComment s = false := by
  rw [hasComment_cons, Bool.or_eq_false_iff] at h
  exact h.2

/-- A text without slashes has no comment. -/
theorem hasComment_of_not_mem {s : List Char} (h : '/' ∉ s) : hasComment s = false := by
  induction s with
  | nil => rfl
  | cons c s ih =>
      have hc : c ≠ '/' := fun hc => h (by simp [hc])
      rw [hasComment_cons, ih (fun hmem => h (List.mem_cons_of_mem c hmem))]
      simp [hc]

/-- Without a mark nothing is cut off. -/
theorem beforeMark_of_not_hasComment {s : List Char} (h : hasComment s = false) :
    beforeMark ['/', '/'] s = s := by
  induction s with
  | nil => rfl
  | cons c s ih =>
      have hfront : (['/', '/'] : List Char).isPrefixOf (c :: s) = false := by
        simp only [hasComment, occursIn, Bool.or_eq_false_iff] at h
        exact h.1
      rw [beforeMark, hfront, ih (hasComment_tail h)]
      rfl

/-- A text with a comment is its front, the mark and the rest; the front makes no
mark together with the first slash. -/
theorem beforeMark_spec {s : List Char} (h : hasComment s = true) :
    ∃ rest, s = beforeMark ['/', '/'] s ++ '/' :: '/' :: rest ∧
      hasComment (beforeMark ['/', '/'] s ++ ['/']) = false := by
  obtain ⟨rest, hs, hno⟩ := beforeMark_pair (hasComment_iff.mp h)
  exact ⟨rest, hs, Bool.eq_false_iff.mpr fun hmark => hno (hasComment_iff.mp hmark)⟩

/-- A further character completes a comment mark with a slash before it. -/
theorem hasComment_concat (s : List Char) (c : Char) :
    hasComment (s ++ [c]) = (hasComment s || (s.getLast? == some '/' && c == '/')) := by
  induction s with
  | nil => simp
  | cons d s ih =>
      cases s with
      | nil => simp [hasComment_cons_cons]
      | cons e s =>
          rw [List.cons_append, List.cons_append, hasComment_cons_cons, ← List.cons_append, ih,
            hasComment_cons_cons, List.getLast?_cons_cons, Bool.or_assoc]

/-- A text is cut at a comment behind a front that makes no earlier one. -/
theorem beforeMark_append_mark {front : List Char} (h : hasComment (front ++ ['/']) = false)
    (rest : List Char) : beforeMark ['/', '/'] (front ++ '/' :: '/' :: rest) = front :=
  beforeMark_append_pair (fun hmark => Bool.eq_false_iff.mp h (hasComment_iff.mpr hmark)) rest

/-- A front of a text reaches up to its first comment, or is all of it. -/
def IsUncommented (s front : List Char) : Prop :=
  front = s ∧ ¬['/', '/'] <:+: s ∨
    ∃ rest, s = front ++ '/' :: '/' :: rest ∧ ¬['/', '/'] <:+: front ++ ['/']

/-- What is cut off is the first comment. -/
theorem beforeMark_eq_iff {s front : List Char} :
    beforeMark ['/', '/'] s = front ↔ IsUncommented s front := by
  constructor
  · rintro rfl
    by_cases h : ['/', '/'] <:+: s
    · exact .inr (beforeMark_pair h)
    · have hno : hasComment s = false := Bool.eq_false_iff.mpr fun hmark => h (hasComment_iff.mp hmark)
      rw [beforeMark_of_not_hasComment hno]
      exact .inl ⟨rfl, h⟩
  · rintro (⟨rfl, h⟩ | ⟨rest, rfl, h⟩)
    · exact beforeMark_of_not_hasComment (Bool.eq_false_iff.mpr fun hmark => h (hasComment_iff.mp hmark))
    · exact beforeMark_append_pair h rest

/-- What precedes a mark is part of the text. -/
theorem mem_of_mem_beforeMark {mark s : List Char} {c : Char} (h : c ∈ beforeMark mark s) :
    c ∈ s := by
  induction s with
  | nil => exact h
  | cons d s ih =>
      rw [beforeMark] at h
      split at h
      · cases h
      · rcases List.mem_cons.mp h with rfl | h
        · exact List.mem_cons_self
        · exact List.mem_cons_of_mem d (ih h)

end Text
end ShaderAssets
