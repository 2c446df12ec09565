import Mathlib.Data.List.Basic
import Mathlib.Data.List.TakeWhile

/-!
# Parts between separators

A list that is cut at every separator leaves the runs of other elements that reach from one
separator, or the beginning, to the next, or the end.  The words of a text are those of its
parts that are not empty.

Main results:

- Structure {lit}`IsPart`: a maximal run of elements that are no separators.
- Theorem {lit}`getElem?_splitOnP_iff`: cutting leaves these runs, in order.
- Theorem {lit}`mem_filter_splitOnP_iff`: the words of a text.
- Theorem {lit}`not_mem_of_mem_splitOn`: no part holds the separator.
- Theorem {lit}`infix_intercalate_iff`: what occurs in a joined text.
-/

namespace ShaderAssets
namespace Text

/-! ## Cutting -/

section Cutting

variable {α : Type} {sep : α → Bool}

/-- A part of a list without separators, between separators or the ends of the list. -/
structure IsPart (sep : α → Bool) (before part after : List α) : Prop where
  free : ∀ a ∈ part, sep a = false
  left : ∀ a, before.getLast? = some a → sep a = true
  right : ∀ a, after.head? = some a → sep a = true

/-- A list has no separators, or a first one. -/
theorem first_separator (sep : α → Bool) (s : List α) :
    (∀ a ∈ s, sep a = false) ∨
    ∃ first a rest, s = first ++ a :: rest ∧ (∀ b ∈ first, sep b = false) ∧ sep a = true := by
  have hs := List.takeWhile_append_dropWhile (p := (!sep ·)) (l := s)
  have hfree : ∀ a ∈ s.takeWhile (!sep ·), sep a = false := fun a ha => by
    simpa using List.mem_takeWhile_imp ha
  cases hrest : s.dropWhile (!sep ·) with
  | nil =>
      rw [hrest, List.append_nil] at hs
      exact Or.inl (hs ▸ hfree)
  | cons a rest =>
      have ha := List.head?_dropWhile_not (!sep ·) s
      rw [hrest] at ha hs
      exact Or.inr ⟨_, a, rest, hs.symm, hfree, by simpa using ha⟩

/-- Every list is either free of separators or cut at the first one. -/
theorem induction_on_parts (sep : α → Bool) {motive : List α → Prop}
    (free : ∀ s, (∀ a ∈ s, sep a = false) → motive s)
    (cut : ∀ first a rest, (∀ b ∈ first, sep b = false) → sep a = true → motive rest →
      motive (first ++ a :: rest)) (s : List α) : motive s := by
  induction hlen : s.length using Nat.strong_induction_on generalizing s with
  | _ n ih =>
      subst hlen
      rcases first_separator sep s with hfree | ⟨first, a, rest, rfl, hfree, ha⟩
      · exact free s hfree
      · refine cut first a rest hfree ha (ih rest.length ?_ rest rfl)
        rw [List.length_append, List.length_cons]
        omega

/-- A list without separators is the only part of itself. -/
theorem isPart_of_free {s before part after : List α} (h : ∀ a ∈ s, sep a = false) :
    s = before ++ part ++ after ∧ IsPart sep before part after ↔
      before = [] ∧ part = s ∧ after = [] := by
  constructor
  · rintro ⟨rfl, hpart⟩
    have hbefore : before = [] := by
      rcases List.eq_nil_or_concat before with hnil | ⟨front, a, rfl⟩
      · exact hnil
      · exact absurd (hpart.left a (by simp)) (by simp [h a (by simp)])
    have hafter : after = [] := by
      cases after with
      | nil => rfl
      | cons a after => exact absurd (hpart.right a rfl) (by simp [h a (by simp)])
    subst hbefore hafter
    simp
  · rintro ⟨rfl, rfl, rfl⟩
    exact ⟨by simp, h, by simp, by simp⟩

/-- In front of its first separator a list has one part; the other parts stand behind it. -/
theorem isPart_of_cut {first rest before part after : List α} {a : α}
    (hfirst : ∀ b ∈ first, sep b = false) (ha : sep a = true) :
    first ++ a :: rest = before ++ part ++ after ∧ IsPart sep before part after ↔
      before = [] ∧ part = first ∧ after = a :: rest ∨
      ∃ front, before = first ++ a :: front ∧ rest = front ++ part ++ after ∧
        IsPart sep front part after := by
  constructor
  · rintro ⟨heq, hpart⟩
    rcases List.eq_nil_or_concat before with rfl | ⟨front, b, hbefore⟩
    · refine .inl ⟨rfl, ?_⟩
      rw [List.nil_append, List.append_eq_append_iff] at heq
      rcases heq with ⟨_ | ⟨c, more⟩, hpart', hafter⟩ | ⟨_ | ⟨c, more⟩, hfirst', hafter⟩
      · exact ⟨by simpa using hpart', by simpa using hafter.symm⟩
      · obtain ⟨rfl, -⟩ := List.cons.inj hafter
        exact absurd (hpart.free a (by simp [hpart'])) (by simp [ha])
      · exact ⟨by simpa using hfirst'.symm, by simpa using hafter⟩
      · exact absurd (hpart.right c (by simp [hafter])) (by simp [hfirst c (by simp [hfirst'])])
    · have hb : sep b = true := hpart.left b (by simp [hbefore])
      rw [List.append_assoc, List.append_eq_append_iff] at heq
      rcases heq with ⟨_ | ⟨c, more⟩, hbefore', hrest⟩ | ⟨more, hfirst', -⟩
      · exact absurd (hfirst b (by simp_all)) (by simp [hb])
      · obtain ⟨rfl, rfl⟩ := List.cons.inj hrest
        refine .inr ⟨more, hbefore', by simp, hpart.free, fun d hd => hpart.left d ?_, hpart.right⟩
        rw [hbefore', List.getLast?_append, List.getLast?_cons, hd]
        rfl
      · exact absurd (hfirst b (by simp [hfirst', hbefore])) (by simp [hb])
  · rintro (⟨rfl, rfl, rfl⟩ | ⟨front, rfl, rfl, hpart⟩)
    · exact ⟨by simp, hfirst, by simp, by simpa using ha⟩
    · refine ⟨by simp, hpart.free, fun b hb => ?_, hpart.right⟩
      rw [List.getLast?_append, List.getLast?_cons] at hb
      cases hfront : front.getLast? with
      | none => simp_all
      | some c => exact hpart.left b (by simp_all)

/-- Part `i` of a list that is cut has as many separators in front of it. -/
theorem getElem?_splitOnP_iff {s part : List α} {i : Nat} :
    (s.splitOnP sep)[i]? = some part ↔
      ∃ before after, (s = before ++ part ++ after ∧ IsPart sep before part after) ∧
        before.countP sep = i := by
  induction s using induction_on_parts sep generalizing i with
  | free s hfree =>
      rw [List.splitOnP_eq_singleton hfree]
      simp only [isPart_of_free hfree]
      cases i with
      | zero => simp [eq_comm]
      | succ i =>
          refine iff_of_false (by simp) ?_
          rintro ⟨before, after, ⟨rfl, -, -⟩, hcount⟩
          simp at hcount
  | cut first a rest hfirst ha ih =>
      have hzero : first.countP sep = 0 := List.countP_eq_zero.mpr fun b hb => by simp [hfirst b hb]
      rw [List.splitOnP_append_cons_of_forall_mem hfirst a ha]
      simp only [isPart_of_cut hfirst ha]
      cases i with
      | zero =>
          constructor
          · intro h
            exact ⟨[], a :: rest, .inl ⟨rfl, by simpa using h.symm, rfl⟩, rfl⟩
          · rintro ⟨before, after, ⟨rfl, rfl, rfl⟩ | ⟨front, rfl, -⟩, hcount⟩
            · rfl
            · simp [ha] at hcount
      | succ i =>
          rw [List.getElem?_cons_succ, ih]
          constructor
          · rintro ⟨front, after, hpart, rfl⟩
            exact ⟨first ++ a :: front, after, .inr ⟨front, rfl, hpart⟩, by simp [ha, hzero]⟩
          · rintro ⟨before, after, ⟨rfl, -, -⟩ | ⟨front, rfl, hpart⟩, hcount⟩
            · simp at hcount
            · exact ⟨front, after, hpart, by simpa [ha, hzero] using hcount⟩

/-- Cutting leaves what stands between separators. -/
theorem mem_splitOnP_iff {s part : List α} :
    part ∈ s.splitOnP sep ↔
      ∃ before after, s = before ++ part ++ after ∧ IsPart sep before part after := by
  simp only [List.mem_iff_getElem?, getElem?_splitOnP_iff]
  constructor
  · rintro ⟨-, before, after, hpart, -⟩
    exact ⟨before, after, hpart⟩
  · rintro ⟨before, after, hpart⟩
    exact ⟨_, before, after, hpart, rfl⟩

/-- More text in front of a part, which ends in a separator where the part would go on. -/
theorem IsPart.append_left {front before part after : List α} (h : IsPart sep before part after)
    (hfront : before = [] → ∀ a, front.getLast? = some a → sep a = true) :
    IsPart sep (front ++ before) part after := by
  refine ⟨h.free, fun a ha => ?_, h.right⟩
  cases before with
  | nil => exact hfront rfl a (by simpa using ha)
  | cons b before => exact h.left a (by simpa using ha)

/-- More text behind a part, which begins with a separator where the part would go on. -/
theorem IsPart.append_right {before part after back : List α} (h : IsPart sep before part after)
    (hback : ∀ a, back.head? = some a → sep a = true) :
    IsPart sep before part (after ++ back) := by
  refine ⟨h.free, h.left, fun a ha => ?_⟩
  cases after with
  | nil => exact hback a (by simpa using ha)
  | cons b after => exact h.right a (by simpa using ha)

/-- Text without separators in front of a list goes on with its first part. -/
theorem splitOnP_append_of_free {front s part : List α} {more : List (List α)}
    (hfront : ∀ a ∈ front, sep a = false) (h : s.splitOnP sep = part :: more) :
    (front ++ s).splitOnP sep = (front ++ part) :: more := by
  have happend : ∀ {t : List α}, (∀ a ∈ t, sep a = false) → ∀ a ∈ front ++ t, sep a = false :=
    fun ht a ha => (List.mem_append.mp ha).elim (hfront a) (ht a)
  rcases first_separator sep s with hfree | ⟨first, a, rest, rfl, hfree, ha⟩
  · rw [List.splitOnP_eq_singleton hfree] at h
    obtain ⟨rfl, rfl⟩ := List.cons.inj h
    rw [List.splitOnP_eq_singleton (happend hfree)]
  · rw [List.splitOnP_append_cons_of_forall_mem hfree a ha] at h
    obtain ⟨rfl, rfl⟩ := List.cons.inj h
    rw [← List.append_assoc, List.splitOnP_append_cons_of_forall_mem (happend hfree) a ha]

/-- A part with fewer separators in front of it ends in front of the other. -/
theorem IsPart.length_lt {before part after before' part' after' : List α}
    (heq : before ++ part ++ after = before' ++ part' ++ after') (h : IsPart sep before part after)
    (hcount : before.countP sep < before'.countP sep) :
    before.length + part.length < before'.length := by
  by_contra hle
  have hwhole : before' <+: before ++ part ++ after := by
    rw [heq, List.append_assoc]
    exact List.prefix_append _ _
  have hprefix : before' <+: before ++ part :=
    List.prefix_of_prefix_length_le hwhole (List.prefix_append _ _)
      (by rw [List.length_append]; omega)
  have hpart : part.countP sep = 0 := List.countP_eq_zero.mpr fun a ha => by simp [h.free a ha]
  have hsub := hprefix.sublist.countP_le (p := sep)
  rw [List.countP_append, hpart] at hsub
  omega

/-- A place is in a part, or at one of its ends, exactly if it has as many separators in front of
it. -/
theorem IsPart.countP_take_iff {before part after : List α} (h : IsPart sep before part after)
    {k : Nat} (hk : k ≤ (before ++ part ++ after).length) :
    ((before ++ part ++ after).take k).countP sep = before.countP sep ↔
      before.length ≤ k ∧ k ≤ before.length + part.length := by
  have hpart : part.countP sep = 0 := List.countP_eq_zero.mpr fun a ha => by simp [h.free a ha]
  rw [List.append_assoc] at hk ⊢
  constructor
  · intro hcount
    by_contra hout
    rw [not_and_or, not_le, not_le] at hout
    rcases hout with hless | hmore
    · obtain ⟨front, a, rfl⟩ := (List.eq_nil_or_concat before).resolve_left (by
        rintro rfl
        exact absurd hless (Nat.not_lt_zero k))
      have ha := h.left a (by simp)
      rw [List.concat_eq_append, List.length_append, List.length_singleton] at hless
      rw [List.concat_eq_append, List.append_assoc,
        List.take_append_of_le_length (by omega)] at hcount
      have hsub := (List.take_sublist k front).countP_le (p := sep)
      rw [hcount, List.countP_append, List.countP_singleton, if_pos ha] at hsub
      omega
    · cases after with
      | nil =>
          rw [List.length_append, List.length_append, List.length_nil] at hk
          omega
      | cons a after =>
          have ha := h.right a rfl
          have hprefix : before ++ (part ++ [a]) <+: (before ++ (part ++ a :: after)).take k := by
            refine List.prefix_take_iff.mpr ⟨⟨after, by simp⟩, ?_⟩
            rw [List.length_append, List.length_append, List.length_singleton]
            omega
          have hsub := hprefix.sublist.countP_le (p := sep)
          rw [hcount, List.countP_append, List.countP_append, List.countP_singleton,
            if_pos ha] at hsub
          omega
  · rintro ⟨hfront, hback⟩
    rw [List.take_append, List.take_of_length_le hfront,
      List.take_append_of_le_length (by omega), List.countP_append]
    have hsub := (List.take_sublist (k - before.length) part).countP_le (p := sep)
    omega

/-- The part with a number of separators in front of it begins in one place. -/
theorem IsPart.before_unique {before part after before' part' after' : List α}
    (heq : before ++ part ++ after = before' ++ part' ++ after') (h : IsPart sep before part after)
    (h' : IsPart sep before' part' after') (hcount : before.countP sep = before'.countP sep) :
    before = before' := by
  have hle : ∀ {front mid back front' mid' back' : List α},
      front ++ mid ++ back = front' ++ mid' ++ back' → IsPart sep front mid back →
      front.countP sep = front'.countP sep → front.length ≤ front'.length := by
    intro front mid back front' mid' back' heq hmid hcount
    have htake : (front ++ mid ++ back).take front'.length = front' := by
      rw [heq, List.append_assoc, List.take_left]
    refine ((hmid.countP_take_iff ?_).mp (by rw [htake, hcount])).1
    rw [heq, List.length_append, List.length_append]
    omega
  have hlen := Nat.le_antisymm (hle heq h hcount) (hle heq.symm h' hcount.symm)
  rw [List.append_assoc, List.append_assoc] at heq
  exact (List.append_inj heq hlen).1

/-- The parts of a list that is cut anywhere consist of its elements. -/
theorem mem_of_mem_splitOnP {s part : List α} {a : α} (h : part ∈ s.splitOnP sep)
    (ha : a ∈ part) : a ∈ s := by
  obtain ⟨before, after, rfl, -⟩ := mem_splitOnP_iff.mp h
  exact List.mem_append_left _ (List.mem_append_right _ ha)

end Cutting

/-! ## Words -/

/-- A word of a text: a maximal run, not empty, of characters that are no separators. -/
def IsWord (sep : Char → Bool) (s word : List Char) : Prop :=
  word ≠ [] ∧ ∃ before after, s = before ++ word ++ after ∧ IsPart sep before word after

/-- The words of a text are its parts that are not empty. -/
theorem mem_filter_splitOnP_iff {sep : Char → Bool} {s word : List Char} :
    word ∈ (s.splitOnP sep).filter (!·.isEmpty) ↔ IsWord sep s word := by
  rw [List.mem_filter, mem_splitOnP_iff, IsWord, and_comm]
  simp

/-- The words of a text are words of a longer text that goes on with separators. -/
theorem IsWord.append {sep : Char → Bool} {front s back word : List Char} (h : IsWord sep s word)
    (hfront : ∀ a, front.getLast? = some a → sep a = true)
    (hback : ∀ a, back.head? = some a → sep a = true) : IsWord sep (front ++ s ++ back) word := by
  obtain ⟨hne, before, after, rfl, hpart⟩ := h
  exact ⟨hne, front ++ before, after ++ back, by simp,
    (hpart.append_left fun _ => hfront).append_right hback⟩

section OtherParts

variable {sep sep' : Char → Bool} {front part back before rest word : List Char}

/-- A word of a part of a text is a word of a front that the part ends in. -/
theorem IsWord.of_part_front (hsep : ∀ a, sep' a = true → sep a = true)
    (hpart : IsPart sep' front part back) (heq : front ++ part ++ back = before ++ rest)
    (hle : (front ++ part).length ≤ before.length) (h : IsWord sep part word) :
    IsWord sep before word := by
  obtain ⟨gap, rfl⟩ : front ++ part <+: before :=
    List.prefix_of_prefix_length_le ⟨back, heq⟩ (List.prefix_append before rest) hle
  rw [List.append_assoc (front ++ part)] at heq
  refine h.append (fun a ha => hsep a (hpart.left a ha)) fun a ha => hsep a (hpart.right a ?_)
  rw [List.append_cancel_left heq, List.head?_append, ha]
  rfl

/-- A word of a part of a text is a word of a rest that the part begins in. -/
theorem IsWord.of_part_rest (hsep : ∀ a, sep' a = true → sep a = true)
    (hpart : IsPart sep' front part back) (heq : front ++ part ++ back = before ++ rest)
    (hle : before.length ≤ front.length) (h : IsWord sep part word) : IsWord sep rest word := by
  rw [List.append_assoc] at heq
  obtain ⟨gap, rfl⟩ : before <+: front :=
    List.prefix_of_prefix_length_le ⟨rest, heq.symm⟩ (List.prefix_append front _) hle
  rw [List.append_assoc, ← List.append_assoc gap] at heq
  rw [← List.append_cancel_left heq]
  refine h.append (fun a ha => hsep a (hpart.left a ?_)) fun a ha => hsep a (hpart.right a ha)
  rw [List.getLast?_append, ha]
  rfl

end OtherParts

/-! ## One separator -/

/-- No part of a text cut at a separator holds the separator. -/
theorem not_mem_of_mem_splitOn {sep : Char} {s part : List Char}
    (h : part ∈ s.splitOn sep) : sep ∉ part := by
  rw [List.splitOn_eq_splitOnP] at h
  obtain ⟨before, after, -, hpart⟩ := mem_splitOnP_iff.mp h
  exact fun hmem => absurd (hpart.free sep hmem) (by simp)

/-- A text is cut into one part only if it does not hold the separator. -/
theorem length_splitOn_eq_one_iff {sep : Char} {s : List Char} :
    (s.splitOn sep).length = 1 ↔ sep ∉ s := by
  constructor
  · rintro hlength hmem
    obtain ⟨front, rest, rfl, -⟩ := List.eq_append_cons_of_mem hmem
    rw [List.splitOn_append_cons_self, List.length_append] at hlength
    have hfront := List.length_pos_of_ne_nil (List.splitOn_ne_nil sep front)
    have hrest := List.length_pos_of_ne_nil (List.splitOn_ne_nil sep rest)
    omega
  · intro hnot
    rw [List.splitOn_eq_singleton hnot, List.length_singleton]

/-- A joined text consists of the characters of the separator and of the texts. -/
theorem mem_of_mem_intercalate {sep : List Char} {parts : List (List Char)} {c : Char}
    (h : c ∈ sep.intercalate parts) : c ∈ sep ∨ ∃ part ∈ parts, c ∈ part := by
  induction parts with
  | nil => simp at h
  | cons first more ih =>
      cases more with
      | nil => exact Or.inr ⟨first, by simp, by simpa using h⟩
      | cons next more =>
          rw [List.intercalate_cons_cons, List.mem_append, List.mem_append] at h
          rcases h with (h | h) | h
          · exact Or.inr ⟨first, by simp, h⟩
          · exact Or.inl h
          · rcases ih h with h | ⟨part, hpart, h⟩
            · exact Or.inl h
            · exact Or.inr ⟨part, List.mem_cons_of_mem first hpart, h⟩

/-- A run of characters without the separator occurs in a joined text exactly if it occurs
in one of the texts that were joined. -/
theorem infix_intercalate_iff {sep : Char} {run : List Char} (hne : run ≠ []) (hsep : sep ∉ run)
    {parts : List (List Char)} :
    run <:+: [sep].intercalate parts ↔ ∃ part ∈ parts, run <:+: part := by
  have hfirst : ∀ {l rest : List Char}, l ⊆ run → l <+: sep :: rest → l = [] := by
    intro l rest hsub hl
    rcases List.prefix_cons_iff.mp hl with rfl | ⟨l, rfl, -⟩
    · rfl
    · exact absurd (hsub List.mem_cons_self) hsep
  have hcut : ∀ first rest : List Char,
      run <:+: first ++ sep :: rest ↔ run <:+: first ∨ run <:+: rest := by
    intro first rest
    rw [List.infix_append_iff, List.infix_cons_iff]
    constructor
    · rintro (h | (h | h) | ⟨l, l', rfl, hl, hl'⟩)
      · exact Or.inl h
      · exact absurd (hfirst (List.Subset.refl _) h) hne
      · exact Or.inr h
      · rw [hfirst (List.subset_append_right l l') hl', List.append_nil]
        exact Or.inl hl.isInfix
    · rintro (h | h)
      · exact Or.inl h
      · exact Or.inr (Or.inl (Or.inr h))
  induction parts with
  | nil => simpa using hne
  | cons first more ih =>
      cases more with
      | nil => simp
      | cons next more =>
          rw [List.intercalate_cons_cons, List.append_assoc, List.singleton_append, hcut]
          simp [ih]

/-- Around the only separator of a text stand an end of the part in front of it and a
beginning of the part behind it. -/
theorem infix_append_cons_iff {sep : Char} {before after s t : List Char} (hs : sep ∉ s)
    (ht : sep ∉ t) : before ++ sep :: after <:+: s ++ sep :: t ↔ before <:+ s ∧ after <+: t := by
  constructor
  · rintro ⟨front, back, h⟩
    have hparts : s ++ sep :: t = (front ++ before) ++ sep :: (after ++ back) := by
      simpa using h.symm
    obtain ⟨rfl, -, rfl⟩ := (List.append_cons_inj_of_notMem hs ht).mp hparts
    exact ⟨⟨front, rfl⟩, ⟨back, rfl⟩⟩
  · rintro ⟨⟨front, rfl⟩, ⟨back, rfl⟩⟩
    exact ⟨front, back, by simp⟩

/-- The last part of a text stands behind its last separator. -/
theorem getLastD_splitOn_append_cons {sep : Char} (s t : List Char) :
    ((s ++ sep :: t).splitOn sep).getLastD [] = (t.splitOn sep).getLastD [] := by
  obtain ⟨part, parts, hparts⟩ := List.exists_cons_of_ne_nil (List.splitOn_ne_nil sep t)
  rw [List.splitOn_append_cons_self, hparts]
  simp [List.getLast?_cons]

end Text
end ShaderAssets
