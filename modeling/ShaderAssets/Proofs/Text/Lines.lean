import ShaderAssets.Proofs.Text.Parts
import ShaderAssets.Text.Lines

/-!
# Lines that were written one by one

A text made of lines with a line feed after each of them is cut into these very
lines again, provided that no line holds a line feed or ends in a carriage
return.

Main results:

- Theorem {lit}`lines_append_newline`: the first line of a text is what stands
  before its first line break.
- Theorem {lit}`lines_unlines_append`: written lines are read back, whatever
  follows them.
- Theorem {lit}`exists_lines_eq`: which lines are the lines of a text.
- Theorem {lit}`lines_append_break`: a text is cut at each of its line feeds.
-/

namespace ShaderAssets
namespace Text

/-- A line that a line feed ends without losing anything: it holds no line feed
and does not end in a carriage return. -/
structure IsLine (line : List Char) : Prop where
  no_newline : '\n' ∉ line
  no_return : line.getLast? ≠ some '\r'

/-- Lines without carriage returns lose nothing to their line breaks. -/
theorem IsLine.of_not_mem {line : List Char} (hn : '\n' ∉ line) (hr : '\r' ∉ line) :
    IsLine line :=
  ⟨hn, fun h => hr (List.mem_of_getLast? h)⟩

/-- Dropping the first character of a line leaves a line. -/
theorem IsLine.tail {c : Char} {line : List Char} (h : IsLine (c :: line)) : IsLine line := by
  refine ⟨fun hmem => h.no_newline (List.mem_cons_of_mem c hmem), ?_⟩
  cases line with
  | nil => simp
  | cons d line => simpa [List.getLast?_cons_cons] using h.no_return

/-- A blank joins a text without line feeds and a line. -/
theorem IsLine.append_blank {s t : List Char} (ht : IsLine t) (hs : '\n' ∉ s) :
    IsLine (s ++ ' ' :: t) where
  no_newline := by
    simp [hs, ht.no_newline]
  no_return := by
    cases t with
    | nil => simp
    | cons c t => simpa [List.getLast?_append, List.getLast?_cons_cons] using ht.no_return

/-- An indented line is a line. -/
theorem IsLine.indent {line : List Char} (h : IsLine line) (k : Nat) :
    IsLine (List.replicate k ' ' ++ line) := by
  induction k with
  | zero => exact h
  | succ k ih => exact ih.append_blank (by simp : '\n' ∉ [])

/-- A text without characters has no lines. -/
@[simp]
theorem lines_nil : lines [] = [] :=
  rfl

/-- A line feed ends an empty line. -/
@[simp]
theorem lines_newline (rest : List Char) : lines ('\n' :: rest) = [] :: lines rest :=
  rfl

/-- A carriage return and a line feed end an empty line. -/
@[simp]
theorem lines_return_newline (rest : List Char) :
    lines ('\r' :: '\n' :: rest) = [] :: lines rest :=
  rfl

/-- A character that starts no line break begins the first line. -/
theorem lines_cons {c : Char} {rest : List Char} (hn : c ≠ '\n')
    (hr : c = '\r' → rest.head? ≠ some '\n') :
    lines (c :: rest) =
      match lines rest with
      | [] => [[c]]
      | line :: more => (c :: line) :: more := by
  have hbreak : ∀ tail, c = '\r' → rest = '\n' :: tail → False := by
    intro tail hc hrest
    exact hr hc (by simp [hrest])
  exact lines.eq_4 c rest hn hbreak

/-- The characters of a line are characters of the text, but none is a line feed. -/
theorem mem_and_ne_of_mem_lines {s line : List Char} (h : line ∈ lines s) {c : Char}
    (hc : c ∈ line) : c ∈ s ∧ c ≠ '\n' := by
  induction s using lines.induct generalizing line with
  | case1 => cases h
  | case2 rest ih =>
      rcases List.mem_cons.mp (lines_newline rest ▸ h) with rfl | h
      · cases hc
      · exact (ih h hc).imp_left (List.mem_cons_of_mem _)
  | case3 rest ih =>
      rcases List.mem_cons.mp (lines_return_newline rest ▸ h) with rfl | h
      · cases hc
      · exact (ih h hc).imp_left fun hmem => List.mem_cons_of_mem _ (List.mem_cons_of_mem _ hmem)
  | case4 d rest hn hr hrest _ =>
      rw [lines.eq_4 d rest hn hr, hrest] at h
      obtain rfl := List.mem_singleton.mp h
      obtain rfl := List.mem_singleton.mp hc
      exact ⟨List.mem_cons_self, hn⟩
  | case5 d rest hn hr first more hrest ih =>
      rw [lines.eq_4 d rest hn hr, hrest] at h
      rw [hrest] at ih
      rcases List.mem_cons.mp h with rfl | h
      · rcases List.mem_cons.mp hc with rfl | hc
        · exact ⟨List.mem_cons_self, hn⟩
        · exact (ih List.mem_cons_self hc).imp_left (List.mem_cons_of_mem _)
      · exact (ih (List.mem_cons_of_mem first h) hc).imp_left (List.mem_cons_of_mem _)

/-- No line of a text holds a line feed. -/
theorem not_mem_of_mem_lines {s line : List Char} (h : line ∈ lines s) : '\n' ∉ line :=
  fun hmem => (mem_and_ne_of_mem_lines h hmem).2 rfl

/-- The characters of a line are characters of the text. -/
theorem mem_of_mem_lines {s line : List Char} (h : line ∈ lines s) {c : Char} (hc : c ∈ line) :
    c ∈ s :=
  (mem_and_ne_of_mem_lines h hc).1

/-- The first line of a text is what stands before its first line break. -/
theorem lines_append_newline {line : List Char} (h : IsLine line) (rest : List Char) :
    lines (line ++ '\n' :: rest) = line :: lines rest := by
  induction line with
  | nil => rfl
  | cons c line ih =>
      have hc : c ≠ '\n' := fun hc => h.no_newline (by simp [hc])
      rw [List.cons_append, lines_cons hc, ih h.tail]
      rintro rfl hhead
      cases line with
      | nil => exact h.no_return (by simp)
      | cons d line =>
          have hd : d = '\n' := by simpa using hhead
          exact h.no_newline (by simp [hd])

/-- Written lines are read back in front of what follows them. -/
theorem lines_unlines_append {ls : List (List Char)} (h : ∀ line ∈ ls, IsLine line)
    (rest : List Char) : lines (unlines ls ++ rest) = ls ++ lines rest := by
  induction ls with
  | nil => simp [unlines]
  | cons line ls ih =>
      have hline : IsLine line := h line (by simp)
      have hrest : ∀ l ∈ ls, IsLine l := fun l hl => h l (List.mem_cons_of_mem line hl)
      have hcut : unlines (line :: ls) ++ rest = line ++ '\n' :: (unlines ls ++ rest) := by
        simp [unlines]
      rw [hcut, lines_append_newline hline, ih hrest, List.cons_append]

/-- Written lines are read back. -/
theorem lines_unlines {ls : List (List Char)} (h : ∀ line ∈ ls, IsLine line) :
    lines (unlines ls) = ls := by
  simpa using lines_unlines_append h []

/-- A carriage return and a line feed end a line without losing anything, even if it
ends in a carriage return itself. -/
theorem lines_append_return_newline {line : List Char} (h : '\n' ∉ line) (rest : List Char) :
    lines (line ++ '\r' :: '\n' :: rest) = line :: lines rest := by
  induction line with
  | nil => exact lines_return_newline rest
  | cons c line ih =>
      obtain ⟨hc, hline⟩ : '\n' ≠ c ∧ '\n' ∉ line := by simpa using h
      rw [List.cons_append, lines_cons (Ne.symm hc), ih hline]
      intro _ hhead
      cases line with
      | nil => simp at hhead
      | cons d line =>
          have hd : d = '\n' := by simpa using hhead
          exact hline (by simp [hd])

/-- A line without the carriage return that belongs to its line break. -/
def dropReturn (line : List Char) : List Char :=
  if line.getLast? = some '\r' then line.dropLast else line

/-- What stands before the first line feed is the first line, but for a carriage return. -/
theorem lines_append_cons {line : List Char} (h : '\n' ∉ line) (rest : List Char) :
    lines (line ++ '\n' :: rest) = dropReturn line :: lines rest := by
  unfold dropReturn
  split
  · rename_i hreturn
    obtain ⟨front, rfl⟩ := List.getLast?_eq_some_iff.mp hreturn
    have hfront : '\n' ∉ front := fun hmem => h (List.mem_append_left _ hmem)
    rw [List.dropLast_concat, List.append_assoc]
    exact lines_append_return_newline hfront rest
  · rename_i hreturn
    exact lines_append_newline ⟨h, hreturn⟩ rest

/-- A text is cut at each of its line feeds. -/
theorem lines_append_break (front rest : List Char) :
    lines (front ++ '\n' :: rest) = lines (front ++ ['\n']) ++ lines rest := by
  induction hn : front.length using Nat.strongRecOn generalizing front with
  | ind n ih =>
      by_cases hbreak : '\n' ∈ front
      · obtain ⟨line, more, rfl, hline⟩ := List.eq_append_cons_of_mem hbreak
        have hless : more.length < n := by
          rw [← hn, List.length_append, List.length_cons]
          omega
        rw [List.append_assoc, List.append_assoc, List.cons_append, List.cons_append,
          lines_append_cons hline, lines_append_cons hline, ih _ hless more rfl,
          List.cons_append]
      · rw [lines_append_cons hbreak, lines_append_cons hbreak]
        simp

/-- A text without line feeds is its only line, unless it is empty. -/
theorem lines_of_not_mem {line : List Char} (h : '\n' ∉ line) :
    lines line = if line = [] then [] else [line] := by
  induction line with
  | nil => rfl
  | cons c line ih =>
      obtain ⟨hc, hline⟩ : '\n' ≠ c ∧ '\n' ∉ line := by simpa using h
      have hhead : c = '\r' → line.head? ≠ some '\n' :=
        fun _ hhead => hline (List.mem_of_head? hhead)
      rw [lines_cons (Ne.symm hc) hhead, ih hline]
      cases line <;> simp

/-- What the numbered lines of a text give is what the parts between its line feeds give, if a
carriage return at the end of a line does not matter and an empty line gives nothing. -/
theorem flatMap_zipIdx_lines {β : Type} {f : List Char × Nat → List β}
    (hreturn : ∀ line n, f (dropReturn line, n) = f (line, n)) (hempty : ∀ n, f ([], n) = [])
    (s : List Char) (n : Nat) :
    ((lines s).zipIdx n).flatMap f = ((s.splitOn '\n').zipIdx n).flatMap f := by
  rw [List.splitOn_eq_splitOnP]
  induction s using induction_on_parts (· == '\n') generalizing n with
  | free s hfree =>
      rw [List.splitOnP_eq_singleton hfree,
        lines_of_not_mem fun hmem => absurd (hfree _ hmem) (by decide)]
      split_ifs with hnil
      · simp [hnil, hempty]
      · rfl
  | cut line c rest hline hc ih =>
      obtain rfl : c = '\n' := by simpa using hc
      rw [lines_append_cons fun hmem => absurd (hline _ hmem) (by decide),
        List.splitOnP_append_cons_of_forall_mem hline _ hc, List.zipIdx_cons, List.zipIdx_cons,
        List.flatMap_cons, List.flatMap_cons, hreturn, ih]

/-- Lines without line feeds are the lines of some text. -/
theorem exists_lines_eq {ls : List (List Char)} (h : ∀ line ∈ ls, '\n' ∉ line) :
    ∃ s, lines s = ls := by
  induction ls with
  | nil => exact ⟨[], rfl⟩
  | cons line ls ih =>
      obtain ⟨s, hs⟩ := ih fun l hl => h l (List.mem_cons_of_mem line hl)
      exact ⟨line ++ '\r' :: '\n' :: s, by rw [lines_append_return_newline (h line (by simp)), hs]⟩

end Text
end ShaderAssets
