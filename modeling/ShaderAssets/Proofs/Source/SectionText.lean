import ShaderAssets.Proofs.Source.RawSection

/-!
# Raw sections that were read

Reading a raw section one character at a time keeps the text so far, the count of its
open braces and whether a comment is running.  These agree with the text at every
moment, so the text of a section that was closed is enclosed by its braces.

Main results:

- Structure {lit}`IsCollected`: what is remembered agrees with the text so far.
- Theorems {lit}`IsCollected.comment`, {lit}`IsCollected.mark` and
  {lit}`IsCollected.code`: one more character keeps the agreement.
- Theorem {lit}`IsCollected.isEnclosed`: a section that may end is enclosed.
-/

namespace ShaderAssets
namespace Source

open Text

/-! ## Braces -/

/-- The braces that a text opens are those it closes and those it leaves open. -/
theorem count_of_bracesAfter? {s : List Char} {d e : Nat} (h : bracesAfter? d s = some e) :
    d + s.count '{' = e + s.count '}' := by
  induction s generalizing d with
  | nil =>
      obtain rfl : d = e := by simpa using h
      rfl
  | cons c s ih =>
      rw [bracesAfter?_cons, Option.bind_eq_some_iff] at h
      obtain ⟨d', hstep, hmore⟩ := h
      have hrest := ih hmore
      rcases braceStep?_eq_some hstep with ⟨rfl, rfl⟩ | ⟨rfl, rfl⟩ | ⟨hopen, hclose, rfl⟩
      · rw [List.count_cons_self, List.count_cons_of_ne (by decide)]
        omega
      · rw [List.count_cons_self, List.count_cons_of_ne (by decide)]
        omega
      · rw [List.count_cons_of_ne hopen, List.count_cons_of_ne hclose]
        exact hrest

/-- A text whose code has all its braces closed is enclosed. -/
theorem IsEnclosed.of_bracesAfter? {text : List Char}
    (h : bracesAfter? 0 (codeOf text) = some 0)
    (hlast : hasComment ((text.splitOn '\n').getLastD []) = false) : IsEnclosed text where
  opened_first n _ := by
    -- every beginning of the code has a count of open braces after it
    rw [← List.take_append_drop n (codeOf text), bracesAfter?_append,
      Option.bind_eq_some_iff] at h
    obtain ⟨d, hfront, -⟩ := h
    have hcount := count_of_bracesAfter? hfront
    omega
  all_closed := by
    have hcount := count_of_bracesAfter? h
    omega
  comment_ended := hlast

/-! ## The last line -/

/-- What stands behind the last line break of a text. -/
def lastLine (text : List Char) : List Char :=
  (text.splitOn '\n').getLastD []

@[simp]
theorem lastLine_nil : lastLine [] = [] :=
  rfl

/-- A text without line breaks is its last line. -/
theorem lastLine_of_not_mem {text : List Char} (h : '\n' ∉ text) : lastLine text = text := by
  rw [lastLine, List.splitOn_eq_singleton h]
  rfl

/-- The last line stands behind the last line break, if there is any. -/
theorem eq_append_lastLine (text : List Char) :
    '\n' ∉ lastLine text ∧
      (text = lastLine text ∨ ∃ front, text = front ++ '\n' :: lastLine text) := by
  by_cases h : '\n' ∈ text
  · obtain ⟨line, front, hreverse, hline⟩ :=
      List.eq_append_cons_of_mem (List.mem_reverse.mpr h)
    have htext : text = front.reverse ++ '\n' :: line.reverse := by
      rw [← List.reverse_reverse text, hreverse]
      simp
    have hline' : '\n' ∉ line.reverse := by simpa using hline
    have hlast : lastLine text = line.reverse := by
      rw [htext, lastLine, getLastD_splitOn_append_cons]
      exact lastLine_of_not_mem hline'
    rw [hlast]
    exact ⟨hline', Or.inr ⟨_, htext⟩⟩
  · rw [lastLine_of_not_mem h]
    exact ⟨h, Or.inl rfl⟩

/-- A line break begins a new last line. -/
theorem lastLine_concat_newline (text : List Char) : lastLine (text ++ ['\n']) = [] :=
  getLastD_splitOn_append_cons text []

/-- Other characters join the last line. -/
theorem lastLine_concat (text : List Char) {c : Char} (h : c ≠ '\n') :
    lastLine (text ++ [c]) = lastLine text ++ [c] := by
  obtain ⟨hline, htext | ⟨front, htext⟩⟩ := eq_append_lastLine text
  all_goals
    generalize lastLine text = line at hline htext ⊢
    have hmore : '\n' ∉ line ++ [c] := by simp [hline, Ne.symm h]
    subst htext
  · exact lastLine_of_not_mem hmore
  · rw [List.append_assoc, List.cons_append, lastLine, getLastD_splitOn_append_cons]
    exact lastLine_of_not_mem hmore

/-- A text and its last line end in the same character, line breaks apart. -/
theorem getLast?_lastLine (text : List Char) {c : Char} (hc : c ≠ '\n') :
    (lastLine text).getLast? = some c ↔ text.getLast? = some c := by
  obtain ⟨-, htext | ⟨front, htext⟩⟩ := eq_append_lastLine text
  · rw [← htext]
  · generalize lastLine text = line at htext ⊢
    subst htext
    cases line with
    | nil => simp [Ne.symm hc]
    | cons d line => simp [List.getLast?_append, List.getLast?_cons]

/-! ## Code -/

/-- A line break is no code. -/
theorem codeOf_concat_newline (text : List Char) : codeOf (text ++ ['\n']) = codeOf text := by
  rw [codeOf, List.splitOn_append_cons_self]
  simp [codeOf, beforeMark]

/-- The code of a text ends in the code of its last line, also after one more
character of that line. -/
theorem codeOf_concat (text : List Char) :
    ∃ code, codeOf text = code ++ beforeMark ['/', '/'] (lastLine text) ∧
      ∀ c ≠ '\n', codeOf (text ++ [c]) = code ++ beforeMark ['/', '/'] (lastLine text ++ [c]) := by
  obtain ⟨hline, htext | ⟨front, htext⟩⟩ := eq_append_lastLine text
  all_goals
    generalize lastLine text = line at hline htext ⊢
    have hmore : ∀ c ≠ '\n', '\n' ∉ line ++ [c] := by
      intro c hc
      simp [hline, Ne.symm hc]
    subst htext
  · refine ⟨[], ?_, fun c hc => ?_⟩
    · rw [codeOf, List.splitOn_eq_singleton hline]
      simp
    · rw [codeOf, List.splitOn_eq_singleton (hmore c hc)]
      simp
  · refine ⟨(front.splitOn '\n').flatMap (beforeMark ['/', '/']), ?_, fun c hc => ?_⟩
    · rw [codeOf, List.splitOn_append_cons_self, List.splitOn_eq_singleton hline]
      simp
    · rw [List.append_assoc, List.cons_append, codeOf, List.splitOn_append_cons_self,
        List.splitOn_eq_singleton (hmore c hc)]
      simp

/-- A running comment adds no code. -/
theorem codeOf_concat_comment {text : List Char} (h : hasComment (lastLine text) = true)
    (c : Char) : codeOf (text ++ [c]) = codeOf text := by
  by_cases hc : c = '\n'
  · rw [hc, codeOf_concat_newline]
  · obtain ⟨code, htext, hmore⟩ := codeOf_concat text
    obtain ⟨rest, hline, hno⟩ := beforeMark_spec h
    rw [hmore c hc, htext]
    generalize beforeMark ['/', '/'] (lastLine text) = front at hline hno ⊢
    rw [hline, List.append_assoc, List.cons_append, List.cons_append,
      beforeMark_append_mark hno]

/-- The slash that completes a comment mark takes the slash before it out of the code. -/
theorem codeOf_concat_mark {text : List Char} (h : hasComment (lastLine text) = false)
    (hslash : text.getLast? = some '/') : codeOf (text ++ ['/']) ++ ['/'] = codeOf text := by
  obtain ⟨code, htext, hmore⟩ := codeOf_concat text
  obtain ⟨front, hfront⟩ := List.getLast?_eq_some_iff.mp ((getLast?_lastLine text (by decide)).mpr hslash)
  rw [hmore '/' (by decide), htext, beforeMark_of_not_hasComment h]
  rw [hfront] at h ⊢
  rw [List.append_assoc, List.append_assoc, List.singleton_append, beforeMark_append_mark h]

/-- A character that completes no comment mark is code. -/
theorem codeOf_concat_code {text : List Char} (h : hasComment (lastLine text) = false) {c : Char}
    (hc : c ≠ '\n') (hmark : ¬(c = '/' ∧ text.getLast? = some '/')) :
    codeOf (text ++ [c]) = codeOf text ++ [c] ∧ hasComment (lastLine text ++ [c]) = false := by
  have hno : hasComment (lastLine text ++ [c]) = false := by
    rw [hasComment_concat, h, Bool.false_or, Bool.and_eq_false_iff, beq_eq_false_iff_ne,
      beq_eq_false_iff_ne, Ne, getLast?_lastLine text (by decide : '/' ≠ '\n')]
    by_cases hslash : c = '/'
    · exact Or.inl fun hlast => hmark ⟨hslash, hlast⟩
    · exact Or.inr hslash
  obtain ⟨code, htext, hmore⟩ := codeOf_concat text
  rw [hmore c hc, htext, beforeMark_of_not_hasComment h, beforeMark_of_not_hasComment hno,
    List.append_assoc]
  exact ⟨rfl, hno⟩

/-! ## The text so far -/

/-- What is remembered about the text of a section that is being read: the number of
braces open around its end, whether a comment is running and, as far as slashes go, the
last character. -/
structure IsCollected (text : List Char) (depth : Nat) (comment : Bool)
    (last : Option Char) : Prop where
  braces : ∃ d, bracesAfter? 0 (codeOf text) = some d ∧ depth = d + 1
  commented : hasComment (lastLine text) = comment
  slash_last : last = some '/' ↔ text.getLast? = some '/'

namespace IsCollected

variable {text : List Char} {depth : Nat} {last : Option Char}

/-- At its opening brace a section has no text. -/
theorem start : IsCollected [] 1 false (some '{') where
  braces := ⟨0, rfl, rfl⟩
  commented := rfl
  slash_last := by simp

/-- A comment runs to the end of its line. -/
theorem comment (h : IsCollected text depth true last) (c : Char) :
    IsCollected (text ++ [c]) depth (c != '\n') (some c) where
  braces := by
    rw [codeOf_concat_comment h.commented]
    exact h.braces
  commented := by
    by_cases hc : c = '\n'
    · rw [hc, lastLine_concat_newline]
      rfl
    · rw [lastLine_concat text hc, hasComment_concat, h.commented]
      simp [hc]
  slash_last := by simp

/-- Two slashes start a comment. -/
theorem mark (h : IsCollected text depth false (some '/')) :
    IsCollected (text ++ ['/']) depth true (some '/') where
  braces := by
    obtain ⟨d, hbraces, hdepth⟩ := h.braces
    rw [← codeOf_concat_mark h.commented (h.slash_last.mp rfl), bracesAfter?_append,
      Option.bind_eq_some_iff] at hbraces
    obtain ⟨d', hfront, hslash⟩ := hbraces
    obtain rfl : d' = d := by simpa [braceStep?] using hslash
    exact ⟨d', hfront, hdepth⟩
  commented := by
    have hlast := (getLast?_lastLine text (by decide)).mpr (h.slash_last.mp rfl)
    rw [lastLine_concat text (by decide), hasComment_concat, hlast]
    simp
  slash_last := by simp

/-- A character that starts no comment and ends no section moves the count of open
braces. -/
theorem code {d e : Nat} (h : IsCollected text (d + 1) false last) {c : Char}
    (hstep : braceStep? d c = some e) (hmark : ¬(c = '/' ∧ last = some '/')) :
    IsCollected (text ++ [c]) (e + 1) false (some c) := by
  obtain ⟨d', hbraces, hdepth⟩ := h.braces
  obtain rfl : d = d' := by omega
  by_cases hc : c = '\n'
  · subst hc
    obtain rfl : d = e := by simpa [braceStep?] using hstep
    refine ⟨⟨d, by rw [codeOf_concat_newline, hbraces], rfl⟩, ?_, by simp⟩
    rw [lastLine_concat_newline]
    rfl
  · rw [h.slash_last] at hmark
    obtain ⟨hcode, hcomment⟩ := codeOf_concat_code h.commented hc hmark
    refine ⟨⟨e, ?_, rfl⟩, by rw [lastLine_concat text hc, hcomment], by simp⟩
    rw [hcode, bracesAfter?_append, hbraces, Option.bind_some, bracesAfter?_cons, hstep]
    rfl

/-- A section whose last open brace may be closed is enclosed. -/
theorem isEnclosed (h : IsCollected text depth false last) (hdepth : depth ≤ 1) :
    IsEnclosed text := by
  obtain ⟨d, hbraces, rfl⟩ := h.braces
  obtain rfl : d = 0 := by omega
  exact IsEnclosed.of_bracesAfter? hbraces h.commented

end IsCollected

end Source
end ShaderAssets
